import DocumentLanguage.Proofs.Parse.Spacing
import DocumentLanguage.Proofs.Parse.Tails

/-!
Finding what is there. Where tokens say one for one what the terminals of a node say, and nothing
that could go on with the node comes behind them, the node is found, and so are the parts of a
sequence one after another.
-/
namespace DocumentLanguage

/-- Tokens up to a place are what terminals say, one for one. -/
abbrev Exactly : List Terminal → List Token → List Token → Prop :=
  Along fun _ => false

namespace Exactly

variable {first second terminals : List Terminal} {terminal : Terminal} {start last : List Token}

theorem eq_of_nil (exactly : Exactly [] start last) : start = last := by
  cases exactly with
  | stop => rfl
  | pass hPass => cases hPass

/-- The first terminal is read from the first token, and the others from what follows it. No
terminal is read from a space or an error. -/
theorem exists_cons (exactly : Exactly (terminal :: terminals) start last) :
    ∃ token rest, start = token :: rest ∧ terminal.reads token ∧ token.kind ≠ .space ∧
      token.kind ≠ .error ∧ Exactly terminals rest last := by
  cases exactly with
  | pass hPass => cases hPass
  | read hReads hSpace hError along => exact ⟨_, _, rfl, hReads, hSpace, hError, along⟩

theorem exists_single (exactly : Exactly [terminal] start last) :
    ∃ token, start = token :: last ∧ terminal.reads token ∧ token.kind ≠ .space ∧
      token.kind ≠ .error := by
  obtain ⟨token, rest, hRest, hReads, hSpace, hError, hBehind⟩ := exactly.exists_cons
  obtain rfl := hBehind.eq_of_nil
  exact ⟨token, hRest, hReads, hSpace, hError⟩

/-- What two runs of terminals are read from falls into two parts, one for each of them, and they
meet at one place. -/
theorem exists_append (exactly : Exactly (first ++ second) start last) :
    ∃ middle, Exactly first start middle ∧ Exactly second middle last := by
  induction first generalizing start with
  | nil => exact ⟨start, .stop start, exactly⟩
  | cons terminal first ih =>
    obtain ⟨token, rest, rfl, hReads, hSpace, hError, hRest⟩ := exactly.exists_cons
    obtain ⟨middle, hFirst, hSecond⟩ := ih hRest
    exact ⟨middle, .read hReads hSpace hError hFirst, hSecond⟩

end Exactly

/-- Terminals are read from a spot up to another one, with as many brackets open there. -/
structure Between (terminals : List Terminal) (spot next : Spot) : Prop where
  exactly : Exactly terminals spot.rest next.rest
  nesting : next.nesting = spot.nesting

theorem Between.eq_of_nil {spot next : Spot} (between : Between [] spot next) : next = spot := by
  obtain ⟨rest, nesting⟩ := spot
  obtain ⟨nextRest, nextNesting⟩ := next
  obtain ⟨hExactly, hNesting⟩ := between
  dsimp only at hExactly hNesting
  rw [hExactly.eq_of_nil, hNesting]

/-- What a node needs to be found where its terminals are: that nothing goes on with it. -/
def Node.Complete (node : Node) : Prop :=
  ∀ ⦃line : Line⦄ ⦃spot next : Spot⦄, Between node.tree.terminals spot next →
    (∀ tail ∈ node.rule.tails, tail.Absent line next) →
      ∃ commits, look node.rule line spot = .found node.tree commits next

/-- Whether nothing that could go on with a node is at its own head, so that such nodes may come one
after another. -/
def Node.Fresh (node : Node) : Prop :=
  ∀ ⦃line : Line⦄ ⦃spot : Spot⦄ ⦃rest : List Token⦄, Exactly node.tree.terminals spot.rest rest →
    ∀ tail ∈ node.rule.tails, tail.Absent line spot

section

variable {line : Line} {spot : Spot} {token : Token} {rest : List Token}

/-- A token is found that is seen and passes the test. -/
theorem Spot.expect_of_visible {overLines : Bool} {test : Token → Bool}
    (hVisible : spot.visible line overLines = token :: rest) (hError : token.kind ≠ .error)
    (hTest : test token = true) : spot.expect line overLines test =
      .found token false ⟨rest, Cursor.nestingAfter token spot.nesting⟩ := by
  rw [expect, hVisible]
  simp [hError, hTest]

/-- A token that fits is found where it is the next one. It may be neither a space nor an error, nor
a newline where lines are read over, since these are passed before the token is tested. -/
theorem Spot.expect_eq_found {overLines : Bool} {test : Token → Bool}
    (hRest : spot.rest = token :: rest) (hSpace : token.kind ≠ .space) (hError : token.kind ≠ .error)
    (hLine : overLines = true → token.kind ≠ .newline) (hTest : test token = true) :
    spot.expect line overLines test =
      .found token false ⟨rest, Cursor.nestingAfter token spot.nesting⟩ := by
  refine expect_of_visible ?_ hError hTest
  rw [visible, hRest]
  refine List.dropWhile_cons_of_neg ?_
  simp only [passes, Bool.or_eq_true, Bool.and_eq_true, decide_eq_true_eq, hSpace, false_or]
  exact fun hPasses => hLine hPasses.1.2 hPasses.1.1

/-- A delimiter that is asked for is found where it comes next, and it changes the depth by what it
opens or closes. -/
theorem Spot.expectOneOf_eq_found {texts : List String} (hRest : spot.rest = token :: rest)
    (hKind : token.kind = .delimiter) (hText : token.text ∈ texts) :
    spot.expectOneOf line texts =
      .found token false ⟨rest, Cursor.nestingAfter token spot.nesting⟩ :=
  expect_eq_found hRest (by simp [hKind]) (by simp [hKind]) (by simp [hKind]) (by simp [hKind, hText])

theorem nestingAfter_of_kind (hKind : token.kind ≠ .delimiter) (nesting : Nat) :
    Cursor.nestingAfter token nesting = nesting := by
  simp [Cursor.nestingAfter, hKind]

/-- A token of the kind that is asked for is found where it comes next. It is no delimiter, so that
the depth stays what it was. -/
theorem Spot.expectKind_eq_found {kind : Kind} (hRest : spot.rest = token :: rest)
    (hKind : token.kind = kind) (hSpace : kind ≠ .space) (hError : kind ≠ .error)
    (hDelimiter : kind ≠ .delimiter) :
    spot.expectKind line kind = .found token false ⟨rest, spot.nesting⟩ := by
  subst hKind
  have hFound := @expect_eq_found line spot token rest (token.kind != .newline && token.kind != .note)
    (·.kind = token.kind) hRest hSpace hError (by simp +contextual) (by simp)
  rwa [nestingAfter_of_kind hDelimiter] at hFound

end

/-- Whatever is looked for by the token at its head is not there if another token is. -/
theorem Tail.absent_of_solid {tail : Tail} {spot : Spot} {token : Token} {rest : List Token}
    (hSeen : tail.isSeen = true) (hRest : spot.rest = token :: rest)
    (hSolid : token.kind.isLayout = false) (hError : token.kind ≠ .error)
    (hLead : token.lead ∉ tail.leads) (line : Line) : tail.Absent line spot := by
  have clear := fun line => spot.clear_of_solid hRest hSolid hError hLead line
  cases tail with
  | word text => exact clear line
  | rule next =>
    simp only [isSeen, Bool.or_eq_true, decide_eq_true_eq] at hSeen
    rcases hSeen with hDirect | rfl
    · exact look_eq_absent hDirect (clear line)
    · -- Behind layout a statement line is looked for on a line of its own.
      have hBehind : spot.behindLayout = spot := by
        obtain ⟨tokens, nesting⟩ := spot
        dsimp only at hRest
        subst hRest
        simp [Spot.behindLayout, hSolid]
      have hSubset : ∀ rule ∈ [Rule.commentLine, .statement], rule.leads ⊆ Rule.annotatedStatement.leads := by
        decide
      have hComment : look .commentLine line spot = .absent :=
        look_eq_absent (by decide) ((clear line).mono (hSubset _ (by simp)))
      have hStatement : look .statement (some spot.nesting) spot.behindLayout = .absent := by
        rw [hBehind]
        exact look_eq_absent (by decide) ((clear _).mono (hSubset _ (by simp)))
      have hLine : look .statementLine line spot = .absent := by
        refine look_eq_absent_of_parts rfl fun bound => ?_
        rw [seekParts_cons, seekPart, hStatement, Reply.either_absent, Setting.giveUp_uncommitted]
        rfl
      exact look_eq_absent_of_rules rfl (by simp [hComment, hLine])

/-- Where no newline and no mere delimiter begins terminals, a token with one of their leads is
seen. -/
theorem Begins.exists_solid {terminal : Terminal} {terminals : List Terminal} {leads : List Lead}
    {mayBeEmpty : Bool} (begins : Begins (terminal :: terminals) leads mayBeEmpty)
    (hNewline : Lead.kind .newline ∉ leads) (hDelimiter : Lead.kind .delimiter ∉ leads)
    {start last : List Token} (exactly : Exactly (terminal :: terminals) start last) :
    ∃ token rest, start = token :: rest ∧ token.kind.isLayout = false ∧ token.kind ≠ .error ∧
      token.lead ∈ leads := by
  obtain ⟨token, rest, hStart, hReads, hSpace, hError, -⟩ := exactly.exists_cons
  have hMem := begins.head terminal rfl
  have hLead : token.lead = terminal.lead :=
    Terminal.lead_of_reads hReads fun hEq => hDelimiter (hEq ▸ hMem)
  refine ⟨token, rest, hStart, ?_, hError, hLead ▸ hMem⟩
  rw [← Bool.not_eq_true, Kind.isLayout_iff, not_or]
  refine ⟨hSpace, fun hKind => hNewline ?_⟩
  rwa [← hLead, Token.lead_of_kind hKind (by decide)] at hMem

/-- Where the terminals that follow begin none of some tails, those tails are not there. -/
theorem Tail.absent_of_bars {outer inner : List Tail} {leads : List Lead} {mayBeEmpty : Bool}
    (hEnds : bars outer inner leads mayBeEmpty = true) {terminals : List Terminal}
    (begins : Begins terminals leads mayBeEmpty) {line : Line} {spot next : Spot}
    (hExactly : Exactly terminals spot.rest next.rest)
    (hEmpty : mayBeEmpty = true → next.nesting = spot.nesting)
    (hOuter : ∀ tail ∈ outer, tail.Absent line next) : ∀ tail ∈ inner, tail.Absent line spot := by
  intro tail hTail
  have hHere := List.all_eq_true.mp hEnds tail hTail
  simp only [Bool.and_eq_true, List.all_cons, Bool.not_eq_true', List.contains_eq_mem,
    decide_eq_false_iff_not, List.all_eq_true, Bool.or_eq_true, decide_eq_true_eq] at hHere
  obtain ⟨⟨hSeen, hNewline, hDelimiter, hLeads⟩, hEnd⟩ := hHere
  cases terminals with
  | nil =>
    have hMay := begins.empty rfl
    rw [← Between.eq_of_nil ⟨hExactly, hEmpty hMay⟩]
    exact hOuter tail (hEnd.resolve_left (by simp [hMay]))
  | cons terminal terminals =>
    obtain ⟨token, rest, hRest, hSolid, hError, hLead⟩ :=
      begins.exists_solid hNewline hDelimiter hExactly
    exact Tail.absent_of_solid hSeen hRest hSolid hError (fun hMem => hLeads _ hMem hLead) line

/-- A node that begins none of its tails may come right behind another. -/
theorem Node.Begins.fresh {node : Node} (begins : node.Begins) (hSome : node.rule.mayBeEmpty = false)
    (hApart : bars [] node.rule.tails node.rule.leads false = true) : node.Fresh := by
  intro line spot rest hExactly
  rw [Node.Begins, hSome] at begins
  have hNext : Exactly node.tree.terminals spot.rest (⟨rest, 0⟩ : Spot).rest := hExactly
  exact Tail.absent_of_bars hApart begins hNext nofun nofun

end DocumentLanguage
