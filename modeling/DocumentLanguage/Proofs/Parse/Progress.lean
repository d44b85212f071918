import DocumentLanguage.Proofs.Parse.Larger
import DocumentLanguage.Proofs.Parse.Levels

/-!
Every rule comes to its end. Wherever a rule is asked for while documents are read, a budget is
enough that depends only on the tokens ahead, and a rule that is there has moved the reader on, past
tokens among which every bracket is closed that is opened there. So nothing is repeated more often
than there are tokens.
-/
namespace DocumentLanguage

open Cursor

/-! ### No budget runs out -/

/-- How much of a budget the tokens ahead of a call can use up. -/
def Call.needs (call : Call) : Nat :=
  nestingPerToken * (call.cursor.tokens.size - call.cursor.position) + call.rule.rank

/-- A reader that has run out of its budget wherever more is needed than a limit allows. -/
def RuleReader.within (read : RuleReader) (limit : Nat) : RuleReader :=
  fun rule owner => do
    if (⟨rule, owner, ← get⟩ : Call).needs < limit then read rule owner else throw .exhausted

/-- A seeker with a limit on what a call needs. A call that needs more fails as if there were no
budget left, and this is what a reader under a limit does. -/
def Seeker.within (seek : Seeker) (limit : Nat) : Seeker :=
  fun rule line spot =>
    if nestingPerToken * spot.rest.length + rule.rank < limit then seek rule line spot
    else .failed .exhausted spot

theorem Cursor.At.length_rest {cursor : Cursor} {line : Line} {spot : Spot}
    (stands : cursor.At line spot) : spot.rest.length = cursor.tokens.size - cursor.position := by
  rw [← stands.rest, List.length_drop, Array.length_toList]

namespace RuleReader

variable {read : RuleReader} {limit : Nat}

/-- A reader under a limit reads as before where a call needs less than the limit. It stops at any
other call as if its budget were gone. -/
theorem exec_within (rule : Rule) (owner : Option Attempt) (cursor : Cursor) :
    (read.within limit rule owner).exec cursor =
      if (⟨rule, owner, cursor⟩ : Call).needs < limit then (read rule owner).exec cursor
      else (.error .exhausted, cursor) := by
  simp only [within, Reading.exec_bind, Reading.exec_get]
  split <;> rfl

theorem within_extendsTo : (read.within limit).ExtendsTo read := by
  intro rule owner cursor hEnough
  rw [exec_within] at hEnough ⊢
  split at hEnough
  · rename_i hLess
    rw [if_pos hLess]
  · exact absurd rfl hEnough

/-- Where more is needed than the limit allows, failing makes no difference to it. -/
theorem within_extendsTo_failingAt {call : Call} (hMore : limit ≤ call.needs) (failure : Failure) :
    (read.within limit).ExtendsTo (read.failingAt call failure) := by
  intro rule owner cursor hEnough
  rw [exec_within] at hEnough ⊢
  split at hEnough
  · rename_i hLess
    have hOther : (⟨rule, owner, cursor⟩ : Call) ≠ call := by
      rintro rfl
      exact Nat.not_lt.mpr hMore hLess
    rw [if_pos hLess, exec_failingAt hOther]
  · exact absurd rfl hEnough

end RuleReader

/-- A reader under a limit still reads as it looks, if the limit is put on the looking as well. -/
theorem ReadsAs.within {tokens : Array Token} {read : RuleReader} {seek : Seeker}
    (reads : ReadsAs tokens read seek) (limit : Nat) :
    ReadsAs tokens (read.within limit) (seek.within limit) := by
  intro rule owner line spot cursor hRule hTokens stands steady live
  have hHere := reads rule owner line spot cursor hRule hTokens stands steady live
  have hNeeds : nestingPerToken * spot.rest.length + rule.rank =
      (⟨rule, owner, cursor⟩ : Call).needs := by
    rw [stands.length_rest]
    rfl
  rw [Reading.Ends, RuleReader.exec_within, Seeker.within, hNeeds]
  by_cases hLess : (⟨rule, owner, cursor⟩ : Call).needs < limit
  · rw [if_pos hLess, if_pos hLess]
    exact hHere
  · rw [if_neg hLess, if_neg hLess]
    exact ⟨rfl, stands, steady, rfl⟩

/-- A limit on what is needed leaves enough budget below it: every call that passes has what it
takes. -/
theorem sureWithin_within (bound : Nat) :
    SureWithin bound ((seekRule bound).within bound) ((seekRule bound).within bound) := by
  intro rule line spot hLess
  rw [Seeker.within, if_pos hLess]
  exact sureWithin_seekRule bound 0 rule line spot hLess

/-- A call ends without running out of budget if looking for its rule does. -/
theorem Answers.ne_exhausted {α : Type} {owner : Option Attempt} {before after : Cursor}
    {line : Line} {spot : Spot} {reply : Reply α} {outcome : Except Failure (Outcome α)}
    (answers : Answers owner before line spot reply outcome after)
    (hEnough : ∀ next, reply ≠ .failed .exhausted next) : outcome ≠ .error .exhausted := by
  rintro rfl
  cases reply with
  | found value commits next | absent => cases answers.1
  | failed failure next =>
    cases answers.1
    exact hEnough next rfl

/-- Opening a document does not run out of budget if looking for its parts does not. -/
theorem Opens.ne_exhausted {α : Type} {tokens : Array Token} {missed : Spot} {after : Cursor}
    {reply : Reply α} {outcome : Except Failure (Outcome α)}
    (opens : Opens tokens missed reply outcome after)
    (hEnough : ∀ next, reply ≠ .failed .exhausted next) : outcome ≠ .error .exhausted := by
  rintro rfl
  cases reply with
  | found value commits next | absent => cases opens.1
  | failed failure next =>
    cases opens.1
    exact hEnough next rfl

section

variable {start : Cursor} {spot : Spot} {bound : Nat}

/-- A call within a budget makes only calls within the budget that it leaves to them. -/
theorem Call.Makes.needs_lt (begins : start.At none spot) (steady : start.Steady)
    {outer call : Call} (makes : outer.Makes (readRule bound) bound call)
    (sound : outer = ⟨.document, none, start⟩ ∨ outer.Sound start.tokens)
    (hOuter : outer.needs ≤ bound) : call.needs < bound := by
  by_contra hCall
  obtain ⟨failure, hDiffer⟩ := makes
  have hReads := (reads_readRule start.tokens bound).within bound
  have hForm : ∀ {line spot}, outer.cursor.At line spot → ∀ next,
      seekForm ((seekRule bound).within bound) bound outer.rule line spot outer.rule.form ≠
        .failed .exhausted next := by
    intro line spot stands
    have hLess : nestingPerToken * spot.rest.length + outer.rule.rank ≤ bound := by
      rw [stands.length_rest]
      exact hOuter
    exact ((sureWithin_within bound).form (Nat.le_refl _) hLess line).enough
  have hEnough : ((readForm ((readRule bound).within bound) bound outer.rule outer.owner
      outer.rule.form).exec outer.cursor).1 ≠ .error .exhausted := by
    rcases sound with rfl | sound
    · exact (opens_form hReads bound rfl begins steady).ne_exhausted (hForm begins)
    · obtain ⟨line, spot, stands⟩ := sound.stands
      exact (ends_readForm hReads bound _ _ (Rule.putsBack sound.rule) sound.tokens stands
        sound.steady sound.live).ne_exhausted (hForm stands)
  have hSame := extendsTo_readForm RuleReader.within_extendsTo (Nat.le_refl bound) outer.rule
    outer.owner outer.rule.form outer.cursor hEnough
  have hFails := extendsTo_readForm
    (RuleReader.within_extendsTo_failingAt (Nat.not_lt.mp hCall) failure) (Nat.le_refl bound)
    outer.rule outer.owner outer.rule.form outer.cursor hEnough
  exact hDiffer (congrArg Prod.fst (hFails.trans hSame.symm))

/-- Every call that is made is left more of the budget than it needs. -/
theorem Visited.needs_lt (begins : start.At none spot) (steady : start.Steady) {call : Call}
    (visited : Visited start bound call) : call.needs < bound := by
  induction visited with
  | document =>
    have hRank := Rule.document.rank_lt
    have hAhead : nestingPerToken * (start.tokens.size - start.position) ≤
        nestingPerToken * start.tokens.size := Nat.mul_le_mul_left _ (Nat.sub_le _ _)
    simp only [Call.needs, readingBudget, Nat.mul_add]
    omega
  | inside outer makes ih =>
    exact makes.needs_lt begins steady (outer.sound begins steady) (Nat.le_of_lt_succ ih)

end

/-! ### What is found moves on -/

/-- Tokens that close no bracket but those they open count the brackets exactly. -/
theorem foldl_nestingAfter_of_stays {tokens : List Token} {depth nesting : Nat}
    (stays : Stays depth tokens) (hDepth : depth ≤ nesting) :
    ((tokens.foldl (fun nesting token => nestingAfter token nesting) nesting : Nat) : Int) =
      nesting + turns tokens := by
  induction tokens generalizing depth nesting with
  | nil => simp
  | cons token tokens ih =>
    have hHere := stays.2.nonneg
    have hAfter : ((nestingAfter token nesting : Nat) : Int) = nesting + token.turn := by
      unfold Token.turn at hHere ⊢
      unfold nestingAfter
      split_ifs at hHere ⊢ <;> omega
    obtain ⟨behind, hBehind⟩ := Int.eq_ofNat_of_zero_le hHere
    have hStays : Stays behind tokens := by
      rw [← hBehind]
      exact stays.2
    rw [List.foldl_cons, ih hStays (by omega), turns_cons, hAfter, Int.add_assoc]

/-- Where a rule was found the reader has moved on. -/
structure Advanced (tokens : List Token) (rule : Rule) (before after : Cursor) : Prop where
  forward : before.position ≤ after.position
  within : after.position ≤ tokens.length
  /-- Only the rules that may be empty read nothing. -/
  strict : rule ∉ [.values, .noValues, .statements, .noStatements] →
    before.position < after.position
  nesting : after.nesting = before.nesting
  line : after.line = before.line
  /-- All brackets among the tokens that it moved past are closed there. -/
  balanced : Balanced ((tokens.drop before.position).take (after.position - before.position))
  /-- Counting them, the reader never closed a bracket where it knew of none to be open. -/
  exact : ∀ used, used <+: (tokens.drop before.position).take (after.position - before.position) →
    ((used.foldl (fun nesting token => nestingAfter token nesting) before.nesting : Nat) : Int) =
      before.nesting + turns used

/-- A reader that went from where it stood to where a node is found has moved on. -/
theorem advanced_of_found {tokens : List Token} {rule : Rule} {before after : Cursor} {line : Line}
    {spot next : Spot} {tree : Tree rule} {commits : Bool} {bound : Nat}
    (begins : before.At line spot) (ends : after.At line next)
    (hTokens : before.tokens = tokens.toArray) (hSame : after.tokens = before.tokens)
    (hLess : nestingPerToken * spot.rest.length + rule.rank < bound)
    (hFound : seekRule bound rule line spot = .found tree commits next) :
    Advanced tokens rule before after := by
  have hTakes := (sureWithin_seekRule bound 0 rule line spot hLess).takes tree commits next hFound
  obtain ⟨used, hStretch⟩ := levels_seekRule bound hFound
  have hBefore := begins.length_rest
  have hAfter := ends.length_rest
  have hWithin := begins.within
  have hEnd := ends.within
  rw [hSame] at hAfter hEnd
  have hSize : before.tokens.size = tokens.length := by simp [hTokens]
  have hLength := congrArg List.length hStretch.rest
  rw [List.length_append] at hLength
  have hUsed : (tokens.drop before.position).take (after.position - before.position) = used := by
    have hRest : tokens.drop before.position = used ++ next.rest := by
      have hDrop := begins.rest
      rw [hTokens] at hDrop
      exact hDrop.trans hStretch.rest
    rw [hRest]
    exact List.take_left' (by omega)
  have balanced := hStretch.balanced hStretch.stays
  refine ⟨by omega, by omega, ?_, ?_, ?_, hUsed ▸ balanced, ?_⟩
  · intro hRule
    have hSome : rule.mayBeEmpty = false := by
      revert hRule
      cases rule <;> decide
    simp only [leastTaken, hSome, Bool.false_eq_true, if_false] at hTakes
    omega
  · rw [ends.nesting, begins.nesting, hStretch.nesting, Nat.add_zero]
  · rw [ends.line, begins.line]
  · rintro first hFirst
    rw [hUsed] at hFirst
    obtain ⟨rest, rfl⟩ := hFirst
    exact foldl_nestingAfter_of_stays (stays_append.mp hStretch.stays).1 (Nat.zero_le _)

/-- Every round of a repetition takes at least one token, so that there are no more nodes than
tokens between the two spots. -/
theorem length_many {bound limit : Nat} {line : Line} {rule : Rule} {spot next : Spot}
    {trees : Trees rule} {commits : Bool} (hSome : rule.mayBeEmpty = false)
    (hLess : nestingPerToken * spot.rest.length + rule.rank < bound)
    (hFound : seekMany (seekRule bound) line rule limit spot = .found trees commits next) :
    next.rest.length + trees.length ≤ spot.rest.length := by
  induction limit generalizing spot trees with
  | zero => cases hFound
  | succ limit ih =>
    rw [seekMany_succ, Reply.either_eq_found] at hFound
    rcases hFound with ⟨tree, _, middle, hTree, hMore⟩ | ⟨-, hNone⟩
    · obtain ⟨rest, hRest, rfl⟩ := Reply.of_map_eq_found hMore
      have hTakes := (sureWithin_seekRule bound 0 rule line spot hLess).takes _ _ _ hTree
      simp only [leastTaken, hSome, Bool.false_eq_true, if_false] at hTakes
      have hMiddle : nestingPerToken * middle.rest.length ≤ nestingPerToken * spot.rest.length :=
        Nat.mul_le_mul_left _ (by omega)
      have hLength := ih (by omega) hRest
      rw [Trees.length]
      omega
    · cases hNone
      exact Nat.le_refl _

section

variable {start : Cursor} {spot : Spot} {bound : Nat} {call : Call}

/-- A rule that is asked for is there, or it is not, or reading ends for another reason than a
budget that is enough. -/
theorem Visited.ne_exhausted (begins : start.At none spot) (steady : start.Steady)
    (visited : Visited start bound call) {budget : Nat} (hLess : call.needs < budget) :
    ((readRule budget call.rule call.owner).exec call.cursor).1 ≠ .error .exhausted := by
  obtain ⟨less, rfl⟩ : ∃ less, budget = less + 1 := ⟨budget - 1, by omega⟩
  rcases visited.sound begins steady with rfl | sound
  · refine (opens_document less begins steady).ne_exhausted ?_
    refine (sureWithin_seekRule (less + 1) 0 .document none spot ?_).enough
    rw [begins.length_rest]
    exact hLess
  · obtain ⟨line, spot, stands⟩ := sound.stands
    refine (reads_readRule start.tokens (less + 1) call.rule call.owner line spot call.cursor
      sound.rule sound.tokens stands sound.steady sound.live).ne_exhausted ?_
    refine (sureWithin_seekRule (less + 1) 0 call.rule line spot ?_).enough
    rw [stands.length_rest]
    exact hLess

/-- Whatever budget is enough, a rule that is asked for is read in the same way. -/
theorem Visited.exec_eq (begins : start.At none spot) (steady : start.Steady)
    (visited : Visited start bound call) {budget : Nat} (hLess : call.needs < budget) :
    (readRule budget call.rule call.owner).exec call.cursor =
      (readRule bound call.rule call.owner).exec call.cursor := by
  have hBound := visited.needs_lt begins steady
  rcases Nat.le_total bound budget with hLe | hLe
  · exact extendsTo_readRule hLe _ _ _ (visited.ne_exhausted begins steady hBound)
  · exact (extendsTo_readRule hLe _ _ _ (visited.ne_exhausted begins steady hLess)).symm

/-- Where a rule that is asked for is there, the reader has moved on. -/
theorem Visited.advanced {tokens : List Token} (hTokens : start.tokens = tokens.toArray)
    (begins : start.At none spot) (steady : start.Steady) (visited : Visited start bound call)
    {tree : Tree call.rule} {owner : Option Attempt} {after : Cursor}
    (hRun : (readRule bound call.rule call.owner).exec call.cursor =
      (.ok (some tree, owner), after)) : Advanced tokens call.rule call.cursor after := by
  have hBound := visited.needs_lt begins steady
  obtain ⟨less, rfl⟩ : ∃ less, bound = less + 1 := ⟨bound - 1, by omega⟩
  rcases visited.sound begins steady with rfl | sound
  · have hOpens := opens_document less begins steady
    rw [Reading.Ends, hRun] at hOpens
    cases hReply : seekRule (less + 1) .document none spot with
    | found value commits next =>
      rw [hReply] at hOpens
      obtain ⟨-, rests⟩ := hOpens
      refine advanced_of_found begins rests.stands hTokens rests.tokens ?_ hReply
      rw [begins.length_rest]
      exact hBound
    | absent | failed failure next =>
      rw [hReply] at hOpens
      cases hOpens.1
  · obtain ⟨line, spot, stands⟩ := sound.stands
    have hAnswers := reads_readRule start.tokens (less + 1) call.rule call.owner line spot call.cursor
      sound.rule sound.tokens stands sound.steady sound.live
    rw [Reading.Ends, hRun] at hAnswers
    cases hReply : seekRule (less + 1) call.rule line spot with
    | found value commits next =>
      rw [hReply] at hAnswers
      obtain ⟨-, ends, hKeeps⟩ := hAnswers
      refine advanced_of_found stands ends (sound.tokens.trans hTokens) hKeeps.tokens ?_ hReply
      rw [stands.length_rest]
      exact hBound
    | absent | failed failure next =>
      rw [hReply] at hAnswers
      cases hAnswers.1

/-- A rule that is asked for and may not be empty is repeated no more often than there are tokens
ahead. -/
theorem Visited.repeats (begins : start.At none spot) (steady : start.Steady)
    (visited : Visited start bound call) (hRule : call.rule ≠ .document)
    (hSome : call.rule.mayBeEmpty = false) {limit : Nat}
    (hLimit : call.cursor.tokens.size - call.cursor.position < limit) :
    ((readMany (readRule bound) call.rule limit).exec call.cursor).1 ≠ .error .exhausted ∧
      ∀ trees after, (readMany (readRule bound) call.rule limit).exec call.cursor =
        (.ok trees, after) → call.cursor.position + trees.length ≤ after.position := by
  have hBound := visited.needs_lt begins steady
  have sound := (visited.sound begins steady).resolve_left fun hCall => hRule (by rw [hCall])
  obtain ⟨line, spot, stands⟩ := sound.stands
  have hRest := stands.length_rest
  have hLess : nestingPerToken * spot.rest.length + call.rule.rank < bound := by
    rw [hRest]
    exact hBound
  have hRepeats := ends_readMany (reads_readRule start.tokens bound) hRule limit sound.tokens stands
    sound.steady
  have hSure : (seekMany (seekRule bound) line call.rule limit spot).Sure 0 spot _ :=
    (sureWithin_seekRule bound 0).many hSome hLess (by omega) (Nat.le_refl limit)
  rw [Reading.Ends] at hRepeats
  cases hReply : seekMany (seekRule bound) line call.rule limit spot with
  | found trees commits next =>
    rw [hReply] at hRepeats
    obtain ⟨hTrees, ends, hKeeps⟩ := hRepeats
    refine ⟨by simp [hTrees], fun trees' after hRun => ?_⟩
    rw [hRun] at hTrees ends hKeeps
    cases hTrees
    have hLength := length_many hSome hLess hReply
    have hAfter := ends.length_rest
    have hWithin := stands.within
    have hEnd := ends.within
    dsimp only at hKeeps hAfter hEnd
    rw [hKeeps.tokens] at hAfter hEnd
    omega
  | absent =>
    rw [hReply] at hRepeats
    exact hRepeats.elim
  | failed failure next =>
    rw [hReply] at hRepeats
    have hOther : failure ≠ .exhausted := by
      rintro rfl
      exact hSure.enough next hReply
    refine ⟨?_, fun trees after hRun => ?_⟩
    · rw [hRepeats.1]
      exact fun hEq => hOther (Except.error.inj hEq)
    · rw [hRun] at hRepeats
      cases hRepeats.1

end

/-- However many documents are read one after another, each reading comes to its end, and so does
every rule that is asked for on the way: whatever budget is more than the tokens ahead can use up,
it is read with that in the same way as with what is left. Where it is there the reader has moved
on, and where it may not be empty it is repeated no more often than there are tokens ahead. -/
theorem advances_of_visited (tokens : List Token) (calls : Nat) {bound : Nat} {call : Call}
    (visited : Visited ((start tokens).behind calls) bound call) :
    ((start tokens).behind calls).parseDocument.1 ≠ .error .exhausted ∧
      (call.needs < bound ∧ ∀ budget, call.needs < budget →
        ((readRule budget call.rule call.owner).exec call.cursor).1 ≠ .error .exhausted ∧
          (readRule budget call.rule call.owner).exec call.cursor =
            (readRule bound call.rule call.owner).exec call.cursor) ∧
      (∀ tree owner after, (readRule bound call.rule call.owner).exec call.cursor =
        (.ok (some tree, owner), after) → Advanced tokens call.rule call.cursor after) ∧
      (call.rule ∉ [.document, .values, .noValues, .statements, .noStatements] →
        ∀ limit, tokens.length - call.cursor.position < limit →
          ((readMany (readRule bound) call.rule limit).exec call.cursor).1 ≠ .error .exhausted ∧
            ∀ trees after, (readMany (readRule bound) call.rule limit).exec call.cursor =
              (.ok trees, after) → call.cursor.position + trees.length ≤ after.position) := by
  obtain ⟨spot, begins, steady, hTokens⟩ := exists_rests_behind calls (rests_start tokens)
  refine ⟨?_, ⟨visited.needs_lt begins steady, fun budget hLess =>
    ⟨visited.ne_exhausted begins steady hLess, visited.exec_eq begins steady hLess⟩⟩,
    fun tree owner after hRun => visited.advanced hTokens begins steady hRun, ?_⟩
  · have hOutcome := (ends_readDocument begins steady).1
    rw [show ((start tokens).behind calls).parseDocument.1 = _ from hOutcome]
    refine seekDocument_ne_exhausted ?_
    have hLength := begins.length_rest
    have hAhead : nestingPerToken * spot.rest.length ≤
        nestingPerToken * ((start tokens).behind calls).tokens.size :=
      Nat.mul_le_mul_left _ (by omega)
    have hRank := Rule.document.rank_lt
    simp only [readingBudget, Nat.mul_add]
    omega
  · intro hRule limit hLimit
    have hOther : call.rule ≠ .document ∧ call.rule.mayBeEmpty = false := by
      revert hRule
      cases call.rule <;> decide
    refine visited.repeats begins steady hOther.1 hOther.2 ?_
    rcases visited.sound begins steady with rfl | sound
    · exact absurd rfl hOther.1
    · rw [sound.tokens, hTokens]
      simpa using hLimit

/-- A run that shows a value, and shows where it left the reader, has such a value and such a
reader. -/
theorem exists_run_eq {α β γ : Type} (run : Except γ (Option α × β) × Cursor) (position : Nat)
    (hFound : (run.1.toOption.bind Prod.fst).isSome = true ∧ run.2.position = position) :
    ∃ value owner after, run = (.ok (some value, owner), after) ∧ after.position = position := by
  match run, hFound with
  | (.ok (some value, owner), after), hFound => exact ⟨value, owner, after, rfl, hFound.2⟩

/-- A list of one number is a component, and reading it moves past its three tokens. -/
theorem advances_of_visited_list :
    let tokens : List Token :=
      [⟨.delimiter, .start, "["⟩, ⟨.number, .start, "1"⟩, ⟨.delimiter, .start, "]"⟩]
    let before : Cursor := { Cursor.start tokens with reached := 1 }
    Visited (start tokens) 159 ⟨.component, none, before⟩ ∧
      ∃ tree owner after,
        (readRule 159 .component none).exec before = (.ok (some tree, owner), after) ∧
        after.position = 3 ∧ Advanced tokens .component before after := by
  intro tokens before
  have visited : Visited ((start tokens).behind 0) 159 ⟨.component, none, before⟩ :=
    have root : Visited ((start tokens).behind 0) 160 ⟨.document, none, start tokens⟩ := .document
    root.inside (Call.makes_of_isOk (by decide +kernel) (by decide +kernel))
  obtain ⟨tree, owner, after, hRun, hPosition⟩ :=
    exists_run_eq ((readRule 159 .component none).exec before) 3 (by decide +kernel)
  exact ⟨visited, tree, owner, after, hRun, hPosition,
    (advances_of_visited tokens 0 visited).2.2.1 tree owner after hRun⟩

end DocumentLanguage
