import DocumentLanguage.Proofs.Parse.Levels
import DocumentLanguage.Proofs.Parse.Look

/-!
Reading inside of brackets. Whatever is looked for inside of a bracket ends before the bracket that
closes it, whether it is there or not, so that nothing depends on what stands behind that. A
document is one token or ends with such a bracket, so that it is found as well where nothing follows
it.
-/
namespace DocumentLanguage

/-- From so many open brackets on, all of them are closed. -/
def Closes : Nat → List Token → Prop
  | 0, _ => True
  | _ + 1, [] => False
  | depth + 1, token :: rest => Closes (Cursor.nestingAfter token (depth + 1)) rest

@[simp] theorem closes_zero (tokens : List Token) : Closes 0 tokens := by
  cases tokens <;> trivial

/-- The depth behind a token is the depth before it and what the token turns it by, and a bracket
too many leaves it at zero. -/
theorem nestingAfter_eq_toNat (token : Token) (nesting : Nat) :
    Cursor.nestingAfter token nesting = ((nesting : Int) + token.turn).toNat := by
  unfold Cursor.nestingAfter Token.turn
  split_ifs <;> omega

namespace Closes

variable {depth deeper : Nat} {tokens first rest : List Token}

/-- Tokens that come down from some depth to where no bracket is open do so from any smaller depth
as well. -/
theorem mono (closes : Closes deeper tokens) (hDepth : depth ≤ deeper) : Closes depth tokens := by
  induction tokens generalizing depth deeper with
  | nil =>
    cases deeper with
    | zero =>
      rw [Nat.le_zero.mp hDepth]
      exact closes_zero _
    | succ deeper => exact closes.elim
  | cons token tokens ih =>
    cases depth with
    | zero => exact closes_zero _
    | succ depth =>
      obtain ⟨deeper, rfl⟩ : ∃ more, deeper = more + 1 := ⟨deeper - 1, by omega⟩
      have hNesting :
          Cursor.nestingAfter token (depth + 1) ≤ Cursor.nestingAfter token (deeper + 1) := by
        rw [nestingAfter_eq_toNat, nestingAfter_eq_toNat]
        omega
      exact ih closes hNesting

/-- What closes a bracket is more than layout. One of the tokens is the bracket, and this is what
stops a search for the next token. -/
theorem exists_solid (closes : Closes (depth + 1) tokens) :
    ∃ token ∈ tokens, token.kind.isLayout = false := by
  induction tokens generalizing depth with
  | nil => exact closes.elim
  | cons token tokens ih =>
    cases hSolid : token.kind.isLayout with
    | false => exact ⟨token, List.mem_cons_self, hSolid⟩
    | true =>
      have hKind : token.kind ≠ .delimiter := by
        intro hKind
        rw [hKind] at hSolid
        cases hSolid
      rw [Closes, Cursor.nestingAfter, if_neg hKind] at closes
      obtain ⟨other, hOther, hSolid⟩ := ih closes
      exact ⟨other, List.mem_cons_of_mem _ hOther, hSolid⟩

/-- A bracket that is open around tokens is closed behind them. -/
theorem behind {start : Nat} (closes : Closes (start + 1) (first ++ rest)) (stays : Stays start first)
    (hTurns : (start : Int) + turns first = depth) : Closes (depth + 1) rest := by
  induction first generalizing start with
  | nil =>
    rw [turns_nil, Int.add_zero, Int.natCast_inj] at hTurns
    exact hTurns ▸ closes
  | cons token first ih =>
    have hHere := stays.2.nonneg
    obtain ⟨next, hNext⟩ := Int.eq_ofNat_of_zero_le hHere
    have hNesting : Cursor.nestingAfter token (start + 1) = next + 1 := by
      rw [nestingAfter_eq_toNat]
      omega
    have stays' : Stays next first := hNext ▸ stays.2
    rw [List.cons_append, Closes, hNesting] at closes
    refine ih closes stays' ?_
    rw [turns_cons] at hTurns
    omega

/-- Tokens that turn the depth down to zero or below close all of it, whatever follows them. -/
theorem of_turns (hTurns : (depth : Int) + turns first ≤ 0) : Closes depth (first ++ rest) := by
  induction first generalizing depth with
  | nil =>
    rw [turns_nil] at hTurns
    obtain rfl : depth = 0 := by omega
    exact closes_zero _
  | cons token first ih =>
    cases depth with
    | zero => exact closes_zero _
    | succ depth =>
      rw [List.cons_append, Closes]
      refine ih ?_
      rw [turns_cons] at hTurns
      rw [nestingAfter_eq_toNat]
      have hTurn : -1 ≤ token.turn := by
        unfold Token.turn
        split_ifs <;> decide
      omega

end Closes

def Spot.followedBy (spot : Spot) (tail : List Token) : Spot :=
  { spot with rest := spot.rest ++ tail }

/-- The same reply with more tokens at the end of where it leaves off. -/
def Reply.followedBy {α : Type} (tail : List Token) : Reply α → Reply α
  | found value commits spot => found value commits (spot.followedBy tail)
  | absent => absent
  | failed failure spot => failed failure (spot.followedBy tail)

section

variable {α β : Type} {tail : List Token}

@[simp] theorem Spot.followedBy_nesting (spot : Spot) : (spot.followedBy tail).nesting = spot.nesting :=
  rfl

@[simp] theorem Spot.followedBy_rest (spot : Spot) : (spot.followedBy tail).rest = spot.rest ++ tail :=
  rfl

@[simp] theorem Reply.followedBy_found (value : α) (commits : Bool) (spot : Spot) :
    (found value commits spot).followedBy tail = found value commits (spot.followedBy tail) := rfl

@[simp] theorem Reply.followedBy_absent : (absent : Reply α).followedBy tail = absent := rfl

@[simp] theorem Reply.followedBy_failed (failure : Failure) (spot : Spot) :
    (failed failure spot : Reply α).followedBy tail = failed failure (spot.followedBy tail) := rfl

/-- Two readings that go on in the same way give the same reply. -/
theorem Reply.either_followedBy {reply other : Reply α} {there there' : α → Bool → Spot → Reply β}
    {missing missing' : Reply β} (hReply : other = reply.followedBy tail)
    (hThere : ∀ value commits next, reply = .found value commits next →
      there' value commits (next.followedBy tail) = (there value commits next).followedBy tail)
    (hMissing : reply = .absent → missing' = missing.followedBy tail) :
    other.either there' missing' = (reply.either there missing).followedBy tail := by
  subst hReply
  cases hFirst : reply with
  | found value commits next => exact hThere value commits next hFirst
  | absent => exact hMissing hFirst
  | failed failure next => rfl

theorem Reply.map_followedBy (f : α → β) {reply other : Reply α}
    (hReply : other = reply.followedBy tail) : other.map f = (reply.map f).followedBy tail := by
  subst hReply
  cases reply <;> rfl

variable {line : Line} {spot : Spot}

/-- Before the end of the tokens there is something to be seen. -/
def Spot.Solid (spot : Spot) : Prop := ∃ token ∈ spot.rest, token.kind.isLayout = false

/-- A search that stops in the first of two lists is not changed by the second, which stays behind
what is left. -/
theorem dropWhile_append_of_exists {γ : Type} {test : γ → Bool} {first : List γ}
    (hStops : ∃ value ∈ first, test value = false) (rest : List γ) :
    (first ++ rest).dropWhile test = first.dropWhile test ++ rest := by
  rw [List.dropWhile_append, if_neg]
  obtain ⟨value, hValue, hTest⟩ := hStops
  rw [List.isEmpty_iff, List.dropWhile_eq_nil_iff]
  exact fun hAll => by simp [hAll value hValue] at hTest

namespace Spot.Solid

/-- What can be seen from a spot inside a bracket is not empty, and tokens behind the end of the
tokens do not change it. -/
theorem visible (solid : spot.Solid) (overLines : Bool) :
    (spot.followedBy tail).visible line overLines = spot.visible line overLines ++ tail ∧
      spot.visible line overLines ≠ [] := by
  obtain ⟨token, hToken, hSolid⟩ := solid
  have hStops : ∃ token ∈ spot.rest, spot.passes line overLines token = false :=
    ⟨token, hToken, by simp [passes, Kind.ne_space hSolid, Kind.ne_newline hSolid]⟩
  refine ⟨dropWhile_append_of_exists hStops tail, fun hEmpty => ?_⟩
  obtain ⟨other, hOther, hPasses⟩ := hStops
  rw [List.dropWhile_eq_nil_iff.mp hEmpty other hOther] at hPasses
  cases hPasses

/-- Looking for a token inside a bracket finds the same whatever is put behind the last token. -/
theorem expect (solid : spot.Solid) (overLines : Bool) (test : Token → Bool) :
    (spot.followedBy tail).expect line overLines test =
      (spot.expect line overLines test).followedBy tail := by
  have hVisible : (spot.followedBy tail).visible line overLines =
      spot.visible line overLines ++ tail := (solid.visible overLines).1
  rw [Spot.expect, Spot.expect, hVisible]
  cases hSeen : spot.visible line overLines with
  | nil => exact absurd hSeen (@visible tail line spot solid overLines).2
  | cons token rest =>
    simp only [List.cons_append]
    split_ifs <;> rfl

theorem head (solid : spot.Solid) : ∃ token rest, spot.behindLayout.rest = token :: rest := by
  obtain ⟨token, hToken, hSolid⟩ := solid
  cases hRest : spot.behindLayout.rest with
  | nil =>
    rw [List.dropWhile_eq_nil_iff.mp hRest token hToken] at hSolid
    cases hSolid
  | cons first rest => exact ⟨first, rest, rfl⟩

theorem behindLayout (solid : spot.Solid) :
    (spot.followedBy tail).behindLayout = spot.behindLayout.followedBy tail := by
  obtain ⟨token, hToken, hSolid⟩ := solid
  have hStops : ∃ token ∈ spot.rest, (fun token : Token => token.kind.isLayout) token = false :=
    ⟨token, hToken, hSolid⟩
  exact congrArg (Spot.mk · spot.nesting) (dropWhile_append_of_exists hStops tail)

/-- A failure inside a bracket tells of the same token whatever is put behind the last one, since
some token is ahead. -/
theorem failure (solid : spot.Solid) (rule : Rule) :
    (spot.followedBy tail).failure rule = spot.failure rule := by
  obtain ⟨token, rest, hRest⟩ := solid.head
  rw [Spot.failure, Spot.failure, solid.behindLayout, Spot.followedBy_rest, hRest]
  rfl

theorem giveUp (solid : spot.Solid) (setting : Setting) (progress : Progress) :
    setting.giveUp progress (spot.followedBy tail) =
      (setting.giveUp progress spot : Reply α).followedBy tail := by
  unfold Setting.giveUp Spot.giveUp
  split
  · rw [solid.failure]
    rfl
  · rfl

end Spot.Solid

/-- If no rule depends on what follows, neither does the choice between them. -/
theorem seekFirst_followedBy {seek : Seeker} (rules : List Rule)
    (hRules : ∀ rule ∈ rules,
      seek rule line (spot.followedBy tail) = (seek rule line spot).followedBy tail) :
    seekFirst seek line (spot.followedBy tail) rules =
      (seekFirst seek line spot rules).followedBy tail := by
  induction rules with
  | nil => rfl
  | cons rule rules ih =>
    rw [List.forall_mem_cons] at hRules
    rw [seekFirst_cons, seekFirst_cons]
    exact Reply.either_followedBy hRules.1 (fun _ _ _ _ => rfl)
      fun _ => Reply.map_followedBy _ (ih hRules.2)

/-- A way to look for rules that inside of a bracket does not depend on what follows the bracket. -/
def Seeker.Ignores (seek : Seeker) (tail : List Token) : Prop :=
  ∀ rule line spot, Closes 1 spot.rest →
    seek rule line (spot.followedBy tail) = (seek rule line spot).followedBy tail

/-- Whether the parts of a sequence that starts inside of a bracket are all read before it is
closed. Behind the last one it may be. -/
def readInside (depth : Nat) : List Part → Bool
  | [] => true
  | part :: parts =>
    parts.isEmpty || (part.depthBehind? depth).any fun behind => readInside behind parts

/-- Whether a form that starts inside of a bracket is read before it is closed. -/
def Form.enclosed : Form → Bool
  | literal _ | oneOf _ => true
  | sequence _ parts => readInside 0 parts

theorem Rule.enclosed_form (rule : Rule) : rule.form.enclosed = true := by
  cases rule <;> decide

/-- A bracket that is to be closed is still to be closed behind what keeps to its own brackets. -/
theorem Closes.behind_stretch {start depth depth' : Nat} {next : Spot} {used : List Token}
    (closes : Closes (depth + 1) spot.rest)
    (stretch : Stretch none start depth depth' spot next used) : Closes (depth' + 1) next.rest :=
  Closes.behind (stretch.rest ▸ closes) stretch.stays stretch.turns

theorem Closes.solid {depth : Nat} (closes : Closes (depth + 1) spot.rest) : spot.Solid :=
  closes.exists_solid

/-- Behind a node that is found inside a bracket, this bracket is still to be closed, since a node
opens no more than it closes. -/
theorem Levels.closes {seek : Seeker} (levels : Levels seek) (closes : Closes 1 spot.rest)
    {rule : Rule} {tree : Tree rule} {commits : Bool} {next : Spot}
    (hFound : seek rule line spot = .found tree commits next) : Closes 1 next.rest := by
  obtain ⟨used, stretch⟩ := levels hFound
  exact closes.behind_stretch stretch

namespace Seeker.Ignores

variable {seek : Seeker}

/-- Any number of nodes inside a bracket are found the same whatever is put behind the last token.
Behind each of them the bracket is still open. -/
theorem many (ignores : seek.Ignores tail) (levels : Levels seek) (rule : Rule) (bound : Nat)
    (closes : Closes 1 spot.rest) :
    seekMany seek line rule bound (spot.followedBy tail) =
      (seekMany seek line rule bound spot).followedBy tail := by
  induction bound generalizing spot with
  | zero => rfl
  | succ bound ih =>
    rw [seekMany_succ, seekMany_succ]
    refine Reply.either_followedBy (ignores rule line spot closes) ?_ fun _ => rfl
    intro tree commits next hFound
    exact Reply.map_followedBy _ (ih (levels.closes closes hFound))

/-- A part inside a bracket is found the same whatever is put behind the last token, if its nodes
are. -/
theorem part (ignores : seek.Ignores tail) (levels : Levels seek) (bound : Nat) (setting : Setting)
    (progress : Progress) (closes : Closes 1 spot.rest) (part : Part) :
    seekPart seek bound setting progress (spot.followedBy tail) part =
      (seekPart seek bound setting progress spot part).followedBy tail := by
  have solid := closes.solid
  cases part with
  | keyword | delimiter | newline | choice | token =>
    exact Reply.either_followedBy (solid.expect _ _) (fun _ _ _ _ => rfl)
      fun _ => solid.giveUp setting progress
  | optionalToken =>
    exact Reply.either_followedBy (solid.expect _ _) (fun _ _ _ _ => rfl) fun _ => rfl
  | child label rule =>
    exact Reply.either_followedBy (ignores rule _ _ closes) (fun _ _ _ _ => rfl)
      fun _ => solid.giveUp setting progress
  | line label rule =>
    have hBehind : Closes 1 spot.behindLayout.rest :=
      closes.behind_stretch (Stretch.layout (Nat.add_zero _).symm (Option.some_ne_none _).symm).2
    simp only [seekPart]
    rw [solid.behindLayout]
    exact Reply.either_followedBy (ignores rule _ _ hBehind) (fun _ _ _ _ => rfl)
      fun _ => hBehind.solid.giveUp setting progress
  | optional label rule =>
    exact Reply.either_followedBy (ignores rule _ _ closes) (fun _ _ _ _ => rfl) fun _ => rfl
  | many label rule =>
    exact Reply.either_followedBy (ignores.many levels rule bound closes) (fun _ _ _ _ => rfl)
      fun _ => rfl
  | some label rule =>
    refine Reply.either_followedBy (ignores rule _ _ closes) ?_
      fun _ => solid.giveUp setting progress
    intro tree commits next hFound
    exact Reply.either_followedBy
      (ignores.many levels rule bound (levels.closes closes hFound))
      (fun _ _ _ _ => rfl) fun _ => rfl
  | commit => rfl

/-- The parts of a sequence are found the same whatever is put behind the last token, as long as
each of them begins inside a bracket that is still to be closed. -/
theorem parts (ignores : seek.Ignores tail) (levels : Levels seek) (bound : Nat) (setting : Setting)
    {start depth : Nat} (parts : List Part) (hParts : readInside depth parts = true)
    (progress : Progress) (hSpot : spot.nesting = start + depth) (closes : Closes (depth + 1) spot.rest) :
    seekParts seek bound setting parts progress (spot.followedBy tail) =
      (seekParts seek bound setting parts progress spot).followedBy tail := by
  induction parts generalizing depth progress spot with
  | nil => rfl
  | cons part parts ih =>
    rw [seekParts_cons, seekParts_cons]
    have hHere := ignores.part levels bound setting progress (closes.mono (Nat.le_add_left 1 depth)) part
    refine Reply.either_followedBy hHere ?_ fun _ => rfl
    intro kept commits next hFound
    refine Reply.map_followedBy _ ?_
    rw [readInside, Bool.or_eq_true, List.isEmpty_iff] at hParts
    rcases hParts with rfl | hMore
    · rfl
    · obtain ⟨behind, hDepth, hBehind⟩ := (Option.any_eq_true _ _).mp hMore
      obtain ⟨used, stretch⟩ := levels.part bound setting progress hSpot part hDepth hFound
      exact ih hBehind kept.2 stretch.nesting (closes.behind_stretch stretch)

end Seeker.Ignores

/-- Whatever is looked for inside of a bracket ends before the bracket that closes it. -/
theorem ignores_seekRule (bound : Nat) (tail : List Token) : (seekRule bound).Ignores tail := by
  induction bound with
  | zero => exact fun _ _ _ _ => rfl
  | succ bound ih =>
    intro rule line spot closes
    refine Reply.map_followedBy _ ?_
    have hForm := rule.enclosed_form
    generalize rule.form = form at hForm ⊢
    cases form with
    | literal kinds =>
      exact Reply.map_followedBy _ (closes.solid.expect _ _)
    | oneOf rules => exact seekFirst_followedBy rules fun other _ => ih other line spot closes
    | sequence standing parts =>
      exact Reply.map_followedBy _
        (ih.parts (levels_seekRule bound) bound _ parts hForm _ (Nat.add_zero _).symm closes)

/-! ### Rules that are one token, or are read inside of a bracket -/

/-- The rules that are one token or begin with a bracket behind which all of them is read. -/
def Rule.isFenced (rule : Rule) : Bool :=
  [entity, element, string, collection, range, catalog, list, procedure, parameters].contains rule

/-- Whether a form is one token or begins with a bracket behind which all of it is read. -/
def Form.isFenced : Form → Bool
  | literal kinds => kinds.all (!·.isLayout)
  | oneOf rules => rules.all Rule.isFenced
  | sequence _ [] => false
  | sequence _ (part :: parts) => part.depthBehind? 0 = some 1 && readInside 0 parts

theorem Rule.isFenced_form (rule : Rule) (hFenced : rule.isFenced = true) :
    rule.form.isFenced = true := by
  revert hFenced
  cases rule <;> decide

/-- A token is the first ahead that is no layout. -/
def Spot.Heads (spot : Spot) (token : Token) (rest : List Token) : Prop :=
  ∃ gap, spot.rest = gap ++ token :: rest ∧ Gap true gap ∧ token.kind.isLayout = false

theorem Spot.Heads.behindLayout {token : Token} {rest : List Token} (heads : spot.Heads token rest) :
    spot.behindLayout.rest = token :: rest := by
  obtain ⟨gap, hRest, layout, hSolid⟩ := heads
  have hGap : ∀ other ∈ gap, other.kind.isLayout = true := fun other hOther =>
    Kind.isLayout_iff.mpr ((layout other hOther).imp_right And.right)
  rw [Spot.behindLayout, hRest, List.dropWhile_append_of_pos hGap, List.dropWhile_cons_of_neg]
  simp [hSolid]

/-- What is ahead is one token, or a bracket that is closed again. -/
def Spot.Fenced (spot : Spot) : Prop :=
  ∃ token rest, spot.Heads token rest ∧ Closes (Cursor.nestingAfter token 0) rest

theorem Spot.Fenced.solid (fenced : spot.Fenced) : spot.Solid := by
  obtain ⟨token, rest, ⟨gap, hRest, -, hSolid⟩, -⟩ := fenced
  exact ⟨token, hRest ▸ List.mem_append_right _ List.mem_cons_self, hSolid⟩

/-- A part that opens a bracket is one of some delimiters. -/
theorem exists_opening {part : Part} (hOpens : part.depthBehind? 0 = some 1) :
    ∃ texts : List String, (∀ text ∈ texts, bracketsBehind text 0 = some 1) ∧
      ∀ (seek : Seeker) (bound : Nat) (setting : Setting) (progress : Progress),
        ∃ keep : Token → part.Kept × Progress, ∀ spot : Spot,
          seekPart seek bound setting progress spot part =
            (spot.expectOneOf setting.line texts).either
              (fun token _ next => .found (keep token) false next) (setting.giveUp progress spot) := by
  cases part with
  | keyword text =>
    exact ⟨[text], by simpa [Part.depthBehind?] using hOpens, fun _ _ setting progress =>
      ⟨fun _ => ((), setting.commit progress), fun _ => rfl⟩⟩
  | delimiter text =>
    exact ⟨[text], by simpa [Part.depthBehind?] using hOpens, fun _ _ _ progress =>
      ⟨fun _ => ((), progress), fun _ => rfl⟩⟩
  | choice label options =>
    simp only [Part.depthBehind?, Option.filter_eq_some_iff, List.all_eq_true,
      decide_eq_true_eq] at hOpens
    exact ⟨options.delimiters, hOpens.2, fun _ _ _ progress =>
      ⟨fun token => (token.text, progress), fun _ => rfl⟩⟩
  | token label kind | optionalToken label kind => simp [Part.depthBehind?] at hOpens
  | newline | child | line | optional | many | some | commit => cases hOpens

/-- An opening bracket that is found is the first token ahead, behind layout only, and one bracket
is open behind it. -/
theorem Spot.heads_of_expectOneOf {texts : List String} {token : Token} {commits : Bool} {next : Spot}
    (hTexts : ∀ text ∈ texts, bracketsBehind text 0 = some 1)
    (hFound : spot.expectOneOf line texts = .found token commits next) :
    spot.Heads token next.rest ∧ Cursor.nestingAfter token 0 = 1 := by
  obtain ⟨hKind, hText⟩ := Spot.chosen_of_expectOneOf hFound
  obtain ⟨gap, hRest, layout, -, -⟩ := Spot.gap_of_expect hFound
  refine ⟨⟨gap, hRest, layout, by rw [hKind]; rfl⟩, ?_⟩
  have hTurn := token.turn_of_bracketsBehind hKind (hTexts _ hText)
  rw [nestingAfter_eq_toNat, hTurn]
  rfl

/-- Where one token or a closed bracket is ahead, nothing depends on what follows that. -/
theorem followedBy_seekRule {bound : Nat} {rule : Rule} (hFenced : rule.isFenced = true)
    (fenced : spot.Fenced) :
    seekRule bound rule line (spot.followedBy tail) =
      (seekRule bound rule line spot).followedBy tail := by
  induction bound generalizing rule with
  | zero => rfl
  | succ bound ih =>
    refine Reply.map_followedBy _ ?_
    have hForm := rule.isFenced_form hFenced
    generalize rule.form = form at hForm ⊢
    cases form with
    | literal kinds => exact Reply.map_followedBy _ (fenced.solid.expect _ _)
    | oneOf rules =>
      exact seekFirst_followedBy rules fun other hOther => ih (List.all_eq_true.mp hForm other hOther)
    | sequence standing parts =>
      refine Reply.map_followedBy _ ?_
      cases parts with
      | nil => cases hForm
      | cons part parts =>
        rw [Form.isFenced, Bool.and_eq_true, decide_eq_true_eq] at hForm
        obtain ⟨texts, hTexts, hPart⟩ := exists_opening hForm.1
        obtain ⟨keep, hPart⟩ := hPart (seekRule bound) bound ⟨rule, standing, line⟩ ⟨false, false⟩
        rw [seekParts_cons, seekParts_cons, hPart, hPart, Reply.either_either, Reply.either_either]
        refine Reply.either_followedBy (fenced.solid.expect _ _) ?_ ?_
        · intro token commits next hFound
          obtain ⟨heads, hOpens⟩ := Spot.heads_of_expectOneOf hTexts hFound
          obtain ⟨first, rest, hFirst, closes⟩ := fenced
          have hSame := hFirst.behindLayout.symm.trans heads.behindLayout
          rw [List.cons.injEq] at hSame
          obtain ⟨rfl, rfl⟩ := hSame
          rw [hOpens] at closes
          exact Reply.map_followedBy _ ((ignores_seekRule bound tail).parts (levels_seekRule bound)
            bound _ parts hForm.2 _ (Nat.add_zero _).symm closes)
        · intro _
          rw [Setting.either_giveUp, Setting.either_giveUp]
          exact fenced.solid.giveUp _ _

/-- What a fenced rule holds begins at the first token ahead, and whatever else it uses up comes
right behind that token. All that is asked of the rules inside it is that the fenced ones do so. -/
theorem exists_head_of_form {bound : Nat} {rule : Rule} {form : Form} (hForm : form.isFenced = true)
    (hCloses : form.closes = true)
    (hRules : ∀ rule : Rule, rule.isFenced = true → ∀ (tree : Tree rule) (commits : Bool) (next : Spot),
      seekRule bound rule line spot = .found tree commits next →
        ∃ token used, spot.Heads token (used ++ next.rest))
    {content : Content form} {commits : Bool} {next : Spot}
    (hFound : seekForm (seekRule bound) bound rule line spot form = .found content commits next) :
    ∃ token used, spot.Heads token (used ++ next.rest) := by
  cases form with
  | literal kinds =>
    obtain ⟨token, hToken, rfl⟩ := Reply.of_map_eq_found hFound
    have hKind := Spot.kind_of_expectKinds hToken
    obtain ⟨gap, hRest, layout, -, -⟩ := Spot.gap_of_expect hToken
    refine ⟨token, [], gap, hRest, layout, ?_⟩
    simpa using List.all_eq_true.mp hForm _ hKind
  | oneOf rules =>
    obtain ⟨other, hOther, tree, hTree⟩ := exists_of_seekFirst rules hFound
    exact hRules other (List.all_eq_true.mp hForm other hOther) tree commits next hTree
  | sequence standing parts =>
    cases parts with
    | nil => cases hForm
    | cons part parts =>
      rw [Form.isFenced, Bool.and_eq_true, decide_eq_true_eq] at hForm
      obtain ⟨texts, hTexts, hPart⟩ := exists_opening hForm.1
      obtain ⟨keep, hPart⟩ := hPart (seekRule bound) bound ⟨rule, standing, line⟩ ⟨false, false⟩
      obtain ⟨fields, hFields, rfl⟩ := Reply.of_map_eq_found hFound
      rw [seekParts_cons, hPart, Reply.either_either, Reply.either_eq_found] at hFields
      rcases hFields with ⟨token, _, middle, hToken, hMore⟩ | ⟨-, hMissing⟩
      · obtain ⟨behind, hBehind, -⟩ := Reply.of_map_eq_found hMore
        obtain ⟨heads, -⟩ := Spot.heads_of_expectOneOf hTexts hToken
        have hSpot : spot.nesting = spot.nesting + 0 := rfl
        obtain ⟨_, hStretch⟩ := stretch_of_brackets hSpot hTexts hToken
        have hDepth : depthBehind? 1 parts = some 0 := by
          simpa [Form.closes, depthBehind?, hForm.1] using hCloses
        have levels : Levels (seekRule bound) := levels_seekRule bound
        obtain ⟨used, hUsed⟩ := Levels.parts levels bound _ parts _ hStretch.nesting hDepth hBehind
        exact ⟨token, used, hUsed.rest ▸ heads⟩
      · rw [Setting.either_giveUp] at hMissing
        exact absurd hMissing Setting.giveUp_ne_found

/-- What is found of a rule that is one token or begins with a bracket begins with the first token
ahead. -/
theorem exists_head_of_found {bound : Nat} {rule : Rule} (hFenced : rule.isFenced = true)
    {tree : Tree rule} {commits : Bool} {next : Spot}
    (hFound : seekRule bound rule line spot = .found tree commits next) :
    ∃ token used, spot.Heads token (used ++ next.rest) := by
  induction bound generalizing rule commits next with
  | zero => cases hFound
  | succ bound ih =>
    obtain ⟨content, hContent, rfl⟩ := Reply.of_map_eq_found hFound
    exact exists_head_of_form (rule.isFenced_form hFenced) rule.closes_form
      (fun _ hOther _ _ _ hTree => ih hOther hTree) hContent

/-- What is found before more tokens, and ends before them, is found without them. -/
theorem Reply.of_followedBy_eq_found {reply : Reply α} {value : α} {commits : Bool} {next : Spot}
    (hFound : reply.followedBy tail = .found value commits (next.followedBy tail)) :
    reply = .found value commits next := by
  cases reply with
  | found value' commits' next' =>
    simp only [followedBy_found, found.injEq, Spot.followedBy, Spot.mk.injEq,
      List.append_cancel_right_eq] at hFound
    obtain ⟨rfl, rfl, hRest, hNesting⟩ := hFound
    rw [show next' = next from congrArg₂ Spot.mk hRest hNesting]
  | absent | failed => cases hFound

theorem Reply.of_followedBy_eq_absent {reply : Reply α} (hAbsent : reply.followedBy tail = .absent) :
    reply = .absent := by
  cases reply with
  | absent => rfl
  | found | failed => cases hAbsent

/-- What is found of such a rule is found as well where nothing follows it. -/
theorem found_of_followedBy {bound : Nat} {rule : Rule} (hFenced : rule.isFenced = true)
    {tree : Tree rule} {commits : Bool} {next : Spot}
    (hFound : seekRule bound rule line (spot.followedBy tail) =
      .found tree commits (next.followedBy tail)) :
    spot.Solid ∧ seekRule bound rule line spot = .found tree commits next := by
  obtain ⟨token, rest, gap, hHead, layout, hSolid⟩ := exists_head_of_found hFenced hFound
  obtain ⟨used, stretch⟩ := levels_seekRule bound hFound
  have hRest : spot.rest = gap ++ token :: (rest ++ next.rest) :=
    (List.append_left_inj tail).mp (by simpa using hHead)
  have hUsed : used = gap ++ token :: rest :=
    (List.append_left_inj (next.rest ++ tail)).mp (by simpa using stretch.rest.symm.trans hHead)
  have fenced : spot.Fenced := by
    refine ⟨token, rest ++ next.rest, ⟨gap, hRest, layout, hSolid⟩, Closes.of_turns ?_⟩
    have hTurns := stretch.turns
    have hStays := stretch.stays
    rw [hUsed, turns_append, turns_cons, layout.turns] at hTurns
    rw [hUsed, stays_append, layout.turns] at hStays
    have hHere := hStays.2.2.nonneg
    rw [nestingAfter_eq_toNat]
    omega
  have hSame := (followedBy_seekRule hFenced fenced).symm.trans hFound
  exact ⟨fenced.solid, Reply.of_followedBy_eq_found hSame⟩

/-- What follows at the end of a stretch follows at its start. -/
theorem Stretch.eq_followedBy {start depth depth' : Nat} {middle next : Spot} {used : List Token}
    (stretch : Stretch line start depth depth' middle (next.followedBy tail) used) :
    middle = (⟨used ++ next.rest, middle.nesting⟩ : Spot).followedBy tail :=
  congrArg (Spot.mk · middle.nesting) (by simpa using stretch.rest)

/-- Where a token other than layout is found before the added tokens, the spot has such a token of
its own. -/
theorem Spot.solid_of_expect {overLines : Bool} {test : Token → Bool} {token : Token} {commits : Bool}
    {next : Spot} (hFound : (spot.followedBy tail).expect line overLines test =
      .found token commits (next.followedBy tail))
    (hSolid : token.kind.isLayout = false) : spot.Solid := by
  obtain ⟨gap, hRest, -⟩ := Spot.gap_of_expect hFound
  have hSpot : spot.rest = gap ++ token :: next.rest :=
    (List.append_left_inj tail).mp (by simpa using hRest)
  exact ⟨token, hSpot ▸ List.mem_append_right _ List.mem_cons_self, hSolid⟩

/-- There are no parameters where only layout is left, since they begin with a bracket. -/
theorem parameters_of_layout {bound : Nat} (hLayout : ∀ token ∈ spot.rest, token.kind.isLayout = true) :
    seekRule (bound + 1) .parameters none spot = .absent := by
  have hVisible : spot.visible none true = [] := by
    refine List.dropWhile_eq_nil_iff.mpr fun token hToken => ?_
    rcases Kind.isLayout_iff.mp (hLayout token hToken) with hKind | hKind <;>
      simp [Spot.passes, hKind]
  have hOpening : spot.expectOneOf none ["("] = .absent := by
    rw [Spot.expectOneOf, Spot.expect, hVisible]
  simp only [seekRule, seekForm, Rule.form, seekParts, hOpening, Setting.giveUp_uncommitted]
  rfl

/-- A component is found as well where only layout follows it. -/
theorem component_of_followedBy {bound : Nat} {tree : Tree .component} {commits : Bool} {next : Spot}
    (hLayout : ∀ token ∈ next.rest, token.kind.isLayout = true)
    (hFound : seekRule bound .component none (spot.followedBy tail) =
      .found tree commits (next.followedBy tail)) :
    spot.Solid ∧ seekRule bound .component none spot = .found tree commits next := by
  cases bound with
  | zero => cases hFound
  | succ bound =>
    simp only [seekRule, seekForm, Rule.form, seekParts] at hFound ⊢
    cases hEntity : seekRule bound .entity none (spot.followedBy tail) with
    | absent | failed =>
      rw [hEntity] at hFound
      cases hFound
    | found entity passes middle =>
      simp only [hEntity] at hFound
      cases hParameters : seekRule bound .parameters none middle with
      | failed =>
        rw [hParameters] at hFound
        cases hFound
      | absent =>
        simp only [hParameters] at hFound
        obtain ⟨rfl, rfl, rfl⟩ := hFound
        obtain ⟨solid, hHere⟩ := found_of_followedBy rfl hEntity
        refine ⟨solid, ?_⟩
        cases bound with
        | zero => cases hEntity
        | succ bound =>
          simp only [hHere, parameters_of_layout hLayout]
          rfl
      | found parameters commits' last =>
        simp only [hParameters] at hFound
        obtain ⟨rfl, rfl, rfl⟩ := hFound
        obtain ⟨used, stretch⟩ := levels_seekRule bound hParameters
        rw [stretch.eq_followedBy] at hEntity hParameters
        obtain ⟨solid, hHere⟩ := found_of_followedBy rfl hEntity
        obtain ⟨-, hBehind⟩ := found_of_followedBy rfl hParameters
        refine ⟨solid, ?_⟩
        simp only [hHere, hBehind]
        rfl

/-- A document is found as well where only layout follows it. -/
theorem document_of_followedBy {bound : Nat} {tree : Tree .document} {commits : Bool} {next : Spot}
    (hLayout : ∀ token ∈ next.rest, token.kind.isLayout = true)
    (hFound : seekRule bound .document none (spot.followedBy tail) =
      .found tree commits (next.followedBy tail)) :
    seekRule bound .document none spot = .found tree commits next := by
  cases bound with
  | zero => cases hFound
  | succ bound =>
    simp only [seekRule, seekForm, Rule.form, seekParts] at hFound ⊢
    cases hComment : (spot.followedBy tail).expectKind none .comment with
    | failed =>
      rw [hComment] at hFound
      cases hFound
    | absent =>
      simp only [hComment] at hFound
      cases hComponent : seekRule bound .component none (spot.followedBy tail) with
      | absent | failed =>
        rw [hComponent] at hFound
        cases hFound
      | found component passes last =>
        simp only [hComponent] at hFound
        obtain ⟨rfl, rfl, rfl⟩ := hFound
        obtain ⟨solid, hHere⟩ := component_of_followedBy hLayout hComponent
        have hNone : spot.expectKind none .comment = .absent :=
          Reply.of_followedBy_eq_absent ((solid.expect _ _).symm.trans hComment)
        simp only [hNone, hHere]
        rfl
    | found comment passes middle =>
      simp only [hComment] at hFound
      cases hComponent : seekRule bound .component none middle with
      | absent | failed =>
        rw [hComponent] at hFound
        cases hFound
      | found component commits' last =>
        simp only [hComponent] at hFound
        obtain ⟨rfl, rfl, rfl⟩ := hFound
        obtain ⟨used, stretch⟩ := levels_seekRule bound hComponent
        rw [stretch.eq_followedBy] at hComment hComponent
        have hKind := Spot.kind_of_expectKind hComment
        have solid := Spot.solid_of_expect hComment (by rw [hKind]; rfl)
        have hThere : spot.expectKind none .comment = .found comment passes _ :=
          Reply.of_followedBy_eq_found ((solid.expect _ _).symm.trans hComment)
        simp only [hThere, (component_of_followedBy hLayout hComponent).2]
        rfl

end

end DocumentLanguage
