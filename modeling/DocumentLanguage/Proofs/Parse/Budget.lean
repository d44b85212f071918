import DocumentLanguage.Proofs.Grammar.Lead
import DocumentLanguage.Proofs.Grammar.Nested
import DocumentLanguage.Proofs.Parse.Document
import DocumentLanguage.Proofs.Parse.Sound
import DocumentLanguage.Proofs.Parse.Step

/-!
The budget of a reading is never used up. Only so many rules can be asked for inside one another
before a token is read, which the forms of the rules tell, and behind a token there is one token
less to read.
-/
namespace DocumentLanguage

/-- The rules that may be asked for before a token of a sequence is read. -/
def opensOf : List Part → List Rule
  | [] => []
  | part :: parts => part.rule?.toList ++ if part.mayBeEmpty then opensOf parts else []

/-- The rules that may be asked for before a token of a form is read. -/
def Form.opens : Form → List Rule
  | literal _ => []
  | oneOf rules => rules
  | sequence _ parts => opensOf parts

/-- How many rules may be open inside one another before a token is read, counted through so many
of them. -/
def Rule.rankWithin : Nat → Rule → Nat
  | 0, _ => 0
  | bound + 1, rule => (rule.form.opens.map (rankWithin bound)).foldl max 0 + 1

/-- How many rules may be open inside one another before a token of a rule is read. -/
def Rule.rank (rule : Rule) : Nat :=
  rule.rankWithin 12

/-- No rule comes back to itself before a token is read. -/
theorem Rule.rank_lt_of_opens (rule : Rule) : ∀ first ∈ rule.form.opens, first.rank < rule.rank := by
  cases rule <;> decide

/-- The budget allows for more rules inside one another at one token than any rule can ask for. -/
theorem Rule.rank_lt (rule : Rule) : rule.rank < nestingPerToken := by
  cases rule <;> decide

/-- A part that repeats a rule repeats one that reads something. -/
def Part.repeatsSome : Part → Bool
  | many _ rule | some _ rule => !rule.mayBeEmpty
  | _ => true

def Form.steps : Form → List Part
  | sequence _ parts => parts
  | literal _ | oneOf _ => []

theorem Rule.repeatsSome_steps (rule : Rule) : rule.form.steps.all Part.repeatsSome = true := by
  cases rule <;> decide

/-- The least number of tokens that something takes which may be empty or may not. -/
def leastTaken (mayBeEmpty : Bool) : Nat :=
  if mayBeEmpty then 0 else 1

/-- What may be empty takes no more than what may not, so that a bound for the one holds for the
other. -/
theorem leastTaken_le {first second : Bool} (hEmpty : first = true → second = true) :
    leastTaken second ≤ leastTaken first := by
  cases first with
  | true => simp [hEmpty rfl]
  | false =>
      unfold leastTaken
      split <;> simp

/-- A reply that another agrees with and that no budget is missing for. What it finds takes at
least so many tokens. -/
structure Reply.Sure {α : Type} (least : Nat) (spot : Spot) (reply other : Reply α) : Prop where
  same : other = reply
  takes : ∀ value commits next, reply = .found value commits next →
    next.rest.length + least ≤ spot.rest.length
  enough : ∀ next, reply ≠ .failed .exhausted next

namespace Reply.Sure

variable {α β : Type} {least more : Nat} {spot : Spot} {reply other : Reply α}

theorem found {value : α} {commits : Bool} {next : Spot}
    (hTakes : next.rest.length + least ≤ spot.rest.length) :
    Reply.Sure least spot (.found value commits next) (.found value commits next) where
  same := rfl
  takes := by
    rintro _ _ _ ⟨⟩
    exact hTakes
  enough := nofun

theorem absent : Reply.Sure least spot (.absent : Reply α) .absent where
  same := rfl
  takes := nofun
  enough := nofun

/-- What goes on from a reply that is sure is sure if that is. -/
theorem either (sure : reply.Sure least spot other) {there there' : α → Bool → Spot → Reply β}
    {missing missing' : Reply β}
    (hThere : ∀ value commits next, next.rest.length + least ≤ spot.rest.length →
      (there value commits next).Sure more spot (there' value commits next))
    (hMissing : missing.Sure more spot missing') :
    (reply.either there missing).Sure more spot (other.either there' missing') := by
  rw [sure.same]
  cases reply with
  | found value commits next => exact hThere value commits next (sure.takes value commits next rfl)
  | absent => exact hMissing
  | failed failure next =>
      refine ⟨rfl, nofun, ?_⟩
      rintro last ⟨⟩
      exact sure.enough next rfl

theorem map (sure : reply.Sure least spot other) (f : α → β) :
    (reply.map f).Sure least spot (other.map f) := by
  rw [Reply.map_eq_either, Reply.map_eq_either]
  exact sure.either (fun _ _ _ hTakes => .found hTakes) .absent

/-- A reply about a later spot is one about an earlier spot, with what was taken in between. -/
theorem before {start : Spot} {taken : Nat} (sure : reply.Sure least spot other)
    (hTaken : spot.rest.length + taken ≤ start.rest.length) (hMore : more ≤ taken + least) :
    reply.Sure more start other where
  same := sure.same
  takes := by
    intro value commits next hFound
    have hTakes := sure.takes value commits next hFound
    omega
  enough := sure.enough

/-- Less may always be asked of what is found than it takes. -/
theorem weaken (sure : reply.Sure least spot other) (hMore : more ≤ least) :
    reply.Sure more spot other :=
  sure.before (Nat.le_of_eq (Nat.add_zero _)) (by omega)

end Reply.Sure

namespace Spot

theorem length_visible_le (line : Line) (overLines : Bool) (spot : Spot) :
    (spot.visible line overLines).length ≤ spot.rest.length :=
  (List.dropWhile_suffix _).length_le

/-- Looking for a token takes a token or nothing at all, and it uses no budget, whatever the test
is. -/
theorem sure_expect (line : Line) (overLines : Bool) (test : Token → Bool) (spot : Spot) :
    (spot.expect line overLines test).Sure 1 spot (spot.expect line overLines test) where
  same := rfl
  takes := by
    intro token commits next hFound
    have hLength := length_visible_le line overLines spot
    rw [(of_expect_eq_found hFound).1, List.length_cons] at hLength
    exact hLength
  enough := by
    intro next hFailed
    simp only [expect] at hFailed
    split at hFailed
    · cases hFailed
    · split at hFailed
      · cases hFailed
      · split at hFailed <;> cases hFailed

/-- A rule that cannot be completed fails for what is there, never for want of a budget. -/
theorem failure_ne_exhausted (rule : Rule) (spot : Spot) : spot.failure rule ≠ .exhausted := by
  unfold failure
  split
  · nofun
  · split <;> nofun

theorem length_behindLayout_le (spot : Spot) : spot.behindLayout.rest.length ≤ spot.rest.length :=
  (List.dropWhile_suffix _).length_le

end Spot

/-- Giving up a sequence takes no tokens, and where it fails that is not for want of a budget. -/
theorem Setting.sure_giveUp {α : Type} (setting : Setting) (progress : Progress)
    (start spot : Spot) (least : Nat) :
    (setting.giveUp progress spot : Reply α).Sure least start (setting.giveUp progress spot) := by
  unfold giveUp Spot.giveUp
  split
  · refine ⟨rfl, nofun, fun next hFailed => ?_⟩
    injection hFailed with hFailure
    exact Spot.failure_ne_exhausted _ _ hFailure
  · exact .absent

/-- What a seeker finds under a limit, another one finds as well. -/
def SureWithin (limit : Nat) (seek other : Seeker) : Prop :=
  ∀ rule line spot, nestingPerToken * spot.rest.length + rule.rank < limit →
    (seek rule line spot).Sure (leastTaken rule.mayBeEmpty) spot (other rule line spot)

namespace SureWithin

variable {limit : Nat} {seek other : Seeker}

/-- The first of several rules is found within the budget if each of them is, as all are asked for
at the same spot. -/
theorem first (sure : SureWithin limit seek other) {line : Line} {spot : Spot} {mayBeEmpty : Bool}
    (rules : List Rule)
    (hRules : ∀ rule ∈ rules, nestingPerToken * spot.rest.length + rule.rank < limit)
    (hEmpty : ∀ rule ∈ rules, rule.mayBeEmpty = true → mayBeEmpty = true) :
    (seekFirst seek line spot rules).Sure (leastTaken mayBeEmpty) spot
      (seekFirst other line spot rules) := by
  induction rules with
  | nil => exact .absent
  | cons rule rules ih =>
      simp only [List.mem_cons, forall_eq_or_imp] at hRules hEmpty
      rw [seekFirst_cons, seekFirst_cons]
      refine (sure rule line spot hRules.1).either ?_ ((ih hRules.2 hEmpty.2).map _)
      intro tree commits next hTakes
      have hLeast := leastTaken_le hEmpty.1
      exact .found (by omega)

/-- Every round takes a token, so that there are not more rounds than tokens. -/
theorem many (sure : SureWithin limit seek other) {line : Line} {rule : Rule}
    (hSome : rule.mayBeEmpty = false) {bound bound' : Nat} {spot : Spot}
    (hLimit : nestingPerToken * spot.rest.length + rule.rank < limit)
    (hBound : spot.rest.length < bound) (hMore : bound ≤ bound') :
    (seekMany seek line rule bound spot).Sure 0 spot (seekMany other line rule bound' spot) := by
  induction bound generalizing bound' spot with
  | zero => omega
  | succ bound ih =>
      obtain ⟨bound', rfl⟩ : ∃ more, bound' = more + 1 := ⟨bound' - 1, by omega⟩
      rw [seekMany_succ, seekMany_succ]
      refine (sure rule line spot hLimit).either ?_ (.found (Nat.le_refl _))
      intro tree commits next hTakes
      simp only [leastTaken, hSome, Bool.false_eq_true, if_false] at hTakes
      have hNext : nestingPerToken * next.rest.length ≤ nestingPerToken * spot.rest.length :=
        Nat.mul_le_mul_left _ (by omega)
      exact ((ih (by omega) (by omega) (by omega)).before hTakes (by omega)).map _

/-- A part is found within the budget of its rule. Where a token has been read it may be any
part, else one that asks only for rules of a lower rank. -/
theorem part (sure : SureWithin limit seek other) {bound bound' : Nat} (hBound : bound ≤ bound')
    (hLimit : limit ≤ bound) (setting : Setting) (progress : Progress) {spot : Spot} (part : Part)
    (hRepeats : part.repeatsSome = true)
    (hRules : ∀ rule ∈ part.rule?, nestingPerToken * spot.rest.length + rule.rank < limit) :
    (seekPart seek bound setting progress spot part).Sure (leastTaken part.mayBeEmpty) spot
      (seekPart other bound' setting progress spot part) := by
  have hFixed : ∀ {α β : Type} {reply : Reply α} {there : α → Spot → β},
      reply.Sure 1 spot reply →
        (reply.either (fun value _ next => .found (there value next) false next)
          (setting.giveUp progress spot)).Sure 1 spot
        (reply.either (fun value _ next => .found (there value next) false next)
          (setting.giveUp progress spot)) :=
    fun hReply => hReply.either (fun _ _ _ hTakes => .found hTakes) (setting.sure_giveUp _ _ _ _)
  have hLess : ∀ rule ∈ part.rule?, spot.rest.length < bound := by
    intro rule hRule
    have hHere := hRules rule hRule
    unfold nestingPerToken at hHere
    omega
  cases part with
  | keyword text | delimiter text | choice label choice => exact hFixed (Spot.sure_expect _ _ _ _)
  | newline | token label kind => exact hFixed (Spot.sure_expect _ _ _ _)
  | optionalToken label kind =>
      refine (Spot.sure_expect _ _ _ _).either (fun _ _ _ hTakes => .found ?_)
        (.found (Nat.le_refl _))
      exact Nat.le_of_succ_le hTakes
  | child label rule =>
      exact (sure rule _ _ (hRules rule rfl)).either (fun _ _ _ hTakes => .found hTakes)
        (setting.sure_giveUp _ _ _ _)
  | line label rule =>
      have hLength : spot.behindLayout.rest.length + 0 ≤ spot.rest.length :=
        spot.length_behindLayout_le
      have hSpot : nestingPerToken * spot.behindLayout.rest.length ≤
          nestingPerToken * spot.rest.length := Nat.mul_le_mul_left _ hLength
      have hRule := hRules rule rfl
      exact ((sure rule _ spot.behindLayout (by omega)).before hLength
        (Nat.le_of_eq (Nat.zero_add _).symm)).either (fun _ _ _ hTakes => .found hTakes)
          (setting.sure_giveUp _ _ _ _)
  | optional label rule =>
      exact (sure rule _ _ (hRules rule rfl)).either
        (fun _ _ _ hTakes => .found (Nat.le_of_add_right_le hTakes)) (.found (Nat.le_refl _))
  | many label rule =>
      have hSome : rule.mayBeEmpty = false := by simpa [Part.repeatsSome] using hRepeats
      exact (sure.many hSome (hRules rule rfl) (hLess rule rfl) hBound).either
        (fun _ _ _ hTakes => .found hTakes) .absent
  | some label rule =>
      have hSome : rule.mayBeEmpty = false := by simpa [Part.repeatsSome] using hRepeats
      have hRule := hRules rule rfl
      have hRest := hLess rule rfl
      refine (sure rule _ _ hRule).either ?_ (setting.sure_giveUp _ _ _ _)
      intro tree commits next hTakes
      have hNext : nestingPerToken * next.rest.length ≤ nestingPerToken * spot.rest.length :=
        Nat.mul_le_mul_left _ (Nat.le_of_add_right_le hTakes)
      exact ((sure.many hSome (by omega) (by omega) hBound).before hTakes (Nat.le_refl _)).either
        (fun _ _ _ hAll => .found hAll) .absent
  | commit => exact .found (Nat.le_refl _)

/-- The parts of a sequence are found within the budget of its rule. Before a token has been read
they ask only for rules of a lower rank; afterwards a token less is left. -/
theorem parts {bound bound' : Nat} (sure : SureWithin bound seek other) (hBound : bound ≤ bound')
    (setting : Setting) {start rank : Nat} (hStart : nestingPerToken * start + rank ≤ bound)
    (parts : List Part) (hRepeats : parts.all Part.repeatsSome = true) (progress : Progress)
    {spot : Spot} (taken : Nat) (hSpot : spot.rest.length + taken ≤ start)
    (hFirst : taken = 0 → ∀ rule ∈ opensOf parts, rule.rank < rank) :
    (seekParts seek bound setting parts progress spot).Sure
      (leastTaken (parts.all Part.mayBeEmpty)) spot
      (seekParts other bound' setting parts progress spot) := by
  induction parts generalizing taken progress spot with
  | nil => exact .found (Nat.le_refl _)
  | cons part parts ih =>
      rw [seekParts_cons, seekParts_cons]
      simp only [List.all_cons, Bool.and_eq_true] at hRepeats
      have hRules : ∀ rule ∈ part.rule?, nestingPerToken * spot.rest.length + rule.rank < bound := by
        intro rule hRule
        have hRank := rule.rank_lt
        have hMul : nestingPerToken * (spot.rest.length + taken) ≤ nestingPerToken * start :=
          Nat.mul_le_mul_left _ hSpot
        rw [Nat.mul_add] at hMul
        rcases Nat.eq_zero_or_pos taken with hNone | hSome
        · have hLower := hFirst hNone rule (by simp [opensOf, Option.mem_def.mp hRule])
          omega
        · have hToken : nestingPerToken ≤ nestingPerToken * taken := Nat.le_mul_of_pos_right _ hSome
          omega
      refine (sure.part hBound (Nat.le_refl _) setting progress part hRepeats.1 hRules).either ?_
        .absent
      intro kept commits next hTakes
      have hBehind : taken + leastTaken part.mayBeEmpty = 0 →
          ∀ rule ∈ opensOf parts, rule.rank < rank := by
        intro hNone rule hRule
        refine hFirst (by omega) rule ?_
        cases hEmpty : part.mayBeEmpty with
        | true => simp [opensOf, hEmpty, hRule]
        | false => simp [leastTaken, hEmpty] at hNone
      refine ((ih hRepeats.2 kept.2 _ (by omega) hBehind).before hTakes ?_).map _
      rw [List.all_cons]
      cases part.mayBeEmpty <;> cases parts.all Part.mayBeEmpty <;> simp [leastTaken]

/-- What a node of a rule holds is found within the budget of the rule. -/
theorem form {bound bound' : Nat} (sure : SureWithin bound seek other) (hBound : bound ≤ bound')
    {rule : Rule} {spot : Spot} (hLess : nestingPerToken * spot.rest.length + rule.rank ≤ bound)
    (line : Line) :
    (seekForm seek bound rule line spot rule.form).Sure (leastTaken rule.mayBeEmpty) spot
      (seekForm other bound' rule line spot rule.form) := by
  have hOpens := rule.rank_lt_of_opens
  have hRepeats := rule.repeatsSome_steps
  have hEmpty := rule.mayBeEmpty_of_form
  revert hOpens hRepeats hEmpty
  generalize rule.form = form
  intro hOpens hRepeats hEmpty
  cases form with
  | literal kinds =>
      exact ((Spot.sure_expect _ _ _ _).weaken (@leastTaken_le false _ nofun)).map _
  | oneOf rules =>
      refine sure.first rules ?_ ?_
      · intro first hFirst
        have hRank := hOpens first hFirst
        omega
      · intro first hFirst hMay
        exact hEmpty (List.any_eq_true.mpr ⟨first, hFirst, hMay⟩)
  | sequence standing parts =>
      exact ((sure.parts hBound _ hLess parts hRepeats _ 0 (Nat.le_refl _)
        fun _ => hOpens).weaken (leastTaken_le hEmpty)).map _

end SureWithin

/-- A budget that is enough for what lies at a spot gives what any larger one gives. -/
theorem sureWithin_seekRule (bound more : Nat) :
    SureWithin bound (seekRule bound) (seekRule (bound + more)) := by
  induction bound with
  | zero =>
      intro rule line spot hLess
      omega
  | succ bound ih =>
      intro rule line spot hLess
      rw [Nat.add_right_comm]
      exact (ih.form (Nat.le_add_right _ _) (by omega) line).map _

/-- Whatever budget is enough, the same is found. So a budget may be chosen once for all tokens and
be compared with any other that suffices. -/
theorem seekRule_eq_of_lt {bound more : Nat} {rule : Rule} {spot : Spot}
    (hLess : nestingPerToken * spot.rest.length + rule.rank < bound) (hMore : bound ≤ more)
    (line : Line) : seekRule more rule line spot = seekRule bound rule line spot := by
  obtain ⟨rest, rfl⟩ := Nat.le.dest hMore
  exact (sureWithin_seekRule bound rest rule line spot hLess).same

/-- The budget of a document is enough for any rule at its first token, with some to spare for what
surrounds it. -/
theorem needed_lt_readingBudget (tokens : List Token) (rule : Rule) :
    nestingPerToken * tokens.length + rule.rank < readingBudget tokens.length := by
  have hRank := rule.rank_lt
  unfold readingBudget
  rw [Nat.mul_add]
  omega

/-- A budget that is enough for a document is not used up. -/
theorem seekDocument_ne_exhausted {bound : Nat} {spot : Spot}
    (hLess : nestingPerToken * spot.rest.length + Rule.document.rank < bound) :
    seekDocument bound spot ≠ .error .exhausted := by
  have hSure := sureWithin_seekRule bound 0 .document none spot hLess
  rw [seekDocument]
  cases hReply : seekRule bound .document none spot with
  | found document commits next =>
      dsimp only
      cases next.behindLayout.rest with
      | nil => exact fun hError => by cases hError
      | cons token rest => by_cases hError : token.kind = .error <;> simp [hError]
  | absent =>
      intro hError
      injection hError with hFailure
      exact Spot.failure_ne_exhausted _ _ hFailure
  | failed failure next =>
      intro hError
      injection hError with hFailure
      subst hFailure
      exact hSure.enough next hReply

/-- No tokens are too many to be read, however deep their brackets nest: a document is read, or it
fails for a reason of its own. -/
theorem parseTokens_ne_exhausted (tokens : List Token) : parseTokens tokens ≠ .error .exhausted := by
  rw [parseTokens_eq]
  exact seekDocument_ne_exhausted (needed_lt_readingBudget tokens .document)

end DocumentLanguage
