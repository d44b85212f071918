import DocumentLanguage.Proofs.Parse.Budget
import DocumentLanguage.Proofs.Parse.Unbounded

/-!
Larger budgets. A reading that does not run out of its budget gives the same under a larger one and
leaves the reader in the same state. While documents are read no budget runs out: wherever a rule is
asked for, what is left of the budget is more than the tokens ahead can use up.
-/
namespace DocumentLanguage

open Cursor

/-- Wherever a reading does not run out of its budget, another one does the same. -/
def Reading.ExtendsTo {α : Type} (reading other : Reading α) : Prop :=
  ∀ cursor, (reading.exec cursor).1 ≠ .error .exhausted →
    other.exec cursor = reading.exec cursor

/-- What holds of one way to read rules whose budget has not run out holds of another. -/
def RuleReader.ExtendsTo (read other : RuleReader) : Prop :=
  ∀ rule owner, (read rule owner).ExtendsTo (other rule owner)

namespace Reading.ExtendsTo

variable {α β : Type} {reading other : Reading α}

theorem refl (reading : Reading α) : reading.ExtendsTo reading :=
  fun _ _ => rfl

/-- A reading that has run out of its budget goes no further, so that any other reading may take its
place with a larger one. -/
theorem exhausted : (throw .exhausted : Reading α).ExtendsTo other :=
  fun _ hEnough => absurd rfl hEnough

/-- One reading and then another are the same under a larger budget if each is, as long as neither
has run out. -/
theorem bind {next next' : α → Reading β} (first : reading.ExtendsTo other)
    (behind : ∀ value, (next value).ExtendsTo (next' value)) :
    (reading >>= next).ExtendsTo (other >>= next') := by
  intro cursor hEnough
  rw [exec_bind] at hEnough
  rcases hRun : reading.exec cursor with ⟨outcome, after⟩
  rw [hRun] at hEnough
  have hOther : other.exec cursor = (outcome, after) := by
    rw [← hRun]
    refine first cursor fun hError => ?_
    rw [hRun] at hError
    dsimp only at hError
    subst hError
    exact hEnough rfl
  rw [exec_bind, exec_bind, hRun, hOther]
  cases outcome with
  | ok value => exact behind value after hEnough
  | error failure => rfl

/-- What is kept of a reading has no part in its budget. -/
theorem keeping {reading other : Reading (Outcome α)} (extends' : reading.ExtendsTo other)
    (keep : α → β) :
    (keeping keep reading).ExtendsTo (DocumentLanguage.keeping keep other) :=
  extends'.bind fun _ => .refl _

/-- Reading within a statement line costs the budget nothing of its own. -/
theorem withinLine (extends' : reading.ExtendsTo other) :
    (withinLine reading).ExtendsTo (withinLine other) := by
  intro cursor hEnough
  rw [exec_withinLine] at hEnough
  rw [exec_withinLine, exec_withinLine, extends' _ hEnough]

end Reading.ExtendsTo

section

variable {read other : RuleReader}

/-- The alternatives are the same under a larger budget if the rules are, since each of them gets
all of what is left. -/
theorem extendsTo_readFirst (extends' : read.ExtendsTo other) (owner : Option Attempt)
    (rules : List Rule) : (readFirst read owner rules).ExtendsTo (readFirst other owner rules) := by
  induction rules generalizing owner with
  | nil => exact .refl _
  | cons rule rules ih =>
    unfold readFirst
    refine (extends' rule owner).bind ?_
    rintro ⟨tree, after⟩
    cases tree with
    | some tree => exact .refl _
    | none => exact (ih after).bind fun _ => .refl _

/-- A loop with a larger bound reads the same nodes. The smaller bound either sufficed or was the
end of the reading. -/
theorem extendsTo_readMany (extends' : read.ExtendsTo other) (rule : Rule) {bound more : Nat}
    (hMore : bound ≤ more) : (readMany read rule bound).ExtendsTo (readMany other rule more) := by
  induction bound generalizing more with
  | zero => exact .exhausted
  | succ bound ih =>
    obtain ⟨more, rfl⟩ : ∃ less, more = less + 1 := ⟨more - 1, by omega⟩
    unfold readMany
    refine (extends' rule none).bind ?_
    rintro ⟨tree, owner⟩
    cases tree with
    | some tree => exact (ih (Nat.le_of_succ_le_succ hMore)).bind fun _ => .refl _
    | none => exact .refl _

/-- A part is read the same under a larger budget, which also bounds how often it may be repeated.
-/
theorem extendsTo_readPart (extends' : read.ExtendsTo other) {bound more : Nat}
    (hMore : bound ≤ more) (stage : Stage) (part : Part) :
    (readPart read bound stage part).ExtendsTo (readPart other more stage part) := by
  have hMany := fun rule => extendsTo_readMany extends' rule hMore
  cases part with
  | keyword text | delimiter text | newline | choice label choice | token label kind
  | optionalToken label kind | commit => exact .refl _
  | child label rule => exact (extends' rule stage.own).bind fun _ => .refl _
  | line label rule =>
    unfold readPart
    exact (Reading.ExtendsTo.refl _).bind fun _ =>
      (extends' rule none).withinLine.bind fun _ => .refl _
  | optional label rule => exact (extends' rule none).bind fun _ => .refl _
  | many label rule => exact (hMany rule).bind fun _ => .refl _
  | some label rule =>
    unfold readPart
    refine (extends' rule none).bind ?_
    rintro ⟨tree, own⟩
    cases tree with
    | some tree => exact (Reading.ExtendsTo.refl _).bind fun _ => (hMany rule).bind fun _ => .refl _
    | none => exact .refl _

/-- The parts of a sequence are read the same under a larger budget, each behind those before it. -/
theorem extendsTo_readParts (extends' : read.ExtendsTo other) {bound more : Nat}
    (hMore : bound ≤ more) (parts : List Part) (stage : Stage) :
    (readParts read bound parts stage).ExtendsTo (readParts other more parts stage) := by
  induction parts generalizing stage with
  | nil => exact .refl _
  | cons part parts ih =>
    rw [readParts_cons, readParts_cons]
    refine (extendsTo_readPart extends' hMore stage part).bind ?_
    rintro ⟨kept, after⟩
    cases kept with
    | some kept => exact (ih after).keeping _
    | none => exact .refl _

theorem extendsTo_readForm (extends' : read.ExtendsTo other) {bound more : Nat}
    (hMore : bound ≤ more) (rule : Rule) (owner : Option Attempt) (form : Form) :
    (readForm read bound rule owner form).ExtendsTo (readForm other more rule owner form) := by
  cases form with
  | literal kinds => exact .refl _
  | oneOf rules => exact extendsTo_readFirst extends' owner rules
  | sequence standing parts =>
    cases hAttempt : standing.isAttempt <;> simp only [readForm, hAttempt] <;>
      exact (Reading.ExtendsTo.refl _).bind fun own =>
        (extendsTo_readParts extends' hMore parts ⟨own, owner, standing.isBody⟩).keeping _

end

/-- What is read with one budget is read with any larger one. -/
theorem extendsTo_readRule {bound more : Nat} (hMore : bound ≤ more) :
    (readRule bound).ExtendsTo (readRule more) := by
  induction bound generalizing more with
  | zero => exact fun _ _ => .exhausted
  | succ bound ih =>
    obtain ⟨more, rfl⟩ : ∃ less, more = less + 1 := ⟨more - 1, by omega⟩
    have hLess := Nat.le_of_succ_le_succ hMore
    exact fun rule owner =>
      (extendsTo_readForm (ih hLess) hLess rule owner rule.form).keeping _

end DocumentLanguage
