import DocumentLanguage.Interchange.Load

/-!
How deep a value nests, and what a reader answers who counts the levels: beyond those that it has
left there is no other fault.
-/
namespace DocumentLanguage

namespace Json

mutual

def depth : Json → Nat
  | array items => items.depth + 1
  | object members => members.depth + 1
  | null | bool _ | integer _ | float _ | string _ => 0

def Items.depth : Items → Nat
  | .nil => 0
  | .cons item rest => max item.depth rest.depth

def Members.depth : Members → Nat
  | .nil => 0
  | .cons _ value rest => max value.depth rest.depth

end

end Json

namespace Interchange

open Json

/-- What follows a result goes on from it, without a fault coming between. -/
theorem ok_bind {α β : Type} (result : α) (next : α → Except Fault β) :
    (Except.ok result >>= next) = next result := rfl

/-- Whether so many levels may still come. -/
def Origin.admits : Origin → Nat → Bool
  | text left, depth => depth ≤ left
  | value, _ => true

/-- What comes of reading something that nests so deep: nothing but the depth is a fault. -/
def Origin.answer {α : Type} (origin : Origin) (depth : Nat) (result : α) : Except Fault α :=
  if origin.admits depth then .ok result else .error .tooDeep

namespace Origin

variable {α β : Type}

@[simp] theorem answer_zero (origin : Origin) (result : α) : origin.answer 0 result = .ok result := by
  cases origin <;> rfl

/-- A value a level further down is answered as deep by one more than what is inside of it. -/
theorem enter_answer (origin : Origin) (depth : Nat) (result : α) :
    (origin.enter >>= fun inner => inner.answer depth result) = origin.answer (depth + 1) result := by
  cases origin with
  | value => rfl
  | text left =>
    cases left with
    | zero => rfl
    | succ left =>
      calc (text left).answer depth result
        _ = (text (left + 1)).answer (depth + 1) result := by
          simp only [answer, admits, Nat.add_le_add_iff_right]
          rfl

/-- What comes behind a result that is admitted is asked for that result only. -/
theorem answer_bind_of_eq (origin : Origin) (first second : Nat) (result : α)
    {next : α → Except Fault β} {final : β} (hNext : next result = origin.answer second final) :
    (origin.answer first result >>= next) = origin.answer (max first second) final := by
  cases origin with
  | value => exact hNext
  | text left =>
    rw [answer] at hNext ⊢
    by_cases hFirst : first ≤ left
    · have hMax : (text left).admits (max first second) = (text left).admits second := by
        have hBoth : max first second ≤ left ↔ second ≤ left := by omega
        simp only [admits, hBoth]
      rw [answer, hMax, ← hNext, if_pos (by simpa [admits] using hFirst)]
      rfl
    · have hMax : ¬(text left).admits (max first second) := by
        have hMore : ¬max first second ≤ left := by omega
        simpa only [admits, decide_eq_true_eq] using hMore
      rw [answer, if_neg hMax, if_neg (by simpa [admits] using hFirst)]
      rfl

theorem map_answer (origin : Origin) (depth : Nat) (result : α) (build : α → β) :
    build <$> origin.answer depth result = origin.answer depth (build result) := by
  rw [answer, answer]
  split <;> rfl

end Origin

end Interchange

end DocumentLanguage
