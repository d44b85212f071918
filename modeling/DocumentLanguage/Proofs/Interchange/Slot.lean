import DocumentLanguage.Interchange.Slot

/-!
Filling slots in any order. While the members of an object are read, the slots whose labels are
still to come are empty and all others hold what they will hold in the end.
-/
namespace DocumentLanguage

def Filled.get : {slots : List Slot} → {datum : Datum} → SlotIn slots datum → Filled slots →
    datum.Value
  | _, _, .here, filled => filled.1
  | _, _, .there place, filled => get place filled.2

namespace Held

/-- What the slots hold while the values for some labels are still to come. -/
def awaiting (labels : List String) : {slots : List Slot} → Filled slots → Held slots
  | [], _ => PUnit.unit
  | slot :: _, filled =>
    (if slot.label ∈ labels then none else some filled.1, awaiting labels filled.2)

variable {labels : List String}

/-- Slots that all wait are empty. -/
theorem awaiting_all : {slots : List Slot} → (filled : Filled slots) →
    (∀ slot ∈ slots, slot.label ∈ labels) → awaiting labels filled = empty slots
  | [], _, _ => rfl
  | slot :: slots, filled, hAll => by
    rw [awaiting, if_pos (hAll slot List.mem_cons_self),
      awaiting_all filled.2 fun other hOther => hAll other (List.mem_cons_of_mem _ hOther)]
    rfl

/-- Slots of which none waits any more are finished, with what they were to be filled with. -/
theorem finish_awaiting_nil : {slots : List Slot} → (filled : Filled slots) →
    finish slots (awaiting [] filled) = .ok filled
  | [], _ => rfl
  | slot :: slots, filled => by
    simp only [awaiting, finish, List.not_mem_nil, if_false, finish_awaiting_nil filled.2]
    rfl

/-- Where there are no slots nothing is missing, and the record is finished at once. -/
theorem finish_empty {slots : List Slot} (hNone : slots = []) :
    ∃ filled, finish slots (empty slots) = .ok filled := by
  subst hNone
  exact ⟨_, rfl⟩

/-- A slot that still waits has nothing in it yet. -/
theorem get_awaiting {label : String} : {slots : List Slot} → {found : Σ datum, SlotIn slots datum} →
    (filled : Filled slots) → SlotIn.find? label slots = some found →
    label ∈ labels → (awaiting labels filled).get found.2 = none
  | [], _, _, hFound, _ => nomatch hFound
  | slot :: slots, found, filled, hFound, hAwaited => by
    rw [SlotIn.find?] at hFound
    split at hFound
    · subst ‹slot.label = label›
      cases hFound
      simp [awaiting, get, hAwaited]
    · obtain ⟨inner, hInner, rfl⟩ := Option.map_eq_some_iff.mp hFound
      exact get_awaiting filled.2 hInner hAwaited

/-- Labels that no slot has make no difference to what is waited for. -/
theorem awaiting_cons_of_ne {label : String} : {slots : List Slot} → (filled : Filled slots) →
    label ∉ slots.map Slot.label → awaiting (label :: labels) filled = awaiting labels filled
  | [], _, _ => rfl
  | slot :: slots, filled, hNone => by
    rw [List.map_cons, List.mem_cons, not_or] at hNone
    simp only [awaiting, List.mem_cons, Ne.symm hNone.1, false_or,
      awaiting_cons_of_ne filled.2 hNone.2]
    rfl

/-- Once the value for a label has come the slots wait for the other labels only. -/
theorem set_awaiting {label : String} : {slots : List Slot} → {found : Σ datum, SlotIn slots datum} →
    (filled : Filled slots) → SlotIn.find? label slots = some found →
    (slots.map Slot.label).Nodup → label ∉ labels →
    (awaiting (label :: labels) filled).set found.2 (filled.get found.2) = awaiting labels filled
  | [], _, _, hFound, _, _ => nomatch hFound
  | slot :: slots, found, filled, hFound, hLabels, hNew => by
    rw [List.map_cons, List.nodup_cons] at hLabels
    rw [SlotIn.find?] at hFound
    split at hFound
    · subst ‹slot.label = label›
      cases hFound
      simp only [awaiting, set, Filled.get, if_neg hNew, awaiting_cons_of_ne filled.2 hLabels.1]
      rfl
    · obtain ⟨inner, hInner, rfl⟩ := Option.map_eq_some_iff.mp hFound
      simp only [awaiting, set, Filled.get, List.mem_cons, ‹¬slot.label = label›, false_or,
        set_awaiting filled.2 hInner hLabels.2 hNew]
      rfl

end Held

/-- A label that belongs to a slot further on is found there. -/
theorem SlotIn.find?_cons_of_ne {label : String} {slot : Slot} {slots : List Slot}
    {found : Σ datum, SlotIn slots datum} (hOther : slot.label ≠ label)
    (hFound : find? label slots = some found) :
    find? label (slot :: slots) = some ⟨found.1, .there found.2⟩ := by
  rw [find?, if_neg hOther, hFound]
  rfl

def Fields.filled : {fields : List Field} → Fields fields → Filled (fields.map Field.slot)
  | _, .nil => PUnit.unit
  | _, .text kept rest => (kept, rest.filled)
  | _, .optionalText kept rest => (kept, rest.filled)
  | _, .child tree rest => (tree, rest.filled)
  | _, @Fields.absent _ rule _ rest => ((none : Option (Tree rule)), rest.filled)
  | _, .present tree rest => (some tree, rest.filled)
  | _, .many trees rest => (trees, rest.filled)

@[simp] theorem Fields.ofFilled_filled : {fields : List Field} → (kept : Fields fields) →
    Fields.ofFilled fields kept.filled = kept
  | _, .nil => rfl
  | _, .text _ rest | _, .optionalText _ rest | _, .child _ rest | _, .absent rest
  | _, .present _ rest | _, .many _ rest => by
    simp only [filled, ofFilled, rest.ofFilled_filled]

end DocumentLanguage
