import DocumentLanguage.Proofs.Interchange.Depth
import DocumentLanguage.Proofs.Interchange.Slot
import DocumentLanguage.Proofs.Json.Order

/-!
The members of an object and the slots they fill. A value restores a result if that result is
loaded from it however the members inside of it are ordered; members that each restore what
belongs into their slots fill the slots in any order.
-/
namespace DocumentLanguage.Interchange

open Json

def loadSlot (origin : Origin) (datum : Datum) (raw : Raw) : Except Fault datum.Value :=
  loadDatum origin (fun rule => loadTree rule origin raw) (fun rule => loadTrees rule origin raw)
    datum raw

/-- A member whose slot is still empty is loaded into it, and the members behind it find it filled.
-/
theorem loadMembers_cons (origin : Origin) {slots : List Slot} {held : Held slots} {key : String}
    {found : Σ datum, SlotIn slots datum} (hFound : SlotIn.find? key slots = some found)
    (hEmpty : held.get found.2 = none) (value : Raw) (rest : Raw.Members) :
    loadMembers slots origin (.cons (.ofText key) value rest) held =
      loadSlot origin found.1 value >>= fun loaded =>
        loadMembers slots origin rest (held.set found.2 loaded) := by
  obtain ⟨datum, place⟩ := found
  rw [loadMembers]
  simp [Lexeme.ofText, ok_bind, checkNew, hFound, hEmpty, loadSlot, loadTree]

/-- A member holds what belongs into the slot with its key. -/
def Suits (origin : Origin) {slots : List Slot} (filled : Filled slots)
    (member : String × Json) : Prop :=
  ∃ found, SlotIn.find? member.1 slots = some found ∧
    loadSlot origin found.1 member.2.raw = origin.answer member.2.depth (filled.get found.2)

/-- Members that suit the slots they are for fill them in any order, and no slot is filled twice. -/
theorem loadMembers_awaiting (origin : Origin) {slots : List Slot}
    (hLabels : (slots.map Slot.label).Nodup) (filled : Filled slots) : (members : Json.Members) →
    members.keys.Nodup → (∀ member ∈ members.toList, Suits origin filled member) →
    loadMembers slots origin members.raw (.awaiting members.keys filled) =
      origin.answer members.depth filled
  | .nil, _, _ => by
    rw [Json.Members.raw, loadMembers, Json.Members.keys_nil, Held.finish_awaiting_nil,
      Json.Members.depth, Origin.answer_zero]
  | .cons key value rest, hKeys, hSuits => by
    rw [Json.Members.keys_cons, List.nodup_cons] at hKeys
    obtain ⟨found, hFound, hLoads⟩ := hSuits (key, value) List.mem_cons_self
    have hRest : loadMembers slots origin rest.raw (.awaiting rest.keys filled) =
        origin.answer rest.depth filled :=
      loadMembers_awaiting origin hLabels filled rest hKeys.2
        fun member hMember => hSuits member (List.mem_cons_of_mem _ hMember)
    have hEmpty : (Held.awaiting (key :: rest.keys) filled).get found.2 = none :=
      Held.get_awaiting filled hFound List.mem_cons_self
    have hSet : (Held.awaiting (key :: rest.keys) filled).set found.2 (filled.get found.2) =
        .awaiting rest.keys filled :=
      Held.set_awaiting filled hFound hLabels hKeys.1
    -- the value is there or nests too deep; what is behind it is only read if it is there
    rw [Json.Members.raw, Json.Members.keys_cons, loadMembers_cons origin hFound hEmpty, hLoads,
      Origin.answer_bind_of_eq origin value.depth rest.depth (filled.get found.2)
        (by rw [hSet, hRest])]
    rfl

/-- However the members of a value are ordered, a result is loaded from it. -/
def Restores {α : Type} (load : Origin → Raw → Except Fault α) (value : Json) (result : α) : Prop :=
  ∀ ⦃written : Json⦄, value.Reordered written → ∀ origin : Origin,
    load origin written.raw = origin.answer written.depth result

/-- Members fill slots: there is one for each, and each suits however the members inside of it are
ordered. -/
structure Fills (members : Json.Members) (slots : List Slot) (filled : Filled slots) : Prop where
  keys : members.keys = slots.map Slot.label
  suits : ∀ ⦃pairs : List (String × Json)⦄, members.Reordered pairs → ∀ origin : Origin,
    ∀ member ∈ pairs, Suits origin filled member

theorem Fills.nil : Fills .nil [] PUnit.unit where
  keys := rfl
  suits pairs hPairs origin member hMember := by
    rw [show pairs = [] from hPairs] at hMember
    cases hMember

/-- Members fill slots if the first of them fills the first slot and the others fill the rest. -/
theorem Fills.cons (slot : Slot) {slots : List Slot} {filled : Filled slots}
    {value : slot.datum.Value} {encoded : Json} {rest : Json.Members}
    (hLabel : slot.label ∉ slots.map Slot.label)
    (hHere : Restores (fun origin => loadSlot origin slot.datum) encoded value)
    (hRest : Fills rest slots filled) :
    Fills (.cons slot.label encoded rest) (slot :: slots) (value, filled) where
  keys := by rw [Json.Members.keys_cons, hRest.keys, List.map_cons]
  suits := by
    rintro _ ⟨written, pairs, rfl, hWritten, hPairs⟩ origin member hMember
    rcases List.mem_cons.mp hMember with rfl | hMember
    · exact ⟨⟨slot.datum, .here⟩, by simp [SlotIn.find?], hHere hWritten origin⟩
    · obtain ⟨found, hFound, hLoads⟩ := hRest.suits hPairs origin member hMember
      have hOther : slot.label ≠ member.1 := by
        rintro hSame
        rw [← hRest.keys, ← hPairs.keys_eq, hSame] at hLabel
        exact hLabel (List.mem_map_of_mem hMember)
      exact ⟨⟨found.1, .there found.2⟩, SlotIn.find?_cons_of_ne hOther hFound, hLoads⟩

/-- A field ahead of others is one slot more, and its member comes under its label. -/
theorem Fills.field {field : Field} {fields : List Field} {filled : Filled (fields.map Field.slot)}
    {value : field.shape.Value} {encoded : Json} {rest : Json.Members}
    (hLabels : ((field :: fields).map Field.label).Nodup)
    (hHere : Restores (fun origin => loadSlot origin (.field field.shape)) encoded value)
    (hRest : Fills rest (fields.map Field.slot) filled) :
    Fills (.cons field.label encoded rest) ((field :: fields).map Field.slot) (value, filled) := by
  refine .cons field.slot ?_ hHere hRest
  rw [List.map_map]
  exact (List.nodup_cons.mp hLabels).1

/-- An object whose members fill slots is loaded into them, however its members are ordered. -/
theorem Fills.load {members : Json.Members} {slots : List Slot} {filled : Filled slots}
    (hFills : Fills members slots filled) (hLabels : (slots.map Slot.label).Nodup)
    {pairs : List (String × Json)} {written : Json.Members} (hPairs : members.Reordered pairs)
    (hOrder : pairs.Perm written.toList) (origin : Origin) :
    (origin.enter >>= fun inner => loadMembers slots inner written.raw (.empty slots)) =
      origin.answer (written.depth + 1) filled := by
  have hPerm : written.keys.Perm (slots.map Slot.label) := by
    rw [← hFills.keys, ← hPairs.keys_eq]
    exact (hOrder.map Prod.fst).symm
  have hEmpty : Held.awaiting written.keys filled = .empty slots :=
    Held.awaiting_all filled fun slot hSlot =>
      hPerm.mem_iff.mpr (List.mem_map_of_mem hSlot)
  rw [← Origin.enter_answer, ← hEmpty]
  refine bind_congr fun inner => ?_
  exact loadMembers_awaiting inner hLabels filled written (hPerm.nodup_iff.mpr hLabels)
    fun member hMember => hFills.suits hPairs inner member (hOrder.mem_iff.mpr hMember)

end DocumentLanguage.Interchange
