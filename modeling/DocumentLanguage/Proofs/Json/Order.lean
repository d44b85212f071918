import DocumentLanguage.Json.Value
import Mathlib.Data.List.Nodup

/-!
The order of members. A value is a reordering of another where they differ in nothing but the
order of the members of their objects; sorting the members by key is one, as long as no object
has a key twice.
-/
namespace DocumentLanguage.Json

def Members.toList : Members → List (String × Json)
  | .nil => []
  | .cons key value rest => (key, value) :: rest.toList

def Members.keys (members : Members) : List String := members.toList.map Prod.fst

@[simp] theorem Members.keys_nil : Members.nil.keys = [] := rfl

@[simp] theorem Members.keys_cons (key : String) (value : Json) (rest : Members) :
    (cons key value rest).keys = key :: rest.keys := rfl

mutual

/-- No object has a key twice. -/
def Distinct : Json → Prop
  | array items => items.Distinct
  | object members => members.keys.Nodup ∧ members.Distinct
  | null | bool _ | integer _ | float _ | string _ => True

def Items.Distinct : Items → Prop
  | .nil => True
  | .cons item rest => item.Distinct ∧ rest.Distinct

def Members.Distinct : Members → Prop
  | .nil => True
  | .cons _ value rest => value.Distinct ∧ rest.Distinct

end

mutual

/-- Another value differs in nothing but the order of members. -/
def Reordered : Json → Json → Prop
  | array items, other => ∃ items', other = array items' ∧ items.Reordered items'
  | object members, other =>
    ∃ members' pairs, other = object members' ∧ members.Reordered pairs ∧
      pairs.Perm members'.toList
  | value, other => other = value

/-- Other items differ in nothing but the order of members. -/
def Items.Reordered : Items → Items → Prop
  | .nil, others => others = .nil
  | .cons item rest, others =>
    ∃ item' rest', others = .cons item' rest' ∧ item.Reordered item' ∧ rest.Reordered rest'

/-- Pairs are the members, in their order, but for the order of members inside of them. -/
def Members.Reordered : Members → List (String × Json) → Prop
  | .nil, pairs => pairs = []
  | .cons key value rest, pairs =>
    ∃ value' pairs', pairs = (key, value') :: pairs' ∧ value.Reordered value' ∧
      rest.Reordered pairs'

end

/-- A reordering leaves the keys where they are, as long as they are counted in one order. -/
theorem Members.Reordered.keys_eq : {members : Members} → {pairs : List (String × Json)} →
    members.Reordered pairs → pairs.map Prod.fst = members.keys
  | .nil, _, hPairs => by rw [show _ = [] from hPairs]; rfl
  | .cons _ _ _, _, ⟨_, _, hPairs, _, hRest⟩ => by
    rw [hPairs, List.map_cons, hRest.keys_eq, keys_cons]

mutual

theorem Reordered.refl : (value : Json) → value.Reordered value
  | .array items => ⟨items, rfl, items.reordered_refl⟩
  | .object members => ⟨members, members.toList, rfl, members.reordered_toList, .refl _⟩
  | .null | .bool _ | .integer _ | .float _ | .string _ => rfl

theorem Items.reordered_refl : (items : Items) → items.Reordered items
  | .nil => rfl
  | .cons item rest => ⟨item, rest, rfl, .refl item, rest.reordered_refl⟩

theorem Members.reordered_toList : (members : Members) → members.Reordered members.toList
  | .nil => rfl
  | .cons _ value rest => ⟨value, rest.toList, rfl, .refl value, rest.reordered_toList⟩

end

/-- What is put among members with other keys is one member more. -/
theorem Members.insert_perm (key : String) (value : Json) : {members : Members} →
    key ∉ members.keys → (members.insert key value).toList.Perm ((key, value) :: members.toList)
  | .nil, _ => .refl _
  | .cons key' value' rest, hNew => by
    rw [keys_cons, List.mem_cons, not_or] at hNew
    rw [insert]
    split
    · exact .refl _
    · rw [if_neg hNew.1]
      exact ((rest.insert_perm key value hNew.2).cons _).trans (.swap _ _ _)

/-- Members that are sorted into others are all there, each with its own value sorted in turn. -/
theorem Members.sorted_perm : (members before : Members) → (members.keys ++ before.keys).Nodup →
    (members.sorted before).toList.Perm
      (members.toList.map (fun member => (member.1, member.2.sorted)) ++ before.toList)
  | .nil, before, _ => .refl _
  | .cons key value rest, before, hKeys => by
    rw [keys_cons, List.cons_append, List.nodup_cons] at hKeys
    have hInsert : (before.insert key value.sorted).toList.Perm ((key, value.sorted) :: before.toList) :=
      before.insert_perm key value.sorted fun h => hKeys.1 (List.mem_append_right _ h)
    have hNext : (rest.keys ++ (before.insert key value.sorted).keys).Nodup := by
      have hPerm : (rest.keys ++ (before.insert key value.sorted).keys).Perm
          (key :: (rest.keys ++ before.keys)) :=
        ((hInsert.map Prod.fst).append_left rest.keys).trans List.perm_middle
      exact hPerm.nodup_iff.mpr (List.nodup_cons.mpr hKeys)
    calc ((cons key value rest).sorted before).toList
      _ = (rest.sorted (before.insert key value.sorted)).toList := rfl
      _ |>.Perm _ := rest.sorted_perm _ hNext
      _ |>.Perm _ := hInsert.append_left _
      _ |>.Perm _ := List.perm_middle

mutual

/-- Sorting by key is a reordering, at the top and in every value inside. -/
theorem reordered_sorted : {value : Json} → value.Distinct → value.Reordered value.sorted
  | .array _, hDistinct => ⟨_, rfl, Items.reordered_sorted hDistinct⟩
  | .object members, ⟨hKeys, hDistinct⟩ =>
    ⟨_, _, rfl, Members.reordered_sorted hDistinct,
      by simpa [Members.toList] using (members.sorted_perm .nil (by simpa using hKeys)).symm⟩
  | .null, _ | .bool _, _ | .integer _, _ | .float _, _ | .string _, _ => rfl

theorem Items.reordered_sorted : {items : Items} → items.Distinct → items.Reordered items.sorted
  | .nil, _ => rfl
  | .cons _ _, ⟨hItem, hRest⟩ =>
    ⟨_, _, rfl, Json.reordered_sorted hItem, Items.reordered_sorted hRest⟩

theorem Members.reordered_sorted : {members : Members} → members.Distinct →
    members.Reordered (members.toList.map fun member => (member.1, member.2.sorted))
  | .nil, _ => rfl
  | .cons _ _ _, ⟨hValue, hRest⟩ =>
    ⟨_, _, rfl, Json.reordered_sorted hValue, Members.reordered_sorted hRest⟩

end

end DocumentLanguage.Json
