import DocumentLanguage.Grammar.Conflict
import Mathlib.Data.List.Sort
import Mathlib.Data.String.Basic

/-!
Sets of names. What the operations on them hold, and that they keep them ascending, so that two sets
of the same names are the same list.
-/
namespace DocumentLanguage.NameSet

/-- No name comes twice, and each before the greater ones. -/
def Ascending (names : NameSet) : Prop := names.Pairwise (· < ·)

variable {name other : String} {names first second : NameSet}

@[simp] theorem mem_insert : other ∈ insert name names ↔ other = name ∨ other ∈ names := by
  induction names with
  | nil => simp [insert]
  | cons head names ih =>
    rw [insert]
    split_ifs with hSame hLess
    · rw [← hSame, List.mem_cons]
      tauto
    · exact List.mem_cons
    · rw [List.mem_cons, List.mem_cons, ih]
      tauto

/-- A name is put in its place, so that the names are still in order and without doubles. -/
theorem Ascending.insert (ascending : Ascending names) (name : String) :
    Ascending (insert name names) := by
  induction names with
  | nil => exact List.pairwise_singleton _ _
  | cons head names ih =>
    obtain ⟨hHead, hTail⟩ := List.pairwise_cons.mp ascending
    rw [NameSet.insert]
    split_ifs with hSame hLess
    · exact ascending
    · refine List.pairwise_cons.mpr ⟨fun other hOther => ?_, ascending⟩
      rcases List.mem_cons.mp hOther with rfl | hOther
      · exact hLess
      · exact hLess.trans (hHead other hOther)
    · refine List.pairwise_cons.mpr ⟨fun other hOther => ?_, ih hTail⟩
      rcases mem_insert.mp hOther with rfl | hOther
      · exact lt_of_le_of_ne (not_lt.mp hLess) (Ne.symm hSame)
      · exact hHead other hOther

@[simp] theorem mem_union : name ∈ first.union second ↔ name ∈ first ∨ name ∈ second := by
  unfold union
  induction second generalizing first with
  | nil => simp
  | cons head second ih =>
    rw [List.foldl_cons, ih, mem_insert, List.mem_cons]
    tauto

/-- Names that are put in one by one leave a set in order. -/
theorem Ascending.union (ascending : Ascending first) (second : NameSet) :
    Ascending (first.union second) := by
  unfold NameSet.union
  induction second generalizing first with
  | nil => exact ascending
  | cons head second ih => exact ih (ascending.insert head)

@[simp] theorem mem_inter : name ∈ first.inter second ↔ name ∈ first ∧ name ∈ second := by
  simp [inter]

theorem Ascending.inter (ascending : Ascending first) (second : NameSet) :
    Ascending (first.inter second) := ascending.sublist List.filter_sublist

theorem Ascending.eq (ascending : Ascending first) (ascending' : Ascending second)
    (hMem : ∀ name, name ∈ first ↔ name ∈ second) : first = second :=
  List.Pairwise.eq_of_mem_iff ascending ascending' fun {name} => hMem name

end DocumentLanguage.NameSet
