import DocumentLanguage.Text.Basic
import Mathlib.Data.List.Basic

/-!
What splitting a text into lines does with its parts: lines that are joined come apart again, and
two texts behind one another share the line between them.
-/
namespace DocumentLanguage.Text

theorem joinLines_append_cons (front line : List Char) (lines : List (List Char)) :
    joinLines ((front ++ line) :: lines) = front ++ joinLines (line :: lines) := by
  cases lines <;> simp [joinLines]

theorem splitLines_of_not_mem {line : List Char} (hLine : '\n' ∉ line) : splitLines line = [line] := by
  induction line with
  | nil => rfl
  | cons c line ih =>
      simp only [List.mem_cons, not_or] at hLine
      simp [splitLines, ih hLine.2, Ne.symm hLine.1]

/-- A line with a line feed behind it is the first line of a text, whatever follows. -/
theorem splitLines_append (line text : List Char) (hLine : '\n' ∉ line) :
    splitLines (line ++ '\n' :: text) = line :: splitLines text := by
  induction line with
  | nil =>
      obtain ⟨first, rest, hLines⟩ := List.exists_cons_of_ne_nil (splitLines_ne_nil text)
      simp [splitLines, hLines]
  | cons c line ih =>
      simp only [List.mem_cons, not_or] at hLine
      simp [splitLines, ih hLine.2, Ne.symm hLine.1]

/-- Lines that are joined come apart again if there is at least one and none has a line feed in it.
-/
theorem splitLines_joinLines {lines : List (List Char)} (hNonempty : lines ≠ [])
    (hLines : ∀ line ∈ lines, '\n' ∉ line) : splitLines (joinLines lines) = lines := by
  induction lines with
  | nil => contradiction
  | cons line lines ih =>
      simp only [List.mem_cons, forall_eq_or_imp] at hLines
      cases lines with
      | nil => exact splitLines_of_not_mem hLines.1
      | cons next lines =>
          rw [joinLines_cons_of_ne_nil _ (List.cons_ne_nil _ _), splitLines_append _ _ hLines.1,
            ih (List.cons_ne_nil _ _) hLines.2]

/-- No line feed is inside of a line, since the lines are split at every one. -/
theorem not_mem_of_mem_splitLines {text line : List Char} (hLine : line ∈ splitLines text) :
    '\n' ∉ line := by
  induction text generalizing line with
  | nil =>
      rw [List.mem_singleton.mp hLine]
      exact List.not_mem_nil
  | cons c text ih =>
      obtain ⟨first, rest, hLines⟩ := List.exists_cons_of_ne_nil (splitLines_ne_nil text)
      rw [hLines] at ih
      simp only [splitLines, hLines] at hLine
      split at hLine
      · rcases List.mem_cons.mp hLine with rfl | hLine
        · exact List.not_mem_nil
        · exact ih hLine
      · rename_i hFeed
        rcases List.mem_cons.mp hLine with rfl | hLine
        · simp only [List.mem_cons, not_or]
          exact ⟨Ne.symm hFeed, ih List.mem_cons_self⟩
        · exact ih (List.mem_cons_of_mem _ hLine)

/-- A text that ends with something else than a line feed has a last line that is not empty. -/
theorem getLast?_splitLines_ne_nil {c : Char} (hFeed : c ≠ '\n') (text : List Char) :
    ∀ line ∈ (splitLines (text ++ [c])).getLast?, line ≠ [] := by
  induction text with
  | nil => simp [splitLines, hFeed]
  | cons d text ih =>
      obtain ⟨first, rest, hLines⟩ := List.exists_cons_of_ne_nil (splitLines_ne_nil (text ++ [c]))
      rw [hLines] at ih
      simp only [List.cons_append, splitLines, hLines]
      split
      · rwa [List.getLast?_cons_cons]
      · cases rest with
        | nil => simp
        | cons line rest =>
            rw [List.getLast?_cons_cons] at ih ⊢
            exact ih

/-- Joining strings with line feeds is joining their lines of characters. -/
theorem toList_intercalate_newline (lines : List String) :
    ("\n".intercalate lines).toList = joinLines (lines.map String.toList) := by
  rw [String.toList_intercalate]
  induction lines with
  | nil => rfl
  | cons line lines ih =>
      cases lines with
      | nil => simp [joinLines]
      | cons next lines =>
          rw [List.map_cons, List.map_cons, List.intercalate_cons_cons, ← List.map_cons, ih,
            joinLines_cons_of_ne_nil _ (by simp)]
          simp

/-- Lines come apart again whatever is joined behind them, and what follows adds lines of its own
below. -/
theorem exists_splitLines_joinLines {front : List (List Char)} (hNonempty : front ≠ [])
    (hFront : ∀ line ∈ front, '\n' ∉ line) (rest : List (List Char)) :
    ∃ below, splitLines (joinLines (front ++ rest)) = front ++ below := by
  cases rest with
  | nil => exact ⟨[], by simpa using splitLines_joinLines hNonempty hFront⟩
  | cons next rest =>
      refine ⟨splitLines (joinLines (next :: rest)), ?_⟩
      clear hNonempty
      induction front with
      | nil => rfl
      | cons line front ih =>
          rw [List.forall_mem_cons] at hFront
          rw [List.cons_append, joinLines_cons_of_ne_nil _ (by simp), splitLines_append _ _ hFront.1,
            ih hFront.2, List.cons_append]

/-- The last line of a text goes on with the first of the text behind it. -/
theorem exists_splitLines_append (first : List Char) :
    ∃ init last, splitLines first = init ++ [last] ∧ ∀ second line lines,
      splitLines second = line :: lines →
        splitLines (first ++ second) = init ++ (last ++ line) :: lines := by
  induction first with
  | nil => exact ⟨[], [], rfl, fun second line lines hSecond => hSecond⟩
  | cons c first ih =>
      obtain ⟨init, last, hFirst, hAppend⟩ := ih
      by_cases hFeed : c = '\n'
      · refine ⟨[] :: init, last, ?_, fun second line lines hSecond => ?_⟩
        · cases init <;> simp [splitLines, hFirst, hFeed]
        · cases init <;> simp [splitLines, hAppend second line lines hSecond, hFeed]
      · cases init with
        | nil =>
            refine ⟨[], c :: last, ?_, fun second line lines hSecond => ?_⟩
            · simp [splitLines, hFirst, hFeed]
            · simp [splitLines, hAppend second line lines hSecond, hFeed]
        | cons start init =>
            refine ⟨(c :: start) :: init, last, ?_, fun second line lines hSecond => ?_⟩
            · simp [splitLines, hFirst, hFeed]
            · simp [splitLines, hAppend second line lines hSecond, hFeed]

end DocumentLanguage.Text
