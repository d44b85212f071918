import DocumentLanguage.Proofs.Text.Indentation

/-!
Text that moves to the right. A margin behind every line feed is what indentation is, as long as no
line feed ends the text. In this form it can be taken apart wherever the text can, and two margins
add up.
-/
namespace DocumentLanguage.Text

/-- Move a text to the right, all but its first line and its empty lines. A line feed at the end
begins a line that moves too. -/
def shift (margin : Nat) : List Char → List Char
  | [] => []
  | c :: rest =>
    if c = '\n' ∧ rest.head? ≠ some '\n' then
      c :: (List.replicate margin ' ' ++ shift margin rest)
    else c :: shift margin rest

section

variable {margin : Nat} {c : Char} {text rest : List Char}

/-- Behind a line feed a line that is not empty gets the margin before it. -/
theorem shift_feed (hRest : rest.head? ≠ some '\n') :
    shift margin ('\n' :: rest) = '\n' :: (List.replicate margin ' ' ++ shift margin rest) := by
  simp [shift, hRest]

/-- Any other character stays where it is, also a line feed with an empty line behind it. -/
theorem shift_cons (hStays : ¬(c = '\n' ∧ rest.head? ≠ some '\n')) :
    shift margin (c :: rest) = c :: shift margin rest := by
  rw [shift, if_neg hStays]

theorem head?_shift (margin : Nat) (text : List Char) : (shift margin text).head? = text.head? := by
  cases text with
  | nil => rfl
  | cons c rest =>
      rw [shift]
      split <;> rfl

/-- A text of one line stays where it is, because its first line is never moved. -/
theorem shift_of_not_mem (hLine : '\n' ∉ text) : shift margin text = text := by
  induction text with
  | nil => rfl
  | cons c text ih =>
      simp only [List.mem_cons, not_or] at hLine
      rw [shift_cons (fun hFeed => hLine.1 hFeed.1.symm), ih hLine.2]

end

/-- Two parts move by themselves unless an empty line is between them. -/
theorem shift_append (margin : Nat) {first second : List Char}
    (hSeam : first.getLast? = some '\n' → second.head? ≠ some '\n') :
    shift margin (first ++ second) = shift margin first ++ shift margin second := by
  induction first with
  | nil => rfl
  | cons c first ih =>
      have hRest : first.getLast? = some '\n' → second.head? ≠ some '\n' := by
        intro hLast
        refine hSeam ?_
        rw [List.getLast?_cons, hLast]
        rfl
      have hSame : (c = '\n' ∧ (first ++ second).head? ≠ some '\n') ↔
          (c = '\n' ∧ first.head? ≠ some '\n') := by
        cases first with
        | cons d first => rfl
        | nil =>
            have hFeed : c = '\n' → second.head? ≠ some '\n' := by
              rintro rfl
              exact hSeam rfl
            simpa using hFeed
      simp only [List.cons_append, shift, hSame, ih hRest]
      split <;> simp

/-- Two margins add up, as a line that is moved once is moved again. -/
theorem shift_shift (inner outer : Nat) (text : List Char) :
    shift outer (shift inner text) = shift (inner + outer) text := by
  induction text with
  | nil => rfl
  | cons c text ih =>
      by_cases hFeed : c = '\n' ∧ text.head? ≠ some '\n'
      · obtain ⟨rfl, hText⟩ := hFeed
        have hSpaces : '\n' ∉ List.replicate inner ' ' := by simp
        have hHead : (List.replicate inner ' ' ++ shift inner text).head? ≠ some '\n' := by
          cases inner with
          | zero => simpa [head?_shift] using hText
          | succ inner => simp [List.replicate_succ]
        have hMiddle : shift outer (List.replicate inner ' ' ++ shift inner text) =
            List.replicate inner ' ' ++ shift (inner + outer) text := by
          rw [shift_append outer fun hLast => absurd (List.mem_of_getLast? hLast) hSpaces,
            shift_of_not_mem hSpaces, ih]
        rw [shift_feed hText, shift_feed hHead, hMiddle, shift_feed hText, ← List.append_assoc,
          List.replicate_append_replicate, Nat.add_comm outer inner]
      · have hAgain : ¬(c = '\n' ∧ (shift inner text).head? ≠ some '\n') := by rwa [head?_shift]
        rw [shift_cons hFeed, shift_cons hAgain, shift_cons hFeed, ih]

/-- No line feed comes to the end of a text by moving it. -/
theorem getLast?_shift {margin : Nat} {text : List Char} (hLast : text.getLast? ≠ some '\n') :
    (shift margin text).getLast? ≠ some '\n' := by
  rcases List.eq_nil_or_concat text with rfl | ⟨front, last, rfl⟩
  · exact hLast
  · have hFeed : last ≠ '\n' := by simpa using hLast
    have hEnd : shift margin [last] = [last] := shift_cons fun h => hFeed h.1
    rw [List.concat_eq_append, shift_append margin fun _ => by simpa using hFeed, hEnd]
    simpa using hFeed

/-- Indentation is a margin, except behind a line feed at the end. -/
theorem joinLines_indentLines (margin : Nat) {text : List Char} (hLast : text.getLast? ≠ some '\n') :
    joinLines (indentLines margin (splitLines text)) = shift margin text := by
  induction text with
  | nil => rfl
  | cons c text ih =>
      obtain ⟨line, lines, hSplit⟩ := List.exists_cons_of_ne_nil (splitLines_ne_nil text)
      have hJoined := joinLines_splitLines text
      have hRest : text.getLast? ≠ some '\n' := by
        intro hEnd
        rw [List.getLast?_cons, hEnd] at hLast
        exact hLast rfl
      have ih := ih hRest
      rw [hSplit, indentLines] at ih
      rw [hSplit] at hJoined
      by_cases hFeed : c = '\n'
      · have hLines : splitLines (c :: text) = [] :: line :: lines := by
          simp [splitLines, hSplit, hFeed]
        rw [hLines, indentLines, List.map_cons, joinLines_cons_of_ne_nil _ (List.cons_ne_nil _ _),
          List.nil_append, hFeed]
        cases line with
        | nil =>
            cases lines with
            | nil =>
                have hEmpty : text = [] := hJoined.symm
                rw [hEmpty, hFeed] at hLast
                exact absurd rfl hLast
            | cons next lines =>
                have hHead : text.head? = some '\n' := by rw [← hJoined]; rfl
                rw [shift_cons (by simp [hHead])]
                exact congrArg _ ih
        | cons d line =>
            have hInside : '\n' ∉ d :: line :=
              not_mem_of_mem_splitLines (hSplit ▸ List.mem_cons_self)
            have hHead : text.head? = some d := by
              rw [← hJoined, joinLines_cons_cons]
              rfl
            have hMargin : underMargin margin (d :: line) =
                List.replicate margin ' ' ++ d :: line := rfl
            rw [shift_feed (by rw [hHead]; grind), hMargin, joinLines_append_cons, ih]
      · have hLines : splitLines (c :: text) = (c :: line) :: lines := by
          simp [splitLines, hSplit, hFeed]
        rw [hLines, indentLines, joinLines_cons_cons, ih, shift_cons fun h => hFeed h.1]

/-- Indenting a text that does not end with a line feed moves it by the width of its depth. -/
theorem toList_indent {text : String} (hLast : text.toList.getLast? ≠ some '\n') (depth : Nat) :
    (indent text depth).toList = shift (depth * indentationWidth) text.toList := by
  rw [indent, String.toList_ofList, joinLines_indentLines _ hLast]

end DocumentLanguage.Text
