import DocumentLanguage.Parse.Failure
import DocumentLanguage.Proofs.Text.Lines
import DocumentLanguage.Proofs.Text.Quoted
import DocumentLanguage.Proofs.Token.Lossless
import Mathlib.Data.Nat.Digits.Defs

/-!
What a message shows of a place in a source: the line of the place under its number, and right below
it an arrow. The arrow is as long as a line number of four digits makes it, so its head is below the
column of the place on the first 9999 lines, and left of it on all others.
-/
namespace DocumentLanguage

namespace Diagnostic

def withoutReturn (line : List Char) : List Char :=
  if line.getLast? = some '\r' then line.dropLast else line

/-- Where in a line under its number a column of the line is printed. -/
def printedAt (position : Position) : Nat :=
  (lineNumber position.line).length + 2 + (position.column - 1)

/-- What a message shows of a place in a source, where some character comes next or the end. -/
structure Marks (source : String) (position : Position) (next : Option Char) (message : String) :
    Prop where
  /-- The line of the place is there under its number, behind the headline and the lines above. -/
  numbered : ∃ line, (Text.splitLines source.toList)[position.line - 1]? = some line ∧
    (Text.splitLines message.toList)[min linesAbove (position.line - 1) + 1]? =
      some ((lineNumber position.line).toList ++ ':' :: ' ' :: withoutReturn line)
  /-- The next character is printed at the column of the place, unless it ends the line. -/
  printed : ∀ c ∈ next, c ≠ '\n' → c ≠ '\r' →
    ((Text.splitLines message.toList)[min linesAbove (position.line - 1) + 1]?.getD [])[
      printedAt position]? = some c
  /-- Right below the line is the arrow. -/
  pointed : (Text.splitLines message.toList)[min linesAbove (position.line - 1) + 2]? =
    some (arrow position.column).toList
  /-- Its head is below the column exactly where the line is numbered with four digits. -/
  aligned : (arrow position.column).toList.idxOf '⌃' = printedAt position ↔ position.line < 10000

/-- A line number is as wide as its digits, and at least four characters wide. From line 10000 on it
takes more, which nothing else in the excerpt makes up for. -/
theorem length_lineNumber (number : Nat) :
    (lineNumber number).length = max 4 (toString number).length := by
  rw [lineNumber, String.length_append, String.length_ofList, List.length_replicate]
  omega

theorem newline_not_mem_toString (number : Nat) : '\n' ∉ (toString number).toList := by
  intro hMem
  have hDigit := Nat.isDigit_of_mem_toDigits (by decide) (by decide) (Nat.toList_repr ▸ hMem)
  cases hDigit

theorem newline_not_mem_lineNumber (number : Nat) : '\n' ∉ (lineNumber number).toList := by
  rw [lineNumber, String.toList_append, List.mem_append, not_or]
  exact ⟨by simp, newline_not_mem_toString number⟩

theorem newline_not_mem_withoutReturn {line : List Char} (hLine : '\n' ∉ line) :
    '\n' ∉ withoutReturn line := by
  unfold withoutReturn
  split
  · exact fun hMem => hLine (List.dropLast_subset line hMem)
  · exact hLine

/-- A numbered line is one line of the message, since the lines of a source hold no line feed. -/
theorem newline_not_mem_numberedLine (source : String) (number : Nat) :
    '\n' ∉ (numberedLine (sourceLines source) number).toList := by
  have hLine : ∀ line ∈ (sourceLines source)[number - 1]?, '\n' ∉ line.toList := by
    intro line hLine
    obtain ⟨kept, hKept, rfl⟩ := List.mem_map.mp (List.mem_of_getElem? hLine)
    rw [String.toList_ofList]
    exact newline_not_mem_withoutReturn (Text.not_mem_of_mem_splitLines hKept)
  simp only [numberedLine, String.toList_append, List.mem_append, not_or]
  refine ⟨⟨newline_not_mem_lineNumber number, by decide⟩, ?_⟩
  cases hFound : (sourceLines source)[number - 1]? with
  | none => decide
  | some line => exact hLine line hFound

theorem toList_arrow (column : Nat) :
    (arrow column).toList = [' ', '>', '>', '>', '─'] ++ (List.replicate column '─' ++ ['⌃']) := by
  simp only [arrow, String.toList_append, String.toList_ofList, List.append_assoc]
  rfl

theorem newline_not_mem_arrow (column : Nat) : '\n' ∉ (arrow column).toList := by
  simp [toList_arrow]

theorem headline_none (source : String) : headline source none =
    "An unexpected end of input was reached by the parser at line " ++
      toString (Position.endOf source).line ++ ", column " ++
      toString (Position.endOf source).column := rfl

theorem headline_some (source : String) (token : Token) : headline source (some token) =
    "An unexpected token was received by the parser: " ++ token.kind.name ++ " at line " ++
      toString token.position.line ++ ", column " ++ toString token.position.column ++ ": " ++
      Text.quoted (shorten quotedLength token.text) := rfl

/-- A headline is one line of the message, whatever the token is: line feeds in its text are written
as escapes. -/
theorem newline_not_mem_headline (source : String) (token : Option Token) :
    '\n' ∉ (headline source token).toList := by
  have hName : ∀ kind : Kind, '\n' ∉ kind.name.toList := by
    intro kind
    cases kind <;> decide
  have hNumber := newline_not_mem_toString
  cases token with
  | none =>
      simp only [headline_none, String.toList_append, List.mem_append, not_or]
      exact ⟨⟨⟨by decide, hNumber _⟩, by decide⟩, hNumber _⟩
  | some token =>
      simp only [headline_some, String.toList_append, List.mem_append, not_or]
      exact ⟨⟨⟨⟨⟨⟨⟨by decide, hName _⟩, by decide⟩, hNumber _⟩, by decide⟩, hNumber _⟩, by decide⟩,
        Text.newline_not_mem_quoted _⟩

/-- The caret stands behind a prefix of fixed width and one more dash for each column. -/
theorem idxOf_arrow (column : Nat) : (arrow column).toList.idxOf '⌃' = 5 + column := by
  rw [toList_arrow, List.idxOf_append_of_notMem (by decide),
    List.idxOf_append_of_notMem (by simp)]
  simp

/-- A message has the line of the place and the arrow behind the headline and the lines above. -/
theorem exists_splitLines_message (source head : String) (hHead : '\n' ∉ head.toList)
    (position : Position) (below : List String) :
    ∃ above rest, above.length = min linesAbove (position.line - 1) + 1 ∧
      Text.splitLines ("\n".intercalate
          (head :: excerpt (sourceLines source) position ++ below)).toList =
        above ++ (numberedLine (sourceLines source) position.line).toList ::
          (arrow position.column).toList :: rest := by
  let above := head :: (List.range (position.line - max (position.line - linesAbove) 1)).map
    fun index => numberedLine (sourceLines source) (max (position.line - linesAbove) 1 + index)
  let shown := above ++ [numberedLine (sourceLines source) position.line, arrow position.column]
  have hAbove : ∀ line ∈ above, '\n' ∉ line.toList := by
    refine List.forall_mem_cons.mpr ⟨hHead, List.forall_mem_map.mpr fun index _ => ?_⟩
    exact newline_not_mem_numberedLine source _
  have hShown : ∀ line ∈ shown.map String.toList, '\n' ∉ line := by
    refine List.forall_mem_map.mpr (List.forall_mem_append.mpr ⟨hAbove, ?_⟩)
    simp [newline_not_mem_numberedLine, newline_not_mem_arrow]
  obtain ⟨last, hLines⟩ : ∃ last, head :: excerpt (sourceLines source) position ++ below =
      shown ++ last := by
    refine ⟨(if position.line < (sourceLines source).length then
      [numberedLine (sourceLines source) (position.line + 1)] else []) ++ below, ?_⟩
    simp [shown, above, excerpt]
  obtain ⟨rest, hRest⟩ := Text.exists_splitLines_joinLines (by simp [shown]) hShown
    (last.map String.toList)
  refine ⟨above.map String.toList, rest, ?_, ?_⟩
  · simp only [above, List.length_map, List.length_cons, List.length_range]
    omega
  · rw [Text.toList_intercalate_newline, hLines, List.map_append, hRest]
    simp [shown]

/-- Each digit more than four moves the column to the right, but not the head of the arrow. -/
theorem idxOf_arrow_eq_printedAt_iff {position : Position} (hColumn : 0 < position.column) :
    (arrow position.column).toList.idxOf '⌃' = printedAt position ↔ position.line < 10000 := by
  have hDigits : (toString position.line).length ≤ 4 ↔ position.line < 10000 :=
    Nat.length_repr_le_iff (by decide)
  have hLength := length_lineNumber position.line
  rw [idxOf_arrow, printedAt, ← hDigits]
  omega

/-- Taking a carriage return away leaves every other character where it is. -/
theorem getElem?_withoutReturn {front rest : List Char} {c : Char} (hReturn : c ≠ '\r') :
    (withoutReturn (front ++ c :: rest))[front.length]? = some c := by
  unfold withoutReturn
  split
  · rename_i hLast
    cases rest with
    | nil => simp [hReturn] at hLast
    | cons d rest => simp
  · simp

/-- Where a source is taken apart, a message about the place shows the line that goes on there. -/
theorem marks_of_append {source head : String} {before rest : List Char}
    (hSource : source.toList = before ++ rest) (hHead : '\n' ∉ head.toList) (below : List String) :
    Marks source (Position.endOf (String.ofList before)) rest.head? ("\n".intercalate (head ::
      excerpt (sourceLines source) (Position.endOf (String.ofList before)) ++ below)) := by
  obtain ⟨init, last, hBefore, hAppend⟩ := Text.exists_splitLines_append before
  obtain ⟨line, lines, hRest⟩ := List.exists_cons_of_ne_nil (Text.splitLines_ne_nil rest)
  have hPosition : Position.endOf (String.ofList before) = ⟨init.length + 1, last.length + 1⟩ := by
    simp [Position.endOf, hBefore]
  have hLine : (Text.splitLines source.toList)[init.length]? = some (last ++ line) := by
    simp [hSource, hAppend rest line lines hRest]
  rw [hPosition]
  obtain ⟨above, behind, hAbove, hLines⟩ := exists_splitLines_message source head hHead
    ⟨init.length + 1, last.length + 1⟩ below
  have hNumbered : (numberedLine (sourceLines source) (init.length + 1)).toList =
      (lineNumber (init.length + 1)).toList ++ ':' :: ' ' :: withoutReturn (last ++ line) := by
    simp [numberedLine, sourceLines, hLine, withoutReturn]
  dsimp only at hAbove hLines
  have hShown : (Text.splitLines ("\n".intercalate (head ::
      excerpt (sourceLines source) ⟨init.length + 1, last.length + 1⟩ ++ below)).toList)[
        min linesAbove (init.length + 1 - 1) + 1]? =
      some ((lineNumber (init.length + 1)).toList ++ ':' :: ' ' :: withoutReturn (last ++ line)) := by
    rw [hLines, ← hAbove, ← hNumbered, List.getElem?_append_right (Nat.le_refl _), Nat.sub_self]
    rfl
  refine ⟨⟨last ++ line, hLine, hShown⟩, ?_, ?_, idxOf_arrow_eq_printedAt_iff (Nat.succ_pos _)⟩
  · intro c hNext hFeed hReturn
    obtain ⟨tail, rfl⟩ := List.head?_eq_some_iff.mp hNext
    obtain ⟨start, others, hTail⟩ := List.exists_cons_of_ne_nil (Text.splitLines_ne_nil tail)
    have hStart : line = c :: start := by
      simp only [Text.splitLines, hTail, if_neg hFeed] at hRest
      exact (List.cons.inj hRest).1.symm
    have hColumn : printedAt ⟨init.length + 1, last.length + 1⟩ =
        ((lineNumber (init.length + 1)).toList ++ [':', ' ']).length + last.length := by
      simp [printedAt, String.length_toList]
    rw [hShown, Option.getD_some, hColumn, List.append_cons, List.append_cons, hStart,
      List.append_assoc _ [':'], List.cons_append, List.nil_append,
      List.getElem?_append_right (Nat.le_add_right _ _), Nat.add_sub_cancel_left]
    exact getElem?_withoutReturn hReturn
  · rw [hLines, ← Nat.add_assoc _ 1 1, ← hAbove, List.getElem?_append_right (Nat.le_succ _),
      Nat.succ_sub (Nat.le_refl _), Nat.sub_self]
    rfl

/-- Every message about a token of a source, and the one about its end, marks the place. The head of
its arrow is below the column if there are less than 10000 lines up to there, and only then. -/
theorem marks_scan (source : String) (rule : Option String) :
    (∀ token ∈ scan source,
      Marks source token.position token.text.toList.head? (render source (some token) rule)) ∧
        Marks source (Position.endOf source) none (render source none rule) := by
  refine ⟨fun token hToken => ?_, ?_⟩
  · obtain ⟨before, after, hTokens⟩ := List.append_of_mem hToken
    have accounts := accounts_scan source
    obtain ⟨hPosition, -⟩ := accounts.placed before token after hTokens
    obtain ⟨rest, hRest⟩ := (scanned_scan source).exists_spelled_append
    have hSource : source.toList =
        spelled before ++ (token.text.toList ++ (spelled after ++ rest)) := by
      rw [hRest, hTokens]
      simp [spelled]
    have hNext : (token.text.toList ++ (spelled after ++ rest)).head? =
        token.text.toList.head? :=
      List.head?_append_of_ne_nil _ ((scanned_scan source).ne_nil token hToken)
    have hMarks := marks_of_append hSource (newline_not_mem_headline source (some token))
      ((rule.map expectation).getD [])
    rw [hNext, ← hPosition] at hMarks
    exact hMarks
  · have hMarks := marks_of_append (List.append_nil source.toList).symm
      (newline_not_mem_headline source none) ((rule.map expectation).getD [])
    rw [String.ofList_toList] at hMarks
    exact hMarks

/-- At the end of 9999 empty lines the head of the arrow misses the column. -/
theorem not_aligned_line_10000 :
    let position := Position.endOf (String.ofList (List.replicate 9999 '\n'))
    position = ⟨10000, 1⟩ ∧ (arrow position.column).toList.idxOf '⌃' ≠ printedAt position := by
  have hFeeds : ∀ feeds line, (⟨line, 1⟩ : Position).after (List.replicate feeds '\n') =
      ⟨line + feeds, 1⟩ := by
    intro feeds
    induction feeds with
    | zero => exact fun line => rfl
    | succ feeds ih =>
        intro line
        rw [List.replicate_succ, Position.after_cons]
        exact (ih (line + 1)).trans (by rw [Nat.add_right_comm, Nat.add_assoc])
  have hEnd : Position.endOf (String.ofList (List.replicate 9999 '\n')) = ⟨10000, 1⟩ := by
    rw [← Position.after_start]
    exact hFeeds 9999 1
  rw [hEnd]
  exact ⟨rfl, fun hAligned =>
    absurd ((idxOf_arrow_eq_printedAt_iff Nat.one_pos).mp hAligned) (by decide)⟩

end Diagnostic

end DocumentLanguage
