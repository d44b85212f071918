import DocumentLanguage.Proofs.Text.Lines
import DocumentLanguage.Text.Indentation
import Mathlib.Data.List.TakeWhile

/-!
What indentation changes in a text: only the spaces behind its line feeds. Indenting a text whose
last line stands flush and taking its indentation away again gives it back.
-/
namespace DocumentLanguage.Text

/-- Texts that differ at most in the spaces behind their line feeds. -/
inductive Relaid : List Char → List Char → Prop
  | nil : Relaid [] []
  | cons (c : Char) {first second : List Char} (relaid : Relaid first second) :
      Relaid (c :: first) (c :: second)
  | feed (before after : Nat) {first second : List Char} (relaid : Relaid first second) :
      Relaid ('\n' :: (List.replicate before ' ' ++ first))
        ('\n' :: (List.replicate after ' ' ++ second))

namespace Relaid

theorem refl (text : List Char) : Relaid text text := by
  induction text with
  | nil => exact .nil
  | cons c text ih => exact .cons c ih

theorem symm {first second : List Char} (relaid : Relaid first second) : Relaid second first := by
  induction relaid with
  | nil => exact .nil
  | cons c _ ih => exact .cons c ih
  | feed before after _ ih => exact .feed after before ih

/-- Texts that differ in their layout still do with the same text before them. -/
theorem append (front : List Char) {first second : List Char} (relaid : Relaid first second) :
    Relaid (front ++ first) (front ++ second) := by
  induction front with
  | nil => exact relaid
  | cons c front ih => exact .cons c ih

/-- Only spaces come and go, and so every other character of one text is in the other one, too. -/
theorem mem {c : Char} {first second : List Char} (relaid : Relaid first second) (hSpace : c ≠ ' ')
    (hMem : c ∈ second) : c ∈ first := by
  induction relaid with
  | nil => exact hMem
  | cons d _ ih =>
      rcases List.mem_cons.mp hMem with rfl | hRest
      · exact List.mem_cons_self
      · exact List.mem_cons_of_mem d (ih hRest)
  | feed before after _ ih =>
      simp only [List.mem_cons, List.mem_append, List.mem_replicate, hSpace, and_false,
        false_or] at hMem ⊢
      exact hMem.imp id ih

/-- A text of one line is like no other: spaces change only behind a line feed. -/
theorem eq_of_not_mem {first second : List Char} (relaid : Relaid first second)
    (hLine : '\n' ∉ first) : second = first := by
  induction relaid with
  | nil => rfl
  | cons c _ ih =>
      simp only [List.mem_cons, not_or] at hLine
      rw [ih hLine.2]
  | feed => simp at hLine

/-- Behind a first character other than a line feed the layout may differ, but the character itself
is the same. -/
theorem exists_cons {c : Char} {first second : List Char} (relaid : Relaid (c :: first) second)
    (hFeed : c ≠ '\n') : ∃ rest, second = c :: rest ∧ Relaid first rest := by
  cases relaid with
  | cons c relaid => exact ⟨_, rfl, relaid⟩
  | feed => exact absurd rfl hFeed

/-- A front without a line feed is the same in both texts, and the layout differs only behind it. -/
theorem exists_append {front first second : List Char} (relaid : Relaid (front ++ first) second)
    (hLine : '\n' ∉ front) : ∃ rest, second = front ++ rest ∧ Relaid first rest := by
  induction front generalizing second with
  | nil => exact ⟨second, rfl, relaid⟩
  | cons c front ih =>
      simp only [List.mem_cons, not_or] at hLine
      obtain ⟨behind, rfl, hBehind⟩ := relaid.exists_cons (Ne.symm hLine.1)
      obtain ⟨rest, rfl, hRest⟩ := ih hBehind hLine.2
      exact ⟨rest, rfl, hRest⟩

/-- Where one text goes on with a line feed the other one does as well, although what follows it may
differ. -/
theorem exists_feed {first second : List Char} (relaid : Relaid ('\n' :: first) second) :
    ∃ rest, second = '\n' :: rest := by
  cases relaid with
  | cons _ relaid => exact ⟨_, rfl⟩
  | feed => exact ⟨_, rfl⟩

end Relaid

/-- Lines of which some get other spaces in front of them make up a text that is laid out anew. -/
theorem relaid_joinLines (first : List Char) (rest : List (List Char)) (change : List Char → List Char)
    (hChange : ∀ line ∈ rest, ∃ before after tail, line = List.replicate before ' ' ++ tail ∧
      change line = List.replicate after ' ' ++ tail) :
    Relaid (joinLines (first :: rest)) (joinLines (first :: rest.map change)) := by
  induction rest generalizing first with
  | nil => exact .refl _
  | cons line rest ih =>
      obtain ⟨before, after, tail, hLine, hChanged⟩ := hChange line List.mem_cons_self
      rw [List.map_cons, hChanged, hLine, joinLines_cons_of_ne_nil _ (List.cons_ne_nil _ _),
        joinLines_cons_of_ne_nil _ (List.cons_ne_nil _ _), joinLines_append_cons,
        joinLines_append_cons]
      refine Relaid.append first (.feed before after (ih tail ?_))
      exact fun line hMem => hChange line (List.mem_cons_of_mem _ hMem)

/-- Taking spaces off a line leaves a line with the same text behind its spaces. -/
theorem exists_dropSpaces (amount : Nat) (line : List Char) :
    ∃ before after tail, line = List.replicate before ' ' ++ tail ∧
      dropSpaces amount line = List.replicate after ' ' ++ tail := by
  refine ⟨min (leadingSpaces line) amount, 0, dropSpaces amount line, ?_, rfl⟩
  have hSpaces : line.take (min (leadingSpaces line) amount) =
      List.replicate (min (leadingSpaces line) amount) ' ' := by
    refine List.eq_replicate_iff.mpr ⟨?_, ?_⟩
    · have hLe : leadingSpaces line ≤ line.length := (List.takeWhile_sublist _).length_le
      rw [List.length_take]
      omega
    · intro c hMem
      have hInside : c ∈ line.takeWhile (· = ' ') := by
        have hPrefix : line.take (leadingSpaces line) = line.takeWhile (· = ' ') :=
          (List.prefix_iff_eq_take.mp (List.takeWhile_prefix _)).symm
        rw [← hPrefix]
        exact List.take_subset_take_left _ (Nat.min_le_left _ _) hMem
      simpa using List.mem_takeWhile_imp hInside
  rw [← hSpaces, dropSpaces, List.take_append_drop]

/-- Putting a margin before a line leaves a line with the same text behind its spaces, and an empty
line gets no margin. -/
theorem exists_underMargin (margin : Nat) (line : List Char) :
    ∃ before after tail, line = List.replicate before ' ' ++ tail ∧
      underMargin margin line = List.replicate after ' ' ++ tail := by
  cases line with
  | nil => exact ⟨0, 0, [], rfl, rfl⟩
  | cons c line => exact ⟨0, margin, c :: line, rfl, rfl⟩

/-- Taking indentation away only lays a text out anew. Nothing but spaces behind line feeds is
taken. -/
theorem relaid_dedent (text : String) : Relaid text.toList (dedent text).toList := by
  rw [dedent, String.toList_ofList]
  conv => lhs; rw [← joinLines_splitLines text.toList]
  cases splitLines text.toList with
  | nil => exact .refl _
  | cons first rest => exact relaid_joinLines first rest _ fun line _ => exists_dropSpaces _ line

/-- Indenting only lays a text out anew. Nothing but spaces behind line feeds is added. -/
theorem relaid_indent (text : String) (depth : Nat) : Relaid text.toList (indent text depth).toList := by
  rw [indent, String.toList_ofList]
  conv => lhs; rw [← joinLines_splitLines text.toList]
  cases splitLines text.toList with
  | nil => exact .refl _
  | cons first rest => exact relaid_joinLines first rest _ fun line _ => exists_underMargin _ line

/-- Whether the last of several lines begins with no space. -/
def endsFlush (text : String) : Bool :=
  (splitLines text.toList).tail.getLast?.all fun line => line.head? != some ' '

/-- A text of one line ends flush, as it has no last line apart from its first. -/
theorem endsFlush_of_not_mem {text : String} (hLine : '\n' ∉ text.toList) : endsFlush text = true := by
  rw [endsFlush, splitLines_of_not_mem hLine]
  rfl

/-- A text of one line has no indentation to be taken away. -/
theorem dedent_of_not_mem {text : String} (hLine : '\n' ∉ text.toList) : dedent text = text := by
  rw [dedent, splitLines_of_not_mem hLine]
  exact String.ofList_toList

theorem indent_of_not_mem {text : String} (hLine : '\n' ∉ text.toList) (depth : Nat) :
    indent text depth = text := by
  rw [indent, splitLines_of_not_mem hLine]
  exact String.ofList_toList

/-- A line that begins with no space has as many leading spaces behind a margin as the margin is
wide. -/
theorem leadingSpaces_of_flush {margin : Nat} {line : List Char} (hFlush : line.head? ≠ some ' ') :
    leadingSpaces (List.replicate margin ' ' ++ line) = margin := by
  have hNone : line.takeWhile (· = ' ') = [] := by
    cases line with
    | nil => rfl
    | cons c line =>
        have hSpace : c ≠ ' ' := fun hEq => hFlush (by rw [hEq]; rfl)
        simp [hSpace]
  have hAll : ∀ c ∈ List.replicate margin ' ', decide (c = ' ') = true := by
    simp
  rw [leadingSpaces, List.takeWhile_append_of_pos hAll, hNone, List.append_nil, List.length_replicate]

/-- Spaces that a margin put in front of a line are taken away again. -/
theorem dropSpaces_underMargin (margin : Nat) (line : List Char) :
    dropSpaces margin (underMargin margin line) = line := by
  cases line with
  | nil => rfl
  | cons c line =>
      have hSpaces : margin ≤ leadingSpaces (List.replicate margin ' ' ++ c :: line) := by
        have hAll : ∀ c ∈ List.replicate margin ' ', decide (c = ' ') = true := by
          simp
        rw [leadingSpaces, List.takeWhile_append_of_pos hAll, List.length_append,
          List.length_replicate]
        omega
      have hMargin : underMargin margin (c :: line) = List.replicate margin ' ' ++ c :: line := rfl
      rw [hMargin, dropSpaces, Nat.min_eq_right hSpaces]
      simp

theorem not_mem_underMargin {margin : Nat} {line : List Char} (hLine : '\n' ∉ line) :
    '\n' ∉ underMargin margin line := by
  cases line with
  | nil => exact List.not_mem_nil
  | cons c line =>
      have hMargin : underMargin margin (c :: line) = List.replicate margin ' ' ++ c :: line := rfl
      rw [hMargin, List.mem_append, not_or]
      exact ⟨fun hMem => absurd (List.eq_of_mem_replicate hMem) (by decide), hLine⟩

/-- Indenting changes the lines of a text but makes none: there are as many as before, and each is
indented. -/
theorem splitLines_indent (text : String) (depth : Nat) :
    splitLines (indent text depth).toList =
      indentLines (depth * indentationWidth) (splitLines text.toList) := by
  obtain ⟨first, rest, hSplit⟩ := List.exists_cons_of_ne_nil (splitLines_ne_nil text.toList)
  have hLines : ∀ line ∈ splitLines text.toList, '\n' ∉ line := fun _ => not_mem_of_mem_splitLines
  rw [indent, String.toList_ofList, hSplit]
  rw [hSplit, List.forall_mem_cons] at hLines
  refine splitLines_joinLines (List.cons_ne_nil _ _) (List.forall_mem_cons.mpr ⟨hLines.1, ?_⟩)
  exact List.forall_mem_map.mpr fun line hLine => not_mem_underMargin (hLines.2 line hLine)

/-- Taking indentation away changes the lines of a text but makes none. What is taken off each of
them is decided by the last line. -/
theorem splitLines_dedent (text : String) :
    splitLines (dedent text).toList = dedentLines (splitLines text.toList) := by
  obtain ⟨first, rest, hSplit⟩ := List.exists_cons_of_ne_nil (splitLines_ne_nil text.toList)
  have hLines : ∀ line ∈ splitLines text.toList, '\n' ∉ line := fun _ => not_mem_of_mem_splitLines
  rw [dedent, String.toList_ofList, hSplit]
  rw [hSplit, List.forall_mem_cons] at hLines
  refine splitLines_joinLines (List.cons_ne_nil _ _) (List.forall_mem_cons.mpr ⟨hLines.1, ?_⟩)
  exact List.forall_mem_map.mpr fun line hLine hFeed =>
    hLines.2 line hLine (List.mem_of_mem_drop hFeed)

/-- What was indented is had back by taking the indentation of its last line away, if that line
stands flush and is not empty. -/
theorem dedent_indent_of_filled {text : String} (hFlush : endsFlush text = true)
    (hFilled : ∀ last ∈ (splitLines text.toList).tail.getLast?, last ≠ []) (depth : Nat) :
    dedent (indent text depth) = text := by
  have hJoined := joinLines_splitLines text.toList
  obtain ⟨first, rest, hSplit⟩ := List.exists_cons_of_ne_nil (splitLines_ne_nil text.toList)
  rw [endsFlush, hSplit, List.tail_cons] at hFlush
  rw [hSplit, List.tail_cons] at hFilled
  rw [hSplit] at hJoined
  have hBack : dedentLines (first :: rest.map (underMargin (depth * indentationWidth))) =
      first :: rest := by
    cases hEnd : rest.getLast? with
    | none =>
        rw [List.getLast?_eq_none_iff.mp hEnd]
        rfl
    | some last =>
        have hLastFilled : last ≠ [] := hFilled last hEnd
        rw [hEnd, Option.all_some, bne_iff_ne] at hFlush
        have hMargin : underMargin (depth * indentationWidth) last =
            List.replicate (depth * indentationWidth) ' ' ++ last := by
          cases last with
          | nil => exact absurd rfl hLastFilled
          | cons c last => rfl
        rw [dedentLines, List.getLast?_map, hEnd, Option.map_some, Option.getD_some, hMargin,
          leadingSpaces_of_flush hFlush, List.map_map]
        refine congrArg (first :: ·) ?_
        conv => rhs; rw [← List.map_id rest]
        exact List.map_congr_left fun line _ => dropSpaces_underMargin _ line
  rw [dedent, splitLines_indent, hSplit, indentLines, hBack, hJoined]
  exact String.ofList_toList

/-- Indentation that was added is taken away again from a text that ends flush and with no line
feed. -/
theorem dedent_indent {text : String} (hFlush : endsFlush text = true) {c : Char} (hFeed : c ≠ '\n')
    (hLast : text.toList.getLast? = some c) (depth : Nat) : dedent (indent text depth) = text := by
  obtain ⟨front, hText⟩ := List.getLast?_eq_some_iff.mp hLast
  have hFilled := getLast?_splitLines_ne_nil hFeed front
  rw [← hText] at hFilled
  refine dedent_indent_of_filled hFlush (fun last hTail => hFilled last ?_) depth
  obtain ⟨first, rest, hSplit⟩ := List.exists_cons_of_ne_nil (splitLines_ne_nil text.toList)
  rw [hSplit, List.tail_cons] at hTail
  rw [hSplit, List.getLast?_cons, Option.mem_def.mp hTail]
  rfl

/-- Without its indentation a text ends flush, because what is taken off every line is just what the
last line is indented by. -/
theorem endsFlush_dedent (text : String) : endsFlush (dedent text) = true := by
  obtain ⟨first, rest, hSplit⟩ := List.exists_cons_of_ne_nil (splitLines_ne_nil text.toList)
  rw [endsFlush, splitLines_dedent, hSplit, dedentLines, List.tail_cons, List.getLast?_map]
  cases hEnd : rest.getLast? with
  | none => rfl
  | some last =>
      rw [Option.map_some, Option.all_some, Option.getD_some, bne_iff_ne, dropSpaces, Nat.min_self]
      intro hHead
      have hDrop : last.drop (leadingSpaces last) = last.dropWhile (· = ' ') := by
        have hParts := @List.drop_left _ (last.takeWhile (· = ' ')) (last.dropWhile (· = ' '))
        rwa [List.takeWhile_append_dropWhile] at hParts
      rw [hDrop] at hHead
      have hNot := List.head?_dropWhile_not (fun c => decide (c = ' ')) last
      rw [hHead] at hNot
      simp at hNot

/-- A text that ends flush has no indentation to take away. -/
theorem dedent_of_endsFlush {text : String} (hFlush : endsFlush text = true) :
    dedent text = text := by
  have hJoined := joinLines_splitLines text.toList
  obtain ⟨first, rest, hSplit⟩ := List.exists_cons_of_ne_nil (splitLines_ne_nil text.toList)
  rw [endsFlush, hSplit, List.tail_cons] at hFlush
  have hMargin : leadingSpaces (rest.getLast?.getD []) = 0 := by
    cases hEnd : rest.getLast? with
    | none => rfl
    | some last =>
        rw [hEnd, Option.all_some, bne_iff_ne] at hFlush
        exact @leadingSpaces_of_flush 0 last hFlush
  have hSame : dropSpaces 0 = id := by
    funext line
    rw [dropSpaces, Nat.min_zero, List.drop_zero]
    rfl
  rw [dedent, hSplit, dedentLines, hMargin, hSame, List.map_id, ← hSplit, hJoined]
  exact String.ofList_toList

/-- Indentation is taken away once. What is left ends flush, and so there is none to be taken again.
-/
theorem dedent_dedent (text : String) : dedent (dedent text) = dedent text :=
  dedent_of_endsFlush (endsFlush_dedent text)

/-- One margin before another is the margin of both together, also on an empty line, where there is
none. -/
theorem underMargin_underMargin (inner outer : Nat) (line : List Char) :
    underMargin outer (underMargin inner line) = underMargin (inner + outer) line := by
  cases line with
  | nil => rfl
  | cons c line =>
      have hInner : underMargin inner (c :: line) = List.replicate inner ' ' ++ c :: line := rfl
      have hBoth : underMargin (inner + outer) (c :: line) =
          List.replicate (inner + outer) ' ' ++ c :: line := rfl
      have hFilled : (List.replicate inner ' ' ++ c :: line).isEmpty = false := by simp
      rw [hInner, underMargin, hFilled, hBoth, Nat.add_comm inner outer,
        ← List.replicate_append_replicate, List.append_assoc]
      rfl

/-- Indentation adds up, as the depth of a node is the sum of the depths that it is written at. -/
theorem indent_indent (text : String) (inner outer : Nat) :
    indent (indent text inner) outer = indent text (inner + outer) := by
  obtain ⟨first, rest, hSplit⟩ := List.exists_cons_of_ne_nil (splitLines_ne_nil text.toList)
  have hMargins : ∀ line, underMargin (outer * indentationWidth)
      (underMargin (inner * indentationWidth) line) =
        underMargin ((inner + outer) * indentationWidth) line := fun line => by
    rw [underMargin_underMargin, Nat.add_mul]
  have hLines : indentLines (outer * indentationWidth)
      (indentLines (inner * indentationWidth) (first :: rest)) =
        indentLines ((inner + outer) * indentationWidth) (first :: rest) := by
    simp only [indentLines, List.map_map, Function.comp_def, hMargins]
  rw [indent, splitLines_indent, hSplit, hLines, ← hSplit, ← indent]

/-- Taking away the indentation of the last line leaves what else is in it. -/
theorem dedent_indent_dedent {text : String}
    (hLast : '\n' ∉ text.toList ∨ ∃ last ∈ (splitLines text.toList).getLast?, ∃ c ∈ last, c ≠ ' ')
    (depth : Nat) : dedent (indent (dedent text) depth) = dedent text := by
  rcases hLast with hLine | ⟨last, hLast, c, hMem, hSpace⟩
  · rw [dedent_of_not_mem hLine, indent_of_not_mem hLine, dedent_of_not_mem hLine]
  · refine dedent_indent_of_filled (endsFlush_dedent text) ?_ depth
    obtain ⟨first, rest, hSplit⟩ := List.exists_cons_of_ne_nil (splitLines_ne_nil text.toList)
    rw [splitLines_dedent, hSplit, dedentLines, List.tail_cons, List.getLast?_map]
    rw [hSplit, Option.mem_def, List.getLast?_cons] at hLast
    intro line hLine
    obtain ⟨closing, hClosing, rfl⟩ := Option.map_eq_some_iff.mp hLine
    rw [hClosing, Option.getD_some, Option.some.injEq] at hLast
    subst hLast
    obtain ⟨before, after, tail, hWhole, hLeft⟩ :=
      exists_dropSpaces (leadingSpaces (rest.getLast?.getD [])) closing
    rw [hLeft]
    rw [hWhole, List.mem_append, List.mem_replicate] at hMem
    exact List.append_ne_nil_of_right_ne_nil _
      (List.ne_nil_of_mem (hMem.resolve_left fun hSpaces => hSpace hSpaces.2))

end DocumentLanguage.Text
