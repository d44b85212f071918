import DocumentLanguage.Json.Pretty
import DocumentLanguage.Json.Raw
import Mathlib.Tactic.SplitIfs

/-!
What is written as JSON is read as it was. A string is read character by character out of its
escapes; a value is read back together with whatever follows it, which lets the readers of items
and members go on from there.
-/
namespace DocumentLanguage.Json

/-! ### Strings -/

/-- A letter behind a backslash stands for one character, and reading goes on behind it. -/
theorem readString_letter {letter c : Char} (hCode : letter ≠ 'u')
    (hLetter : escaped? letter = some c) (rest : List Char) :
    readString ('\\' :: letter :: rest) =
      (readString rest).map fun (chars, rest) => (c :: chars, rest) := by
  rw [readString.eq_def]
  simp [hCode, hLetter]

theorem passString_letter {letter c : Char} (hCode : letter ≠ 'u')
    (hLetter : escaped? letter = some c) (rest : List Char) :
    passString ('\\' :: letter :: rest) = passString rest := by
  rw [passString.eq_def]
  simp [hCode, hLetter]

/-- The code of a control character, in four hexadecimal digits, is read as the number of that
character. -/
private theorem codeUnit_control {n : Nat} (hControl : n < 0x20) :
    codeUnit? '0' '0' (Nat.digitChar (n / 16)) (Nat.digitChar (n % 16)) = some n := by
  have hAll : ∀ n < 0x20,
      codeUnit? '0' '0' (Nat.digitChar (n / 16)) (Nat.digitChar (n % 16)) = some n := by decide
  exact hAll n hControl

/-- A character is read out of the way in which it is written. -/
theorem readString_escapedChar (c : Char) (rest : List Char) :
    readString (escapedChar c ++ rest) =
      (readString rest).map fun (chars, rest) => (c :: chars, rest) := by
  unfold escapedChar
  split_ifs with hPlain hBack hTab hLine hForm hReturn hControl
  · rcases hPlain with rfl | rfl
    · exact readString_letter (by decide) (by decide) rest
    · exact readString_letter (by decide) (by decide) rest
  · exact readString_letter (by decide) (by rw [hBack]; decide) rest
  · exact readString_letter (by decide) (by rw [hTab]; decide) rest
  · exact readString_letter (by decide) (by rw [hLine]; decide) rest
  · exact readString_letter (by decide) (by rw [hForm]; decide) rest
  · exact readString_letter (by decide) (by rw [hReturn]; decide) rest
  · have hTrailing : isTrailing c.toNat = false := by simp [isTrailing]; omega
    have hLeading : isLeading c.toNat = false := by simp [isLeading]; omega
    simp only [List.cons_append, List.nil_append]
    rw [readString.eq_def]
    simp [codeUnit_control hControl, hTrailing, hLeading, Char.ofNat_toNat]
  · rw [not_or] at hPlain
    rw [List.singleton_append, readString.eq_def]
    simp [hPlain.1, hPlain.2, hControl]

/-- A character is passed over as it is written, whether it is escaped or stands for itself. -/
theorem passString_escapedChar (c : Char) (rest : List Char) :
    passString (escapedChar c ++ rest) = passString rest := by
  unfold escapedChar
  split_ifs with hPlain hBack hTab hLine hForm hReturn hControl
  · rcases hPlain with rfl | rfl
    · exact passString_letter (c := '"') (by decide) (by decide) rest
    · exact passString_letter (c := '\\') (by decide) (by decide) rest
  · exact passString_letter (c := '\x08') (by decide) (by decide) rest
  · exact passString_letter (c := '\t') (by decide) (by decide) rest
  · exact passString_letter (c := '\n') (by decide) (by decide) rest
  · exact passString_letter (c := '\x0c') (by decide) (by decide) rest
  · exact passString_letter (c := '\r') (by decide) (by decide) rest
  · simp only [List.cons_append, List.nil_append]
    rw [passString.eq_def]
    simp [codeUnit_control hControl]
  · rw [not_or] at hPlain
    rw [List.singleton_append, passString.eq_def]
    simp [hPlain.1, hPlain.2, hControl]

/-- A string that was written character by character is read back up to its closing quotation mark.
-/
theorem readString_escaped (chars rest : List Char) :
    readString (chars.flatMap escapedChar ++ '"' :: rest) = .ok (chars, rest) := by
  induction chars with
  | nil => rw [List.flatMap_nil, List.nil_append, readString.eq_def]; rfl
  | cons c chars ih =>
    rw [List.flatMap_cons, List.append_assoc, readString_escapedChar, ih]
    rfl

theorem passString_escaped (chars rest : List Char) :
    passString (chars.flatMap escapedChar ++ '"' :: rest) = .ok rest := by
  induction chars with
  | nil => rw [List.flatMap_nil, List.nil_append, passString.eq_def]; rfl
  | cons c chars ih => rw [List.flatMap_cons, List.append_assoc, passString_escapedChar, ih]

/-- The lexeme of a string that was written has no faults, and it gives the text again. -/
theorem Lexeme.read_escaped (text : String) (rest : List Char) :
    Lexeme.read (text.toList.flatMap escapedChar ++ '"' :: rest) = (.ofText text, rest) := by
  simp [Lexeme.read, readString_escaped, passString_escaped, Lexeme.ofText, Except.map]

/-! ### Values -/

mutual

/-- A value in which there are no numbers. Only numbers may read as others than were written. -/
def Numberless : Json → Prop
  | integer _ | float _ => False
  | array items => items.Numberless
  | object members => members.Numberless
  | null | bool _ | string _ => True

def Items.Numberless : Items → Prop
  | .nil => True
  | .cons item rest => item.Numberless ∧ rest.Numberless

def Members.Numberless : Members → Prop
  | .nil => True
  | .cons _ value rest => value.Numberless ∧ rest.Numberless

end

theorem quoted_append (text : String) (rest : List Char) :
    quoted text ++ rest = '"' :: (text.toList.flatMap escapedChar ++ '"' :: rest) := by
  simp [quoted]

/-- The readers pass over the start of a line, as it is made of a line feed and spaces. -/
theorem Raw.dropBlank_lineStart (level : Nat) (text : List Char) :
    Raw.dropBlank (lineStart level ++ text) = Raw.dropBlank text := by
  have hSpaces : ∀ count, Raw.dropBlank (List.replicate count ' ' ++ text) = Raw.dropBlank text := by
    intro count
    induction count with
    | zero => rfl
    | succ count ih => rw [← ih]; rfl
  rw [← hSpaces (2 * level)]
  rfl

/-- Where something begins that is no blank and closes no list. -/
def Begins (text : List Char) : Prop :=
  ∃ c rest, text = c :: rest ∧ c ≠ ']' ∧ c ≠ '}' ∧ Raw.dropBlank text = text

theorem quoted_begins (key : String) (text : List Char) : Begins (quoted key ++ text) :=
  ⟨'"', _, quoted_append key text, by decide, by decide, by rw [quoted_append]; rfl⟩

/-- The text of a value begins with a character that no reader passes over. -/
theorem chars_begins {value : Json} (hPlain : value.Numberless) (level : Nat) (text : List Char) :
    Begins (value.chars level text) := by
  cases value with
  | integer | float => exact hPlain.elim
  | string value => exact quoted_begins value text
  | null => exact ⟨'n', _, rfl, by decide, by decide, rfl⟩
  | bool value =>
    cases value
    · exact ⟨'f', _, rfl, by decide, by decide, rfl⟩
    · exact ⟨'t', _, rfl, by decide, by decide, rfl⟩
  | array items => cases items <;> exact ⟨'[', _, rfl, by decide, by decide, rfl⟩
  | object members => cases members <;> exact ⟨'{', _, rfl, by decide, by decide, rfl⟩

mutual

/-- What follows a value is a part of the text with it. -/
theorem length_lt_chars {value : Json} (hPlain : value.Numberless) (level : Nat)
    (text : List Char) : text.length < (value.chars level text).length := by
  match value with
  | .null | .bool true | .bool false => simp [chars]; omega
  | .string _ => simp [chars, quoted_append]; omega
  | .array .nil | .object .nil => exact Nat.lt_succ_of_lt (Nat.lt_succ_self _)
  | .array (.cons item rest) =>
    have hItem := length_lt_chars hPlain.1 (level + 1)
      (rest.chars (level + 1) (lineStart level ++ ']' :: text))
    have hRest := Items.length_le_chars hPlain.2 (level + 1) (lineStart level ++ ']' :: text)
    simp [chars] at hItem hRest ⊢
    omega
  | .object (.cons key value rest) =>
    have hValue := length_lt_chars hPlain.1 (level + 1)
      (rest.chars (level + 1) (lineStart level ++ '}' :: text))
    have hRest := Members.length_le_chars hPlain.2 (level + 1) (lineStart level ++ '}' :: text)
    simp [chars] at hValue hRest ⊢
    omega

theorem Items.length_le_chars {items : Items} (hPlain : items.Numberless) (level : Nat)
    (text : List Char) : text.length ≤ (items.chars level text).length := by
  match items with
  | .nil => simp [Items.chars]
  | .cons item rest =>
    have hItem := length_lt_chars hPlain.1 level (rest.chars level text)
    have hRest := Items.length_le_chars hPlain.2 level text
    simp [Items.chars]
    omega

theorem Members.length_le_chars {members : Members} (hPlain : members.Numberless) (level : Nat)
    (text : List Char) : text.length ≤ (members.chars level text).length := by
  match members with
  | .nil => simp [Members.chars]
  | .cons key value rest =>
    have hValue := length_lt_chars hPlain.1 level (rest.chars level text)
    have hRest := Members.length_le_chars hPlain.2 level text
    simp [Members.chars]
    omega

end

theorem Raw.readWord_letters (value : Raw) (letters text : List Char) :
    readWord value letters (letters ++ text) = (value, text) := by
  induction letters with
  | nil => rfl
  | cons letter letters ih => simp [readWord, ih]

/-- A blank before a value makes no difference to what is read. -/
theorem Raw.readValue_space (bound : Nat) (text : List Char) :
    readValue bound (' ' :: text) = readValue bound text := by
  cases bound <;> rfl

theorem Raw.readValue_array (bound : Nat) (text : List Char) :
    readValue (bound + 1) ('[' :: text) =
      ((readFirstItem bound text).map Raw.array id) := rfl

theorem Raw.readValue_object (bound : Nat) (text : List Char) :
    readValue (bound + 1) ('{' :: text) =
      ((readFirstMember bound text).map Raw.object id) := rfl

/-- Where something begins on a line of its own, the first item does. -/
theorem Raw.readFirstItem_line {text : List Char} (hBegins : Begins text) (bound level : Nat) :
    readFirstItem (bound + 1) (lineStart level ++ text) = readItem bound text := by
  obtain ⟨c, rest, rfl, hItems, -, hBlank⟩ := hBegins
  rw [readFirstItem, dropBlank_lineStart, hBlank]
  simp [hItems]

theorem Raw.readFirstMember_line {text : List Char} (hBegins : Begins text) (bound level : Nat) :
    readFirstMember (bound + 1) (lineStart level ++ text) = readMember bound text := by
  obtain ⟨c, rest, rfl, -, hMembers, hBlank⟩ := hBegins
  rw [readFirstMember, dropBlank_lineStart, hBlank]
  simp [hMembers]

/-- The last item is the one behind which the array ends, with its bracket on a line of its own. -/
theorem Raw.readItem_last {bound outer : Nat} {text rest : List Char} {item : Raw}
    (hItem : readValue bound text = (item, lineStart outer ++ ']' :: rest)) :
    readItem (bound + 1) text = (.cons item .close, rest) := by
  rw [readItem, hItem]
  simp only [dropBlank_lineStart]
  rfl

/-- Behind an item with a comma the next one is read, from the start of its line. -/
theorem Raw.readItem_next {bound level : Nat} {text next : List Char} {item : Raw}
    (hItem : readValue bound text = (item, ',' :: (lineStart level ++ next)))
    (hNext : Begins next) :
    readItem (bound + 1) text = (readItem bound next).map (Items.cons item) id := by
  obtain ⟨c, rest, rfl, hClose, -, hBlank⟩ := hNext
  have hComma : dropBlank (',' :: (lineStart level ++ c :: rest)) =
      ',' :: (lineStart level ++ c :: rest) := rfl
  rw [readItem, hItem]
  simp only [hComma, dropBlank_lineStart, hBlank]
  split
  · exact absurd (List.cons.inj ‹_›).1 hClose
  · rfl

/-- The last member is the one behind which the object ends, with its brace on a line of its own. -/
theorem Raw.readMember_last {bound outer : Nat} {key : String} {text rest : List Char} {value : Raw}
    (hValue : readValue bound text = (value, lineStart outer ++ '}' :: rest)) :
    readMember (bound + 1) (quoted key ++ ':' :: ' ' :: text) =
      (.cons (.ofText key) value .close, rest) := by
  rw [quoted_append, readMember]
  have hHere : dropBlank (':' :: ' ' :: text) = ':' :: ' ' :: text := rfl
  simp only [Lexeme.read_escaped, hHere, readValue_space, hValue, dropBlank_lineStart]
  rfl

/-- Behind a member with a comma the next one is read, from the start of its line. -/
theorem Raw.readMember_next {bound level : Nat} {key : String} {text next : List Char} {value : Raw}
    (hValue : readValue bound text = (value, ',' :: (lineStart level ++ next)))
    (hNext : Begins next) :
    readMember (bound + 1) (quoted key ++ ':' :: ' ' :: text) =
      (readMember bound next).map (Members.cons (.ofText key) value) id := by
  obtain ⟨c, rest, rfl, -, hClose, hBlank⟩ := hNext
  have hColon : dropBlank (':' :: ' ' :: text) = ':' :: ' ' :: text := rfl
  have hComma : dropBlank (',' :: (lineStart level ++ c :: rest)) =
      ',' :: (lineStart level ++ c :: rest) := rfl
  rw [quoted_append, readMember]
  simp only [Lexeme.read_escaped, hColon, readValue_space, hValue, hComma, dropBlank_lineStart,
    hBlank]
  split
  · exact absurd ‹_› (by simp)
  · exact absurd (List.cons.inj ‹_›).1 hClose
  · rfl

/-- A value is read back with what follows it, given three steps for each of its characters. -/
def ReadsBack (value : Json) : Prop :=
  ∀ (level : Nat) (text : List Char) (bound : Nat),
    3 * (value.chars level text).length ≤ bound + 3 * text.length →
      Raw.readValue bound (value.chars level text) = (value.raw, text)

mutual

/-- A value without numbers is read back from its text, at every level of indentation. -/
theorem readsBack {value : Json} (hPlain : value.Numberless) : value.ReadsBack := by
  intro level text bound hBound
  have hLength := length_lt_chars hPlain level text
  obtain ⟨bound, rfl⟩ : ∃ smaller, bound = smaller + 2 := ⟨bound - 2, by omega⟩
  match value with
  | .null => exact Raw.readWord_letters .null ['u', 'l', 'l'] text
  | .bool true => exact Raw.readWord_letters (.bool true) ['r', 'u', 'e'] text
  | .bool false => exact Raw.readWord_letters (.bool false) ['a', 'l', 's', 'e'] text
  | .string value =>
    rw [chars, quoted_append, Raw.readValue]
    simp [Raw.dropBlank, Lexeme.read_escaped, raw]
  | .array .nil | .object .nil => rfl
  | .array (.cons item rest) =>
    have hRead := readItem_chars hPlain.1 (readsBack hPlain.1) hPlain.2 (level + 1) level text bound
      (by simp [chars] at hBound ⊢; omega)
    rw [chars, List.cons_append, Raw.readValue_array,
      Raw.readFirstItem_line (chars_begins hPlain.1 ..), hRead]
    rfl
  | .object (.cons key value rest) =>
    have hRead := readMember_chars key hPlain.1 (readsBack hPlain.1) hPlain.2 (level + 1) level text
      bound (by simp [chars] at hBound ⊢; omega)
    rw [chars, List.cons_append, List.cons_append, List.append_assoc, Raw.readValue_object,
      Raw.readFirstMember_line (quoted_begins ..), hRead]
    rfl

/-- An item is read back together with the items behind it, if the bound is enough for the whole
text. -/
theorem readItem_chars {item : Json} {rest : Items} (hItem : item.Numberless)
    (hReads : item.ReadsBack) (hRest : rest.Numberless) (level outer : Nat) (text : List Char)
    (bound : Nat)
    (hBound : 3 * (item.chars level (rest.chars level (lineStart outer ++ ']' :: text))).length ≤
      bound + 3 * text.length) :
    Raw.readItem bound (item.chars level (rest.chars level (lineStart outer ++ ']' :: text))) =
      (.cons item.raw rest.raw, text) := by
  have hLength := length_lt_chars hItem level (rest.chars level (lineStart outer ++ ']' :: text))
  have hBehind := Items.length_le_chars hRest level (lineStart outer ++ ']' :: text)
  simp only [List.length_append, List.length_cons] at hBehind
  obtain ⟨bound, rfl⟩ : ∃ smaller, bound = smaller + 1 := ⟨bound - 1, by omega⟩
  have hRead := hReads level (rest.chars level (lineStart outer ++ ']' :: text)) bound (by omega)
  match rest with
  | .nil => exact Raw.readItem_last hRead
  | .cons next rest =>
    have hNext := readItem_chars hRest.1 (readsBack hRest.1) hRest.2 level outer text bound
      (by simp [Items.chars] at hBound hLength ⊢; omega)
    rw [Items.chars, List.cons_append] at hRead
    rw [Items.chars, List.cons_append, Raw.readItem_next hRead (chars_begins hRest.1 ..), hNext]
    rfl

/-- A member is read back together with the members behind it, if the bound is enough for the whole
text. -/
theorem readMember_chars {value : Json} {rest : Members} (key : String) (hValue : value.Numberless)
    (hReads : value.ReadsBack) (hRest : rest.Numberless) (level outer : Nat) (text : List Char)
    (bound : Nat)
    (hBound : 3 * (value.chars level (rest.chars level (lineStart outer ++ '}' :: text))).length ≤
      bound + 3 * text.length) :
    Raw.readMember bound (quoted key ++ ':' :: ' ' ::
        value.chars level (rest.chars level (lineStart outer ++ '}' :: text))) =
      (.cons (.ofText key) value.raw rest.raw, text) := by
  have hLength := length_lt_chars hValue level (rest.chars level (lineStart outer ++ '}' :: text))
  have hBehind := Members.length_le_chars hRest level (lineStart outer ++ '}' :: text)
  simp only [List.length_append, List.length_cons] at hBehind
  obtain ⟨bound, rfl⟩ : ∃ smaller, bound = smaller + 1 := ⟨bound - 1, by omega⟩
  have hRead := hReads level (rest.chars level (lineStart outer ++ '}' :: text)) bound (by omega)
  match rest with
  | .nil => exact Raw.readMember_last hRead
  | .cons nextKey next rest =>
    have hNext := readMember_chars nextKey hRest.1 (readsBack hRest.1) hRest.2 level outer text
      bound (by simp [Members.chars] at hBound hLength ⊢; omega)
    rw [Members.chars, List.cons_append, List.cons_append, List.append_assoc] at hRead
    rw [Members.chars, List.cons_append, List.cons_append, List.append_assoc,
      Raw.readMember_next hRead (quoted_begins ..), hNext]
    rfl

end

/-- What is written is read back, and nothing of the text is left over. -/
theorem read_pretty {value : Json} (hPlain : value.Numberless) :
    Raw.read value.pretty = (value.raw, []) := by
  have hRead := readsBack hPlain 0 [] (3 * ((value.chars 0 []).length + 1))
    (by simp only [List.length_nil]; omega)
  simp only [Raw.read, pretty, String.toList_ofList, hRead]
  rfl

end DocumentLanguage.Json
