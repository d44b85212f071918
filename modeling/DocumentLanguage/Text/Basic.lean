import DocumentLanguage.Unicode.GraphemeExtender
import DocumentLanguage.Unicode.Printable

/-!
Texts: their lines, the digits in them and the quotes around them. Splitting at line feeds and
joining with them undo each other, so a change made line by line loses nothing but what the change
itself removes. Between double quotes everything is escaped that would not show as itself.
-/
namespace DocumentLanguage.Text

/-! ### Lines -/

/-- The lines of a text: one more than its line feeds. -/
def splitLines : List Char → List (List Char)
  | [] => [[]]
  | c :: rest =>
    match splitLines rest with
    | [] => [[c]]
    | line :: lines => if c = '\n' then [] :: line :: lines else (c :: line) :: lines

def joinLines : List (List Char) → List Char
  | [] => []
  | [line] => line
  | line :: lines => line ++ '\n' :: joinLines lines

theorem splitLines_ne_nil (text : List Char) : splitLines text ≠ [] := by
  cases text with
  | nil => simp [splitLines]
  | cons c rest =>
    simp only [splitLines]
    split
    · simp
    · split <;> simp

theorem joinLines_cons_of_ne_nil (line : List Char) {lines : List (List Char)}
    (hLines : lines ≠ []) : joinLines (line :: lines) = line ++ '\n' :: joinLines lines := by
  cases lines with
  | nil => contradiction
  | cons _ _ => rfl

theorem joinLines_cons_cons (c : Char) (line : List Char) (lines : List (List Char)) :
    joinLines ((c :: line) :: lines) = c :: joinLines (line :: lines) := by
  cases lines <;> rfl

theorem joinLines_splitLines (text : List Char) : joinLines (splitLines text) = text := by
  induction text with
  | nil => rfl
  | cons c rest ih =>
    simp only [splitLines]
    split
    next h => exact absurd h (splitLines_ne_nil rest)
    next line lines h =>
      rw [h] at ih
      split
      next hFeed => simp [joinLines, ih, hFeed]
      next => rw [joinLines_cons_cons, ih]

/-! ### Digits -/

/-- The value of a digit; sixteen for what is none. -/
def digitValue (c : Char) : Nat :=
  if c.isDigit then c.toNat - '0'.toNat
  else if 'a' ≤ c ∧ c ≤ 'f' then c.toNat - 'a'.toNat + 10
  else if 'A' ≤ c ∧ c ≤ 'F' then c.toNat - 'A'.toNat + 10
  else 16

def isDigitIn (base : Nat) (c : Char) : Bool := digitValue c < base

def ofDigits (base : Nat) (digits : List Char) : Nat :=
  digits.foldl (fun number digit => number * base + digitValue digit) 0

/-- The number that a text of digits in a base stands for; there must be one. -/
def number? (base : Nat) (text : List Char) : Option Nat :=
  if text.isEmpty || !text.all (isDigitIn base) then none else some (ofDigits base text)

/-! ### Quotes -/

/-- A code point in braces, in lower-case hexadecimal without padding. -/
def codePointEscape (c : Char) : List Char :=
  ['\\', 'u', '{'] ++ Nat.toDigits 16 c.toNat ++ ['}']

def quotedChar (c : Char) : List Char :=
  if c = '"' ∨ c = '\\' then ['\\', c]
  else if c = '\t' then ['\\', 't']
  else if c = '\n' then ['\\', 'n']
  else if c = '\r' then ['\\', 'r']
  else if c = '\x00' then ['\\', '0']
  else if Unicode.isGraphemeExtender c || !Unicode.isPrintable c then codePointEscape c
  else [c]

def quoted (text : String) : String :=
  String.ofList ('"' :: text.toList.flatMap quotedChar ++ ['"'])

end DocumentLanguage.Text
