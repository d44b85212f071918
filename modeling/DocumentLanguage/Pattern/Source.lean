import DocumentLanguage.Pattern.Basic

/-! The usual way to write a pattern down. -/
namespace DocumentLanguage

/-- Marks with a meaning of their own in a written pattern. -/
def patternMarks : List Char :=
  ['\\', '.', '+', '*', '?', '(', ')', '|', '[', ']', '{', '}', '^', '$']

/-- Marks that are escaped besides in words taken literally. -/
def cautiousMarks : List Char := ['#', '&', '-', '~']

private def lineEndEscape? : Char → Option (List Char)
  | '\n' => some ['\\', 'n']
  | '\r' => some ['\\', 'r']
  | _ => none

/-- A character with a backslash before it where it is one of `marks`. -/
private def escapedAmong (marks : List Char) (c : Char) : List Char :=
  (lineEndEscape? c).getD (if marks.contains c then ['\\', c] else [c])

def SetItem.source : SetItem → List Char
  | char c => escapedAmong ['\\'] c
  | escaped c => ['\\', c]
  | range first last => [first, '-', last]
  | digit => ['\\', 'd']
  | blank => ['\\', 's']
  | nonBlank => ['\\', 'S']

def CharTest.source : CharTest → List Char
  | char c => escapedAmong patternMarks c
  | verbatim c => escapedAmong (patternMarks ++ cautiousMarks) c
  | digit => ['\\', 'd']
  | inLine => ['.']
  | oneOf items => '[' :: items.flatMap SetItem.source ++ [']']
  | noneOf items => ['[', '^'] ++ items.flatMap SetItem.source ++ [']']

namespace Pattern

/-- How tightly a written pattern holds together. -/
inductive Tightness
  | choice
  | sequence
  | item
deriving DecidableEq, Repr

/-- How tightly the written form of a pattern holds together. -/
def tightness : Pattern → Tightness
  | alt _ _ => .choice
  | cat _ _ | empty => .sequence
  | _ => .item

/-- A group that takes part in no numbering. -/
def grouped (source : List Char) : List Char :=
  ['(', '?', ':'] ++ source ++ [')']

def countSource (least most : Nat) : List Char :=
  if least = most then '{' :: (toString least).toList ++ ['}']
  else '{' :: (toString least).toList ++ ',' :: (toString most).toList ++ ['}']

/-- The pattern, written down with no more groups than it needs. -/
def source : Pattern → List Char
  | empty => []
  | one test => test.source
  | wordEnd => ['\\', 'b']
  | cat first second =>
    inSequence first first.source ++ inSequence second second.source
  | alt first second => first.source ++ '|' :: second.source
  | opt body => asItem body body.source ++ ['?']
  | star body => asItem body body.source ++ ['*']
  | plus body => asItem body body.source ++ ['+']
  | fewest body => asItem body body.source ++ ['*', '?']
  | times least most body => asItem body body.source ++ countSource least most
where
  inSequence (body : Pattern) (source : List Char) : List Char :=
    if body.tightness = .choice then grouped source else source
  asItem (body : Pattern) (source : List Char) : List Char :=
    if body.tightness = .item then source else grouped source

end Pattern

end DocumentLanguage
