import DocumentLanguage.Yaml.Character

/-! Places in a stream of characters. -/
namespace DocumentLanguage.Yaml

def octetCount (text : List Char) : Nat :=
  text.foldl (fun count c => count + c.utf8Size) 0

/-- A place in a stream: what follows it, and where it is. -/
structure Place where
  rest : List Char
  /-- The octets before it. -/
  index : Nat := 0
  line : Nat := 0
  column : Nat := 0
deriving DecidableEq, Repr

namespace Place

/-- The place so many characters further on the same line. -/
def skipMany (count : Nat) (place : Place) : Place :=
  { place with
    rest := place.rest.drop count
    index := place.index + octetCount (place.rest.take count)
    column := place.column + count }

/-- The place behind the next character, on the same line. -/
def skip (place : Place) : Place := place.skipMany 1

/-- The place behind the end of the line that is here. -/
def skipLine (place : Place) : Place :=
  let length := match place.rest with
    | '\r' :: '\n' :: _ => 2
    | _ => 1
  { place.skipMany length with line := place.line + 1, column := 0 }

/-- The end of a line as it counts in a text: a line feed, unless it is a separator of its
own. -/
def lineEnd (place : Place) : List Char :=
  match place.rest with
  | [] => []
  | c :: _ => if c = '\u2028' ∨ c = '\u2029' then [c] else ['\n']

def at? (place : Place) (c : Char) : Bool := place.rest.head? = some c

def atAny (place : Place) (cls : Char → Bool) : Bool := place.rest.head?.any cls

def atMark (place : Place) : Bool :=
  place.column = 0 ∧ atBlank (place.rest.drop 3) ∧
    (place.rest.take 3 = ['-', '-', '-'] ∨ place.rest.take 3 = ['.', '.', '.'])

/-- The place behind all characters of a class on this line. -/
def skipWhile (cls : Char → Bool) (place : Place) : Place :=
  place.skipMany (place.rest.takeWhile cls).length

def takeWhile (cls : Char → Bool) (place : Place) : List Char :=
  place.rest.takeWhile cls

/-- The place at the end of the line, if nothing but blanks and a comment stands before it, and
behind that end. -/
def skipToNextLine? (place : Place) : Option Place :=
  let place := place.skipWhile isBlank
  let place := if place.at? '#' then place.skipWhile (!isBreak ·) else place
  if place.rest.isEmpty then some place
  else if place.atAny isBreak then some place.skipLine
  else none

end Place

end DocumentLanguage.Yaml
