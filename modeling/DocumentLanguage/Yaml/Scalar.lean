import DocumentLanguage.Yaml.Character
import DocumentLanguage.Yaml.Resolve

/-!
How a text is written as a scalar. It is written plainly where that reads back as the same text,
in single quotes where it would be taken for something else, as a block where it has lines, and
in double quotes where none of these can hold its characters.
-/
namespace DocumentLanguage.Yaml

/-- The ways to write a scalar. -/
inductive Style
  | plain | singleQuoted | doubleQuoted | literal
deriving DecidableEq, Repr

/-- Whether a character at the start of a scalar, with what follows it, means something. -/
def indicatesFirst (c : Char) (rest : List Char) : Bool :=
  isIndicator c || (['?', ':', '-'].contains c && atBlank rest)

/-- Whether the characters behind the first, which is given, mean something. -/
def indicatesLater : Char → List Char → Bool
  | _, [] => false
  | before, c :: rest =>
    (c = ':' && atBlank rest) || (c = '#' && (isBlank before || isBreak before)) ||
      indicatesLater c rest

/-- Whether a text looks like the mark between documents at its start. -/
def opensLikeMark (text : List Char) : Bool :=
  text.take 3 = ['-', '-', '-'] ∨ text.take 3 = ['.', '.', '.']

/-- Whether plain text would be taken for something else by its characters. -/
def indicates : List Char → Bool
  | [] => false
  | c :: rest => opensLikeMark (c :: rest) || indicatesFirst c rest || indicatesLater c rest

/-- Whether a character of one class is followed by one of another. -/
def meets (first second : Char → Bool) : List Char → Bool
  | c :: d :: rest => (first c && second d) || meets first second (d :: rest)
  | _ => false

def isSpace (c : Char) : Bool := c = ' '

/-- Whether text has characters that only double quotes can hold: such as do not show, and a
space before the end of a line. -/
def needsEscapes (text : List Char) : Bool :=
  text.any (!isPrintable ·) || meets isSpace isBreak text

def bordersOn (cls : Char → Bool) (text : List Char) : Bool :=
  text.head?.any cls || text.getLast?.any cls

/-- Whether a text can be written plainly as far as its characters go. -/
def allowsPlain (text : List Char) : Bool :=
  !(indicates text || needsEscapes text || text.any isBreak || bordersOn isSpace text)

def allowsSingleQuoted (text : List Char) : Bool :=
  !(needsEscapes text || meets isBreak isSpace text)

def allowsLiteral (text : List Char) : Bool :=
  !(text.isEmpty || needsEscapes text || text.getLast?.any isSpace)

/-- The style of a text. A key stands on one line. -/
def style (isKey : Bool) (text : String) : Style :=
  let chars := text.toList
  if chars.contains '\n' then
    if allowsLiteral chars && !isKey then .literal else .doubleQuoted
  else if isKey && chars.any isBreak then .doubleQuoted
  else if staysText text && allowsPlain chars then .plain
  else if allowsSingleQuoted chars then .singleQuoted
  else .doubleQuoted

def escapeLetter? (c : Char) : Option Char :=
  match c.toNat with
  | 0x00 => some '0'
  | 0x07 => some 'a'
  | 0x08 => some 'b'
  | 0x09 => some 't'
  | 0x0A => some 'n'
  | 0x0B => some 'v'
  | 0x0C => some 'f'
  | 0x0D => some 'r'
  | 0x1B => some 'e'
  | 0x22 => some '"'
  | 0x5C => some '\\'
  | 0x85 => some 'N'
  | 0xA0 => some '_'
  | 0x2028 => some 'L'
  | 0x2029 => some 'P'
  | _ => none

def hexDigits : Nat → Nat → List Char
  | 0, _ => []
  | count + 1, number =>
    hexDigits count (number / 16) ++ [(Nat.digitChar (number % 16)).toUpper]

def escape (c : Char) : List Char :=
  match escapeLetter? c with
  | some letter => ['\\', letter]
  | none =>
    if c.toNat ≤ 0xFF then '\\' :: 'x' :: hexDigits 2 c.toNat
    else if c.toNat ≤ 0xFFFF then '\\' :: 'u' :: hexDigits 4 c.toNat
    else '\\' :: 'U' :: hexDigits 8 c.toNat

def doubleQuotedChar (c : Char) : List Char :=
  if !isPrintable c || isBreak c || c = '"' || c = '\\' then escape c else [c]

def doubleQuoted (text : List Char) : List Char :=
  '"' :: text.flatMap doubleQuotedChar ++ ['"']

def margin (width : Nat) : List Char := List.replicate width ' '

/-- The rest of a text in single quotes. Lines go on under a margin; `broken` tells whether a
line has just ended. -/
def singleQuotedRest (width : Nat) : Bool → List Char → List Char
  | broken, [] => if broken then margin width ++ ['\''] else ['\'']
  | broken, c :: rest =>
    if isSpace c then c :: singleQuotedRest width false rest
    else if isBreak c then c :: singleQuotedRest width true rest
    else
      (if broken then margin width else []) ++ (if c = '\'' then ['\'', '\''] else [c]) ++
        singleQuotedRest width false rest

/-- The mark of a block: whether it begins with a blank, so that its margin has to be told, and
how its end is to be taken. -/
def blockMark (text : List Char) : List Char :=
  let hint := if text.head?.any fun c => isSpace c || isBreak c then ['2'] else []
  let ending := match text.reverse with
    | c :: rest =>
      if !isBreak c then ['-']
      else match rest with
        | [] => ['+']
        | d :: _ => if isBreak d then ['+'] else []
    | [] => ['-']
  '|' :: hint ++ ending

/-- The lines of a block under a margin; `broken` tells whether a line has just ended. -/
def blockLines (width : Nat) : Bool → List Char → List Char
  | _, [] => []
  | broken, c :: rest =>
    if isBreak c then c :: blockLines width true rest
    else (if broken then margin width else []) ++ c :: blockLines width false rest

/-- A text in a style. What goes on over several lines does so under a margin. -/
def scalar (style : Style) (width : Nat) (text : List Char) : List Char :=
  match style with
  | .plain => text
  | .singleQuoted => '\'' :: singleQuotedRest width false text
  | .doubleQuoted => doubleQuoted text
  | .literal => blockMark text ++ '\n' :: blockLines width true text

end DocumentLanguage.Yaml
