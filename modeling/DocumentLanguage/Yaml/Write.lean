import DocumentLanguage.Json.Number
import DocumentLanguage.Yaml.Scalar

/-!
Values as YAML in block style: two spaces a level, the items of a sequence no deeper than its
key, and brackets only where there is nothing in them.
-/
namespace DocumentLanguage.Yaml

def floatChars (value : Float) : List Char :=
  if value.isNaN then ['.', 'n', 'a', 'n']
  else if value.isInf then (if value < 0 then ['-'] else []) ++ ['.', 'i', 'n', 'f']
  else (Json.floatText value).toList

/-- A value without items and members, on the line on which it begins. What goes on over several
lines does so under a margin. -/
def leaf (width : Nat) : Json → List Char
  | .null => ['n', 'u', 'l', 'l']
  | .bool true => ['t', 'r', 'u', 'e']
  | .bool false => ['f', 'a', 'l', 's', 'e']
  | .integer value => (toString value).toList
  | .float value => floatChars value
  | .string text => scalar (style false text) width text.toList
  | .array _ => ['[', ']']
  | .object _ => ['{', '}']

def keyChars (key : String) : List Char :=
  scalar (style true key) 0 key.toList ++ [':']

/-- A line with its end, which a block may have brought along. -/
def closeLine (line : List Char) : List Char :=
  if line.getLast?.any isBreak then line else line ++ ['\n']

mutual

/-- A value whose first line has been begun, under a margin and before what follows it. -/
def blockChars (width : Nat) : Json → List Char → List Char
  | .array (.cons item rest), text =>
    '-' :: ' ' :: blockChars (width + 2) item (itemLines width rest text)
  | .object (.cons key value rest), text =>
    keyChars key ++ behindKey width value (memberLines width rest text)
  | value, text => closeLine (leaf width value) ++ text

/-- A value behind its key, which stands under a margin, before what follows it. -/
def behindKey (width : Nat) : Json → List Char → List Char
  | .array .nil, text => closeLine [' ', '[', ']'] ++ text
  | .array items, text => '\n' :: itemLines width items text
  | .object .nil, text => closeLine [' ', '{', '}'] ++ text
  | .object members, text => '\n' :: memberLines (width + 2) members text
  | value, text => closeLine (' ' :: leaf (width + 2) value) ++ text

def itemLines (width : Nat) : Json.Items → List Char → List Char
  | .nil, text => text
  | .cons item rest, text =>
    margin width ++ '-' :: ' ' :: blockChars (width + 2) item (itemLines width rest text)

def memberLines (width : Nat) : Json.Members → List Char → List Char
  | .nil, text => text
  | .cons key value rest, text =>
    margin width ++ keyChars key ++ behindKey width value (memberLines width rest text)

end

def write (value : Json) : String :=
  String.ofList (blockChars 0 value [])

end DocumentLanguage.Yaml
