import DocumentLanguage.Json.Number
import DocumentLanguage.Json.Value

/-!
JSON text over several lines: two spaces a level, every item and member on a line of its own, and
brackets without a line between them where there is nothing in them. This is the layout of the JSON
library, taken as given.
-/
namespace DocumentLanguage.Json

def escapedChar (c : Char) : List Char :=
  if c = '"' ∨ c = '\\' then ['\\', c]
  else if c = '\x08' then ['\\', 'b']
  else if c = '\t' then ['\\', 't']
  else if c = '\n' then ['\\', 'n']
  else if c = '\x0c' then ['\\', 'f']
  else if c = '\r' then ['\\', 'r']
  else if c.toNat < 0x20 then
    ['\\', 'u', '0', '0', Nat.digitChar (c.toNat / 16), Nat.digitChar (c.toNat % 16)]
  else [c]

def quoted (text : String) : List Char :=
  '"' :: text.toList.flatMap escapedChar ++ ['"']

def lineStart (level : Nat) : List Char :=
  '\n' :: List.replicate (2 * level) ' '

mutual

/-- The text of a value that stands at a level, before what follows it. -/
def chars (level : Nat) : Json → List Char → List Char
  | null, text => ['n', 'u', 'l', 'l'] ++ text
  | bool true, text => ['t', 'r', 'u', 'e'] ++ text
  | bool false, text => ['f', 'a', 'l', 's', 'e'] ++ text
  | integer value, text => (toString value).toList ++ text
  | float value, text => (floatText value).toList ++ text
  | string value, text => quoted value ++ text
  | array .nil, text => ['[', ']'] ++ text
  | array (.cons item rest), text =>
    '[' :: lineStart (level + 1) ++
      item.chars (level + 1) (rest.chars (level + 1) (lineStart level ++ ']' :: text))
  | object .nil, text => ['{', '}'] ++ text
  | object (.cons key value rest), text =>
    '{' :: lineStart (level + 1) ++ quoted key ++ ':' :: ' ' ::
      value.chars (level + 1) (rest.chars (level + 1) (lineStart level ++ '}' :: text))

/-- The text of the items behind the first, before what follows them. -/
def Items.chars (level : Nat) : Items → List Char → List Char
  | .nil, text => text
  | .cons item rest, text =>
    ',' :: lineStart level ++ item.chars level (rest.chars level text)

/-- The text of the members behind the first, before what follows them. -/
def Members.chars (level : Nat) : Members → List Char → List Char
  | .nil, text => text
  | .cons key value rest, text =>
    ',' :: lineStart level ++ quoted key ++ ':' :: ' ' ::
      value.chars level (rest.chars level text)

end

def pretty (value : Json) : String :=
  String.ofList (value.chars 0 [])

end DocumentLanguage.Json
