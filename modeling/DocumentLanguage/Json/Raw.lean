import DocumentLanguage.Json.Lexeme
import DocumentLanguage.Json.Value

/-!
JSON as it stands in a text, up to the place where the text breaks. What is wrong with such a place
depends on what was looked for there, so the reading keeps what it met, and each use of it names the
fault. Read as a whole, a text has no faults but those that a use comes upon. What counts as JSON,
and which fault is told of a text that does not, are taken from the JSON library.
-/
namespace DocumentLanguage.Json

mutual

/-- What stands where a value should. -/
inductive Raw
  /-- The text ends. -/
  | missing
  /-- Something that begins no value. -/
  | stray
  /-- A word or a number that breaks off: what is wrong for a reader, and for someone passing
  over. -/
  | broken (read passed : Fault)
  | null
  | bool (value : Bool)
  | integer (value : Int)
  | float (value : Float)
  /-- A number that is too large. -/
  | boundless
  | string (lexeme : Lexeme)
  | array (items : Raw.Items)
  | object (members : Raw.Members)

/-- What stands in an array from some place on: at its start or behind an item. -/
inductive Raw.Items
  | close
  /-- The text ends. -/
  | missing
  /-- Neither a comma nor the end of the array. -/
  | stray
  /-- A comma, and the end of the array behind it. -/
  | dangling
  | cons (item : Raw) (rest : Raw.Items)

/-- What stands in an object from some place on: at its start or behind a member. -/
inductive Raw.Members
  | close
  /-- The text ends. -/
  | missing
  /-- Neither a comma nor the end of the object. -/
  | stray
  /-- A comma, and the end of the object behind it. -/
  | dangling
  /-- A comma, and the end of the text behind it. -/
  | cut
  /-- Something else than a string where a key should be. -/
  | strayKey
  /-- A key without a colon behind it, and what is wrong there. -/
  | loneKey (key : Lexeme) (fault : Fault)
  | cons (key : Lexeme) (value : Raw) (rest : Raw.Members)

end

namespace Raw

def found : Raw → Except Fault Found
  | missing => .error .endInValue
  | stray => .error .expectedValue
  | broken fault _ => .error fault
  | null => .ok .null
  | bool value => .ok (.bool value)
  | integer value => .ok (.integer value)
  | float value => .ok (.float value)
  | boundless => .error .numberOutOfRange
  | string lexeme => lexeme.text.map .string
  | array _ => .ok .array
  | object _ => .ok .object

def mismatch (raw : Raw) (expected : Expected) : Fault :=
  match raw.found with
  | .ok found => .mismatch found expected
  | .error fault => fault

mutual

/-- What comes of passing over a value that nobody asks for. -/
def passed : Raw → Except Fault Unit
  | missing => .error .endInValue
  | stray => .error .expectedValue
  | broken _ fault => .error fault
  | string lexeme => lexeme.passed
  | array items => items.passed
  | object members => members.passed
  | _ => .ok ()

def Items.passed : Items → Except Fault Unit
  | .close => .ok ()
  | .missing => .error .endInList
  | .stray => .error .expectedListEnd
  | .dangling => .error .expectedValue
  | .cons item rest => do
    item.passed
    rest.passed

def Members.passed : Members → Except Fault Unit
  | .close => .ok ()
  | .missing | .cut => .error .endInObject
  | .stray => .error .expectedObjectEnd
  | .dangling | .strayKey => .error .keyNotString
  | .loneKey key fault => do
    key.passed
    throw fault
  | .cons key value rest => do
    key.passed
    value.passed
    rest.passed

end

/-- The text from the first character on that is not blank. -/
def dropBlank (text : List Char) : List Char :=
  text.dropWhile fun c => c = ' ' ∨ c = '\n' ∨ c = '\t' ∨ c = '\r'

/-- A word that must go on with certain letters, and what follows it. -/
def readWord (value : Raw) : List Char → List Char → Raw × List Char
  | [], text => (value, text)
  | _ :: _, [] => (broken .endInValue .endInValue, [])
  | letter :: letters, c :: text =>
    if c = letter then readWord value letters text
    else (broken .expectedIdentifier .expectedIdentifier, [])

def readNumber (text : List Char) : Raw × List Char :=
  match Numeral.read text with
  | (.integer value, rest) => (integer value, rest)
  | (.float value, rest) => (float value, rest)
  | (.boundless, rest) => (boundless, rest)
  | (.broken read passed, rest) => (broken read passed, rest)

mutual

/-- What stands where a value should, and what follows it. The bound counts the
steps, of which no character needs more than three. -/
def readValue : Nat → List Char → Raw × List Char
  | 0, _ => (missing, [])
  | bound + 1, text =>
    match dropBlank text with
    | [] => (missing, [])
    | c :: rest =>
      if c = '{' then
        let (members, rest) := readFirstMember bound rest
        (object members, rest)
      else if c = '[' then
        let (items, rest) := readFirstItem bound rest
        (array items, rest)
      else if c = '"' then
        let (lexeme, rest) := Lexeme.read rest
        (string lexeme, rest)
      else if c = 'n' then readWord null ['u', 'l', 'l'] rest
      else if c = 't' then readWord (bool true) ['r', 'u', 'e'] rest
      else if c = 'f' then readWord (bool false) ['a', 'l', 's', 'e'] rest
      else if c = '-' ∨ c.isDigit then readNumber (c :: rest)
      else (stray, [])

def readFirstItem : Nat → List Char → Items × List Char
  | 0, _ => (.missing, [])
  | bound + 1, text =>
    match dropBlank text with
    | [] => (.missing, [])
    | ']' :: rest => (.close, rest)
    | text => readItem bound text

def readItem : Nat → List Char → Items × List Char
  | 0, _ => (.missing, [])
  | bound + 1, text =>
    let (item, rest) := readValue bound text
    match dropBlank rest with
    | [] => (.cons item .missing, [])
    | ']' :: rest => (.cons item .close, rest)
    | ',' :: rest =>
      match dropBlank rest with
      | ']' :: _ => (.cons item .dangling, [])
      | rest =>
        let (items, rest) := readItem bound rest
        (.cons item items, rest)
    | _ => (.cons item .stray, [])

def readFirstMember : Nat → List Char → Members × List Char
  | 0, _ => (.missing, [])
  | bound + 1, text =>
    match dropBlank text with
    | [] => (.missing, [])
    | '}' :: rest => (.close, rest)
    | text => readMember bound text

def readMember : Nat → List Char → Members × List Char
  | 0, _ => (.missing, [])
  | bound + 1, text =>
    match text with
    | '"' :: text =>
      let (key, rest) := Lexeme.read text
      match dropBlank rest with
      | [] => (.loneKey key .endInObject, [])
      | ':' :: rest =>
        let (value, rest) := readValue bound rest
        match dropBlank rest with
        | [] => (.cons key value .missing, [])
        | '}' :: rest => (.cons key value .close, rest)
        | ',' :: rest =>
          match dropBlank rest with
          | [] => (.cons key value .cut, [])
          | '}' :: _ => (.cons key value .dangling, [])
          | rest =>
            let (members, rest) := readMember bound rest
            (.cons key value members, rest)
        | _ => (.cons key value .stray, [])
      | _ => (.loneKey key .expectedColon, [])
    | _ => (.strayKey, [])

end

/-- What stands at the start of a text, and what follows it but for blanks. -/
def read (text : String) : Raw × List Char :=
  let chars := text.toList
  let (raw, rest) := readValue (3 * (chars.length + 1)) chars
  (raw, dropBlank rest)

end Raw

mutual

/-- A value as if it stood in a text without faults. -/
def raw : Json → Raw
  | null => .null
  | bool value => .bool value
  | integer value => .integer value
  | float value => .float value
  | string text => .string (.ofText text)
  | array items => .array items.raw
  | object members => .object members.raw

def Items.raw : Items → Raw.Items
  | .nil => .close
  | .cons item rest => .cons item.raw rest.raw

def Members.raw : Members → Raw.Members
  | .nil => .close
  | .cons key value rest => .cons (.ofText key) value.raw rest.raw

end

end DocumentLanguage.Json
