import DocumentLanguage.Json.Number
import DocumentLanguage.Text.Basic

/-!
What can be wrong with a JSON text or with a value that should hold something else: the causes,
their wording, and the three classes they fall into.
-/
namespace DocumentLanguage.Json

/-- What was found where something else was expected. -/
inductive Found
  | null
  | bool (value : Bool)
  | integer (value : Int)
  | float (value : Float)
  | string (text : String)
  | array
  | object
  /-- A variant that is named but has nothing with it. -/
  | bareVariant

/-- What was expected. -/
inductive Expected
  | text
  | sequence
  | record (name : String)
  | empty (name : String)
  | nothing
  | variantOrObject
  | payload
deriving DecidableEq, Repr

/-- What is wrong. -/
inductive Fault
  -- the text ends
  | endInValue | endInList | endInObject | endInString
  -- the text goes on in a way it may not
  | expectedValue | expectedIdentifier | expectedColon | expectedListEnd | expectedObjectEnd
  | keyNotString | trailingComma | trailingCharacters
  | invalidNumber | numberOutOfRange
  | invalidEscape | loneSurrogate | unpairedSurrogate | controlCharacter
  | tooDeep
  -- the value is not what it should be
  | mismatch (found : Found) (expected : Expected)
  | notOneMember
  | tooShort (length : Nat) (record : String) (fields : Nat)
  | tooLong (length : Nat)
  | missingField (label : String)
  | duplicateField (label : String)
  | unknownVariant (name : String) (variants : List String)

/-- The classes of faults. -/
inductive Category
  | syntactic | data | incomplete
deriving DecidableEq, Repr

def Found.describe : Found → String
  | null => "null"
  | bool value => "boolean `" ++ toString value ++ "`"
  | integer value => "integer `" ++ toString value ++ "`"
  | float value => "floating point `" ++ floatText value ++ "`"
  | string text => "string " ++ Text.quoted text
  | array => "sequence"
  | object => "map"
  | bareVariant => "unit variant"

def Expected.describe : Expected → String
  | text => "a string"
  | sequence => "a sequence"
  | record name => "struct " ++ name
  | empty name => "unit struct " ++ name
  | nothing => "unit"
  | variantOrObject => "string or map"
  | payload => "newtype variant"

def alternatives (names : List String) : String :=
  match names.map fun name => "`" ++ name ++ "`" with
  | [first, second] => first ++ " or " ++ second
  | [name] => name
  | names => "one of " ++ ", ".intercalate names

namespace Fault

def category : Fault → Category
  | endInValue | endInList | endInObject | endInString => .incomplete
  | mismatch _ _ | notOneMember | tooShort _ _ _ | tooLong _ | missingField _
  | duplicateField _ | unknownVariant _ _ => .data
  | _ => .syntactic

def message : Fault → String
  | endInValue => "EOF while parsing a value"
  | endInList => "EOF while parsing a list"
  | endInObject => "EOF while parsing an object"
  | endInString => "EOF while parsing a string"
  | expectedValue => "expected value"
  | expectedIdentifier => "expected ident"
  | expectedColon => "expected `:`"
  | expectedListEnd => "expected `,` or `]`"
  | expectedObjectEnd => "expected `,` or `\x7d`"
  | keyNotString => "key must be a string"
  | trailingComma => "trailing comma"
  | trailingCharacters => "trailing characters"
  | invalidNumber => "invalid number"
  | numberOutOfRange => "number out of range"
  | invalidEscape => "invalid escape"
  | loneSurrogate => "lone leading surrogate in hex escape"
  | unpairedSurrogate => "unexpected end of hex escape"
  | controlCharacter => "control character (\\u0000-\\u001F) found while parsing a string"
  | tooDeep => "recursion limit exceeded"
  | mismatch found expected =>
    "invalid type: " ++ found.describe ++ ", expected " ++ expected.describe
  | notOneMember => "invalid value: map, expected map with a single key"
  | tooShort length record fields =>
    "invalid length " ++ toString length ++ ", expected struct " ++ record ++ " with " ++
      toString fields ++ (if fields = 1 then " element" else " elements")
  | tooLong length =>
    "invalid length " ++ toString length ++ ", expected fewer elements in array"
  | missingField label => "missing field `" ++ label ++ "`"
  | duplicateField label => "duplicate field `" ++ label ++ "`"
  | unknownVariant name variants =>
    "unknown variant `" ++ name ++ "`, expected " ++ alternatives variants

end Fault

end DocumentLanguage.Json
