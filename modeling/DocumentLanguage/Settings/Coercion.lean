import DocumentLanguage.Decimal.Number
import DocumentLanguage.Json.Value
import DocumentLanguage.Text.Basic
import DocumentLanguage.Unicode.Lowercase

/-!
Settings as truth values and as counts. Numbers and certain words can be taken for truth values,
and truth values, words and decimal texts for counts.
-/
namespace DocumentLanguage.Settings

/-- What was found where something else was expected. -/
inductive Found
  | nothing
  | integer (value : Int)
  | text (value : String)
  | array
  | table
deriving DecidableEq, Repr

/-- What was expected. -/
inductive Expected
  | truth | count
  /-- A count, where a whole number was found that is none. -/
  | natural
deriving DecidableEq, Repr

def Found.describe : Found → String
  | nothing => "unit value"
  | integer value => "64-bit integer `" ++ toString value ++ "`"
  | text value => "string " ++ Text.quoted value
  | array => "sequence"
  | table => "map"

def Expected.describe : Expected → String
  | truth => "a boolean"
  | count => "an integer"
  | natural => "an unsigned 64 bit or less integer"

/-- A value that cannot be taken for what is expected. -/
structure Mismatch where
  found : Found
  expected : Expected
deriving DecidableEq, Repr

/-- The truth value that a setting stands for. Words are told apart without regard to case. -/
def asTruth : Json → Except Mismatch Bool
  | .bool value => .ok value
  | .integer value => .ok (value ≠ 0)
  | .float value => .ok (value != 0)
  | .string text =>
    let word := Unicode.lower text
    if ["1", "true", "on", "yes"].contains word then .ok true
    else if ["0", "false", "off", "no"].contains word then .ok false
    else .error ⟨.text word, .truth⟩
  | .null => .error ⟨.nothing, .truth⟩
  | .array _ => .error ⟨.array, .truth⟩
  | .object _ => .error ⟨.table, .truth⟩

/-- The count of a decimal text, perhaps behind a plus sign. -/
def count? (text : String) : Option Nat :=
  let digits := match text.toList with
    | '+' :: digits => digits
    | digits => digits
  (Text.number? 10 digits).filter Decimal.fitsUnsigned

/-- The count that a setting stands for. A floating point number is rounded, a half away from
zero, and brought into the range of counts. -/
def asCount : Json → Except Mismatch Nat
  | .bool value => .ok value.toNat
  | .integer value => if 0 ≤ value then .ok value.toNat else .error ⟨.integer value, .natural⟩
  | .float value => .ok value.round.toUInt64.toNat
  | .string text =>
    let word := Unicode.lower text
    if ["true", "on", "yes"].contains word then .ok 1
    else if ["false", "off", "no"].contains word then .ok 0
    else match count? text with
      | some count => .ok count
      | none => .error ⟨.text text, .count⟩
  | .null => .error ⟨.nothing, .count⟩
  | .array _ => .error ⟨.array, .count⟩
  | .object _ => .error ⟨.table, .count⟩

end DocumentLanguage.Settings
