import DocumentLanguage.Decimal.Number
import DocumentLanguage.Json.Value
import DocumentLanguage.Text.Basic

/-!
What a plain scalar means: nothing, a truth value, a number or a text. Digits behind a leading
zero are a text.
-/
namespace DocumentLanguage.Yaml

/-- The spellings of null, apart from no text at all. -/
def isNull (text : String) : Bool := ["null", "Null", "NULL", "~"].contains text

def bool? (text : String) : Option Bool :=
  if ["true", "True", "TRUE"].contains text then some true
  else if ["false", "False", "FALSE"].contains text then some false
  else none

/-- Whether a text is a number but for a zero before its digits. -/
def hasLeadingZero (text : List Char) : Bool :=
  let digits := match text with
    | '-' :: digits | '+' :: digits => digits
    | digits => digits
  match digits with
  | '0' :: digit :: rest => (digit :: rest).all Char.isDigit
  | _ => false

/-- The number of a text that begins with the mark of a base. -/
def based? : List Char → Option Nat
  | '0' :: 'x' :: digits => Text.number? 16 digits
  | '0' :: 'o' :: digits => Text.number? 8 digits
  | '0' :: 'b' :: digits => Text.number? 2 digits
  | _ => none

/-- The first number that is taken as floating point although it is whole. -/
def wholeLimit : Nat := Decimal.unsignedBound * Decimal.unsignedBound

/-- The whole number of a text: a sign, if any, and digits in base ten or behind the mark of
another base. -/
def integer? (text : List Char) : Option Int :=
  let whole (digits : List Char) : Option Nat :=
    match based? digits with
    | some number => some number
    | none => if hasLeadingZero text then none else Text.number? 10 digits
  match text with
  | '+' :: digits => ((whole digits).filter (· < wholeLimit)).map Int.ofNat
  | '-' :: digits => ((whole digits).filter (· ≤ wholeLimit / 2)).map fun number => -number
  | digits => ((whole digits).filter (· < wholeLimit)).map Int.ofNat

/-- The floating point number of a text, of which none stands for more than any number. -/
def float? (text : String) : Option Float :=
  if [".inf", ".Inf", ".INF", "+.inf", "+.Inf", "+.INF"].contains text then some (1.0 / 0.0)
  else if ["-.inf", "-.Inf", "-.INF"].contains text then some (-1.0 / 0.0)
  else if [".nan", ".NaN", ".NAN"].contains text then some (0.0 / 0.0)
  else (Decimal.float? text.toList).filter Float.isFinite

/-- A floating point number as a value: there are none for those that are not finite. -/
def ofFloat (number : Float) : Json :=
  if number.isFinite then .float number else .null

/-- A whole number as a value, if a word can hold it. -/
def ofInteger? (number : Int) : Option Json :=
  if Decimal.fitsSigned number || (0 ≤ number && Decimal.fitsUnsigned number.toNat) then
    some (.integer number)
  else none

/-- The value of a plain scalar, unless it is a whole number without one. -/
def resolve? (text : String) : Option Json :=
  if text.isEmpty ∨ isNull text then some .null
  else match bool? text with
    | some value => some (.bool value)
    | none =>
      match integer? text.toList with
      | some number => ofInteger? number
      | none =>
        if hasLeadingZero text.toList then some (.string text)
        else match float? text with
          | some number => some (ofFloat number)
          | none => some (.string text)

/-- Whether a text without quotes would be a text again. -/
def staysText (text : String) : Bool :=
  match resolve? text with
  | some (.string _) => !hasLeadingZero text.toList
  | _ => false

end DocumentLanguage.Yaml
