import DocumentLanguage.Decimal.Shortest
import DocumentLanguage.Decimal.Number

/-!
Numbers in JSON text. How a floating point number is written: the shortest digits that read
back, positional with at least one digit behind the point as long as that takes no more than
sixteen digits before it and four zeros behind it, with an exponent and its sign otherwise.
-/
namespace DocumentLanguage.Json

def digitsText (number : Decimal.Digits) : List Char :=
  let { digits, exponent } := number
  let count : Int := digits.length
  if count ≤ exponent ∧ exponent ≤ 16 then
    digits ++ List.replicate (exponent - count).toNat '0' ++ ['.', '0']
  else if 0 < exponent ∧ exponent ≤ 16 then
    digits.take exponent.toNat ++ '.' :: digits.drop exponent.toNat
  else if -5 < exponent ∧ exponent ≤ 0 then
    '0' :: '.' :: List.replicate (-exponent).toNat '0' ++ digits
  else
    let sign := if 0 < exponent then '+' else '-'
    let power := 'e' :: sign :: Nat.toDigits 10 (exponent - 1).natAbs
    match digits with
    | [digit] => digit :: power
    | digit :: more => digit :: '.' :: more ++ power
    | [] => power

def floatText (value : Float) : String :=
  let sign := if Decimal.signedBound ≤ value.toBits.toNat then ['-'] else []
  if value == 0 then String.ofList (sign ++ ['0', '.', '0'])
  else String.ofList (sign ++ digitsText (Decimal.shortest value))

end DocumentLanguage.Json
