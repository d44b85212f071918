import DocumentLanguage.Text.Basic

/-!
Numbers in decimal: the words of 64 bits that hold whole ones, the text of floating point numbers,
and the floating point number nearest to a decimal.
-/
namespace DocumentLanguage.Decimal

/-- The first number above those that a word with a sign can hold. -/
def signedBound : Nat := 0x8000000000000000

/-- The first number above those that a word without a sign can hold. -/
def unsignedBound : Nat := 0x10000000000000000

def fitsSigned (number : Int) : Bool :=
  -signedBound ≤ number && number < signedBound

def fitsUnsigned (number : Nat) : Bool :=
  number < unsignedBound

/-- More places than any number that is neither zero nor infinite has before or behind its
point. -/
def farPlace : Int := 400

/-- The number that is nearest to `digits · 10^exponent`. -/
def nearest (digits : Nat) (exponent : Int) : Float :=
  let place := (Nat.toDigits 10 digits).length + exponent
  if digits = 0 ∨ place < -farPlace then 0.0
  else if farPlace < place then 1.0 / 0.0
  else Float.ofScientific digits (exponent < 0) exponent.natAbs

/-- The digits at the start of a text, and what follows them. -/
def splitDigits (text : List Char) : List Char × List Char :=
  (text.takeWhile Char.isDigit, text.dropWhile Char.isDigit)

/-- An exponent behind its letter: a sign, if any, and at least one digit. -/
def exponent? (text : List Char) : Option Int :=
  let (falls, digits) := match text with
    | '-' :: digits => (true, digits)
    | '+' :: digits => (false, digits)
    | digits => (false, digits)
  (Text.number? 10 digits).map fun number => if falls then -(number : Int) else number

/-- The number that a decimal without a sign stands for: digits with a point before, between or
behind them, and an exponent, if any. -/
def unsigned? (text : List Char) : Option Float :=
  let (whole, rest) := splitDigits text
  let (fraction, rest) := match rest with
    | '.' :: rest => splitDigits rest
    | rest => ([], rest)
  if whole.isEmpty ∧ fraction.isEmpty then none
  else
    let number (exponent : Int) : Float :=
      nearest (Text.ofDigits 10 (whole ++ fraction)) (exponent - fraction.length)
    match rest with
    | [] => some (number 0)
    | letter :: rest =>
      if letter = 'e' ∨ letter = 'E' then (exponent? rest).map number else none

/-- The number that a decimal with a sign, if any, stands for. -/
def float? : List Char → Option Float
  | '-' :: text => (unsigned? text).map (-·)
  | '+' :: text => unsigned? text
  | text => unsigned? text

end DocumentLanguage.Decimal
