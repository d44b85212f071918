/-!
The shortest decimal that reads back as a given binary floating point number. A number
`m · 2^q` stands for all reals that round to it, an interval whose ends belong to it when `m`
is even. Of the decimals with the fewest digits inside it the nearest is taken.
-/
namespace DocumentLanguage.Decimal

/-- A positive binary number `significand · 2^exponent`; `wide` tells that the next smaller
number is as far away as the next larger one. -/
structure Binary where
  significand : Nat
  exponent : Int
  wide : Bool
deriving DecidableEq, Repr

/-- The first number above those that the fraction of a floating point number can be. -/
def fractionBound : Nat := 0x10000000000000

/-- The parts of a number that is finite, without its sign. -/
def Binary.ofFloat (value : Float) : Binary :=
  let bits : Nat := value.toBits.toNat
  let fraction : Nat := bits % fractionBound
  let scale : Nat := bits / fractionBound % 0x800
  if scale = 0 then ⟨fraction, -1074, true⟩
  else ⟨fractionBound + fraction, (scale : Int) - 1075, fraction ≠ 0 ∨ scale = 1⟩

/-- Digits before which a point stands: `0.digits · 10^exponent`. -/
structure Digits where
  digits : List Char
  exponent : Int
deriving DecidableEq, Repr

/-- A number as a fraction over four times its denominator, so that the middle between it and
its neighbours is whole. -/
structure Scaled where
  low : Nat
  value : Nat
  high : Nat
  denominator : Nat
  closed : Bool

/-- A number with the interval of reals that round to it. -/
def Binary.scaled (number : Binary) : Scaled :=
  let up := Nat.pow 2 number.exponent.toNat
  { low := (4 * number.significand - if number.wide then 2 else 1) * up
    value := 4 * number.significand * up
    high := (4 * number.significand + 2) * up
    denominator := 4 * Nat.pow 2 (-number.exponent).toNat
    closed := number.significand % 2 = 0 }

def Scaled.contains (scaled : Scaled) (numerator denominator : Nat) : Bool :=
  let point := numerator * scaled.denominator
  if scaled.closed then scaled.low * denominator ≤ point ∧ point ≤ scaled.high * denominator
  else scaled.low * denominator < point ∧ point < scaled.high * denominator

/-- The smallest exponent, counted down from a start, whose power of ten is above a number. -/
def magnitude (numerator denominator : Nat) : Nat → Int → Int
  | 0, exponent => exponent
  | bound + 1, exponent =>
    let next := exponent - 1
    if numerator * Nat.pow 10 (-next).toNat < denominator * Nat.pow 10 next.toNat then
      magnitude numerator denominator bound next
    else exponent

/-- The decimal of so many digits that is nearest to a number, if one reads back. Of two that
are equally near the even one is taken. -/
def Scaled.nearest? (scaled : Scaled) (exponent : Int) (count : Nat) : Option Nat :=
  let step := exponent - count
  let up := Nat.pow 10 step.toNat
  let down := Nat.pow 10 (-step).toNat
  let low := scaled.value * down / (scaled.denominator * up)
  let fits (digits : Nat) : Bool := scaled.contains (digits * up) down
  match fits low && low ≠ 0, fits (low + 1) with
  | false, false => none
  | true, false => some low
  | false, true => some (low + 1)
  | true, true =>
    let below := 2 * scaled.value * down
    let middle := (2 * low + 1) * scaled.denominator * up
    if below < middle then some low
    else if middle < below then some (low + 1)
    else some (if low % 2 = 0 then low else low + 1)

def dropZeros (digits : List Char) : List Char :=
  (digits.reverse.dropWhile (· = '0')).reverse

/-- The shortest decimal that reads back as a number that is finite and not zero, whatever its
sign. -/
def shortest (value : Float) : Digits :=
  let scaled := (Binary.ofFloat value).scaled
  let exponent := magnitude scaled.value scaled.denominator 700 310
  match (List.range 17).findSome? fun count =>
      (scaled.nearest? exponent (count + 1)).map (·, count + 1) with
  | some (number, count) =>
    let digits := Nat.toDigits 10 number
    ⟨dropZeros digits, exponent + ((digits.length : Int) - count)⟩
  | none => ⟨[], 0⟩

end DocumentLanguage.Decimal
