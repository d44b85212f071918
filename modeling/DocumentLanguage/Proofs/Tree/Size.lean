import DocumentLanguage.Tree.Build
import DocumentLanguage.Tree.Size
import Mathlib.Data.Int.Interval
import Mathlib.Data.Nat.Digits.Defs
import Mathlib.Data.Set.Card

/-!
How many whole numbers a range holds. The count that is taken from its two ends is that of the
numbers between them, whichever brackets stand there, and no step of it needs more than 128 bits.
-/
namespace DocumentLanguage

namespace Text

def IsDigits (digits : List Char) : Prop :=
  digits ≠ [] ∧ ∀ c ∈ digits, c.isDigit = true

/-- The number that decimal digits stand for, the last one counting least. -/
def decimalValue (digits : List Char) : Nat :=
  Nat.ofDigits 10 (digits.reverse.map fun c => c.toNat - '0'.toNat)

/-- A text is a whole number: digits with at most one sign before them. -/
inductive Numeral : List Char → Int → Prop
  | unsigned {digits : List Char} (decimal : IsDigits digits) : Numeral digits (decimalValue digits)
  | plus {digits : List Char} (decimal : IsDigits digits) :
      Numeral ('+' :: digits) (decimalValue digits)
  | minus {digits : List Char} (decimal : IsDigits digits) :
      Numeral ('-' :: digits) (-decimalValue digits)

/-- A digit in base ten is one of the ten decimal digits of ASCII. -/
theorem isDigitIn_ten (c : Char) : isDigitIn 10 c = c.isDigit := by
  unfold isDigitIn digitValue
  split_ifs with hDigit hLower hUpper
  · simp only [Char.isDigit, Bool.and_eq_true, decide_eq_true_eq] at hDigit
    have hLe : c.toNat ≤ '9'.toNat := hDigit.2
    simp only [hDigit, Char.isDigit, Bool.and_self, decide_true, decide_eq_true_eq]
    have hNine : '9'.toNat = 57 := rfl
    have hZero : '0'.toNat = 48 := rfl
    omega
  all_goals simp [hDigit]

/-- The value of digits in base ten is their decimal value. -/
theorem ofDigits_ten {digits : List Char} (hDigits : ∀ c ∈ digits, c.isDigit = true) :
    ofDigits 10 digits = decimalValue digits := by
  induction digits using List.reverseRecOn with
  | nil => rfl
  | append_singleton digits c ih =>
      have hLast : c.isDigit = true := hDigits c (by simp)
      have hFront := ih fun d hMem => hDigits d (List.mem_append_left _ hMem)
      rw [decimalValue, List.reverse_append, List.reverse_singleton, List.singleton_append,
        List.map_cons, Nat.ofDigits_cons, ← decimalValue, ← hFront, ofDigits, ofDigits,
        List.foldl_append]
      simp only [List.foldl_cons, List.foldl_nil, digitValue, hLast, if_true]
      rw [Nat.mul_comm, Nat.add_comm]

/-- Digits are read in base ten if there is at least one of them, and the number is their decimal
value. -/
theorem number?_ten_eq_some_iff {digits : List Char} {value : Nat} :
    number? 10 digits = some value ↔ IsDigits digits ∧ value = decimalValue digits := by
  have hAll : digits.all (isDigitIn 10) = true ↔ ∀ c ∈ digits, c.isDigit = true := by
    simp [List.all_eq_true, isDigitIn_ten]
  unfold number?
  split_ifs with hNone
  · simp only [Bool.or_eq_true, List.isEmpty_iff, Bool.not_eq_true', ← Bool.not_eq_true, hAll] at hNone
    refine iff_of_false nofun ?_
    rintro ⟨⟨hFilled, hDigits⟩, -⟩
    exact hNone.elim hFilled fun hNot => hNot hDigits
  · simp only [Bool.or_eq_true, List.isEmpty_iff, Bool.not_eq_true', not_or, Bool.not_eq_false,
      hAll] at hNone
    rw [Option.some.injEq, ofDigits_ten hNone.2]
    exact ⟨fun hSame => ⟨hNone, hSame.symm⟩, fun hBoth => hBoth.2.symm⟩

end Text

open Text in
/-- A text is read as a whole number if it is a numeral, with or without a sign, and the number is
the one that it denotes. -/
theorem wholeNumber?_eq_some_iff {text : String} {value : Int} :
    wholeNumber? text = some value ↔ Numeral text.toList value := by
  unfold wholeNumber?
  generalize text.toList = chars
  have hSign : ∀ {sign : Char} {digits : List Char}, sign.isDigit = false →
      ¬ IsDigits (sign :: digits) := fun hSign decimal => by
    have hFirst := decimal.2 _ List.mem_cons_self
    rw [hSign] at hFirst
    cases hFirst
  split
  next digits =>
    simp only [Option.map_eq_some_iff, Option.bind_eq_bind, Option.bind_eq_some_iff, Option.pure_def,
      Option.some.injEq, number?_ten_eq_some_iff]
    constructor
    · rintro ⟨_, ⟨_, ⟨decimal, rfl⟩, rfl⟩, rfl⟩
      exact .minus decimal
    · rintro (decimal | _ | decimal)
      · exact absurd decimal (hSign rfl)
      · exact ⟨_, ⟨_, ⟨decimal, rfl⟩, rfl⟩, rfl⟩
  next digits =>
    rw [Option.map_eq_some_iff]
    constructor
    · rintro ⟨number, hNumber, rfl⟩
      obtain ⟨decimal, rfl⟩ := number?_ten_eq_some_iff.mp hNumber
      exact .plus decimal
    · rintro (decimal | decimal | _)
      · exact absurd decimal (hSign rfl)
      · exact ⟨_, number?_ten_eq_some_iff.mpr ⟨decimal, rfl⟩, rfl⟩
  next digits hMinus hPlus =>
    rw [Option.map_eq_some_iff]
    constructor
    · rintro ⟨number, hNumber, rfl⟩
      obtain ⟨decimal, rfl⟩ := number?_ten_eq_some_iff.mp hNumber
      exact .unsigned decimal
    · rintro (decimal | decimal | decimal)
      · exact ⟨_, number?_ten_eq_some_iff.mpr ⟨decimal, rfl⟩, rfl⟩
      · exact absurd rfl (hPlus _)
      · exact absurd rfl (hMinus _)

namespace Primitive

/-- A number element that is a whole number of at most 64 bits with their sign. -/
def Denotes (primitive : Tree .primitive) (value : Int) : Prop :=
  ∃ text : String, primitive = ofElement (Element.ofText .number text) ∧
    Text.Numeral text.toList value ∧ -2 ^ 63 ≤ value ∧ value < 2 ^ 63

/-- A number is in range if it is one of those of 64 bits with a sign. -/
theorem fitsSigned_iff {value : Int} :
    Decimal.fitsSigned value = true ↔ -2 ^ 63 ≤ value ∧ value < 2 ^ 63 := by
  rw [Decimal.fitsSigned, Bool.and_eq_true, decide_eq_true_eq, decide_eq_true_eq]
  rfl

/-- The number of a primitive is the one that its element denotes, if it is in range. -/
theorem denotes_of_integer? : (primitive : Tree .primitive) → {value : Int} →
    integer? primitive = some value → Denotes primitive value
  | .mk (.oneOf .element _ (.mk (.literal kind text))), value, hSome => by
    cases kind
    case number =>
      have hText : (wholeNumber? text).filter Decimal.fitsSigned = some value := hSome
      rw [Option.filter_eq_some_iff, wholeNumber?_eq_some_iff, fitsSigned_iff] at hText
      exact ⟨text, rfl, hText⟩
    all_goals cases hSome
  | .mk (.oneOf .string _ _), _, hSome => nomatch hSome

/-- A primitive has a number if it denotes one, since only numbers that are in range are denoted. -/
theorem integer?_eq_some_iff {primitive : Tree .primitive} {value : Int} :
    integer? primitive = some value ↔ Denotes primitive value := by
  refine ⟨denotes_of_integer? primitive, ?_⟩
  rintro ⟨text, rfl, hNumeral, hValue⟩
  have hText : integer? (ofElement (Element.ofText .number text)) =
      (wholeNumber? text).filter Decimal.fitsSigned := rfl
  rw [hText, Option.filter_eq_some_iff, wholeNumber?_eq_some_iff, fitsSigned_iff]
  exact ⟨hNumeral, hValue⟩

end Primitive

namespace Range

/-- The whole numbers between two ends. A round bracket leaves out the end beside it. -/
def numbersBetween (left right : String) (low high : Int) : Set Int :=
  {number | low ≤ number ∧ number ≤ high ∧ (left = "(" → number ≠ low) ∧
    (right = ")" → number ≠ high)}

/-- A number, if it fits into 128 bits with its sign. -/
def wide? (value : Int) : Option Int :=
  if -2 ^ 127 ≤ value ∧ value < 2 ^ 127 then some value else none

/-- The count of a range as it is taken from two ends, each step of it in 128 bits. -/
def wideCount? (left right : String) (low high : Int) : Option Int := do
  let low ← wide? (if left = "(" then low + 1 else low)
  let high ← wide? (if right = ")" then high - 1 else high)
  let apart ← wide? (high - low)
  wide? (apart + 1)

/-- A round bracket leaves out a number, so that the numbers between two ends are those from the
first one that counts to the last one that does. -/
theorem ncard_numbersBetween (left right : String) (low high : Int) :
    (numbersBetween left right low high).ncard =
      ((if right = ")" then high - 1 else high) - (if left = "(" then low + 1 else low) + 1).toNat := by
  have hSet : numbersBetween left right low high =
      Finset.Icc (if left = "(" then low + 1 else low) (if right = ")" then high - 1 else high) := by
    ext number
    simp only [numbersBetween, Set.mem_ofPred_eq, Finset.coe_Icc, Set.mem_Icc]
    split_ifs with hLeft hRight hRight <;> simp [hLeft, hRight] <;> omega
  rw [hSet, Set.ncard_coe_finset, Int.card_Icc, sub_add_eq_add_sub]

/-- Without a number at either end a range has no size, whatever is between them. -/
theorem size_eq_none_of_integer? {range : Tree .range}
    (hNone : Primitive.integer? (first range) = none ∨ Primitive.integer? (last range) = none) :
    size range = none := by
  unfold size
  rcases hNone with hFirst | hLast
  · rw [hFirst]
    rfl
  · rw [hLast]
    cases Primitive.integer? (first range) <;> rfl

/-- Between two numbers the size of a range is how many numbers it covers, unless these are too many
for 64 bits. -/
theorem size_of_denotes {range : Tree .range} {low high : Int}
    (hLow : Primitive.Denotes (first range) low) (hHigh : Primitive.Denotes (last range) high) :
    size range =
      if (numbersBetween (left range) (right range) low high).ncard < 2 ^ 64 then
        some (numbersBetween (left range) (right range) low high).ncard
      else none := by
  unfold size
  rw [Primitive.integer?_eq_some_iff.mpr hLow, Primitive.integer?_eq_some_iff.mpr hHigh,
    ncard_numbersBetween]
  simp only [Option.bind_eq_bind, Option.bind_some, Decimal.fitsUnsigned, Decimal.unsignedBound]
  norm_num

/-- No number that comes up in the four steps is too large for 128 bits. -/
theorem wide?_of_le {value : Int} (hLow : -2 ^ 65 ≤ value) (hHigh : value ≤ 2 ^ 65) :
    wide? value = some value :=
  if_pos ⟨by omega, by omega⟩

/-- The steps of a count between numbers of 64 bits fit into 128. -/
theorem wideCount?_eq_some (left right : String) {low high : Int}
    (hLow : -2 ^ 63 ≤ low ∧ low < 2 ^ 63) (hHigh : -2 ^ 63 ≤ high ∧ high < 2 ^ 63) :
    wideCount? left right low high =
      some ((if right = ")" then high - 1 else high) - (if left = "(" then low + 1 else low) + 1) := by
  unfold wideCount?
  simp only [Option.bind_eq_bind]
  rw [wide?_of_le (by split_ifs <;> omega) (by split_ifs <;> omega), Option.bind_some,
    wide?_of_le (by split_ifs <;> omega) (by split_ifs <;> omega), Option.bind_some,
    wide?_of_le (by split_ifs <;> omega) (by split_ifs <;> omega), Option.bind_some]
  exact wide?_of_le (by split_ifs <;> omega) (by split_ifs <;> omega)

/-- The size of a range with every step of its count taken in 128 bits. It is lost where a step does
not fit, as it is where an end is no whole number of 64 bits or the count needs more than 64. -/
def wideSize (range : Tree .range) : Option Nat := do
  let first ← Primitive.integer? (first range)
  let last ← Primitive.integer? (last range)
  let count ← wideCount? (left range) (right range) first last
  if Decimal.fitsUnsigned count.toNat then some count.toNat else none

/-- Counting in 128 bits gives every range the size that counting without a bound gives it: the ends
have 64 bits, and from there no step comes near the bound. -/
theorem wideSize_eq_size (range : Tree .range) : wideSize range = size range := by
  unfold wideSize size
  cases hFirst : Primitive.integer? (first range) with
  | none => rfl
  | some low =>
      cases hLast : Primitive.integer? (last range) with
      | none => rfl
      | some high =>
          obtain ⟨_, -, -, hLow⟩ := Primitive.integer?_eq_some_iff.mp hFirst
          obtain ⟨_, -, -, hHigh⟩ := Primitive.integer?_eq_some_iff.mp hLast
          have hCount := wideCount?_eq_some (left range) (right range) hLow hHigh
          simp only [Option.bind_eq_bind, Option.bind_some, hCount]

/-- A range between two number elements that are whole numbers of 64 bits has as its size the number
of whole numbers between them, unless that is the one count that takes 65 bits, of all of them. No
step of the count leaves 128 bits. No other range has a size. -/
theorem size_eq_card (range : Tree .range) :
    (∀ low high, Primitive.Denotes (first range) low → Primitive.Denotes (last range) high →
      ((numbersBetween (left range) (right range) low high).ncard ≠ 2 ^ 64 →
        size range = some (numbersBetween (left range) (right range) low high).ncard) ∧
      ((numbersBetween (left range) (right range) low high).ncard = 2 ^ 64 → size range = none) ∧
      ((numbersBetween (left range) (right range) low high).ncard = 2 ^ 64 ↔
        left range ≠ "(" ∧ right range ≠ ")" ∧ low = -2 ^ 63 ∧ high = 2 ^ 63 - 1) ∧
      ∃ count, wideCount? (left range) (right range) low high = some count ∧
        count.toNat = (numbersBetween (left range) (right range) low high).ncard) ∧
    ((¬ ∃ low high, Primitive.Denotes (first range) low ∧ Primitive.Denotes (last range) high) →
      size range = none) := by
  refine ⟨?_, ?_⟩
  · intro low high hLow hHigh
    obtain ⟨_, -, -, hLowFits⟩ := id hLow
    obtain ⟨_, -, -, hHighFits⟩ := id hHigh
    have hSize := size_of_denotes hLow hHigh
    have hWhole : (numbersBetween (left range) (right range) low high).ncard ≤ 2 ^ 64 ∧
        ((numbersBetween (left range) (right range) low high).ncard = 2 ^ 64 ↔
          left range ≠ "(" ∧ right range ≠ ")" ∧ low = -2 ^ 63 ∧ high = 2 ^ 63 - 1) := by
      rw [ncard_numbersBetween]
      split_ifs with hRight hLeft hLeft <;> simp only [hRight, hLeft, ne_eq, not_true_eq_false,
        not_false_eq_true, false_and, and_false, true_and, iff_false] <;> omega
    refine ⟨?_, ?_, hWhole.2, _, wideCount?_eq_some _ _ hLowFits hHighFits,
      (ncard_numbersBetween _ _ _ _).symm⟩
    · intro hCard
      rw [hSize, if_pos (lt_of_le_of_ne hWhole.1 hCard)]
    · intro hCard
      rw [hSize, if_neg (by omega)]
  · intro hNone
    refine size_eq_none_of_integer? ?_
    by_contra hBoth
    rw [not_or, ← ne_eq, ← ne_eq, Option.ne_none_iff_exists', Option.ne_none_iff_exists'] at hBoth
    obtain ⟨⟨low, hLow⟩, high, hHigh⟩ := hBoth
    exact hNone ⟨low, high, Primitive.integer?_eq_some_iff.mp hLow,
      Primitive.integer?_eq_some_iff.mp hHigh⟩

/-- Of all numbers of 64 bits there are too many, without the first of them there are not, and a
range from a number with a fraction has no size. -/
theorem size_eq_card_all :
    let number (text : String) : Tree .primitive := Primitive.ofElement (Element.ofText .number text)
    let least := number "-9223372036854775808"
    let most := number "+9223372036854775807"
    Primitive.Denotes least (-2 ^ 63) ∧ Primitive.Denotes most (2 ^ 63 - 1) ∧
      (numbersBetween "[" "]" (-2 ^ 63) (2 ^ 63 - 1)).ncard = 2 ^ 64 ∧
        size (Range.of "[" least most "]") = none ∧
      (numbersBetween "(" "]" (-2 ^ 63) (2 ^ 63 - 1)).ncard = 2 ^ 64 - 1 ∧
        size (Range.of "(" least most "]") = some (2 ^ 64 - 1) ∧
      (¬ ∃ low high, Primitive.Denotes (number "0.5") low ∧ Primitive.Denotes most high) ∧
        size (Range.of "[" (number "0.5") most "]") = none := by
  intro number least most
  have hLeast : Primitive.Denotes least (-2 ^ 63) :=
    Primitive.integer?_eq_some_iff.mp (by decide)
  have hMost : Primitive.Denotes most (2 ^ 63 - 1) :=
    Primitive.integer?_eq_some_iff.mp (by decide)
  have hAll : (numbersBetween "[" "]" (-2 ^ 63) (2 ^ 63 - 1)).ncard = 2 ^ 64 := by
    rw [ncard_numbersBetween]
    decide
  have hOthers : (numbersBetween "(" "]" (-2 ^ 63) (2 ^ 63 - 1)).ncard = 2 ^ 64 - 1 := by
    rw [ncard_numbersBetween]
    decide
  have hHalf : ¬ ∃ low high, Primitive.Denotes (number "0.5") low ∧ Primitive.Denotes most high := by
    rintro ⟨low, high, hLow, -⟩
    have hNone : Primitive.integer? (number "0.5") = none := by decide
    rw [Primitive.integer?_eq_some_iff.mpr hLow] at hNone
    cases hNone
  refine ⟨hLeast, hMost, hAll, ?_, hOthers, ?_, hHalf, ?_⟩
  · exact ((size_eq_card (Range.of "[" least most "]")).1 _ _ hLeast hMost).2.1 hAll
  · have hFewer : (numbersBetween "(" "]" (-2 ^ 63) (2 ^ 63 - 1)).ncard ≠ 2 ^ 64 := by
      rw [hOthers]
      decide
    have hCard := ((size_eq_card (Range.of "(" least most "]")).1 _ _ hLeast hMost).1 hFewer
    exact hCard.trans (congrArg some hOthers)
  · exact (size_eq_card (Range.of "[" (number "0.5") most "]")).2 hHalf

end Range

end DocumentLanguage
