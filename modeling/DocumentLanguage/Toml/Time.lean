import DocumentLanguage.Toml.Text

/-!
Dates and times. They are read to be told from numbers, and written in one form whatever their
spelling: a `T` between date and time, and no more places of a second than there are.
-/
namespace DocumentLanguage.Toml

/-- A number of exactly so many decimal digits, in a range. -/
def readCount (length low high : Nat) : Read Nat := fun text => do
  let digits := text.take length
  let number ← if digits.length < length then none else Text.number? 10 digits
  if low ≤ number ∧ number ≤ high then some (number, text.drop length) else none

def readMark (c : Char) : Read Unit
  | [] => none
  | d :: rest => if c = d then some ((), rest) else none

def daysIn (year month : Nat) : Nat :=
  if month = 2 then
    if year % 4 = 0 ∧ (year % 100 ≠ 0 ∨ year % 400 = 0) then 29 else 28
  else if [4, 6, 9, 11].contains month then 30
  else 31

def padded (length number : Nat) : List Char :=
  let digits := Nat.toDigits 10 number
  List.replicate (length - digits.length) '0' ++ digits

def readDate : Read (List Char) := fun text => do
  let (year, text) ← readCount 4 0 9999 text
  let (_, text) ← readMark '-' text
  let (month, text) ← readCount 2 1 12 text
  let (_, text) ← readMark '-' text
  let (day, text) ← readCount 2 1 (daysIn year month) text
  pure (padded 4 year ++ '-' :: padded 2 month ++ '-' :: padded 2 day, text)

/-- The most places of a second that are kept. -/
def secondPlaces : Nat := 9

/-- The places of a second behind a point, as they are written: without zeros at their end. -/
def readPlaces : Read (List Char)
  | '.' :: text =>
    let digits := text.takeWhile Char.isDigit
    if digits.isEmpty then none
    else
      let kept := ((digits.take secondPlaces).reverse.dropWhile (· = '0')).reverse
      some (if kept.isEmpty then [] else '.' :: kept, text.dropWhile Char.isDigit)
  | text => some ([], text)

def readTime : Read (List Char) := fun text => do
  let (hour, text) ← readCount 2 0 23 text
  let (_, text) ← readMark ':' text
  let (minute, text) ← readCount 2 0 59 text
  let (_, text) ← readMark ':' text
  let (second, text) ← readCount 2 0 60 text
  let (places, text) ← readPlaces text
  pure (padded 2 hour ++ ':' :: padded 2 minute ++ ':' :: padded 2 second ++ places, text)

def readOffset : Read (List Char)
  | [] => none
  | c :: text =>
    if c = 'Z' ∨ c = 'z' then some (['Z'], text)
    else if c = '+' ∨ c = '-' then do
      let (hour, text) ← readCount 2 0 23 text
      let (_, text) ← readMark ':' text
      let (minute, text) ← readCount 2 0 59 text
      let sign := if hour = 0 ∧ minute = 0 then '+' else c
      pure (sign :: padded 2 hour ++ ':' :: padded 2 minute, text)
    else none

/-- A date, a time or both, perhaps with an offset, as it is written. -/
def readMoment : Read String := fun text =>
  match readDate text with
  | none => (readTime text).map fun (time, text) => (String.ofList time, text)
  | some (date, text) =>
    let timed : Option (List Char × List Char) := match text with
      | [] => none
      | c :: rest => if ['T', 't', ' '].contains c then readTime rest else none
    match timed with
    | none => some (String.ofList date, text)
    | some (time, text) =>
      let (offset, text) := (readOffset text).getD ([], text)
      some (String.ofList (date ++ 'T' :: time ++ offset), text)

end DocumentLanguage.Toml
