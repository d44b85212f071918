import DocumentLanguage.Decimal.Number
import DocumentLanguage.Json.Value
import DocumentLanguage.Toml.Text

/-! Numbers of TOML: whole ones in four bases, and floating point ones. -/
namespace DocumentLanguage.Toml

/-- Digits in a base, with single underscores between them; the underscores are left out. The
bound counts groups of digits. -/
def readGroups (base : Nat) : Nat → Read (List Char)
  | 0, _ => none
  | bound + 1, text =>
    let digits := text.takeWhile (Text.isDigitIn base)
    let rest := text.dropWhile (Text.isDigitIn base)
    if digits.isEmpty then none
    else match rest with
      | '_' :: rest => do
        let (more, rest) ← readGroups base bound rest
        pure (digits ++ more, rest)
      | rest => some (digits, rest)

def readDigits (base : Nat) : Read (List Char) := fun text =>
  readGroups base (text.length + 1) text

def readSign : List Char → Option Char × List Char
  | '+' :: text => (some '+', text)
  | '-' :: text => (some '-', text)
  | text => (none, text)

/-- Decimal digits of which the first is no zero, or a single zero. -/
def readWhole : Read (List Char) := fun text => do
  let (digits, rest) ← readDigits 10 text
  match digits with
  | '0' :: _ :: _ => none
  | digits => pure (digits, rest)

def whole? (number : Int) : Option Json :=
  if Decimal.fitsSigned number then some (.integer number) else none

/-- A fraction behind its point; nothing where there is no point. -/
def readFraction : Read (List Char)
  | '.' :: text => readDigits 10 text
  | text => some ([], text)

/-- An exponent behind its letter; nothing where there is no letter. -/
def readExponent : Read (Option Int)
  | [] => some (none, [])
  | c :: text =>
    if c = 'e' ∨ c = 'E' then do
      let (sign, text) := readSign text
      let (digits, text) ← readDigits 10 text
      let exponent : Int := Text.ofDigits 10 digits
      pure (some (if sign = some '-' then -exponent else exponent), text)
    else some (none, c :: text)

/-- A number in base ten. It may not be too large above zero. -/
def readDecimal : Read Json := fun text => do
  let (sign, text) := readSign text
  let negative := sign = some '-'
  let (digits, text) ← readWhole text
  let (fraction, rest) ← readFraction text
  let (exponent, rest) ← readExponent rest
  if fraction.isEmpty && exponent.isNone then
    let number : Int := Text.ofDigits 10 digits
    pure (← whole? (if negative then -number else number), rest)
  else
    let number :=
      Decimal.nearest (Text.ofDigits 10 (digits ++ fraction))
        (exponent.getD 0 - fraction.length)
    if negative then pure (.float (-number), rest)
    else if number.isInf then none
    else pure (.float number, rest)

/-- A number in another base behind the mark of the base. -/
def readBased (base : Nat) : Read Json := fun text => do
  let (digits, rest) ← readDigits base text
  pure (← whole? ((← Text.number? base digits) : Nat), rest)

def readNamed : Read Json := fun text =>
  let (sign, text) := readSign text
  let signed (number : Float) : Json := .float (if sign = some '-' then -number else number)
  if text.take 3 = ['i', 'n', 'f'] then some (signed (1.0 / 0.0), text.drop 3)
  else if text.take 3 = ['n', 'a', 'n'] then some (signed (0.0 / 0.0), text.drop 3)
  else none

def readNumber : Read Json
  | '0' :: 'x' :: text => readBased 16 text
  | '0' :: 'o' :: text => readBased 8 text
  | '0' :: 'b' :: text => readBased 2 text
  | text => readNamed text <|> readDecimal text

end DocumentLanguage.Toml
