import DocumentLanguage.Json.Fault
import DocumentLanguage.Text.Basic

/-!
Strings and numbers in JSON text. A string that nobody asks for is only passed over, which finds
fewer faults than reading it, so a lexeme keeps the outcome of both.
-/
namespace DocumentLanguage.Json

/-- A string as it stands in a text. -/
structure Lexeme where
  /-- What it says, for whoever reads it. -/
  text : Except Fault String
  /-- What comes of passing over it. -/
  passed : Except Fault Unit

def codeUnit? (a b c d : Char) : Option Nat :=
  Text.number? 16 [a, b, c, d]

/-- What is wrong where four hexadecimal digits should stand: too little text counts in
bytes. -/
def codeUnitFault (text : List Char) : Fault :=
  if 4 ≤ (String.ofList text).utf8ByteSize then .invalidEscape else .endInString

/-- The character behind a backslash and a letter, other than for a code. -/
def escaped? (c : Char) : Option Char :=
  if c = '"' ∨ c = '\\' ∨ c = '/' then some c
  else if c = 'b' then some '\x08'
  else if c = 'f' then some '\x0c'
  else if c = 'n' then some '\n'
  else if c = 'r' then some '\r'
  else if c = 't' then some '\t'
  else none

/-- Whether a code unit is the first half of a character. -/
def isLeading (unit : Nat) : Bool := 0xD800 ≤ unit ∧ unit ≤ 0xDBFF

/-- Whether a code unit is the second half of a character. -/
def isTrailing (unit : Nat) : Bool := 0xDC00 ≤ unit ∧ unit ≤ 0xDFFF

def joinUnits (leading trailing : Nat) : Char :=
  Char.ofNat ((leading - 0xD800) * 0x400 + (trailing - 0xDC00) + 0x10000)

/-- Read a string up to its closing quote; gives its characters and what follows. -/
def readString : List Char → Except Fault (List Char × List Char)
  | [] => .error .endInString
  | c :: rest =>
    let push (c : Char) (tail : Except Fault (List Char × List Char)) :
        Except Fault (List Char × List Char) :=
      tail.map fun (chars, rest) => (c :: chars, rest)
    if c = '"' then .ok ([], rest)
    else if c = '\\' then
      match rest with
      | [] => .error .endInString
      | letter :: rest =>
        if letter = 'u' then
          match rest with
          | a :: b :: c :: d :: rest =>
            match codeUnit? a b c d with
            | none => .error (codeUnitFault (a :: b :: c :: d :: rest))
            | some unit =>
              if isTrailing unit then .error .loneSurrogate
              else if isLeading unit then
                match rest with
                | '\\' :: 'u' :: a :: b :: c :: d :: rest =>
                  match codeUnit? a b c d with
                  | none => .error (codeUnitFault (a :: b :: c :: d :: rest))
                  | some second =>
                    if isTrailing second then push (joinUnits unit second) (readString rest)
                    else .error .loneSurrogate
                | '\\' :: 'u' :: rest => .error (codeUnitFault rest)
                | [] | ['\\'] => .error .endInString
                | _ => .error .unpairedSurrogate
              else push (Char.ofNat unit) (readString rest)
          | rest => .error (codeUnitFault rest)
        else
          match escaped? letter with
          | some c => push c (readString rest)
          | none => .error .invalidEscape
    else if c.toNat < 0x20 then .error .controlCharacter
    else push c (readString rest)

/-- Pass over a string up to its closing quote; gives what follows. -/
def passString : List Char → Except Fault (List Char)
  | [] => .error .endInString
  | c :: rest =>
    if c = '"' then .ok rest
    else if c = '\\' then
      match rest with
      | [] => .error .endInString
      | letter :: rest =>
        if letter = 'u' then
          match rest with
          | a :: b :: c :: d :: rest =>
            if (codeUnit? a b c d).isSome then passString rest
            else .error (codeUnitFault (a :: b :: c :: d :: rest))
          | rest => .error (codeUnitFault rest)
        else if (escaped? letter).isSome then passString rest
        else .error .invalidEscape
    else if c.toNat < 0x20 then .error .controlCharacter
    else passString rest

/-- The string behind an opening quote, and what follows it. Nothing does where it cannot even
be passed over. -/
def Lexeme.read (text : List Char) : Lexeme × List Char :=
  let content := (readString text).map fun (chars, _) => String.ofList chars
  match passString text with
  | .ok rest => (⟨content, .ok ()⟩, rest)
  | .error fault => (⟨content, .error fault⟩, [])

def Lexeme.ofText (text : String) : Lexeme := ⟨.ok text, .ok ()⟩

/-- A number as it stands in a text. -/
inductive Numeral
  | integer (value : Int)
  | float (value : Float)
  /-- A number too large for any of these. -/
  | boundless
  /-- A number that breaks off: what is wrong for a reader, and for someone passing over. -/
  | broken (read passed : Fault)

namespace Numeral

/-- Gather digits as long as a word holds the number; gives how many are left out. -/
def gather : Nat → List Char → Nat × Nat
  | number, [] => (number, 0)
  | number, digit :: rest =>
    let next := number * 10 + Text.digitValue digit
    if Decimal.fitsUnsigned next then gather next rest else (number, rest.length + 1)

def power (exponent : Nat) : Float := Float.ofScientific 1 false exponent

/-- A number divided by a power of ten, in steps that are numbers themselves. -/
def divide (number : Float) (exponent : Nat) : Float :=
  if 308 < exponent ∧ number != 0 then divide (number / power 308) (exponent - 308)
  else if exponent ≤ 308 then number / power exponent else number
termination_by exponent

def scale (negative : Bool) (significand : Nat) (exponent : Int) : Numeral :=
  let number := significand.toFloat
  let signed (number : Float) : Numeral := .float (if negative then -number else number)
  if 0 ≤ exponent then
    let product := number * power exponent.toNat
    if significand = 0 then signed number
    else if 308 < exponent ∨ product.isInf then .boundless
    else signed product
  else signed (divide number (-exponent).toNat)

def whole (negative : Bool) (number : Nat) : Numeral :=
  if !negative then .integer number
  else if number = 0 ∨ Decimal.signedBound < number then .float (-number.toFloat)
  else .integer (-(number : Int))

/-- The largest exponent that is told from those beyond it. -/
def exponentLimit : Nat := 0x7FFFFFFF

def withExponent (negative : Bool) (significand : Nat) (scaled : Int) (text : List Char) :
    Numeral × List Char :=
  let (falls, text) := match text with
    | '+' :: text => (false, text)
    | '-' :: text => (true, text)
    | text => (false, text)
  let digits := text.takeWhile Char.isDigit
  let rest := text.dropWhile Char.isDigit
  if digits.isEmpty then
    (.broken (if rest.isEmpty then .endInValue else .invalidNumber) .invalidNumber, [])
  else
    let exponent := Text.ofDigits 10 digits
    if exponentLimit < exponent then
      if significand ≠ 0 ∧ !falls then (.boundless, rest)
      else (.float (if negative then -0.0 else 0.0), rest)
    else (scale negative significand (if falls then scaled - exponent else scaled + exponent), rest)

def readUnsigned (negative : Bool) (text : List Char) : Numeral × List Char :=
  let digits := text.takeWhile Char.isDigit
  let rest := text.dropWhile Char.isDigit
  match digits with
  | [] => (.broken (if rest.isEmpty then .endInValue else .invalidNumber) .invalidNumber, [])
  | '0' :: _ :: _ => (.broken .invalidNumber .invalidNumber, [])
  | digits =>
    let (number, left) := gather 0 digits
    match rest with
    | '.' :: rest =>
      let fraction := rest.takeWhile Char.isDigit
      let rest := rest.dropWhile Char.isDigit
      if fraction.isEmpty then
        (.broken (if rest.isEmpty then .endInValue else .invalidNumber) .invalidNumber, [])
      else
        let (number, dropped) := gather number fraction
        let scaled := (left : Int) - ((fraction.length : Int) - dropped)
        match rest with
        | 'e' :: rest | 'E' :: rest => withExponent negative number scaled rest
        | rest => (scale negative number scaled, rest)
    | 'e' :: rest | 'E' :: rest => withExponent negative number left rest
    | rest => if left = 0 then (whole negative number, rest) else (scale negative number left, rest)

/-- The numeral at the start of a text, and what follows it. -/
def read : List Char → Numeral × List Char
  | '-' :: text => readUnsigned true text
  | text => readUnsigned false text

end Numeral

end DocumentLanguage.Json
