import DocumentLanguage.Text.Basic

/-!
The words of TOML: blanks, comments, strings and keys. A reader takes a text apart and gives what
it read together with what follows, or nothing.
-/
namespace DocumentLanguage.Toml

/-- A way to read the start of a text. -/
abbrev Read (α : Type) := List Char → Option (α × List Char)

def isBlank (c : Char) : Bool := c = ' ' ∨ c = '\t'

def isText (c : Char) : Bool := c = '\t' ∨ (' ' ≤ c ∧ c ≠ '\x7f')

def dropBlanks (text : List Char) : List Char := text.dropWhile isBlank

def newline? : List Char → Option (List Char)
  | '\n' :: rest | '\r' :: '\n' :: rest => some rest
  | _ => none

def dropComment : List Char → List Char
  | '#' :: rest => rest.dropWhile isText
  | text => text

/-- The text behind blanks, comments and ends of lines. The bound counts lines. -/
def dropLines : Nat → List Char → List Char
  | 0, text => text
  | bound + 1, text =>
    let text := dropComment (dropBlanks text)
    match newline? text with
    | some rest => dropLines bound rest
    | none => text

def endLine? (text : List Char) : Option (List Char) :=
  match dropComment (dropBlanks text) with
  | [] => some []
  | text => newline? text

/-- The character of a code of exactly so many hexadecimal digits. -/
def readCode (length : Nat) : Read Char := fun text => do
  let digits := text.take length
  let code ← if digits.length < length then none else Text.number? 16 digits
  if code.isValidChar then some (Char.ofNat code, text.drop length) else none

def readEscape : Read Char
  | [] => none
  | c :: rest =>
    if c = 'b' then some ('\x08', rest)
    else if c = 't' then some ('\t', rest)
    else if c = 'n' then some ('\n', rest)
    else if c = 'f' then some ('\x0c', rest)
    else if c = 'r' then some ('\r', rest)
    else if c = '"' ∨ c = '\\' then some (c, rest)
    else if c = 'u' then readCode 4 rest
    else if c = 'U' then readCode 8 rest
    else none

/-- A string on one line behind its opening quote; only in double quotes are there escapes. The
bound counts characters. -/
def readLine (quote : Char) : Nat → Read (List Char)
  | 0, _ => none
  | _, [] => none
  | bound + 1, c :: rest =>
    if c = quote then some ([], rest)
    else if c = '\\' ∧ quote = '"' then do
      let (c, rest) ← readEscape rest
      let (text, rest) ← readLine quote bound rest
      pure (c :: text, rest)
    else if isText c then do
      let (text, rest) ← readLine quote bound rest
      pure (c :: text, rest)
    else none

/-- The text behind blanks and ends of lines. The bound counts characters. -/
def dropSpace : Nat → List Char → List Char
  | 0, text => text
  | bound + 1, text =>
    match newline? (dropBlanks text) with
    | some rest => dropSpace bound rest
    | none => dropBlanks text

/-- A string over several lines behind its opening quotes. Three quotes close it, and up to two
more before them belong to it. In double quotes a backslash at the end of a line takes away all
space up to the next word. The bound counts characters. -/
def readLines (quote : Char) : Nat → Read (List Char)
  | 0, _ => none
  | _, [] => none
  | bound + 1, c :: rest =>
    let text := c :: rest
    let more (c : Char) (rest : List Char) : Option (List Char × List Char) := do
      let (text, rest) ← readLines quote bound rest
      pure (c :: text, rest)
    if c = quote then
      let quotes := min (text.takeWhile (· = quote)).length 5
      if 3 ≤ quotes then some (List.replicate (quotes - 3) quote, text.drop quotes)
      else more c rest
    else if c = '\\' ∧ quote = '"' then
      match newline? (dropBlanks rest) with
      | some rest => readLines quote bound (dropSpace rest.length rest)
      | none => do
        let (c, rest) ← readEscape rest
        more c rest
    else
      match newline? text with
      | some rest => more '\n' rest
      | none => if isText c then more c rest else none

def readString : Read String
  | [] => none
  | quote :: rest =>
    if quote ≠ '"' ∧ quote ≠ '\'' then none
    else
      let closed : Option (List Char × List Char) :=
        if rest.take 2 = [quote, quote] then
          let rest := rest.drop 2
          readLines quote (rest.length + 1) ((newline? rest).getD rest)
        else readLine quote (rest.length + 1) rest
      closed.map fun (text, rest) => (String.ofList text, rest)

def isKeyChar (c : Char) : Bool := c.isAlphanum || c = '_' || c = '-'

/-- One part of a key: a word, or a string on one line. -/
def readKeyPart : Read String
  | [] => none
  | c :: rest =>
    if c = '"' ∨ c = '\'' then
      (readLine c (rest.length + 1) rest).map fun (text, rest) => (String.ofList text, rest)
    else
      let word := (c :: rest).takeWhile isKeyChar
      if word.isEmpty then none
      else some (String.ofList word, (c :: rest).dropWhile isKeyChar)

/-- How deep arrays and tables may be nested, in a value or by the points of a key: it stays
below this number. -/
def nestingLimit : Nat := 80

def readParts : Nat → Read (List String)
  | 0, _ => none
  | bound + 1, text => do
    let (part, rest) ← readKeyPart text
    match dropBlanks rest with
    | '.' :: rest =>
      let (parts, rest) ← readParts bound (dropBlanks rest)
      pure (part :: parts, rest)
    | rest => pure ([part], rest)

def readKey : Read (List String) := readParts (nestingLimit - 1)

end DocumentLanguage.Toml
