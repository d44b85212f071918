import DocumentLanguage.Text.Basic
import DocumentLanguage.Yaml.Gap

/-! Scalars in single and in double quotes. -/
namespace DocumentLanguage.Yaml

def escaped? (c : Char) : Option Char :=
  if c = '0' then some '\x00'
  else if c = 'a' then some '\x07'
  else if c = 'b' then some '\x08'
  else if c = 't' ∨ c = '\t' then some '\t'
  else if c = 'n' then some '\n'
  else if c = 'v' then some '\x0b'
  else if c = 'f' then some '\x0c'
  else if c = 'r' then some '\r'
  else if c = 'e' then some '\x1b'
  else if c = 'N' then some '\x85'
  else if c = '_' then some '\u00a0'
  else if c = 'L' then some '\u2028'
  else if c = 'P' then some '\u2029'
  else if c = ' ' ∨ c = '"' ∨ c = '/' ∨ c = '\\' then some c
  else none

def codeLength? (c : Char) : Option Nat :=
  if c = 'x' then some 2 else if c = 'u' then some 4 else if c = 'U' then some 8 else none

def codeChar? (length : Nat) (text : List Char) : Option Char := do
  let digits := text.take length
  let code ← if digits.length < length then none else Text.number? 16 digits
  if code.isValidChar then some (Char.ofNat code) else none

/-- The place behind a run of characters without blanks in quotes, its text, and whether it ends
with a line that goes on. A single quote inside single quotes is written twice. The bound counts
characters. -/
def readQuotedWord (single : Bool) : Nat → Place → Option (Place × List Char × Bool)
  | 0, place => some (place, [], false)
  | bound + 1, place =>
    let more (c : Char) (length : Nat) : Option (Place × List Char × Bool) := do
      let (place, text, goesOn) ← readQuotedWord single bound (place.skipMany length)
      pure (place, c :: text, goesOn)
    match place.rest with
    | [] => some (place, [], false)
    | c :: rest =>
      if isBlank c || isBreak c then some (place, [], false)
      else if single then
        if c ≠ '\'' then more c 1
        else if rest.head? = some '\'' then more c 2
        else some (place, [], false)
      else if c = '"' then some (place, [], false)
      else if c ≠ '\\' then more c 1
      else
        match rest with
        | [] => none
        | letter :: digits =>
          if isBreak letter then some (place.skip.skipLine, [], true)
          else
            match escaped? letter, codeLength? letter with
            | some c, _ => more c 2
            | none, some length => do
              let c ← codeChar? length digits
              more c (2 + length)
            | none, none => none

/-- The text in quotes from a place behind the opening quote on, and the place behind the closing
one. The bound counts characters. -/
def readQuoted (single : Bool) : Nat → Place → List Char → Option (Place × List Char)
  | 0, _, _ => none
  | bound + 1, place, text =>
    if place.atMark || place.rest.isEmpty then none
    else do
      let (place, word, goesOn) ← readQuotedWord single bound place
      if place.at? (if single then '\'' else '"') then pure (place.skip, text ++ word)
      else
        let (place, gap) ← passGap 0 bound place { broken := goesOn }
        readQuoted single bound place (text ++ word ++ gap.text)

end DocumentLanguage.Yaml
