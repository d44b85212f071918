import DocumentLanguage.Unicode.Ranges
import DocumentLanguage.Unicode.Word

/-!
Regular expressions that prefer their earlier choices. `Pattern.ends` lists every way to match
at the head of a text, best first, as the text that is left over; `Pattern.Matches` says which
texts a pattern matches in front of a given rest.
-/
namespace DocumentLanguage

/-- One entry of a character set. -/
inductive SetItem
  /-- The character itself. -/
  | char (c : Char)
  /-- The character itself, written with a backslash. -/
  | escaped (c : Char)
  /-- All characters between two, both included. -/
  | range (first last : Char)
  | digit
  | blank
  | nonBlank
deriving DecidableEq, Repr

def SetItem.holds : SetItem → Char → Bool
  | char d, c | escaped d, c => c = d
  | range first last, c => first ≤ c && c ≤ last
  | digit, c => Unicode.isDecimalDigit c
  | blank, c => Unicode.isBlank c
  | nonBlank, c => !Unicode.isBlank c

/-- What a single character may be. -/
inductive CharTest
  /-- One character. -/
  | char (c : Char)
  /-- One character of a word that is to be taken literally, with every mark in it escaped. -/
  | verbatim (c : Char)
  | digit
  /-- Anything but a line feed. -/
  | inLine
  /-- A member of some entry. -/
  | oneOf (items : List SetItem)
  /-- A member of no entry. -/
  | noneOf (items : List SetItem)
deriving DecidableEq, Repr

def CharTest.holds : CharTest → Char → Bool
  | char d, c | verbatim d, c => c = d
  | digit, c => Unicode.isDecimalDigit c
  | inLine, c => c != '\n'
  | oneOf items, c => items.any (·.holds c)
  | noneOf items, c => !items.any (·.holds c)

/-- A regular expression whose choices are ordered. -/
inductive Pattern
  | empty
  | one (test : CharTest)
  /-- The end of a word; only used behind a word character. -/
  | wordEnd
  | cat (first second : Pattern)
  /-- Either one, the first preferred. -/
  | alt (first second : Pattern)
  /-- Once or not at all, once preferred. -/
  | opt (body : Pattern)
  /-- Any number of times, more preferred. -/
  | star (body : Pattern)
  /-- At least once, more preferred. -/
  | plus (body : Pattern)
  /-- Any number of times, fewer preferred. -/
  | fewest (body : Pattern)
  /-- From `least` to `most` times, more preferred. -/
  | times (least most : Nat) (body : Pattern)
deriving DecidableEq, Repr

namespace Pattern

/-- Every way to run a step at most `bound` times, more runs first. -/
def mostRuns (step : List Char → List (List Char)) : Nat → List Char → List (List Char)
  | 0, text => [text]
  | bound + 1, text => (step text).flatMap (mostRuns step bound) ++ [text]

/-- Every way to run a step at most `bound` times, fewer runs first. -/
def fewestRuns (step : List Char → List (List Char)) : Nat → List Char → List (List Char)
  | 0, text => [text]
  | bound + 1, text => text :: (step text).flatMap (fewestRuns step bound)

/-- Every way to run a step exactly `count` times. -/
def exactRuns (step : List Char → List (List Char)) : Nat → List Char → List (List Char)
  | 0, text => [text]
  | count + 1, text => (step text).flatMap (exactRuns step count)

/-- What may be left over when the pattern matches at the head of a text, best first. -/
def ends : Pattern → List Char → List (List Char)
  | empty, text => [text]
  | one test, text =>
    match text with
    | [] => []
    | c :: rest => if test.holds c then [rest] else []
  | wordEnd, text =>
    match text with
    | [] => [text]
    | c :: _ => if Unicode.isWord c then [] else [text]
  | cat first second, text => (first.ends text).flatMap second.ends
  | alt first second, text => first.ends text ++ second.ends text
  | opt body, text => body.ends text ++ [text]
  | star body, text => mostRuns body.ends text.length text
  | plus body, text =>
    (body.ends text).flatMap fun rest => mostRuns body.ends rest.length rest
  | fewest body, text => fewestRuns body.ends text.length text
  | times least most body, text =>
    (exactRuns body.ends least text).flatMap (mostRuns body.ends (most - least))

def accepts (pattern : Pattern) (text : List Char) : Bool :=
  (pattern.ends text).any List.isEmpty

/-- The preferred match at the head of a text: what is matched and what is left. -/
def match? (pattern : Pattern) (text : List Char) : Option (List Char × List Char) :=
  (pattern.ends text).head?.map fun rest => (text.take (text.length - rest.length), rest)

end Pattern

end DocumentLanguage
