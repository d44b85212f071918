import DocumentLanguage.Pattern.Source
import DocumentLanguage.Token.Kind

/-!
What the tokens of each kind look like, and the order in which kinds are tried. A mark that can
open a literal is tried as an operator only after every literal has failed.
-/
namespace DocumentLanguage

namespace Pattern

def cats : List Pattern → Pattern
  | [] => empty
  | [pattern] => pattern
  | pattern :: patterns => cat pattern (cats patterns)

def alts : List Pattern → Pattern
  | [] => empty
  | [pattern] => pattern
  | pattern :: patterns => alt pattern (alts patterns)

def char (c : Char) : Pattern := one (.char c)

def text (chars : List Char) : Pattern := cats (chars.map char)

def word (chars : List Char) : Pattern := cats (chars.map fun c => one (.verbatim c))

def digit : Pattern := one .digit

def digits : Pattern := plus digit

def fraction : Pattern := cats [char '.', digits]

def oneOf (items : List SetItem) : Pattern := one (.oneOf items)

def noneOf (items : List SetItem) : Pattern := one (.noneOf items)

def lineEnd : Pattern := cats [opt (char '\r'), char '\n']

def anything : Pattern := fewest (oneOf [.blank, .nonBlank])

end Pattern

/-- Whether the first of two words is to be tried before the second: longer words come first,
words of one length in alphabetical order. -/
def triedBefore (first second : String) : Bool :=
  second.length < first.length || (first.length = second.length && first ≤ second)

/-- A word put where it belongs among words in the order of trying. -/
def insertTried (word : String) : List String → List String
  | [] => [word]
  | other :: words =>
    if triedBefore word other then word :: other :: words else other :: insertTried word words

/-- Words in the order of trying, so that no word hides a longer one. -/
def inTriedOrder (words : List String) : List String :=
  words.foldr insertTried []

def anyWord (words : List String) : Pattern :=
  .alts ((inTriedOrder words).map fun word => .word word.toList)

def keywords : List String :=
  ["accept", "and", "as", "at", "break", "checkout", "continue", "discard", "do", "each", "from",
   "if", "in", "ior", "is", "let", "level", "loop", "matches", "matching", "not", "notarize",
   "on", "post", "publish", "reject", "retrieve", "return", "san", "save", "select", "throw",
   "to", "while", "with", "xor"]

def punctuation : List String :=
  ["..", ":=", "?=", "+=", "-=", "*=", "/=", "<-", "[", "]", "(", ")", "\x7b", "\x7d", ",", ":", ";",
   "@", "|"]

/-- Operators that share their first character with some literal. -/
def operators : List String :=
  ["//", "&", "+", "-", "*", "/", "^", "<", "=", ">", "."]

namespace Kind

open Pattern

private def letter : List SetItem := [.range 'a' 'z', .range 'A' 'Z']

private def alphanumeric : List SetItem := letter ++ [.range '0' '9']

private def exponent : Pattern :=
  cats [char 'E', opt (oneOf [.char '+', .char '-']), digits]

private def timePart (mark : Char) : Pattern := opt (cats [digits, char mark])

private def durationPattern : Pattern :=
  cats [char '~', opt (char '-'), char 'P',
    alts [
      cats [digits, char 'W'],
      cats [timePart 'Y', timePart 'M', timePart 'D',
        opt (cats [char 'T', timePart 'H', timePart 'M',
          opt (cats [digits, opt fraction, char 'S'])])]]]

private def anglePattern : Pattern :=
  cats [char '~',
    alts [text ['p', 'i'], text ['t', 'a', 'u'], cats [digits, opt fraction, opt exponent]]]

private def momentPattern : Pattern :=
  cats [char '<', times 1 4 digit,
    opt (cats [char '-', times 2 2 digit,
      opt (cats [char '-', times 2 2 digit,
        opt (cats [char 'T', times 2 2 digit,
          opt (cats [char ':', times 2 2 digit,
            opt (cats [char ':', times 2 2 digit,
              opt (cats [char '.', times 1 3 digit])])])])])]),
    char '>']

private def resourcePattern : Pattern :=
  cats [char '<', oneOf [.range 'a' 'z'],
    star (oneOf [.range 'a' 'z', .range '0' '9', .char '+', .char '.', .escaped '-']),
    char ':', star (noneOf [.blank, .char '>']), char '>']

private def quotePattern : Pattern :=
  cats [char '"',
    star (alts [noneOf [.char '"', .char '\\', .char '\r', .char '\n'],
      cats [char '\\', one .inLine]]),
    char '"']

private def numberPattern : Pattern :=
  cats [opt (char '-'), digits, opt fraction, opt exponent, opt (char 'i')]

private def monikerPattern : Pattern :=
  plus (cats [char '/', oneOf letter,
    star (oneOf (alphanumeric ++ [.char '.', .char '+', .escaped '-']))])

/-- What tokens of a kind look like. Nothing looks like an error. -/
def pattern? : Kind → Option Pattern
  | error => none
  | delimiter => some (anyWord (keywords ++ punctuation ++ operators))
  | space => some (plus (oneOf [.char ' ']))
  | newline => some lineEnd
  | comment => some (cats [text ['!', '>'], lineEnd, anything, text ['<', '!']])
  | note => some (cats [text ['!', ' '], star (noneOf [.char '\r', .char '\n'])])
  | identifier => some (cats [oneOf letter, star (oneOf alphanumeric)])
  | angle => some anglePattern
  | boolean => some (cats [alts [text "false".toList, text "true".toList], wordEnd])
  | duration => some durationPattern
  | moment => some momentPattern
  | number => some numberPattern
  | pattern =>
    some (alts [cats [alts [text "none".toList, text "any".toList], wordEnd],
      cats [quotePattern, char '?']])
  | percentage => some (cats [opt (char '-'), digits, opt fraction, char '%'])
  | probability => some fraction
  | resource => some resourcePattern
  | symbol =>
    some (cats [char '$', oneOf letter, star (oneOf alphanumeric),
      opt (cats [char '-', digits])])
  | tag => some (cats [char '#', plus (oneOf [.range '0' '9', .range 'A' 'Z'])])
  | binary =>
    some (cats [char '\'',
      star (oneOf [.range 'A' 'Z', .range 'a' 'z', .range '0' '9', .char '+', .char '/',
        .char '=', .blank]),
      char '\''])
  | bytecode =>
    some (cats [text ['\'', '['],
      star (oneOf [.range '0' '9', .range 'a' 'f', .range 'A' 'F', .blank]),
      text [']', '\'']])
  | moniker => some monikerPattern
  | narrative => some (cats [text ['"', '>'], lineEnd, anything, text ['<', '"']])
  | quote => some quotePattern
  | version => some (cats [char 'v', digits, star fraction, wordEnd])

/-- Whether a text is, from end to end, a token of this kind. -/
def accepts (kind : Kind) (text : String) : Bool :=
  kind.pattern?.any (·.accepts text.toList)

end Kind

/-- A kind together with what is tried for it. -/
structure Trial where
  kind : Kind
  pattern : Pattern

/-- The kinds tried between the two groups of delimiters. -/
def literalOrder : List Kind :=
  [.space, .newline, .comment, .note, .duration, .angle, .moment, .resource, .boolean, .pattern,
   .percentage, .probability, .number, .symbol, .tag, .binary, .bytecode, .moniker, .narrative,
   .quote, .version, .identifier]

/-- What is tried at each place of a source, in this order. Keywords and punctuation come first
and operators last. -/
def trials : List Trial :=
  ⟨.delimiter, anyWord (keywords ++ punctuation)⟩ ::
    literalOrder.filterMap (fun kind => kind.pattern?.map (⟨kind, ·⟩)) ++
    [⟨.delimiter, anyWord operators⟩]

end DocumentLanguage
