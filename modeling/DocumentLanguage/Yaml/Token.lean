import DocumentLanguage.Yaml.Block
import DocumentLanguage.Yaml.Plain
import DocumentLanguage.Yaml.Quoted
import DocumentLanguage.Yaml.Tag

/-!
Tokens of a YAML stream. Blocks have no brackets, so indentation opens and closes them; and what
turns out to be a key is only known by the colon behind it, so the token that announces a key is
put in before tokens that are there already.
-/
namespace DocumentLanguage.Yaml

/-- A token. -/
inductive Token
  | directive (directive : Directive)
  | documentStart | documentEnd
  | blockSequenceStart | blockMappingStart | blockEnd
  | flowSequenceStart | flowSequenceEnd | flowMappingStart | flowMappingEnd
  | blockEntry | flowEntry | key | value
  | alias (shelf : Nat)
  | anchor (shelf : Nat)
  | tag (tag : Tag)
  | scalar (plain : Bool) (text : String)
deriving DecidableEq, Repr

/-- A place where a key may have begun. -/
structure KeyCandidate where
  /-- Whether nothing but a key may stand there. -/
  required : Bool
  /-- The number of tokens before it. -/
  tokens : Nat
  index : Nat
  line : Nat
  column : Nat
deriving DecidableEq, Repr

/-- A scanner in the course of its work. -/
structure Scanner where
  place : Place
  tokens : Array Token := #[]
  /-- The indentation of the innermost block, or `-1`. -/
  indent : Int := -1
  /-- The indentations around it. -/
  indents : List Int := []
  /-- For each bracket that is open, the innermost first, and for the outside: where a key may
  have begun. -/
  candidates : List (Option KeyCandidate) := [none]
  keyAllowed : Bool := true
  names : Names := []
deriving Repr

namespace Scanner

/-- The most octets that a key with no mark before it takes up to its colon. -/
def keyLimit : Nat := 1024

def inFlow (scanner : Scanner) : Bool := 1 < scanner.candidates.length

def add (token : Token) (scanner : Scanner) : Scanner :=
  { scanner with tokens := scanner.tokens.push token }

def moveTo (place : Place) (scanner : Scanner) : Scanner :=
  { scanner with place }

def allowKey (allowed : Bool) (scanner : Scanner) : Scanner :=
  { scanner with keyAllowed := allowed }

def addHere (token : Token) (scanner : Scanner) : Scanner :=
  (scanner.moveTo scanner.place.skip).add token

def unroll (column : Int) (scanner : Scanner) : Scanner :=
  if scanner.inFlow then scanner
  else
    let rec close (scanner : Scanner) : List Int → Scanner
      | [] => scanner
      | outer :: indents =>
        if column < scanner.indent then
          close { scanner.add .blockEnd with indent := outer, indents } indents
        else scanner
    close scanner scanner.indents

/-- Open a block at a column, if it is indented further than the one around it. Its token is put
in at an index. -/
def roll (column : Nat) (token : Token) (index : Nat) (scanner : Scanner) : Scanner :=
  if scanner.inFlow || column ≤ scanner.indent then scanner
  else
    { scanner with
      indent := column
      indents := scanner.indent :: scanner.indents
      tokens := scanner.tokens.insertIdxIfInBounds index token }

/-- Give up a candidate, which must not be required. -/
def giveUp? : Option KeyCandidate → Option (Option KeyCandidate)
  | some candidate => if candidate.required then none else some none
  | none => some none

def dropCandidate? (scanner : Scanner) : Option Scanner :=
  match scanner.candidates with
  | [] => some scanner
  | candidate :: candidates => do
    pure { scanner with candidates := (← giveUp? candidate) :: candidates }

/-- Give up the candidates that are on an earlier line or too far back. -/
def dropStale? (scanner : Scanner) : Option Scanner := do
  let { line, index, .. } := scanner.place
  let candidates ← scanner.candidates.mapM fun candidate =>
    if candidate.any fun candidate =>
        candidate.line < line || candidate.index + keyLimit < index then
      giveUp? candidate
    else some candidate
  pure { scanner with candidates }

/-- Note that a key may begin here, if one may. -/
def noteCandidate? (scanner : Scanner) : Option Scanner :=
  if scanner.keyAllowed then do
    let { index, line, column, .. } := scanner.place
    let candidate : KeyCandidate :=
      { required := !scanner.inFlow && scanner.indent = column
        tokens := scanner.tokens.size
        index, line, column }
    let scanner ← scanner.dropCandidate?
    pure { scanner with candidates := some candidate :: scanner.candidates.tail }
  else some scanner

/-- Pass blanks, comments and ends of lines up to the next token. Tabs may stand before a token
where no key may begin. The bound counts lines. -/
def passBlanks : Nat → Scanner → Scanner
  | 0, scanner => scanner
  | bound + 1, scanner =>
    let place := scanner.place
    let place := if place.column = 0 && place.at? byteOrderMark then place.skip else place
    let tabs := scanner.inFlow || !scanner.keyAllowed
    let place := place.skipWhile fun c => c = ' ' || (tabs && c = '\t')
    let place := if place.at? '#' then place.skipWhile (!isBreak ·) else place
    if place.atAny isBreak then
      passBlanks bound
        { scanner with
          place := place.skipLine, keyAllowed := scanner.keyAllowed || !scanner.inFlow }
    else scanner.moveTo place

/-- Close all blocks at the end of a document, and forget its names. -/
def endDocument? (scanner : Scanner) : Option Scanner :=
  (fun scanner => { scanner.allowKey false with names := [] }) <$>
    (scanner.unroll (-1)).dropCandidate?

def openFlow? (token : Token) (scanner : Scanner) : Option Scanner := do
  let scanner ← scanner.noteCandidate?
  pure (({ scanner with candidates := none :: scanner.candidates }.allowKey true).addHere token)

def closeFlow? (token : Token) (scanner : Scanner) : Option Scanner := do
  let scanner ← scanner.dropCandidate?
  let candidates := if scanner.inFlow then scanner.candidates.tail else scanner.candidates
  pure (({ scanner with candidates }.allowKey false).addHere token)

def blockEntry? (scanner : Scanner) : Option Scanner := do
  if !scanner.inFlow && !scanner.keyAllowed then none
  else
    let scanner := scanner.roll scanner.place.column .blockSequenceStart scanner.tokens.size
    let scanner ← scanner.dropCandidate?
    pure ((scanner.allowKey true).addHere .blockEntry)

def key? (scanner : Scanner) : Option Scanner := do
  if !scanner.inFlow && !scanner.keyAllowed then none
  else
    let scanner := scanner.roll scanner.place.column .blockMappingStart scanner.tokens.size
    let scanner ← scanner.dropCandidate?
    pure ((scanner.allowKey (!scanner.inFlow)).addHere .key)

def value? (scanner : Scanner) : Option Scanner :=
  match scanner.candidates with
  | some candidate :: candidates =>
    let scanner := { scanner with
      candidates := none :: candidates
      tokens := scanner.tokens.insertIdxIfInBounds candidate.tokens .key }
    let scanner := scanner.roll candidate.column .blockMappingStart candidate.tokens
    some ((scanner.allowKey false).addHere .value)
  | _ =>
    if !scanner.inFlow && !scanner.keyAllowed then none
    else
      let scanner := scanner.roll scanner.place.column .blockMappingStart scanner.tokens.size
      some ((scanner.allowKey (!scanner.inFlow)).addHere .value)

/-- A token that may begin a key: what it is, where it ends and whether a key may begin behind
it. -/
def addNode? (read : Scanner → Option (Place × Token × Bool)) (scanner : Scanner) :
    Option Scanner := do
  let scanner ← scanner.noteCandidate?
  let (place, token, allowed) ← read scanner
  pure (((scanner.allowKey allowed).moveTo place).add token)

def name? (token : Nat → Token) (scanner : Scanner) : Option Scanner :=
  scanner.addNode? fun scanner => do
    let (place, name) ← readName scanner.place.skip
    pure (place, token (← scanner.names.lookup name), false)

def anchor? (scanner : Scanner) : Option Scanner := do
  let (_, name) ← readName scanner.place.skip
  { scanner with names := scanner.names.give name }.name? .anchor

def tag? (scanner : Scanner) : Option Scanner :=
  scanner.addNode? fun scanner => do
    let (place, tag) ← readTag scanner.inFlow scanner.place
    pure (place, .tag tag, false)

def block? (bound : Nat) (literal : Bool) (scanner : Scanner) : Option Scanner := do
  let scanner ← scanner.dropCandidate?
  let (place, text) ← readBlock literal scanner.indent bound scanner.place.skip
  pure (((scanner.allowKey true).moveTo place).add (.scalar false (String.ofList text)))

def quoted? (bound : Nat) (single : Bool) (scanner : Scanner) : Option Scanner :=
  scanner.addNode? fun scanner => do
    let (place, text) ← readQuoted single bound scanner.place.skip []
    pure (place, .scalar false (String.ofList text), false)

def plain? (bound : Nat) (scanner : Scanner) : Option Scanner :=
  scanner.addNode? fun scanner => do
    let (place, text, broken) ←
      readPlain scanner.inFlow (scanner.indent + 1).toNat bound scanner.place {} []
    pure (place, .scalar true (String.ofList text), broken)

def mark? (token : Token) (scanner : Scanner) : Option Scanner := do
  let scanner ← scanner.endDocument?
  pure ((scanner.moveTo (scanner.place.skipMany 3)).add token)

def directive? (scanner : Scanner) : Option Scanner := do
  let scanner ← scanner.endDocument?
  let (place, directive) ← readDirective scanner.place.skip
  pure ((scanner.moveTo place).add (.directive directive))

/-- Whether a plain scalar may begin with a character and what follows it. -/
def beginsPlain (flow : Bool) (c : Char) (rest : List Char) : Bool :=
  if c = '-' then !rest.head?.any isBlank
  else if c = '?' ∨ c = ':' then !flow && !atBlank rest
  else !isBlank c && !isIndicator c

/-- The scanner behind the next token, which begins with a character that is given with what
follows it. The bound counts characters. -/
def scanToken? (bound : Nat) (c : Char) (rest : List Char) (scanner : Scanner) : Option Scanner :=
  let flow := scanner.inFlow
  let place := scanner.place
  if place.column = 0 && c = '%' then scanner.directive?
  else if place.atMark then scanner.mark? (if c = '-' then .documentStart else .documentEnd)
  else if c = '[' then scanner.openFlow? .flowSequenceStart
  else if c = '{' then scanner.openFlow? .flowMappingStart
  else if c = ']' then scanner.closeFlow? .flowSequenceEnd
  else if c = '}' then scanner.closeFlow? .flowMappingEnd
  else if c = ',' then
    (fun scanner => (scanner.allowKey true).addHere .flowEntry) <$> scanner.dropCandidate?
  else if c = '-' && atBlank rest then scanner.blockEntry?
  else if c = '?' && (flow || atBlank rest) then scanner.key?
  else if c = ':' && (flow || atBlank rest) then scanner.value?
  else if c = '*' then scanner.name? .alias
  else if c = '&' then scanner.anchor?
  else if c = '!' then scanner.tag?
  else if c = '|' && !flow then scanner.block? bound true
  else if c = '>' && !flow then scanner.block? bound false
  else if c = '\'' then scanner.quoted? bound true
  else if c = '"' then scanner.quoted? bound false
  else if beginsPlain flow c rest then scanner.plain? bound
  else none

/-- All tokens up to the end of the stream. The bound counts characters. -/
def run : Nat → Scanner → Option Scanner
  | 0, _ => none
  | bound + 1, scanner => do
    let scanner ← (scanner.passBlanks (bound + 1)).dropStale?
    let scanner := scanner.unroll scanner.place.column
    match scanner.place.rest with
    | [] => scanner.endDocument?
    | c :: rest => run bound (← scanner.scanToken? (bound + 1) c rest)

end Scanner

/-- The tokens of a stream, if it has no character that may not stand in one. -/
def tokens? (text : String) : Option (List Token) :=
  let chars := text.toList
  if chars.all isAllowed then
    (fun scanner => scanner.tokens.toList) <$>
      Scanner.run (chars.length + 1) { place := { rest := chars } }
  else none

end DocumentLanguage.Yaml
