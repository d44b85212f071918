import DocumentLanguage.Yaml.Place

/-!
Block scalars: lines under a margin, kept as they are or folded into paragraphs. The margin is
told by a digit or taken from the first line that is not empty.
-/
namespace DocumentLanguage.Yaml

/-- What becomes of the ends of the last lines. -/
inductive Chomping
  | strip | clip | keep
deriving DecidableEq, Repr

/-- The head of a block behind its indicator: how it ends and how deep it is, if that is told. -/
structure BlockHead where
  chomping : Chomping := .clip
  depth : Option Nat := none
deriving DecidableEq, Repr

def chomping? (c : Char) : Option Chomping :=
  if c = '+' then some .keep else if c = '-' then some .strip else none

/-- The depth that a digit stands for: any but zero, which is refused. -/
def depth? (c : Char) : Option (Option Nat) :=
  if c = '0' then none
  else some (if c.isDigit then some (c.toNat - '0'.toNat) else none)

/-- The head of a block, a sign and a digit in any order, and the place behind it. -/
def readBlockHead (place : Place) : Option (BlockHead × Place) := do
  match place.rest with
  | [] => some ({}, place)
  | c :: rest =>
    match chomping? c with
    | some chomping =>
      match rest with
      | [] => some ({ chomping }, place.skip)
      | d :: _ =>
        match ← depth? d with
        | some depth => some (⟨chomping, depth⟩, place.skipMany 2)
        | none => some ({ chomping }, place.skip)
    | none =>
      match ← depth? c with
      | some depth =>
        match rest.head?.bind chomping? with
        | some chomping => some (⟨chomping, depth⟩, place.skipMany 2)
        | none => some ({ depth := some depth }, place.skip)
      | none => some ({}, place)

/-- Pass empty lines and the margin of the first that is not; gives the place there, the widest
margin met, and the ends of the empty lines. While the margin is not known all spaces belong to
it. The bound counts lines. -/
def passEmptyLines (indent : Option Nat) :
    Nat → Place → Nat → List Char → Option (Place × Nat × List Char)
  | 0, place, widest, ends => some (place, widest, ends)
  | bound + 1, place, widest, ends =>
    let spaces := (place.takeWhile (· = ' ')).length
    let place := place.skipMany (match indent with
      | some indent => min spaces (indent - place.column)
      | none => spaces)
    let widest := max widest place.column
    if place.at? '\t' && indent.all (place.column < ·) then none
    else if place.atAny isBreak then
      passEmptyLines indent bound place.skipLine widest (ends ++ place.lineEnd)
    else some (place, widest, ends)

/-- What a block holds so far. -/
structure BlockText where
  text : List Char := []
  /-- The end of the last line. -/
  lineEnd : List Char := []
  /-- The ends of the empty lines behind it. -/
  emptyEnds : List Char := []
  /-- Whether the last line began with a blank. -/
  blank : Bool := false

/-- A block with the next line. In a folded one two lines that begin without blanks are joined by
a space. -/
def BlockText.addLine (literal : Bool) (block : BlockText) (line : List Char) : BlockText :=
  let blank := line.head?.any isBlank
  let joint :=
    if !literal && block.lineEnd = ['\n'] && !block.blank && !blank then
      if block.emptyEnds.isEmpty then [' '] else []
    else block.lineEnd
  { text := block.text ++ joint ++ block.emptyEnds ++ line, blank }

/-- The lines of a block from a place on. The bound counts characters. -/
def readBlockLines (literal : Bool) (indent : Nat) :
    Nat → Place → BlockText → Option (Place × BlockText)
  | 0, place, block => some (place, block)
  | bound + 1, place, block =>
    if place.column ≠ indent ∨ place.rest.isEmpty then some (place, block)
    else do
      let line := place.takeWhile (!isBreak ·)
      let place := place.skipMany line.length
      let lineEnd := place.lineEnd
      let behind := if place.rest.isEmpty then place else place.skipLine
      let (next, _, emptyEnds) ← passEmptyLines (some indent) (bound + 1) behind 0 []
      readBlockLines literal indent bound next
        { block.addLine literal line with lineEnd, emptyEnds }

/-- The text of a block with its last ends of lines. -/
def BlockText.finish (chomping : Chomping) (block : BlockText) : List Char :=
  block.text ++ (if chomping = .strip then [] else block.lineEnd) ++
    (if chomping = .keep then block.emptyEnds else [])

/-- The block scalar behind its indicator, which stands in a block of an indentation; none is
`-1`. The bound counts characters. -/
def readBlock (literal : Bool) (parent : Int) (bound : Nat) (place : Place) :
    Option (Place × List Char) := do
  let (head, place) ← readBlockHead place
  let place ← place.skipToNextLine?
  let told := head.depth.map fun depth => (max parent 0).toNat + depth
  let (place, widest, emptyEnds) ← passEmptyLines told bound place 0 []
  let indent := told.getD (max widest (max (parent + 1) 1).toNat)
  let (place, block) ← readBlockLines literal indent bound place { emptyEnds }
  pure (place, block.finish head.chomping)

end DocumentLanguage.Yaml
