import DocumentLanguage.Grammar.Form

/-!
Where newlines count. A rule that ends behind a newline does not know how many more there are, so
what is read next must pass over them. Only inside brackets that are opened on the same line does a
reader do so. Whether the forms of all rules keep to that can be told from their parts.
-/
namespace DocumentLanguage

/-- The rules that may end behind a newline. They stand right inside brackets. -/
def Rule.lined : Rule → Bool
  | associations | multilineAssociations | annotatedAssociation | values | multilineValues
  | annotatedValue | noValues | statements | multilineStatements | annotatedStatement | commentLine
  | statementLine | noStatements => true
  | _ => false

/-- The rules that may ask for a newline first. -/
def Rule.opensLine : Rule → Bool
  | associations | multilineAssociations | values | multilineValues | statements
  | multilineStatements => true
  | _ => false

/-- The brackets open behind a delimiter, if it closes none of those opened before. -/
def bracketsBehind (text : String) (depth : Nat) : Option Nat :=
  if ["(", "[", "\x7b"].contains text then some (depth + 1)
  else if [")", "]", "\x7d"].contains text then
    if depth = 0 then none else some (depth - 1)
  else some depth

/-- How far the parts of a sequence have come: how many brackets of its own are open, and whether it
stands behind a newline. -/
structure Posture where
  depth : Nat
  behindLine : Bool
deriving DecidableEq, Repr

/-- A part that asks for a kind that may stand behind any newlines. -/
def Kind.isPlain (kind : Kind) : Bool :=
  kind != .newline && kind != .note && kind != .delimiter

namespace Posture

/-- Whether a bracket is open that was opened on the line. -/
def inside (inner : Bool) (posture : Posture) : Bool :=
  inner || posture.depth != 0

/-- Whether a token here is seen whatever newlines there are. -/
def sees (inner : Bool) (posture : Posture) : Bool :=
  !posture.behindLine || posture.inside inner

/-- Behind one of several delimiters that all do the same to the brackets. -/
def behind? (inner : Bool) (posture : Posture) (texts : List String) : Option Posture :=
  match texts.head?.bind (bracketsBehind · posture.depth) with
  | some depth =>
    if posture.sees inner && texts.all (bracketsBehind · posture.depth = some depth) then
      some ⟨depth, false⟩
    else none
  | none => none

def admits (inner : Bool) (posture : Posture) (rule : Rule) : Bool :=
  posture.sees inner && (!rule.lined || posture.inside inner) &&
    (!rule.opensLine || !posture.behindLine)

end Posture

/-- How a sequence stands behind a part, if the part may stand here. -/
def Part.posture? (inner : Bool) (posture : Posture) : Part → Option Posture
  | keyword text | delimiter text => posture.behind? inner [text]
  | choice _ options => posture.behind? inner options.delimiters
  | newline =>
    if !posture.behindLine && posture.inside inner then Option.some { posture with behindLine := true }
    else none
  | token _ kind =>
    if posture.sees inner && kind.isPlain then Option.some { posture with behindLine := false } else none
  | optionalToken _ kind =>
    if posture.sees inner && kind.isPlain || kind = .note && !posture.behindLine then
      Option.some posture
    else none
  | child _ rule =>
    if posture.admits inner rule then Option.some { posture with behindLine := rule.lined } else none
  | some _ rule =>
    if posture.admits inner rule && !rule.opensLine then
      Option.some { posture with behindLine := rule.lined }
    else none
  | optional _ rule | many _ rule =>
    if posture.admits inner rule && !rule.opensLine then
      Option.some { posture with behindLine := posture.behindLine || rule.lined }
    else none
  | line _ rule =>
    if !rule.lined && !rule.opensLine then Option.some { posture with behindLine := false } else none
  | commit => Option.some posture

/-- Whether parts may stand behind one another from a posture on, and leave all brackets closed. -/
def settles (inner lined : Bool) : Posture → List Part → Bool
  | posture, [] => posture.depth = 0 && (lined || !posture.behindLine)
  | posture, part :: parts =>
    match part.posture? inner posture with
    | some posture => settles inner lined posture parts
    | none => false

/-- Whether a form keeps to what its rule says of newlines, with brackets open around it on the
line or not, and behind a newline or not. -/
def Form.settles (rule : Rule) (inner behindLine : Bool) : Form → Bool
  | literal kinds => kinds.all Kind.isPlain
  | oneOf rules => rules.all fun child => (!child.lined || rule.lined) && (!child.opensLine || rule.opensLine)
  | sequence _ parts => DocumentLanguage.settles inner rule.lined ⟨0, behindLine⟩ parts

/-- Every rule keeps to what is said of it: within a line or not, its parts come one after another
in postures that admit them. -/
theorem Rule.settles_form (rule : Rule) : ∀ inner behindLine : Bool,
    (rule.lined = true → inner = true) →
      (behindLine = true → inner = true ∧ rule.opensLine = false) →
        rule.form.settles rule inner behindLine = true := by
  cases rule <;> decide

end DocumentLanguage
