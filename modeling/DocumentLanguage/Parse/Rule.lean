import DocumentLanguage.Parse.Attempt
import DocumentLanguage.Text.Indentation
import DocumentLanguage.Tree.Basic

/-!
Reading the rules of the grammar. A rule that cannot be read yields nothing and leaves the
reader where it was; behind its point of no return it fails. The budget counts nested rules and
repetitions.
-/
namespace DocumentLanguage

/-- The attempts that the parts of a sequence are read in. -/
structure Stage where
  /-- The attempt at the sequence itself. -/
  own : Option Attempt
  /-- The attempt at the rule around it. -/
  owner : Option Attempt
  /-- Whether a commitment passes to the rule around it. -/
  isBody : Bool
deriving DecidableEq, Repr

/-- Commit an attempt, if there is one. -/
def commitSome : Option Attempt → Reading (Option Attempt)
  | none => pure none
  | some attempt => some <$> attempt.commit

namespace Stage

/-- Commit to the sequence, and to the rule around it where it is the body of that. -/
def commit (stage : Stage) : Reading Stage := do
  let own ← commitSome stage.own
  let owner ← if stage.isBody then commitSome stage.owner else pure stage.owner
  pure { stage with own := own, owner := owner }

def abandon (stage : Stage) : Reading Unit :=
  match stage.own with
  | some attempt => attempt.abandon
  | none => pure ()

end Stage

/-- The text that a node keeps of a token. Comments are kept without their indentation. -/
def keptText (token : Token) : String :=
  if token.kind = .comment then Text.dedent token.text else token.text

/-- The outcome of a rule or a part of one: what was read, if anything, and the attempt at the
rule around it. -/
abbrev Outcome (α : Type) := Option α × Option Attempt

/-- A way to read any rule inside an attempt at the rule around it; the attempt comes back,
perhaps committed. -/
abbrev RuleReader :=
  (rule : Rule) → Option Attempt → Reading (Outcome (Tree rule))

def readFirst (read : RuleReader) (owner : Option Attempt) :
    (rules : List Rule) → Reading (Outcome (Content (.oneOf rules)))
  | [] => pure (none, owner)
  | rule :: rules => do
    match ← read rule owner with
    | (some tree, owner) => pure (some (.oneOf rule List.mem_cons_self tree), owner)
    | (none, owner) =>
      match ← readFirst read owner rules with
      | (some (.oneOf chosen allowed tree), owner) =>
        pure (some (.oneOf chosen (List.mem_cons_of_mem rule allowed) tree), owner)
      | (none, owner) => pure (none, owner)

/-- A rule as often as it can be read, at most `bound` times. -/
def readMany (read : RuleReader) (rule : Rule) : Nat → Reading (Trees rule)
  | 0 => throw .exhausted
  | bound + 1 => do
    match ← read rule none with
    | (some tree, _) => return .cons tree (← readMany read rule bound)
    | (none, _) => pure .nil

/-- Give up the sequence and yield nothing. -/
def Stage.giveUp {α : Type} (stage : Stage) : Reading (Outcome α) := do
  stage.abandon
  pure (none, stage.owner)

/-- Go on reading, and put what is read then to what was read before. -/
def keeping {α β : Type} (keep : α → β) (reading : Reading (Outcome α)) :
    Reading (Outcome β) := do
  let (value, owner) ← reading
  pure (value.map keep, owner)

def readParts (read : RuleReader) (bound : Nat) :
    (parts : List Part) → Stage → Reading (Outcome (Fields (fieldsOf parts)))
  | [], stage => pure (some .nil, stage.owner)
  | .keyword text :: parts, stage => do
    if ← Reading.expectDelimiter text then readParts read bound parts (← stage.commit)
    else stage.giveUp
  | .delimiter text :: parts, stage => do
    if ← Reading.expectDelimiter text then readParts read bound parts stage
    else stage.giveUp
  | .newline :: parts, stage => do
    match ← Reading.expectKind .newline with
    | some _ => readParts read bound parts stage
    | none => stage.giveUp
  | .choice _ choice :: parts, stage => do
    match ← Reading.expectOneOf choice.delimiters with
    | some token => keeping (.text token.text) (readParts read bound parts stage)
    | none => stage.giveUp
  | .token _ kind :: parts, stage => do
    match ← Reading.expectKind kind with
    | some token => keeping (.text (keptText token)) (readParts read bound parts stage)
    | none => stage.giveUp
  | .optionalToken _ kind :: parts, stage => do
    let token ← Reading.expectKind kind
    keeping (.optionalText (token.map keptText)) (readParts read bound parts stage)
  | .child _ rule :: parts, stage => do
    match ← read rule stage.own with
    | (some tree, own) => keeping (.child tree) (readParts read bound parts { stage with own := own })
    | (none, own) => Stage.giveUp { stage with own := own }
  | .line _ rule :: parts, stage => do
    Reading.skipLayout
    match ← Reading.withinLine (read rule none) with
    | (some tree, _) => keeping (.child tree) (readParts read bound parts stage)
    | (none, _) => stage.giveUp
  | .optional _ rule :: parts, stage => do
    match ← read rule none with
    | (some tree, _) => keeping (.present tree) (readParts read bound parts (← stage.commit))
    | (none, _) => keeping .absent (readParts read bound parts stage)
  | .many _ rule :: parts, stage => do
    let trees ← readMany read rule bound
    keeping (.many trees) (readParts read bound parts stage)
  | .some _ rule :: parts, stage => do
    match ← read rule none with
    | (some tree, _) =>
      let stage ← stage.commit
      let trees ← readMany read rule bound
      keeping (.many (.cons tree trees)) (readParts read bound parts stage)
    | (none, _) => stage.giveUp
  | .commit :: parts, stage => do
    readParts read bound parts (← stage.commit)

/-- What a node of a rule holds, by the rule's form. -/
def readForm (read : RuleReader) (bound : Nat) (rule : Rule) (owner : Option Attempt) :
    (form : Form) → Reading (Outcome (Content form))
  | .literal kinds => do
    let token ← Reading.expectKinds kinds
    pure (token.map fun token => .literal token.kind (Text.dedent token.text), owner)
  | .oneOf rules => readFirst read owner rules
  | .sequence standing parts => do
    let own ← if standing.isAttempt then some <$> Attempt.begin rule else pure none
    keeping .sequence (readParts read bound parts ⟨own, owner, standing.isBody⟩)

def readRule : Nat → RuleReader
  | 0, _, _ => throw .exhausted
  | bound + 1, rule, owner =>
    keeping .mk (readForm (readRule bound) bound rule owner rule.form)

end DocumentLanguage
