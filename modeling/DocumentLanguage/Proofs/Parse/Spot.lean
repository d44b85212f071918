import DocumentLanguage.Parse.Document

/-!
Reading without a buffer. A spot holds only what lies ahead, so turning back is using an older
spot again, and there are no save-points to keep. The definitions follow those of the reader
clause by clause; that they give what the reader gives is proved beside this.
-/
namespace DocumentLanguage

/-- Where a reader stands: the tokens ahead of it and the number of brackets open around it. -/
structure Spot where
  rest : List Token
  nesting : Nat
deriving DecidableEq, Repr

/-- What is found where something is looked for. -/
inductive Reply (α : Type)
  /-- It is there and ends at a spot. Reading it may commit the rule around it. -/
  | found (value : α) (commits : Bool) (spot : Spot)
  /-- It is not there. -/
  | absent
  /-- Reading ends for good, at a spot. -/
  | failed (failure : Failure) (spot : Spot)

namespace Reply

def map {α β : Type} (f : α → β) : Reply α → Reply β
  | found value commits spot => found (f value) commits spot
  | absent => absent
  | failed failure spot => failed failure spot

@[simp] theorem map_found {α β : Type} (f : α → β) (value : α) (commits : Bool) (spot : Spot) :
    (found value commits spot).map f = found (f value) commits spot := rfl

@[simp] theorem map_absent {α β : Type} (f : α → β) : (absent : Reply α).map f = absent := rfl

@[simp] theorem map_failed {α β : Type} (f : α → β) (failure : Failure) (spot : Spot) :
    (failed failure spot : Reply α).map f = failed failure spot := rfl

end Reply

/-- A statement line being read, by the number of brackets open where it began. -/
abbrev Line := Option Nat

namespace Spot

/-- Whether a token here is passed over by a read that may go over lines or may not. -/
def passes (line : Line) (overLines : Bool) (spot : Spot) (token : Token) : Bool :=
  token.kind = .space || (token.kind = .newline && overLines && !(line = some spot.nesting))

/-- The tokens from the next one on that is not passed over. -/
def visible (line : Line) (overLines : Bool) (spot : Spot) : List Token :=
  spot.rest.dropWhile (spot.passes line overLines)

def expect (line : Line) (overLines : Bool) (test : Token → Bool) (spot : Spot) : Reply Token :=
  match spot.visible line overLines with
  | [] => .absent
  | token :: rest =>
    if token.kind = .error then .failed (.lexical token) ⟨token :: rest, spot.nesting⟩
    else if test token then .found token false ⟨rest, Cursor.nestingAfter token spot.nesting⟩
    else .absent

/-- Look for a token of a kind. Newlines and notes are looked for on the same line only. -/
def expectKind (line : Line) (kind : Kind) : Spot → Reply Token :=
  expect line (kind != .newline && kind != .note) (·.kind = kind)

def expectKinds (line : Line) (kinds : List Kind) : Spot → Reply Token :=
  expect line true (kinds.contains ·.kind)

def expectOneOf (line : Line) (texts : List String) : Spot → Reply Token :=
  expect line true fun token => token.kind = .delimiter && texts.contains token.text

/-- The spot behind all layout. -/
def behindLayout (spot : Spot) : Spot :=
  { spot with rest := spot.rest.dropWhile (·.kind.isLayout) }

def failure (rule : Rule) (spot : Spot) : Failure :=
  match spot.behindLayout.rest with
  | [] => .incomplete rule none
  | token :: _ => if token.kind = .error then .lexical token else .incomplete rule (some token)

/-- Give up a rule here: it is not there, or reading fails if the rule has committed. -/
def giveUp {α : Type} (rule : Rule) (committed : Bool) (spot : Spot) : Reply α :=
  if committed then .failed (spot.failure rule) spot else .absent

end Spot

/-- A way to look for any rule on a statement line. -/
abbrev Seeker := (rule : Rule) → Line → Spot → Reply (Tree rule)

def seekFirst (seek : Seeker) (line : Line) (spot : Spot) :
    (rules : List Rule) → Reply (Content (.oneOf rules))
  | [] => .absent
  | rule :: rules =>
    match seek rule line spot with
    | .found tree commits next => .found (.oneOf rule List.mem_cons_self tree) commits next
    | .failed failure next => .failed failure next
    | .absent =>
      (seekFirst seek line spot rules).map fun
        | .oneOf chosen allowed tree => .oneOf chosen (List.mem_cons_of_mem rule allowed) tree

/-- A rule as often as it is there, at most `bound` times. -/
def seekMany (seek : Seeker) (line : Line) (rule : Rule) : Nat → Spot → Reply (Trees rule)
  | 0, spot => .failed .exhausted spot
  | bound + 1, spot =>
    match seek rule line spot with
    | .found tree _ next => (seekMany seek line rule bound next).map (.cons tree)
    | .failed failure next => .failed failure next
    | .absent => .found .nil false spot

/-- How far the parts of a sequence have been read: whether the rule has committed, and whether
the rule around it has been made to. -/
structure Progress where
  own : Bool
  owner : Bool
deriving DecidableEq, Repr

/-- The sequence that parts belong to. -/
structure Setting where
  rule : Rule
  standing : Standing
  line : Line

namespace Setting

/-- Commit to a sequence, and to the rule around it where it is the body of that. -/
def commit (setting : Setting) (progress : Progress) : Progress :=
  ⟨true, progress.owner || setting.standing.isBody⟩

/-- Give up a sequence. Only one that is an attempt can fail by that. -/
def giveUp {α : Type} (setting : Setting) (progress : Progress) (spot : Spot) : Reply α :=
  spot.giveUp setting.rule (setting.standing.isAttempt && progress.own)

end Setting

def seekParts (seek : Seeker) (bound : Nat) (setting : Setting) :
    (parts : List Part) → Progress → Spot → Reply (Fields (fieldsOf parts))
  | [], progress, spot => .found .nil progress.owner spot
  | .keyword text :: parts, progress, spot =>
    match spot.expectOneOf setting.line [text] with
    | .found _ _ next => seekParts seek bound setting parts (setting.commit progress) next
    | .failed failure next => .failed failure next
    | .absent => setting.giveUp progress spot
  | .delimiter text :: parts, progress, spot =>
    match spot.expectOneOf setting.line [text] with
    | .found _ _ next => seekParts seek bound setting parts progress next
    | .failed failure next => .failed failure next
    | .absent => setting.giveUp progress spot
  | .newline :: parts, progress, spot =>
    match spot.expectKind setting.line .newline with
    | .found _ _ next => seekParts seek bound setting parts progress next
    | .failed failure next => .failed failure next
    | .absent => setting.giveUp progress spot
  | .choice _ choice :: parts, progress, spot =>
    match spot.expectOneOf setting.line choice.delimiters with
    | .found token _ next => (seekParts seek bound setting parts progress next).map (.text token.text)
    | .failed failure next => .failed failure next
    | .absent => setting.giveUp progress spot
  | .token _ kind :: parts, progress, spot =>
    match spot.expectKind setting.line kind with
    | .found token _ next =>
      (seekParts seek bound setting parts progress next).map (.text (keptText token))
    | .failed failure next => .failed failure next
    | .absent => setting.giveUp progress spot
  | .optionalToken _ kind :: parts, progress, spot =>
    match spot.expectKind setting.line kind with
    | .found token _ next =>
      (seekParts seek bound setting parts progress next).map (.optionalText (some (keptText token)))
    | .failed failure next => .failed failure next
    | .absent => (seekParts seek bound setting parts progress spot).map (.optionalText none)
  | .child _ rule :: parts, progress, spot =>
    match seek rule setting.line spot with
    | .found tree commits next =>
      (seekParts seek bound setting parts ⟨progress.own || commits, progress.owner⟩ next).map
        (.child tree)
    | .failed failure next => .failed failure next
    | .absent => setting.giveUp progress spot
  | .line _ rule :: parts, progress, spot =>
    match seek rule (some spot.nesting) spot.behindLayout with
    | .found tree _ next => (seekParts seek bound setting parts progress next).map (.child tree)
    | .failed failure next => .failed failure next
    | .absent => setting.giveUp progress spot.behindLayout
  | .optional _ rule :: parts, progress, spot =>
    match seek rule setting.line spot with
    | .found tree _ next =>
      (seekParts seek bound setting parts (setting.commit progress) next).map (.present tree)
    | .failed failure next => .failed failure next
    | .absent => (seekParts seek bound setting parts progress spot).map .absent
  | .many _ rule :: parts, progress, spot =>
    match seekMany seek setting.line rule bound spot with
    | .found trees _ next => (seekParts seek bound setting parts progress next).map (.many trees)
    | .failed failure next => .failed failure next
    | .absent => .absent
  | .some _ rule :: parts, progress, spot =>
    match seek rule setting.line spot with
    | .found tree _ next =>
      match seekMany seek setting.line rule bound next with
      | .found trees _ next =>
        (seekParts seek bound setting parts (setting.commit progress) next).map
          (.many (.cons tree trees))
      | .failed failure next => .failed failure next
      | .absent => .absent
    | .failed failure next => .failed failure next
    | .absent => setting.giveUp progress spot
  | .commit :: parts, progress, spot =>
    seekParts seek bound setting parts (setting.commit progress) spot

/-- What a node of a rule holds, by a form. -/
def seekForm (seek : Seeker) (bound : Nat) (rule : Rule) (line : Line) (spot : Spot) :
    (form : Form) → Reply (Content form)
  | .literal kinds =>
    (spot.expectKinds line kinds).map fun token => .literal token.kind (Text.dedent token.text)
  | .oneOf rules => seekFirst seek line spot rules
  | .sequence standing parts =>
    (seekParts seek bound ⟨rule, standing, line⟩ parts ⟨false, false⟩ spot).map .sequence

def seekRule : Nat → Seeker
  | 0, _, _, spot => .failed .exhausted spot
  | bound + 1, rule, line, spot =>
    (seekForm (seekRule bound) bound rule line spot rule.form).map .mk

end DocumentLanguage
