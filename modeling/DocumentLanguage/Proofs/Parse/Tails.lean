import DocumentLanguage.Proofs.Grammar.Posture
import DocumentLanguage.Proofs.Parse.Look

/-!
What must not come behind a rule. A node is only found from end to end if nothing that could go on
with it comes right behind: a rule that it may be followed by, or a word that would make another
rule of it. What that is follows from the forms of the rules, which also tell that no part of a
sequence is followed by such a thing.
-/
namespace DocumentLanguage

/-- What could go on with a node. -/
inductive Tail
  | word (text : String)
  | rule (next : Rule)
deriving DecidableEq, Repr

def Tail.leads : Tail → List Lead
  | word text => [.word text]
  | rule next => next.leads

/-- Whether a tail is not there at a spot. -/
def Tail.Absent (line : Line) (spot : Spot) : Tail → Prop
  | word text => spot.Clear line [.word text]
  | rule next => look next line spot = .absent

namespace Rule

/-- The tails of a component. Behind a literal points would make it the end of a range, and a colon
a key. -/
def componentTails : List Tail := [.rule parameters, .word "..", .word ":"]

/-- The tails of a name, which could be that of something else. -/
def nameTails : List Tail := [.word "(", .word ".", .word "<-", .word "["]

/-- The tails of a subject. There may be a name at its end. -/
def subjectTails : List Tail := componentTails ++ nameTails

def expressionTails : List Tail := .rule predicate :: subjectTails

def statementTails : List Tail := .rule onClause :: .rule matchHandler :: expressionTails

def tails : Rule → List Tail
  | document | component | association | additionalAssociation | annotatedAssociation
  | additionalValue | annotatedValue => componentTails
  | multilineAssociations => .rule annotatedAssociation :: componentTails
  | inlineAssociations => .rule additionalAssociation :: componentTails
  | associations => .rule annotatedAssociation :: .rule additionalAssociation :: componentTails
  | multilineValues => .rule annotatedValue :: componentTails
  | inlineValues => .rule additionalValue :: componentTails
  | values =>
    [.rule annotatedValue, .rule additionalValue, .rule multilineValues, .rule inlineValues] ++
      componentTails
  | multilineStatements => [.rule annotatedStatement]
  | inlineStatements => .rule additionalStatement :: statementTails
  | statements =>
    [.rule annotatedStatement, .rule additionalStatement, .rule multilineStatements,
      .rule inlineStatements] ++ statementTails
  | additionalStatement | statement => statementTails
  | onClause | selectClause => [.rule matchHandler]
  | mainClause | flowControl => .rule matchHandler :: expressionTails
  | returnClause | throwClause | letClause | repositoryAccess | checkoutClause | atLevel
  | saveClause | discardClause | notarizeClause | messageHandling | postClause | retrieveClause
  | acceptClause | rejectClause | publishClause | expression | additionalArgument
  | additionalIndex => expressionTails
  | arguments => .rule additionalArgument :: expressionTails
  | indices => .rule additionalIndex :: expressionTails
  | predicate | subject | referent | inversion | complement => subjectTails
  | target | recipient | variableTarget => nameTails
  | noValues => [.rule multilineValues, .rule inlineValues]
  | noStatements => [.rule multilineStatements, .rule inlineStatements]
  | _ => []

end Rule

/-- Whether a tail is not there as soon as the token at its head is not. -/
def Tail.isSeen : Tail → Bool
  | word _ => true
  | rule next => next.isDirect || next = .annotatedStatement

/-- Whether none of some tails comes right behind a part: what follows begins no tail, and where
nothing may follow, the tail comes behind the whole. -/
def bars (outer inner : List Tail) (leads : List Lead) (mayBeEmpty : Bool) : Bool :=
  inner.all fun tail =>
    tail.isSeen && (Lead.kind .newline :: Lead.kind .delimiter :: tail.leads).all (!leads.contains ·) &&
      (!mayBeEmpty || outer.contains tail)

/-- Whether nodes of a rule may come one after another: none begins with what could go on with the
one before it. A line of a list that begins with a round bracket holds a range. -/
def Rule.comesAgain (rule : Rule) : Bool :=
  (bars [] rule.tails rule.leads false || rule = .annotatedValue) && !rule.mayBeEmpty

/-- Whether nothing that could go on with a part of a sequence comes behind it, with so many
brackets open before and none at the end. -/
def partsEnd (tails : List Tail) : Nat → List Part → Bool
  | depth, [] => depth = 0
  | depth, part :: parts =>
    let mayBeEmpty := parts.all Part.mayBeEmpty
    let ends inner := bars tails inner (leadsOf Rule.leads parts) mayBeEmpty &&
      (!mayBeEmpty || depth = 0)
    match part with
    | .keyword text | .delimiter text => (bracketsBehind text depth).any (partsEnd tails · parts)
    | .choice _ options =>
      (options.delimiters.head?.bind (bracketsBehind · depth)).any fun behind =>
        options.delimiters.all (bracketsBehind · depth = some behind) && partsEnd tails behind parts
    | .newline | .token _ _ | .commit => partsEnd tails depth parts
    | .child _ rule => ends rule.tails && partsEnd tails depth parts
    | .optional _ rule => ends (.rule rule :: rule.tails) && partsEnd tails depth parts
    | .many _ rule | .some _ rule =>
      rule.comesAgain && ends (.rule rule :: rule.tails) && partsEnd tails depth parts
    | .optionalToken _ _ | .line _ _ => false

/-- The sequences in which a line ends behind something that could go on. -/
def Rule.endsAmidst (rule : Rule) : Bool :=
  [document, annotatedAssociation, annotatedValue, statementLine].contains rule

/-- Whether nothing that could go on with a part of a form comes behind it. -/
def Form.partsEnd (tails : List Tail) : Form → Bool
  | sequence _ parts => DocumentLanguage.partsEnd tails 0 parts
  | literal _ => true
  | oneOf rules => rules.all fun rule => rule.tails.all tails.contains

theorem Rule.partsEnd_form (rule : Rule) (hRule : rule.endsAmidst = false) :
    rule.form.partsEnd rule.tails = true := by
  revert hRule
  cases rule <;> decide

end DocumentLanguage
