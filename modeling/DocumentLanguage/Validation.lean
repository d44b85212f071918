import DocumentLanguage.Grammar.Production
import DocumentLanguage.Token.Scan
import DocumentLanguage.Tree.Walk

/-!
Whether the tokens of a tree could have come from a source. A tree that was read always
satisfies this; one that was built or loaded need not, and its canonical text would then be read
back as something else.
-/
namespace DocumentLanguage

/-- What is wrong with a token of a tree. -/
inductive Inconsistency
  /-- The rule of the node never yields this kind. -/
  | unexpectedKind (rule : Rule) (kind : Kind)
  /-- The text does not look like its kind. -/
  | malformed (kind : Kind) (text : String)
  /-- By itself the text is scanned as another kind, or as no single token. -/
  | misread (kind : Kind) (text : String) (found : Option Kind)
  /-- The delimiter is none of those to choose from. -/
  | notAChoice (choice : Choice) (text : String)
deriving DecidableEq, Repr

namespace Inconsistency

def message : Inconsistency → String
  | unexpectedKind rule kind =>
    "A " ++ rule.name ++ " node cannot hold a token of kind " ++ kind.name
  | malformed kind text =>
    "The value " ++ Text.quoted text ++ " is not a valid " ++ kind.name ++ " token"
  | misread kind text (some found) =>
    "The value " ++ Text.quoted text ++ " is scanned as " ++ found.name ++ ", not " ++ kind.name
  | misread kind text none =>
    "The value " ++ Text.quoted text ++ " is not a single " ++ kind.name ++ " token"
  | notAChoice choice text =>
    "The delimiter " ++ Text.quoted text ++ " is not a valid " ++ choice.name

end Inconsistency

namespace Validator

/-- A node being walked, and the last place passed in it. -/
structure Frame where
  rule : Rule
  place : Nat
deriving DecidableEq, Repr

/-- The choice that a delimiter met in a frame was made in. -/
def Frame.choice? (frame : Frame) : Option Choice :=
  match frame.rule, frame.place with
  | .predicate, _ => some .operator
  | .inversion, _ => some .inverse
  | .letClause, _ => some .assign
  | .method, _ => some .invoke
  | .range, 0 => some .leftBracket
  | .range, _ => some .rightBracket
  | _, _ => none

def allows : Rule → Kind → Bool
  | .element, kind => kind.isElement
  | .string, kind => kind.isString
  | _, _ => true

/-- The first thing that is wrong with a token in a frame. -/
def check? (frame : Option Frame) (kind : Kind) (text : String) : Option Inconsistency :=
  match frame.filter fun frame => !allows frame.rule kind with
  | some frame => some (.unexpectedKind frame.rule kind)
  | none =>
    if !kind.accepts text then some (.malformed kind text)
    else if soleKind? text ≠ some kind then some (.misread kind text (soleKind? text))
    else if kind = .delimiter then
      match frame.bind Frame.choice? with
      | some choice =>
        if (choices choice.name).contains text then none else some (.notAChoice choice text)
      | none => none
    else none

def passPlace (place : Nat) : List Frame → List Frame
  | [] => []
  | frame :: frames => { frame with place := place } :: frames

/-- Checks every token of a tree. Of the nodes being walked the innermost comes first. -/
def checker : Processor (List Frame) Inconsistency where
  enter node _ _ := modify (⟨node.rule, 0⟩ :: ·)
  slot _ place := modify (passPlace place)
  leave _ _ _ := modify List.tail
  token kind text := do
    match check? (← get).head? kind text with
    | some inconsistency => throw inconsistency
    | none => pure ()

end Validator

/-- Check every token of a tree, and stop at the first that is wrong. -/
def Tree.validate {rule : Rule} (tree : Tree rule) (index : Nat := 0) (size : Nat := 1) :
    Except Inconsistency Unit :=
  (tree.process Validator.checker [] index size).1

end DocumentLanguage
