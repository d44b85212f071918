import DocumentLanguage.Text.Indentation
import DocumentLanguage.Tree.Walk

/-!
The canonical text of a tree. It depends on nothing but the tree: single spaces between words
and operands, every item of a container that spans lines on a line of its own and one level
deeper than the container, and no line feed at the end.
-/
namespace DocumentLanguage

/-- Whether the field at an index is there. Only optional fields can be missing. -/
def Fields.holds : {fields : List Field} → Fields fields → Nat → Bool
  | _, .nil, _ => false
  | _, .absent _, 0 => false
  | _, .optionalText none _, 0 => false
  | _, _, 0 => true
  | _, .text _ rest, index + 1 | _, .optionalText _ rest, index + 1
  | _, .child _ rest, index + 1 | _, .absent rest, index + 1 | _, .present _ rest, index + 1
  | _, .many _ rest, index + 1 => rest.holds index

/-- Whether the field at an index of a content is there. -/
def Content.holds {form : Form} : Content form → Nat → Bool
  | .sequence fields, index => fields.holds index
  | _, _ => false

/-- The text of the element that a subject consists of, if it is nothing else. Parameters do not
count. -/
def Subject.element? : Tree .subject → Option String
  | .mk (.oneOf .component _ (.mk (.sequence (.child
      (.mk (.oneOf .element _ (.mk (.literal _ text)))) _)))) => some text
  | _ => none

/-- Whether a sign must keep its distance from what it inverts: before a digit it would be read
as part of the number. -/
def Inversion.needsSpace : Tree .inversion → Bool
  | .mk (.sequence (.text _ (.child subject .nil))) =>
    (Subject.element? subject).any fun text => text.toList.head?.any Char.isDigit

namespace Canonical

/-- A text in the making and the depth at which its next line begins. -/
structure Page where
  text : String := ""
  depth : Nat := 0
deriving DecidableEq, Repr

def Page.write (page : Page) (text : String) : Page :=
  { page with text := page.text ++ text }

def Page.newLine (page : Page) : Page :=
  page.write (String.ofList ('\n' :: List.replicate (page.depth * Text.indentationWidth) ' '))

/-- Whether a rule puts its items on lines of their own. -/
def spansLines : Rule → Bool
  | .multilineAssociations | .multilineValues | .multilineStatements => true
  | _ => false

def hasLine : Rule → Bool
  | .annotatedAssociation | .annotatedValue | .annotatedStatement => true
  | _ => false

def opening : Rule → String
  | .catalog | .list => "["
  | .parameters | .precedence => "("
  | .procedure => "\x7b"
  | .noAssociations => ":"
  | .noValues | .noStatements | .inlineStatements | .predicate => " "
  | .additionalAssociation | .additionalValue | .additionalArgument | .additionalIndex => ", "
  | .additionalStatement => "; "
  | .onClause => "on "
  | .matchHandler => " matching "
  | .ifClause => "if "
  | .selectClause => "select "
  | .whileClause => "while "
  | .withClause => "with each "
  | .continueClause => "continue loop"
  | .breakClause => "break loop"
  | .returnClause => "return "
  | .throwClause => "throw "
  | .letClause => "let "
  | .checkoutClause => "checkout "
  | .atLevel => "at level "
  | .saveClause => "save "
  | .discardClause => "discard "
  | .notarizeClause => "notarize "
  | .postClause => "post "
  | .retrieveClause => "retrieve "
  | .acceptClause => "accept "
  | .rejectClause => "reject "
  | .publishClause => "publish "
  | .referent => "@"
  | .magnitude => "|"
  | .complement => "not "
  | _ => ""

/-- What is written between two fields of a rule where nothing depends on the node. -/
def separator : Rule → Nat → String
  | .range, 2 => ".."
  | .association, 1 => ": "
  | .matchHandler, 1 | .ifClause, 1 | .whileClause, 1 | .withClause, 2 => " do "
  | .withClause, 1 => " in "
  | .letClause, _ | .predicate, 1 => " "
  | .checkoutClause, 2 | .retrieveClause, 1 => " from "
  | .saveClause, 1 | .notarizeClause, 1 => " as "
  | .postClause, 1 => " to "
  | .function, 1 | .method, 3 => "("
  | .attributeTarget, 1 => "["
  | _, _ => ""

/-- What is written between two fields only where the optional one of them is there: the rule,
the place, the index of that field and the text. -/
def optionalSeparator? : Rule → Nat → Option (Nat × String)
  | .document, 1 => some (0, "\n")
  | .annotatedAssociation, 1 | .annotatedValue, 1 | .statementLine, 1 => some (1, "  ")
  | .statement, 1 | .checkoutClause, 1 => some (1, " ")
  | _, _ => none

def between (node : Node) (place : Nat) : String :=
  match node, place with
  | ⟨.inversion, inversion⟩, 1 => if Inversion.needsSpace inversion then " " else ""
  | ⟨rule, tree⟩, place =>
    match optionalSeparator? rule place with
    | some (index, text) => if tree.content.holds index then text else ""
    | none => separator rule place

def closing : Rule → String
  | .catalog | .list | .attributeTarget => "]"
  | .parameters | .precedence | .function | .method => ")"
  | .procedure => "\x7d"
  | .inlineStatements => " "
  | .magnitude => "|"
  | _ => ""

def Page.enter (page : Page) (rule : Rule) : Page :=
  if spansLines rule then { page with depth := page.depth + 1 }
  else if hasLine rule then page.newLine
  else page.write (opening rule)

def Page.leave (page : Page) (rule : Rule) : Page :=
  if spansLines rule then { page with depth := page.depth - 1 : Page }.newLine
  else page.write (closing rule)

/-- Writes a tree on a page. A literal that spans lines is indented as deep as the page is. -/
def writer : Processor Page Empty where
  enter node _ _ := modify (·.enter node.rule)
  slot node place := modify (·.write (between node place))
  leave node _ _ := modify (·.leave node.rule)
  token _ text := modify fun page => page.write (Text.indent text page.depth)

end Canonical

/-- The canonical text of a tree. -/
def Tree.canonical {rule : Rule} (tree : Tree rule) (index : Nat := 0) (size : Nat := 1) :
    String :=
  (tree.process Canonical.writer {} index size).2.text

end DocumentLanguage
