import DocumentLanguage.Decimal.Number
import DocumentLanguage.Text.Basic
import DocumentLanguage.Tree.Basic

/-! How much collections and procedures hold. -/
namespace DocumentLanguage

/-- The whole number of a text: ASCII digits with at most one sign before them. -/
def wholeNumber? (text : String) : Option Int :=
  match text.toList with
  | '-' :: digits => (Text.number? 10 digits).map fun value => -(value : Int)
  | '+' :: digits => (Text.number? 10 digits).map Int.ofNat
  | digits => (Text.number? 10 digits).map Int.ofNat

/-- The whole number a range may end with: a number element of at most 64 bits. -/
def Primitive.integer? : Tree .primitive → Option Int
  | .mk (.oneOf .element _ (.mk (.literal .number text))) =>
    (wholeNumber? text).filter Decimal.fitsSigned
  | _ => none

namespace Range

def left : Tree .range → String
  | .mk (.sequence (.text left _)) => left

def first : Tree .range → Tree .primitive
  | .mk (.sequence (.text _ (.child first _))) => first

def last : Tree .range → Tree .primitive
  | .mk (.sequence (.text _ (.child _ (.child last _)))) => last

def right : Tree .range → String
  | .mk (.sequence (.text _ (.child _ (.child _ (.text right .nil))))) => right

/-- The number of whole numbers in a range between two of them. A round bracket leaves out the
end beside it. A number that needs more than 64 bits is not given. -/
def size (range : Tree .range) : Option Nat := do
  let first ← Primitive.integer? (first range)
  let last ← Primitive.integer? (last range)
  let low := if left range = "(" then first + 1 else first
  let high := if right range = ")" then last - 1 else last
  let count := (high - low + 1).toNat
  if Decimal.fitsUnsigned count then some count else none

end Range

namespace Associations

def toList : Tree .associations → List (Tree .association)
  | .mk (.oneOf .multilineAssociations _ (.mk (.sequence (.many lines .nil)))) =>
    lines.toList.map fun
      | .mk (.sequence (.child association _)) => association
  | .mk (.oneOf .inlineAssociations _ (.mk (.sequence (.child first (.many rest .nil))))) =>
    first :: rest.toList.map fun
      | .mk (.sequence (.child association .nil)) => association
  | _ => []

/-- The number of associations. -/
def length (associations : Tree .associations) : Nat :=
  (toList associations).length

end Associations

namespace Association

def key : Tree .association → Tree .primitive
  | .mk (.sequence (.child key _)) => key

end Association

/-- The text of a key or of an end of a range. -/
def Primitive.text : Tree .primitive → String
  | .mk (.oneOf .element _ (.mk (.literal _ text))) => text
  | .mk (.oneOf .string _ (.mk (.literal _ text))) => text
  | _ => ""

namespace Values

def toList : Tree .values → List (Tree .component)
  | .mk (.oneOf .multilineValues _ (.mk (.sequence (.many lines .nil)))) =>
    lines.toList.map fun
      | .mk (.sequence (.child value _)) => value
  | .mk (.oneOf .inlineValues _ (.mk (.sequence (.child first (.many rest .nil))))) =>
    first :: rest.toList.map fun
      | .mk (.sequence (.child value .nil)) => value
  | _ => []

/-- The number of values. -/
def length (values : Tree .values) : Nat :=
  (toList values).length

end Values

namespace Statements

/-- The number of statements. Comment lines do not count. -/
def length : Tree .statements → Nat
  | .mk (.oneOf .multilineStatements _ (.mk (.sequence (.many lines .nil)))) =>
    lines.toList.countP fun
      | .mk (.oneOf .statementLine _ _) => true
      | _ => false
  | .mk (.oneOf .inlineStatements _ (.mk (.sequence (.child _ (.many rest .nil))))) =>
    rest.length + 1
  | _ => 0

end Statements

def Entity.rule : Tree .entity → Rule
  | .mk (.oneOf rule _ _) => rule

/-- The number of items of a collection: whole numbers of a range, associations of a catalog,
values of a list. -/
def Collection.size : Tree .collection → Option Nat
  | .mk (.oneOf .range _ range) => Range.size range
  | .mk (.oneOf .catalog _ (.mk (.sequence (.child associations .nil)))) =>
    some (Associations.length associations)
  | .mk (.oneOf .list _ (.mk (.sequence (.child values .nil)))) => some (Values.length values)
  | _ => none

def Collection.rule : Tree .collection → Rule
  | .mk (.oneOf rule _ _) => rule

mutual

/-- A node and all below it, each before what it holds. -/
def Tree.nodes : {rule : Rule} → Tree rule → List Node
  | rule, .mk content => ⟨rule, .mk content⟩ :: content.nodes

def Content.nodes : {form : Form} → Content form → List Node
  | _, .literal _ _ => []
  | _, .oneOf _ _ tree => tree.nodes
  | _, .sequence fields => fields.nodes

def Fields.nodes : {fields : List Field} → Fields fields → List Node
  | _, .nil => []
  | _, .text _ rest | _, .optionalText _ rest | _, .absent rest => rest.nodes
  | _, .child tree rest | _, .present tree rest => tree.nodes ++ rest.nodes
  | _, .many trees rest => trees.nodes ++ rest.nodes

def Trees.nodes : {rule : Rule} → Trees rule → List Node
  | _, .nil => []
  | _, .cons tree trees => tree.nodes ++ trees.nodes

end

/-- What a container of a tree holds. -/
inductive Container
  | collection (rule : Rule) (size : Option Nat)
  | associations (keys : List String)
  | values (entities : List Rule)
  | statements (length : Nat)
deriving DecidableEq, Repr

/-- The container a node is, if it is one. -/
def Node.container? : Node → Option Container
  | ⟨.collection, tree⟩ => some (.collection (Collection.rule tree) (Collection.size tree))
  | ⟨.associations, tree⟩ =>
    some (.associations ((Associations.toList tree).map fun association =>
      Primitive.text (Association.key association)))
  | ⟨.values, tree⟩ =>
    some (.values ((Values.toList tree).map fun value => Entity.rule (Component.entity value)))
  | ⟨.statements, tree⟩ => some (.statements (Statements.length tree))
  | _ => none

/-- The containers of a tree, each before those in it. -/
def Tree.containers {rule : Rule} (tree : Tree rule) : List Container :=
  tree.nodes.filterMap Node.container?

end DocumentLanguage
