import DocumentLanguage.Grammar.Form

/-!
Trees of the grammar. A tree is indexed by the rule it belongs to, and its content by the form
of that rule, so that a node can only hold what its rule allows. The one liberty is that a
literal may carry any kind and any field any text: trees need not come from a source.
-/
namespace DocumentLanguage

mutual

/-- A node of the tree. -/
inductive Tree : Rule → Type
  | mk {rule : Rule} (content : Content rule.form) : Tree rule

/-- What a node holds, by the form of its rule. -/
inductive Content : Form → Type
  | literal {kinds : List Kind} (kind : Kind) (text : String) : Content (.literal kinds)
  | oneOf {rules : List Rule} (rule : Rule) (allowed : rule ∈ rules) (tree : Tree rule) :
      Content (.oneOf rules)
  | sequence {standing : Standing} {parts : List Part} (fields : Fields (fieldsOf parts)) :
      Content (.sequence standing parts)

/-- The fields of a sequence, in order. -/
inductive Fields : List Field → Type
  | nil : Fields []
  | text {label : String} {kind : Kind} {rest : List Field} (text : String)
      (fields : Fields rest) : Fields (⟨label, .text kind⟩ :: rest)
  | optionalText {label : String} {kind : Kind} {rest : List Field} (text : Option String)
      (fields : Fields rest) : Fields (⟨label, .optionalText kind⟩ :: rest)
  | child {label : String} {rule : Rule} {rest : List Field} (tree : Tree rule)
      (fields : Fields rest) : Fields (⟨label, .child rule⟩ :: rest)
  | absent {label : String} {rule : Rule} {rest : List Field} (fields : Fields rest) :
      Fields (⟨label, .optional rule⟩ :: rest)
  | present {label : String} {rule : Rule} {rest : List Field} (tree : Tree rule)
      (fields : Fields rest) : Fields (⟨label, .optional rule⟩ :: rest)
  | many {label : String} {rule : Rule} {rest : List Field} (trees : Trees rule)
      (fields : Fields rest) : Fields (⟨label, .many rule⟩ :: rest)

/-- Any number of nodes of one rule. -/
inductive Trees : Rule → Type
  | nil {rule : Rule} : Trees rule
  | cons {rule : Rule} (tree : Tree rule) (trees : Trees rule) : Trees rule

end

namespace Trees

def toList {rule : Rule} : Trees rule → List (Tree rule)
  | nil => []
  | cons tree trees => tree :: trees.toList

def ofList {rule : Rule} : List (Tree rule) → Trees rule
  | [] => nil
  | tree :: trees => cons tree (ofList trees)

/-- The number of nodes. -/
def length {rule : Rule} : Trees rule → Nat
  | nil => 0
  | cons _ trees => trees.length + 1

@[simp] theorem toList_ofList {rule : Rule} (trees : List (Tree rule)) :
    (ofList trees).toList = trees := by
  induction trees with
  | nil => rfl
  | cons tree trees ih => simp [ofList, toList, ih]

@[simp] theorem ofList_toList {rule : Rule} : (trees : Trees rule) →
    ofList trees.toList = trees
  | nil => rfl
  | cons tree trees => by simp [toList, ofList, ofList_toList trees]

@[simp] theorem length_toList {rule : Rule} : (trees : Trees rule) →
    trees.toList.length = trees.length
  | nil => rfl
  | cons tree trees => by simp [toList, length, length_toList trees]

end Trees

/-- A whole document: perhaps a comment, and a component. -/
abbrev Document := Tree .document

/-- The comment before the component, without its indentation. -/
def Document.comment : Document → Option String
  | .mk (.sequence (.optionalText comment _)) => comment

def Document.component : Document → Tree .component
  | .mk (.sequence (.optionalText _ (.child component .nil))) => component

def Component.entity : Tree .component → Tree .entity
  | .mk (.sequence (.child entity _)) => entity

/-- A node of some rule. -/
structure Node where
  rule : Rule
  tree : Tree rule

def Tree.content {rule : Rule} : Tree rule → Content rule.form
  | .mk content => content

end DocumentLanguage
