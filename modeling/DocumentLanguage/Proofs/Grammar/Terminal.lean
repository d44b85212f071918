import DocumentLanguage.Proofs.Tree.Children
import DocumentLanguage.Text.Indentation
import DocumentLanguage.Token.Basic

/-!
The terminals of a tree, in the order in which its rules bring them: the fixed delimiters and
newlines of a sequence between what its fields hold.
-/
namespace DocumentLanguage

/-- What a tree says about one token of its source. -/
inductive Terminal
  /-- A token with this text. -/
  | verbatim (kind : Kind) (text : String)
  /-- A token with this text but for its indentation. -/
  | dedented (kind : Kind) (text : String)
  /-- Some newline. -/
  | newline
deriving DecidableEq, Repr

namespace Terminal

def kept (kind : Kind) (text : String) : Terminal :=
  if kind = .comment then dedented kind text else verbatim kind text

def reads : Terminal → Token → Prop
  | verbatim kind text, token => token.kind = kind ∧ token.text = text
  | dedented kind text, token => token.kind = kind ∧ Text.dedent token.text = text
  | newline, token => token.kind = .newline

end Terminal

def Part.fixed? : Part → Option (List Terminal)
  | .keyword text | .delimiter text => Option.some [.verbatim .delimiter text]
  | .newline => Option.some [.newline]
  | .commit => Option.some []
  | _ => none

/-- The terminals of the parts of a sequence, given those of what it keeps. -/
def weave : List Part → List (List Terminal) → List Terminal
  | [], _ => []
  | part :: parts, marks =>
    match part.fixed?, marks with
    | some terminals, marks => terminals ++ weave parts marks
    | none, mark :: marks => mark ++ weave parts marks
    | none, [] => weave parts []

mutual

def Tree.terminals : {rule : Rule} → Tree rule → List Terminal
  | _, .mk content => content.terminals

def Content.terminals : {form : Form} → Content form → List Terminal
  | _, .literal kind text => [.dedented kind text]
  | _, .oneOf _ _ tree => tree.terminals
  | _, @Content.sequence _ parts fields => weave parts fields.marks

def Fields.marks : {fields : List Field} → Fields fields → List (List Terminal)
  | _, .nil => []
  | _, @Fields.text _ kind _ kept rest => [.kept kind kept] :: rest.marks
  | _, @Fields.optionalText _ kind _ kept rest =>
    (kept.map (Terminal.kept kind)).toList :: rest.marks
  | _, .child tree rest | _, .present tree rest => tree.terminals :: rest.marks
  | _, .absent rest => [] :: rest.marks
  | _, .many trees rest => trees.terminals :: rest.marks

def Trees.terminals : {rule : Rule} → Trees rule → List Terminal
  | _, .nil => []
  | _, .cons tree trees => tree.terminals ++ trees.terminals

end

/-- Whether what is kept passes a test, part by part. -/
def aligned (test : Part → Stored → Bool) : List Part → List Stored → Bool
  | [], _ => true
  | part :: parts, stored =>
    match part.fixed?, stored with
    | some _, stored => aligned test parts stored
    | none, place :: stored => test part place && aligned test parts stored
    | none, [] => aligned test parts []

/-- Whether a part allows what is kept for it. -/
def Part.admits : Part → Stored → Bool
  | .choice _ options, .text _ text => options.delimiters.contains text
  | .some _ _, .many nodes => !nodes.isEmpty
  | _, _ => true

/-- Whether a content is as its form asks: one of the kinds of a literal, one of the delimiters of
a choice, at least one node where that is asked for. -/
def Content.made : {form : Form} → Content form → Bool
  | .literal kinds, .literal kind _ => kinds.contains kind
  | .oneOf _, _ => true
  | .sequence _ parts, .sequence fields => aligned Part.admits parts fields.stored

/-- Whether all nodes of a tree are as their rules ask. -/
def Tree.Made {rule : Rule} (tree : Tree rule) : Prop :=
  ∀ node ∈ tree.nodes, node.tree.content.made = true

theorem Tree.made_mk {rule : Rule} {content : Content rule.form} :
    (Tree.mk content).Made ↔
      content.made = true ∧ ∀ child ∈ content.children, child.tree.Made :=
  Tree.forall_nodes_mk

def Stored.terminals : Stored → List Terminal
  | text kind kept => [.kept kind kept]
  | optionalText kind kept => (kept.map (Terminal.kept kind)).toList
  | child node => node.tree.terminals
  | optional node => node.toList.flatMap (·.tree.terminals)
  | many nodes => nodes.flatMap (·.tree.terminals)

theorem Trees.terminals_eq {rule : Rule} : (trees : Trees rule) →
    trees.terminals = trees.asNodes.flatMap (·.tree.terminals)
  | .nil => rfl
  | .cons tree trees => by simp [Trees.terminals, trees.terminals_eq]

/-- The terminals of fields are those of what they keep. -/
theorem Fields.marks_eq {fields : List Field} (kept : Fields fields) :
    kept.marks = kept.stored.map Stored.terminals := by
  cases kept with
  | nil => rfl
  | text _ rest | optionalText _ rest | absent rest | child _ rest | present _ rest =>
      simp [Fields.marks, Fields.stored, Stored.terminals, rest.marks_eq]
  | many trees rest =>
      simp [Fields.marks, Fields.stored, Stored.terminals, rest.marks_eq, trees.terminals_eq]

end DocumentLanguage
