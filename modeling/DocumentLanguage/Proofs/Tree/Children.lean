import DocumentLanguage.Tree.Size

/-!
What a node keeps, as a plain list, and induction over trees: what holds of a node whenever it
holds of its children holds of every node.
-/
namespace DocumentLanguage

/-- What a node keeps in one place. -/
inductive Stored
  | text (kind : Kind) (text : String)
  | optionalText (kind : Kind) (text : Option String)
  | child (node : Node)
  | optional (node : Option Node)
  | many (nodes : List Node)

def Stored.nodes : Stored → List Node
  | text _ _ | optionalText _ _ => []
  | child node => [node]
  | optional node => node.toList
  | many nodes => nodes

def Trees.asNodes {rule : Rule} (trees : Trees rule) : List Node :=
  trees.toList.map (⟨rule, ·⟩)

@[simp] theorem Trees.asNodes_nil {rule : Rule} : (nil : Trees rule).asNodes = [] := rfl

@[simp] theorem Trees.asNodes_cons {rule : Rule} (tree : Tree rule) (trees : Trees rule) :
    (cons tree trees).asNodes = ⟨rule, tree⟩ :: trees.asNodes := rfl

@[simp] theorem Trees.length_asNodes {rule : Rule} (trees : Trees rule) :
    trees.asNodes.length = trees.length := by
  simp [Trees.asNodes]

def Fields.stored : {fields : List Field} → Fields fields → List Stored
  | _, .nil => []
  | _, @Fields.text _ kind _ kept rest => .text kind kept :: rest.stored
  | _, @Fields.optionalText _ kind _ kept rest => .optionalText kind kept :: rest.stored
  | _, @Fields.child _ rule _ tree rest => .child ⟨rule, tree⟩ :: rest.stored
  | _, .absent rest => .optional none :: rest.stored
  | _, @Fields.present _ rule _ tree rest => .optional (some ⟨rule, tree⟩) :: rest.stored
  | _, .many trees rest => .many trees.asNodes :: rest.stored

/-- A token that a node keeps at a place. -/
structure KeptToken where
  place : Nat
  kind : Kind
  text : String

def tokensFrom : Nat → List Stored → List KeptToken
  | _, [] => []
  | place, .text kind text :: rest => ⟨place, kind, text⟩ :: tokensFrom (place + 1) rest
  | place, .optionalText kind (some text) :: rest =>
    ⟨place, kind, text⟩ :: tokensFrom (place + 1) rest
  | place, _ :: rest => tokensFrom (place + 1) rest

def Content.tokens : {form : Form} → Content form → List KeptToken
  | _, .literal kind text => [⟨0, kind, text⟩]
  | _, .oneOf _ _ _ => []
  | _, .sequence fields => tokensFrom 0 fields.stored

def Content.children : {form : Form} → Content form → List Node
  | _, .literal _ _ => []
  | _, .oneOf rule _ tree => [⟨rule, tree⟩]
  | _, .sequence fields => fields.stored.flatMap Stored.nodes

section

variable {motive : (rule : Rule) → Tree rule → Prop}

mutual

/-- What passes from the children of every node to the node itself holds of a whole tree. The four
recursions follow the four types of which a tree is made. -/
theorem Tree.induct_aux
    (step : ∀ (rule : Rule) (content : Content rule.form),
      (∀ child ∈ content.children, motive child.rule child.tree) → motive rule (.mk content)) :
    {rule : Rule} → (tree : Tree rule) → motive rule tree
  | rule, .mk content => step rule content (Content.induct_aux step content)

theorem Content.induct_aux
    (step : ∀ (rule : Rule) (content : Content rule.form),
      (∀ child ∈ content.children, motive child.rule child.tree) → motive rule (.mk content)) :
    {form : Form} → (content : Content form) →
      ∀ child ∈ content.children, motive child.rule child.tree
  | _, .literal _ _ => fun child hChild => by cases hChild
  | _, .oneOf _ _ tree => fun child hChild => by
      rw [List.mem_singleton.mp hChild]
      exact Tree.induct_aux step tree
  | _, .sequence fields => Fields.induct_aux step fields

theorem Fields.induct_aux
    (step : ∀ (rule : Rule) (content : Content rule.form),
      (∀ child ∈ content.children, motive child.rule child.tree) → motive rule (.mk content)) :
    {fields : List Field} → (kept : Fields fields) →
      ∀ child ∈ kept.stored.flatMap Stored.nodes, motive child.rule child.tree
  | _, .nil => fun child hChild => by cases hChild
  | _, .text _ rest => fun child hChild => Fields.induct_aux step rest child hChild
  | _, .optionalText _ rest => fun child hChild => Fields.induct_aux step rest child hChild
  | _, .absent rest => fun child hChild => Fields.induct_aux step rest child hChild
  | _, .child tree rest => fun child hChild => by
      simp only [Fields.stored, List.flatMap_cons, Stored.nodes, List.mem_append] at hChild
      rcases hChild with hHere | hRest
      · rw [List.mem_singleton.mp hHere]
        exact Tree.induct_aux step tree
      · exact Fields.induct_aux step rest child hRest
  | _, .present tree rest => fun child hChild => by
      simp only [Fields.stored, List.flatMap_cons, Stored.nodes, List.mem_append] at hChild
      rcases hChild with hHere | hRest
      · rw [List.mem_singleton.mp hHere]
        exact Tree.induct_aux step tree
      · exact Fields.induct_aux step rest child hRest
  | _, .many trees rest => fun child hChild => by
      simp only [Fields.stored, List.flatMap_cons, Stored.nodes, List.mem_append] at hChild
      rcases hChild with hHere | hRest
      · exact Trees.induct_aux step trees child hHere
      · exact Fields.induct_aux step rest child hRest

theorem Trees.induct_aux
    (step : ∀ (rule : Rule) (content : Content rule.form),
      (∀ child ∈ content.children, motive child.rule child.tree) → motive rule (.mk content)) :
    {rule : Rule} → (trees : Trees rule) →
      ∀ child ∈ trees.asNodes, motive child.rule child.tree
  | _, .nil => fun child hChild => by cases hChild
  | _, .cons tree trees => fun child hChild => by
      rcases List.mem_cons.mp hChild with rfl | hRest
      · exact Tree.induct_aux step tree
      · exact Trees.induct_aux step trees child hRest

end

/-- What every node has once all nodes right below it have it. -/
theorem Tree.induct
    (step : ∀ (rule : Rule) (content : Content rule.form),
      (∀ child ∈ content.children, motive child.rule child.tree) → motive rule (.mk content))
    {rule : Rule} (tree : Tree rule) : motive rule tree :=
  Tree.induct_aux step tree

end

/-- The nodes of a run of trees are those of each, in the order of the trees. -/
theorem Trees.nodes_eq {rule : Rule} : (trees : Trees rule) →
    trees.nodes = trees.asNodes.flatMap (·.tree.nodes)
  | .nil => rfl
  | .cons tree trees => by simp [Trees.nodes, trees.nodes_eq]

/-- The nodes of the fields of a node are those of its children, in the order of the fields. -/
theorem Fields.nodes_eq {fields : List Field} : (kept : Fields fields) →
    kept.nodes = (kept.stored.flatMap Stored.nodes).flatMap (·.tree.nodes)
  | .nil => rfl
  | .text _ rest | .optionalText _ rest | .absent rest => by
      simpa [Fields.nodes, Fields.stored, Stored.nodes] using rest.nodes_eq
  | .child tree rest | .present tree rest => by
      simp [Fields.nodes, Fields.stored, Stored.nodes, rest.nodes_eq]
  | .many trees rest => by
      simp [Fields.nodes, Fields.stored, Stored.nodes, rest.nodes_eq, trees.nodes_eq]

/-- The nodes below a content are those of the nodes right below it. -/
theorem Content.nodes_eq : {form : Form} → (content : Content form) →
    content.nodes = content.children.flatMap (·.tree.nodes)
  | _, .literal _ _ => rfl
  | _, .oneOf _ _ tree => by simp [Content.nodes, Content.children]
  | _, .sequence fields => fields.nodes_eq

/-- What holds of all nodes of a tree holds of its root and of all nodes of its children. -/
theorem Tree.forall_nodes_mk {rule : Rule} {content : Content rule.form} {property : Node → Prop} :
    (∀ node ∈ (Tree.mk content).nodes, property node) ↔
      property ⟨rule, .mk content⟩ ∧
        ∀ child ∈ content.children, ∀ node ∈ child.tree.nodes, property node := by
  simp only [Tree.nodes, List.mem_cons, forall_eq_or_imp, content.nodes_eq, List.mem_flatMap]
  grind

end DocumentLanguage
