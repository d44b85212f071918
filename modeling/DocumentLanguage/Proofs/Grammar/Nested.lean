import DocumentLanguage.Proofs.Tree.Children

/-! The rules that a node's children may have, by the form of its rule. -/
namespace DocumentLanguage

/-- The rule of the nodes that a part keeps, if it keeps any. -/
def Part.rule? : Part → Option Rule
  | child _ rule | line _ rule | optional _ rule | many _ rule | some _ rule => Option.some rule
  | keyword _ | delimiter _ | newline | choice _ _ | token _ _ | optionalToken _ _ | commit => none

/-- The rules of the nodes right below a node of a form. -/
def Form.rules : Form → List Rule
  | literal _ => []
  | oneOf rules => rules
  | sequence _ parts => parts.filterMap Part.rule?

theorem Trees.rule_of_mem_asNodes {rule : Rule} {trees : Trees rule} :
    ∀ node ∈ trees.asNodes, node.rule = rule := by
  intro node hNode
  obtain ⟨tree, -, rfl⟩ := List.mem_map.mp hNode
  rfl

/-- The nodes that fields keep have rules that their parts ask for. -/
theorem Fields.rule_mem (parts : List Part) (fields : Fields (fieldsOf parts)) :
    ∀ child ∈ fields.stored.flatMap Stored.nodes, child.rule ∈ parts.filterMap Part.rule? := by
  induction parts with
  | nil =>
      cases fields
      simp [Fields.stored]
  | cons part parts ih =>
      intro node hNode
      cases part with
      | keyword | delimiter | newline | commit => exact ih fields node hNode
      | choice | token =>
          cases fields with
          | text kept rest => exact ih rest node hNode
      | optionalToken =>
          cases fields with
          | optionalText kept rest => exact ih rest node hNode
      | child label rule | line label rule =>
          cases fields with
          | child tree rest =>
              rcases List.mem_cons.mp hNode with rfl | hRest
              · exact List.mem_cons_self
              · exact List.mem_cons_of_mem _ (ih rest node hRest)
      | optional label rule =>
          cases fields with
          | absent rest => exact List.mem_cons_of_mem _ (ih rest node hNode)
          | present tree rest =>
              rcases List.mem_cons.mp hNode with rfl | hRest
              · exact List.mem_cons_self
              · exact List.mem_cons_of_mem _ (ih rest node hRest)
      | many label rule | some label rule =>
          cases fields with
          | many trees rest =>
              rcases List.mem_append.mp hNode with hHere | hRest
              · rw [Trees.rule_of_mem_asNodes node hHere]
                exact List.mem_cons_self
              · exact List.mem_cons_of_mem _ (ih rest node hRest)

/-- Children have the rules that the form of their node names. -/
theorem Content.rule_mem {form : Form} (content : Content form) :
    ∀ child ∈ content.children, child.rule ∈ form.rules := by
  cases content with
  | literal => simp [children]
  | oneOf rule allowed tree =>
      intro child hChild
      rw [List.mem_singleton.mp hChild]
      exact allowed
  | sequence fields => exact Fields.rule_mem _ fields

/-- No node is above a document, because no form names its rule. -/
theorem Rule.document_not_mem (rule : Rule) : document ∉ rule.form.rules := by
  cases rule <;> decide

end DocumentLanguage
