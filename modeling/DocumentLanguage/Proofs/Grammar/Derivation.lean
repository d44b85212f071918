import DocumentLanguage.Proofs.Grammar.Kept
import DocumentLanguage.Proofs.Grammar.Production

/-!
Derivations by the catalog: what the productions say, as they are written down, about the
terminals of a tree. A tree that is as its rules ask derives its terminals.
-/
namespace DocumentLanguage

def alternatives (name : String) : List Alternative :=
  ((production? name).map alternativesOf).getD []

mutual

/-- A node derives terminals by the production of its rule. -/
inductive Tree.Derives : {rule : Rule} → Tree rule → List Terminal → Prop
  | mk {rule : Rule} {content : Content rule.form} {terminals : List Terminal}
      (derives : Content.Derives (alternatives rule.name) content terminals) :
      Tree.Derives (.mk content) terminals

/-- A content derives terminals by one of several alternatives. -/
inductive Content.Derives :
    List Alternative → {form : Form} → Content form → List Terminal → Prop
  | literal {alternatives : List Alternative} {kinds : List Kind} {kind : Kind} {text : String}
      (chosen : [⟨.kind kind.grammarName, .one⟩] ∈ alternatives) :
      Content.Derives alternatives (.literal kind text : Content (.literal kinds))
        [.dedented kind text]
  | oneOf {alternatives : List Alternative} {rules : List Rule} {rule : Rule}
      {allowed : rule ∈ rules} {tree : Tree rule} {terminals : List Terminal}
      (chosen : [⟨.rule rule.name, .one⟩] ∈ alternatives) (derives : Tree.Derives tree terminals) :
      Content.Derives alternatives (.oneOf rule allowed tree) terminals
  | sequence {alternatives : List Alternative} {standing : Standing} {parts : List Part}
      {fields : Fields (fieldsOf parts)} {items : Alternative} {terminals : List Terminal}
      (chosen : items ∈ alternatives) (derives : Fields.Derives items fields terminals) :
      Content.Derives alternatives (.sequence fields : Content (.sequence standing parts)) terminals

/-- Fields derive terminals by the items of an alternative. -/
inductive Fields.Derives : Alternative → {fields : List Field} → Fields fields →
    List Terminal → Prop
  | nil : Fields.Derives [] .nil []
  | delimiter {items : Alternative} {fields : List Field} {kept : Fields fields} {text : String}
      {terminals : List Terminal} (derives : Fields.Derives items kept terminals) :
      Fields.Derives (⟨.delimiter text, .one⟩ :: items) kept (.verbatim .delimiter text :: terminals)
  | newline {items : Alternative} {fields : List Field} {kept : Fields fields}
      {terminals : List Terminal} (derives : Fields.Derives items kept terminals) :
      Fields.Derives (⟨.kind Kind.newline.grammarName, .one⟩ :: items) kept (.newline :: terminals)
  | choice {items : Alternative} {label : String} {fields : List Field} {kept : Fields fields}
      {name text : String} {terminals : List Terminal} (chosen : text ∈ choices name)
      (derives : Fields.Derives items kept terminals) :
      Fields.Derives (⟨.rule name, .one⟩ :: items)
        (.text text kept : Fields (⟨label, .text .delimiter⟩ :: fields))
        (.verbatim .delimiter text :: terminals)
  | token {items : Alternative} {label : String} {kind : Kind} {fields : List Field}
      {kept : Fields fields} {text : String} {terminals : List Terminal}
      (derives : Fields.Derives items kept terminals) :
      Fields.Derives (⟨.kind kind.grammarName, .one⟩ :: items)
        (.text text kept : Fields (⟨label, .text kind⟩ :: fields)) (.kept kind text :: terminals)
  | optionalToken {items : Alternative} {label : String} {kind : Kind} {fields : List Field}
      {kept : Fields fields} {text : Option String} {terminals : List Terminal}
      (derives : Fields.Derives items kept terminals) :
      Fields.Derives (⟨.kind kind.grammarName, .atMostOne⟩ :: items)
        (.optionalText text kept : Fields (⟨label, .optionalText kind⟩ :: fields))
        ((text.map (Terminal.kept kind)).toList ++ terminals)
  | child {items : Alternative} {label : String} {rule : Rule} {fields : List Field}
      {tree : Tree rule} {kept : Fields fields} {first terminals : List Terminal}
      (below : Tree.Derives tree first) (derives : Fields.Derives items kept terminals) :
      Fields.Derives (⟨.rule rule.name, .one⟩ :: items)
        (.child tree kept : Fields (⟨label, .child rule⟩ :: fields)) (first ++ terminals)
  | absent {items : Alternative} {label : String} {rule : Rule} {fields : List Field}
      {kept : Fields fields} {terminals : List Terminal}
      (derives : Fields.Derives items kept terminals) :
      Fields.Derives (⟨.rule rule.name, .atMostOne⟩ :: items)
        (.absent kept : Fields (⟨label, .optional rule⟩ :: fields)) terminals
  | present {items : Alternative} {label : String} {rule : Rule} {fields : List Field}
      {tree : Tree rule} {kept : Fields fields} {first terminals : List Terminal}
      (below : Tree.Derives tree first) (derives : Fields.Derives items kept terminals) :
      Fields.Derives (⟨.rule rule.name, .atMostOne⟩ :: items)
        (.present tree kept : Fields (⟨label, .optional rule⟩ :: fields)) (first ++ terminals)
  | many {items : Alternative} {label : String} {rule : Rule} {fields : List Field}
      {trees : Trees rule} {kept : Fields fields} {first terminals : List Terminal}
      (below : Trees.Derives trees first) (derives : Fields.Derives items kept terminals) :
      Fields.Derives (⟨.rule rule.name, .many⟩ :: items)
        (.many trees kept : Fields (⟨label, .many rule⟩ :: fields)) (first ++ terminals)
  | some {items : Alternative} {label : String} {rule : Rule} {fields : List Field}
      {tree : Tree rule} {trees : Trees rule} {kept : Fields fields}
      {first terminals : List Terminal} (below : Trees.Derives (.cons tree trees) first)
      (derives : Fields.Derives items kept terminals) :
      Fields.Derives (⟨.rule rule.name, .atLeastOne⟩ :: items)
        (.many (.cons tree trees) kept : Fields (⟨label, .many rule⟩ :: fields))
        (first ++ terminals)

/-- Nodes derive their terminals one after another. -/
inductive Trees.Derives : {rule : Rule} → Trees rule → List Terminal → Prop
  | nil {rule : Rule} : Trees.Derives (.nil : Trees rule) []
  | cons {rule : Rule} {tree : Tree rule} {trees : Trees rule} {first terminals : List Terminal}
      (below : Tree.Derives tree first) (derives : Trees.Derives trees terminals) :
      Trees.Derives (.cons tree trees) (first ++ terminals)

end

/-- The item of a production that a part stands for. -/
def Part.asItem? : Part → Option Item
  | .keyword text | .delimiter text => Option.some ⟨.delimiter text, .one⟩
  | .newline => Option.some ⟨.kind Kind.newline.grammarName, .one⟩
  | .choice _ options => Option.some ⟨.rule options.name, .one⟩
  | .token _ kind => Option.some ⟨.kind kind.grammarName, .one⟩
  | .optionalToken _ kind => Option.some ⟨.kind kind.grammarName, .atMostOne⟩
  | .child _ rule | .line _ rule => Option.some ⟨.rule rule.name, .one⟩
  | .optional _ rule => Option.some ⟨.rule rule.name, .atMostOne⟩
  | .many _ rule => Option.some ⟨.rule rule.name, .many⟩
  | .some _ rule => Option.some ⟨.rule rule.name, .atLeastOne⟩
  | .commit => none

def Form.alternatives : Form → List Alternative
  | .literal kinds => kinds.map fun kind => [⟨.kind kind.grammarName, .one⟩]
  | .oneOf rules => rules.map fun rule => [⟨.rule rule.name, .one⟩]
  | .sequence _ parts => [parts.filterMap Part.asItem?]

theorem Part.item?_eq (part : Part) : part.item? = part.asItem?.map Item.text := by
  cases part <;> simp [item?, asItem?, Item.text, Symbol.text, Quantity.mark]

/-- The production of a form is written as its alternatives are, with bars between them. -/
theorem Form.production_eq (form : Form) :
    form.production = alternativesText (form.alternatives.map Alternative.text) := by
  cases form with
  | literal | oneOf =>
      simp [production, alternatives, Alternative.text, Item.text, Symbol.text, Quantity.mark,
        Function.comp_def]
  | sequence standing parts =>
      have hItems : parts.filterMap Part.item? = (parts.filterMap Part.asItem?).map Item.text := by
        rw [List.map_filterMap, funext Part.item?_eq]
      rw [production, hItems]
      simp [alternativesText, alternatives, Alternative.text]

theorem Rule.isWord_form (rule : Rule) : rule.form.alternatives ≠ [] ∧
    ∀ items ∈ rule.form.alternatives, ∀ item ∈ items, item.symbol.isWord = true := by
  cases rule <;> decide

/-- The catalog gives each rule the alternatives of its form, when its production is read again. -/
theorem alternatives_name (rule : Rule) : alternatives rule.name = rule.form.alternatives := by
  have hProduction : production? rule.name = some rule.form.production := production?_name (.rule rule)
  rw [alternatives, hProduction, Form.production_eq]
  exact alternativesOf_text rule.isWord_form.1 rule.isWord_form.2

theorem Choice.isWord_delimiters (choice : Choice) : choice.delimiters ≠ [] ∧
    ∀ text ∈ choice.delimiters, (Symbol.delimiter text).isWord = true := by
  cases choice <;> decide

/-- The catalog gives each choice the delimiters among which it is. -/
theorem choices_name (choice : Choice) : choices choice.name = choice.delimiters := by
  have hProduction : production? choice.name =
      some (alternativesText (choice.delimiters.map delimiterItem)) := production?_name (.choice choice)
  have hText : choice.delimiters.map delimiterItem =
      (choice.delimiters.map fun text => [⟨.delimiter text, .one⟩]).map Alternative.text := by
    simp [Alternative.text, Item.text, Symbol.text, Quantity.mark, Function.comp_def]
  rw [choices, hProduction, hText, Option.map_some, choicesOf, alternativesOf_text]
  · cases choice <;> rfl
  · simpa using choice.isWord_delimiters.1
  · simpa using choice.isWord_delimiters.2

/-- A run of nodes derives the terminals of all of them in a row. -/
theorem Trees.derives_terminals {rule : Rule} : (trees : Trees rule) →
    (∀ node ∈ trees.asNodes, node.tree.Derives node.tree.terminals) →
      trees.Derives trees.terminals
  | .nil, _ => .nil
  | .cons tree trees, hNodes => by
      simp only [asNodes_cons, List.mem_cons, forall_eq_or_imp] at hNodes
      exact .cons hNodes.1 (trees.derives_terminals hNodes.2)

/-- The parts of a sequence derive their terminals, part by part, with the fixed words between them.
-/
theorem Fields.derives_weave (parts : List Part) (fields : Fields (fieldsOf parts))
    (hFits : aligned Part.admits parts fields.stored = true)
    (hNodes : ∀ node ∈ fields.stored.flatMap Stored.nodes,
      node.tree.Derives node.tree.terminals) :
    fields.Derives (parts.filterMap Part.asItem?) (weave parts fields.marks) := by
  induction parts with
  | nil =>
      cases fields
      exact .nil
  | cons part parts ih =>
      obtain ⟨kept, rest, rfl⟩ := part.exists_keep fields
      rw [Part.aligned_keep, Bool.and_eq_true] at hFits
      rw [Part.nodes_keep, List.forall_mem_append] at hNodes
      rw [Part.weave_keep]
      have hRest := ih rest hFits.2 hNodes.2
      cases part with
      | keyword text | delimiter text => exact .delimiter hRest
      | newline => exact .newline hRest
      | commit => exact hRest
      | choice label options =>
          have hChosen : kept ∈ choices options.name := by
            simpa [choices_name, Part.suits] using hFits.1
          exact .choice hChosen hRest
      | token label kind => exact .token hRest
      | optionalToken label kind => exact .optionalToken hRest
      | child label rule | line label rule =>
          exact .child (hNodes.1 ⟨rule, kept⟩ List.mem_cons_self) hRest
      | optional label rule =>
          cases kept with
          | none => exact .absent hRest
          | some tree => exact .present (hNodes.1 ⟨rule, tree⟩ List.mem_cons_self) hRest
      | many label rule => exact .many (kept.derives_terminals hNodes.1) hRest
      | some label rule =>
          have hTrees := kept.derives_terminals hNodes.1
          cases kept with
          | nil => cases hFits.1
          | cons tree trees => exact .some hTrees hRest

/-- What a node holds derives its terminals by one of the alternatives of its form. -/
theorem Content.derives_terminals {form : Form} (content : Content form)
    (hMade : content.made = true)
    (hChildren : ∀ child ∈ content.children, child.tree.Derives child.tree.terminals) :
    content.Derives form.alternatives content.terminals := by
  cases content with
  | literal kind text =>
      simp only [Content.made, List.contains_eq_mem, decide_eq_true_eq] at hMade
      exact .literal (List.mem_map.mpr ⟨kind, hMade, rfl⟩)
  | oneOf rule allowed tree =>
      exact .oneOf (List.mem_map.mpr ⟨rule, allowed, rfl⟩) (hChildren _ List.mem_cons_self)
  | sequence fields =>
      exact .sequence List.mem_cons_self (Fields.derives_weave _ fields hMade hChildren)

/-- A tree that is as its rules ask is a derivation of its terminals by the catalog. -/
theorem Tree.derives_terminals {rule : Rule} (tree : Tree rule) (made : tree.Made) :
    tree.Derives tree.terminals := by
  induction tree using Tree.induct with
  | step rule content ih =>
      obtain ⟨hMade, hChildren⟩ := Tree.made_mk.mp made
      refine .mk ?_
      rw [alternatives_name]
      exact content.derives_terminals hMade fun child hChild => ih child hChild (hChildren child hChild)

end DocumentLanguage
