import DocumentLanguage.Proofs.Grammar.Lead
import Mathlib.Data.List.Chain

/-!
Terminals side by side. Between a word and a number the grammar always has a delimiter.
-/
namespace DocumentLanguage

/-- Whether a lead is that of a token that may be a word. -/
def Lead.isWord : Lead → Bool
  | kind .boolean | kind .pattern | kind .version | kind .identifier => true
  | _ => false

def Lead.isNumber : Lead → Bool
  | kind .number | kind .percentage => true
  | _ => false

/-- A terminal that may stand in front of another: no word in front of a number. -/
def Terminal.mayPrecede (first second : Terminal) : Prop :=
  first.lead.isWord = true → second.lead.isNumber = false

def Part.endsFixed : Part → Bool
  | keyword _ | delimiter _ | newline | choice _ _ | commit => true
  | token _ kind | optionalToken _ kind => !(Lead.kind kind).isWord
  | child _ _ | line _ _ | optional _ _ | many _ _ | some _ _ => false

def Rule.endsLine : Rule → Bool
  | annotatedAssociation | annotatedValue | annotatedStatement | commentLine | statementLine => true
  | _ => false

def Form.endsLine : Form → Bool
  | literal _ => false
  | oneOf rules => rules.all Rule.endsLine
  | sequence _ parts => parts.getLast? = some .newline

theorem Rule.endsLine_form (rule : Rule) (hRule : rule.endsLine = true) :
    rule.form.endsLine = true := by
  revert hRule
  cases rule <;> decide

/-- Whether what a part repeats may stand side by side. -/
def Part.repeatsApart : Part → Bool
  | many _ rule | some _ rule => rule.endsLine || !rule.leads.any Lead.isNumber
  | _ => true

/-- Whether no number comes right behind anything that may end with a word. -/
def separated : List Part → Bool
  | [] => true
  | part :: parts =>
    (part.endsFixed || !(leadsOf Rule.leads parts).any Lead.isNumber) && part.repeatsApart &&
      separated parts

theorem Rule.separated_parts (rule : Rule) : separated rule.form.parts = true := by
  cases rule <;> decide

/-- Where every terminal may precede the next. -/
def Parted (terminals : List Terminal) : Prop :=
  terminals.IsChain Terminal.mayPrecede

theorem Parted.append {first second : List Terminal} (hFirst : Parted first)
    (hSecond : Parted second) (hBetween : ∀ terminal ∈ first.getLast?, ∀ next ∈ second.head?,
      terminal.mayPrecede next) : Parted (first ++ second) :=
  List.isChain_append.mpr ⟨hFirst, hSecond, hBetween⟩

theorem mayPrecede_of_any {leads : List Lead} (hNone : leads.any Lead.isNumber = false)
    {first second : Terminal} (hLead : second.lead ∈ leads) : first.mayPrecede second := by
  intro _
  have hAll := List.any_eq_false.mp hNone second.lead hLead
  simpa using hAll

theorem weave_concat_newline (parts : List Part) (marks : List (List Terminal)) :
    weave (parts ++ [.newline]) marks = weave parts marks ++ [.newline] := by
  induction parts generalizing marks with
  | nil => simp [weave, Part.fixed?]
  | cons part parts ih =>
      cases hFixed : part.fixed? with
      | some terminals => simp [weave, hFixed, ih]
      | none => cases marks <;> simp [weave, hFixed, ih]

/-- Where a rule ends with its line the last terminal is a newline. -/
theorem Tree.getLast?_terminals {rule : Rule} (tree : Tree rule) (hRule : rule.endsLine = true) :
    tree.terminals.getLast? = some .newline := by
  induction tree using Tree.induct with
  | step rule content ih =>
      have hForm := rule.endsLine_form hRule
      have hTerminals : (Tree.mk content).terminals = content.terminals := rfl
      rw [hTerminals]
      clear hTerminals
      revert content hForm
      generalize rule.form = form
      intro content ih hForm
      cases content with
      | literal kind text => cases hForm
      | oneOf child allowed tree =>
          exact ih ⟨child, tree⟩ List.mem_cons_self (List.all_eq_true.mp hForm child allowed)
      | sequence fields =>
          obtain ⟨front, hParts⟩ := List.getLast?_eq_some_iff.mp (of_decide_eq_true hForm)
          rw [Content.terminals]
          generalize fields.marks = marks
          rw [hParts, weave_concat_newline, List.getLast?_concat]

/-- Nodes in a row go together if each of them does by itself and none ends with a word where the
next may begin with a number. -/
theorem Trees.parted {rule : Rule} (hApart : rule.endsLine = true ∨ rule.leads.any Lead.isNumber = false) :
    (trees : Trees rule) → (∀ node ∈ trees.asNodes, node.tree.Made) →
      (∀ node ∈ trees.asNodes, Parted node.tree.terminals) → Parted trees.terminals
  | .nil, _, _ => .nil
  | .cons tree trees, hMade, hParted => by
      simp only [asNodes_cons, List.mem_cons, forall_eq_or_imp] at hMade hParted
      refine hParted.1.append (trees.parted hApart hMade.2 hParted.2) ?_
      intro terminal hLast next hNext
      rcases hApart with hLine | hNone
      · rw [tree.getLast?_terminals hLine] at hLast
        cases hLast
        intro hLead
        cases hLead
      · have hBegins := trees.begins fun node hNode => node.tree.begins (hMade.2 node hNode)
        exact mayPrecede_of_any hNone (hBegins.head next hNext)

theorem parted_singleton (terminal : Terminal) : Parted [terminal] := List.isChain_singleton _

/-- The terminals of what is kept of a part go together if those of its nodes do. -/
theorem Part.parted (part : Part) (kept : part.Kept) (hApart : part.repeatsApart = true)
    (hNodes : ∀ node ∈ part.nodes kept, node.tree.Made ∧ Parted node.tree.terminals) :
    Parted (part.terminals kept) := by
  cases part with
  | keyword text | delimiter text | newline | choice label options | token label kind =>
      exact parted_singleton _
  | commit => exact .nil
  | optionalToken label kind =>
      cases kept with
      | none => exact .nil
      | some kept => exact parted_singleton _
  | child label rule | line label rule => exact (hNodes ⟨rule, kept⟩ List.mem_cons_self).2
  | optional label rule =>
      cases kept with
      | none => exact .nil
      | some tree => exact (hNodes ⟨rule, tree⟩ List.mem_cons_self).2
  | many label rule | some label rule =>
      have hEither : rule.endsLine = true ∨ rule.leads.any Lead.isNumber = false := by
        simpa [repeatsApart] using hApart
      exact kept.parted hEither (fun node hNode => (hNodes node hNode).1)
        fun node hNode => (hNodes node hNode).2

/-- A part that is checked never to end with a word does not end with one, whatever it keeps. -/
theorem Part.isWord_getLast? (part : Part) (kept : part.Kept) (hFixed : part.endsFixed = true)
    (hOther : part.tokenKind? ≠ Option.some .delimiter) :
    ∀ terminal ∈ (part.terminals kept).getLast?, terminal.lead.isWord = false := by
  cases part with
  | keyword text | delimiter text =>
      rintro terminal ⟨⟩
      simp [Terminal.lead, Lead.of, Lead.isWord]
  | newline =>
      rintro terminal ⟨⟩
      rfl
  | choice label options =>
      rintro terminal ⟨⟩
      simp [Terminal.kept, Terminal.lead, Lead.of, Lead.isWord]
  | token label kind =>
      have hKind : kind ≠ .delimiter := fun hEq => hOther (congrArg Option.some hEq)
      rintro terminal ⟨⟩
      simpa [endsFixed, Terminal.lead_kept hKind] using hFixed
  | optionalToken label kind =>
      have hKind : kind ≠ .delimiter := fun hEq => hOther (congrArg Option.some hEq)
      cases kept with
      | none => rintro terminal ⟨⟩
      | some kept =>
          rintro terminal ⟨⟩
          simpa [endsFixed, Terminal.lead_kept hKind] using hFixed
  | commit => rintro terminal ⟨⟩
  | child | line | optional | many | some => cases hFixed

/-- The terminals of the parts of a sequence go together, as the parts are separated by something
that is neither a word nor a number. -/
theorem Fields.parted (parts : List Part) (fields : Fields (fieldsOf parts))
    (hMade : aligned Part.admits parts fields.stored = true)
    (hKinds : ∀ part ∈ parts, part.tokenKind? ≠ some .delimiter)
    (hSeparated : separated parts = true)
    (hNodes : ∀ node ∈ fields.stored.flatMap Stored.nodes,
      node.tree.Made ∧ Parted node.tree.terminals) :
    Parted (weave parts fields.marks) := by
  induction parts with
  | nil =>
      cases fields
      exact .nil
  | cons part parts ih =>
      obtain ⟨kept, rest, rfl⟩ := part.exists_keep fields
      rw [Part.aligned_keep, Bool.and_eq_true] at hMade
      rw [Part.nodes_keep, List.forall_mem_append] at hNodes
      rw [List.forall_mem_cons] at hKinds
      simp only [separated, Bool.and_eq_true, Bool.or_eq_true, Bool.not_eq_true'] at hSeparated
      obtain ⟨⟨hBetween, hApart⟩, hRest⟩ := hSeparated
      rw [Part.weave_keep]
      refine (part.parted kept hApart hNodes.1).append (ih rest hMade.2 hKinds.2 hRest hNodes.2) ?_
      intro terminal hLast next hNext
      rcases hBetween with hFixed | hNone
      · intro hWord
        rw [part.isWord_getLast? kept hFixed hKinds.1 terminal hLast] at hWord
        cases hWord
      · have hBegins := rest.begins parts hMade.2 hKinds.2
          fun node hNode => node.tree.begins (hNodes.2 node hNode).1
        exact mayPrecede_of_any hNone (hBegins.head next hNext)

/-- The terminals of what a node holds go together if those of its children do. -/
theorem Content.parted {form : Form} (content : Content form) (hMade : content.made = true)
    (hKinds : ∀ part ∈ form.parts, part.tokenKind? ≠ some .delimiter)
    (hSeparated : separated form.parts = true)
    (hNodes : ∀ child ∈ content.children, child.tree.Made ∧ Parted child.tree.terminals) :
    Parted content.terminals := by
  cases content with
  | literal kind text => exact parted_singleton _
  | oneOf rule allowed tree => exact (hNodes ⟨rule, tree⟩ List.mem_cons_self).2
  | sequence fields => exact Fields.parted _ fields hMade hKinds hSeparated hNodes

/-- In a tree no number stands right behind a word, so that the two are never read as one token. -/
theorem Tree.parted {rule : Rule} (tree : Tree rule) (made : tree.Made) : Parted tree.terminals := by
  induction tree using Tree.induct with
  | step rule content ih =>
      obtain ⟨hMade, hChildren⟩ := Tree.made_mk.mp made
      exact content.parted hMade rule.tokenKind?_ne_delimiter rule.separated_parts
        fun child hChild => ⟨hChildren child hChild, ih child hChild (hChildren child hChild)⟩

end DocumentLanguage
