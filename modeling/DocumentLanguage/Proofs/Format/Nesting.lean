import DocumentLanguage.Proofs.Format.Outline
import DocumentLanguage.Tree.Build

/-!
The rows of an outline determine the tree. What a node holds stands deeper than what is behind the
node, and no field that may stay away opens with what a field behind it opens with, so that the
rows say where each field ends.
-/
namespace DocumentLanguage

open Outline

/-- What tells the rows of one field from those of another: a rule or a kind. -/
inductive Opening
  | node (rule : Rule)
  | token (kind : Kind)
deriving DecidableEq

def Outline.Label.opening : Label → Opening
  | .node rule => .node rule
  | .token kind _ => .token kind

def Shape.opening : Shape → Opening
  | text kind | optionalText kind => .token kind
  | child rule | optional rule | many rule => .node rule

def Shape.mayBeAbsent : Shape → Bool
  | text _ | child _ => false
  | optionalText _ | optional _ | many _ => true

def openingsOf : List Field → List Opening
  | [] => []
  | field :: fields =>
    field.shape.opening :: if field.shape.mayBeAbsent then openingsOf fields else []

/-- No field that may be absent opens with what the fields behind it may open with. -/
def apart : List Field → Bool
  | [] => true
  | field :: fields =>
    (!field.shape.mayBeAbsent || !(openingsOf fields).contains field.shape.opening) &&
      apart fields

/-- The fields of a form are apart. -/
def Form.apart : Form → Bool
  | literal _ | oneOf _ => true
  | sequence _ parts => DocumentLanguage.apart (fieldsOf parts)

theorem Rule.form_apart (rule : Rule) : rule.form.apart = true := by
  cases rule <;> decide

/-! ### Where the rows of a part end -/

/-- The rows go on, if at all, with a row above a depth. -/
def RisesTo (depth : Nat) (rows : List Row) : Prop :=
  ∀ row ∈ rows.head?, row.depth < depth

/-- The rows go on, if at all, with a row above a depth or with one of these openings at it. -/
def GoesOn (depth : Nat) (openings : List Opening) (rows : List Row) : Prop :=
  ∀ row ∈ rows.head?, row.depth < depth ∨ row.depth = depth ∧ row.label.opening ∈ openings

namespace GoesOn

variable {depth : Nat} {openings : List Opening} {rows : List Row}

theorem of_risesTo (hRises : RisesTo depth rows) : GoesOn depth [] rows :=
  fun row hRow => .inl (hRises row hRow)

theorem cons {label : Label} (hOpening : label.opening ∈ openings) :
    GoesOn depth openings (⟨depth, label⟩ :: rows) := by
  intro row hRow
  cases hRow
  exact .inr ⟨rfl, hOpening⟩

theorem mono {more : List Opening} (hGoesOn : GoesOn depth openings rows)
    (hMore : openings ⊆ more) : GoesOn depth more rows :=
  fun row hRow => (hGoesOn row hRow).imp_right fun ⟨hDepth, hOpening⟩ => ⟨hDepth, hMore hOpening⟩

/-- Behind a node its content has risen to the depth of the node. -/
theorem risesTo (hGoesOn : GoesOn depth openings rows) : RisesTo (depth + 1) rows := by
  intro row hRow
  rcases hGoesOn row hRow with hLess | ⟨hSame, -⟩ <;> omega

/-- The rows do not go on with another opening at the depth. -/
theorem ne_cons {label : Label} {behind : List Row} (hGoesOn : GoesOn depth openings rows)
    (hOpening : label.opening ∉ openings) : rows ≠ ⟨depth, label⟩ :: behind := by
  rintro rfl
  rcases hGoesOn _ rfl with hLess | ⟨-, hMem⟩
  · exact Nat.lt_irrefl _ hLess
  · exact hOpening hMem

end GoesOn

/-- The rows of a node begin with its rule, at the depth of the node. -/
theorem Tree.rows_eq_cons {rule : Rule} (tree : Tree rule) (depth : Nat) :
    ∃ rest, tree.rows depth = ⟨depth, .node rule⟩ :: rest := by
  obtain ⟨content⟩ := tree
  exact ⟨_, rfl⟩

/-- Nodes of one rule go on with another of them, or else with what is behind them. -/
theorem Trees.goesOn {depth : Nat} {openings : List Opening} {behind : List Row}
    (hBehind : GoesOn depth openings behind) {rule : Rule} (trees : Trees rule) :
    GoesOn depth (.node rule :: openings) (trees.rows depth ++ behind) := by
  cases trees with
  | nil => exact hBehind.mono (List.subset_cons_self ..)
  | cons tree _ =>
      obtain ⟨more, hRows⟩ := tree.rows_eq_cons depth
      simp only [Trees.rows, hRows, List.cons_append]
      exact .cons List.mem_cons_self

/-- Fields go on with one of their openings, or else with what is behind them. -/
theorem Fields.goesOn {depth : Nat} {behind : List Row} (hBehind : RisesTo depth behind) :
    {fields : List Field} → (kept : Fields fields) →
      GoesOn depth (openingsOf fields) (kept.rows depth ++ behind)
  | _, .nil => .of_risesTo hBehind
  | _, .text _ _ => .cons List.mem_cons_self
  | _, .optionalText none rest =>
      (rest.goesOn hBehind).mono (List.subset_cons_self ..)
  | _, .optionalText (some _) _ => .cons List.mem_cons_self
  | _, .absent rest => (rest.goesOn hBehind).mono (List.subset_cons_self ..)
  | _, .child tree _ | _, .present tree _ => by
      obtain ⟨more, hRows⟩ := tree.rows_eq_cons depth
      simp only [Fields.rows, hRows, List.cons_append]
      exact .cons List.mem_cons_self
  | _, .many trees rest => by
      simp only [Fields.rows, List.append_assoc]
      exact trees.goesOn (rest.goesOn hBehind)

/-! ### The tree is read off the rows -/

/-- Fields that can be told apart still can be without the first of them. -/
theorem apart_cons {field : Field} {fields : List Field}
    (hApart : apart (field :: fields)) : apart fields ∧
      (field.shape.mayBeAbsent → field.shape.opening ∉ openingsOf fields) := by
  simp only [apart, Bool.and_eq_true, Bool.or_eq_true, Bool.not_eq_true'] at hApart
  refine ⟨hApart.2, fun hAbsent hMem => ?_⟩
  rcases hApart.1 with hPresent | hOther
  · exact absurd hAbsent (by simp [hPresent])
  · exact absurd hMem (by simpa using hOther)

mutual

/-- Rows that begin with those of a node and go on above what it holds begin with the rows of no
other node of its rule. -/
theorem Tree.rows_append_inj {depth : Nat} {behind behind' : List Row} :
    {rule : Rule} → (tree other : Tree rule) →
      RisesTo (depth + 1) behind → RisesTo (depth + 1) behind' →
      tree.rows depth ++ behind = other.rows depth ++ behind' → tree = other ∧ behind = behind'
  | rule, .mk content, .mk content', hBehind, hBehind', hSame => by
      obtain ⟨rfl, hRest⟩ := Content.rows_append_inj rule.form_apart content content'
        hBehind hBehind' (List.cons.inj hSame).2
      exact ⟨rfl, hRest⟩
termination_by structural _ tree => tree

/-- What a node holds is determined by its rows, also with other rows behind them that do not go
deeper. -/
theorem Content.rows_append_inj {depth : Nat} {behind behind' : List Row} :
    {form : Form} → form.apart → (content other : Content form) →
      RisesTo depth behind → RisesTo depth behind' →
      content.rows depth ++ behind = other.rows depth ++ behind' →
      content = other ∧ behind = behind'
  | _, _, .literal kind text, .literal kind' text', _, _, hSame => by
      obtain ⟨hRow, hRest⟩ := List.cons.inj hSame
      injection hRow with _ hLabel
      injection hLabel with hKind hText
      subst hKind hText
      exact ⟨rfl, hRest⟩
  | _, _, .oneOf rule allowed tree, .oneOf rule' allowed' tree', hBehind, hBehind', hSame => by
      -- the first row names the rule that was chosen
      obtain ⟨rest, hRows⟩ := tree.rows_eq_cons depth
      obtain ⟨rest', hRows'⟩ := tree'.rows_eq_cons depth
      have hRow : (⟨depth, .node rule⟩ : Row) = ⟨depth, .node rule'⟩ := by
        simp only [Content.rows, hRows, hRows', List.cons_append] at hSame
        exact (List.cons.inj hSame).1
      injection hRow with _ hLabel
      injection hLabel with hRule
      subst hRule
      obtain ⟨rfl, hRest⟩ := Tree.rows_append_inj tree tree' (GoesOn.of_risesTo hBehind).risesTo
        (GoesOn.of_risesTo hBehind').risesTo hSame
      exact ⟨rfl, hRest⟩
  | _, hApart, .sequence fields, .sequence fields', hBehind, hBehind', hSame => by
      obtain ⟨rfl, hRest⟩ := Fields.rows_append_inj hApart fields fields' hBehind hBehind' hSame
      exact ⟨rfl, hRest⟩
termination_by structural _ _ content => content

/-- The fields of a node are determined by their rows. A field that is left out is noticed by its
opening, which the fields behind it cannot have. -/
theorem Fields.rows_append_inj {depth : Nat} {behind behind' : List Row} :
    {fields : List Field} → apart fields → (kept other : Fields fields) →
      RisesTo depth behind → RisesTo depth behind' →
      kept.rows depth ++ behind = other.rows depth ++ behind' → kept = other ∧ behind = behind'
  | _, _, .nil, .nil, _, _, hSame => ⟨rfl, hSame⟩
  | _, hApart, .text text rest, .text text' rest', hBehind, hBehind', hSame => by
      obtain ⟨hRow, hSame⟩ := List.cons.inj hSame
      injection hRow with _ hLabel
      injection hLabel with _ hText
      obtain ⟨rfl, hRest⟩ :=
        Fields.rows_append_inj (apart_cons hApart).1 rest rest' hBehind hBehind' hSame
      exact ⟨by rw [hText], hRest⟩
  | _, hApart, .optionalText none rest, .optionalText none rest', hBehind, hBehind', hSame => by
      obtain ⟨rfl, hRest⟩ :=
        Fields.rows_append_inj (apart_cons hApart).1 rest rest' hBehind hBehind' hSame
      exact ⟨rfl, hRest⟩
  | _, hApart, .optionalText none rest, .optionalText (some _) _, hBehind, _, hSame =>
      absurd hSame ((rest.goesOn hBehind).ne_cons ((apart_cons hApart).2 rfl))
  | _, hApart, .optionalText (some _) _, .optionalText none rest', _, hBehind', hSame =>
      absurd hSame.symm ((rest'.goesOn hBehind').ne_cons ((apart_cons hApart).2 rfl))
  | _, hApart, .optionalText (some text) rest, .optionalText (some text') rest',
      hBehind, hBehind', hSame => by
      obtain ⟨hRow, hSame⟩ := List.cons.inj hSame
      injection hRow with _ hLabel
      injection hLabel with _ hText
      obtain ⟨rfl, hRest⟩ :=
        Fields.rows_append_inj (apart_cons hApart).1 rest rest' hBehind hBehind' hSame
      exact ⟨by rw [hText], hRest⟩
  | _, hApart, .child tree rest, .child tree' rest', hBehind, hBehind', hSame => by
      simp only [Fields.rows, List.append_assoc] at hSame
      obtain ⟨rfl, hBack⟩ := Tree.rows_append_inj tree tree' (rest.goesOn hBehind).risesTo
        (rest'.goesOn hBehind').risesTo hSame
      obtain ⟨rfl, hRest⟩ :=
        Fields.rows_append_inj (apart_cons hApart).1 rest rest' hBehind hBehind' hBack
      exact ⟨rfl, hRest⟩
  | _, hApart, .absent rest, .absent rest', hBehind, hBehind', hSame => by
      obtain ⟨rfl, hRest⟩ :=
        Fields.rows_append_inj (apart_cons hApart).1 rest rest' hBehind hBehind' hSame
      exact ⟨rfl, hRest⟩
  | _, hApart, .absent rest, .present tree' rest', hBehind, _, hSame => by
      obtain ⟨more, hRows⟩ := tree'.rows_eq_cons depth
      simp only [Fields.rows, hRows, List.cons_append] at hSame
      exact absurd hSame ((rest.goesOn hBehind).ne_cons ((apart_cons hApart).2 rfl))
  | _, hApart, .present tree rest, .absent rest', _, hBehind', hSame => by
      obtain ⟨more, hRows⟩ := tree.rows_eq_cons depth
      simp only [Fields.rows, hRows, List.cons_append] at hSame
      exact absurd hSame.symm ((rest'.goesOn hBehind').ne_cons ((apart_cons hApart).2 rfl))
  | _, hApart, .present tree rest, .present tree' rest', hBehind, hBehind', hSame => by
      simp only [Fields.rows, List.append_assoc] at hSame
      obtain ⟨rfl, hBack⟩ := Tree.rows_append_inj tree tree' (rest.goesOn hBehind).risesTo
        (rest'.goesOn hBehind').risesTo hSame
      obtain ⟨rfl, hRest⟩ :=
        Fields.rows_append_inj (apart_cons hApart).1 rest rest' hBehind hBehind' hBack
      exact ⟨rfl, hRest⟩
  | _, hApart, .many trees rest, .many trees' rest', hBehind, hBehind', hSame => by
      simp only [Fields.rows, List.append_assoc] at hSame
      obtain ⟨hNext, hOther⟩ := apart_cons hApart
      obtain ⟨rfl, hBack⟩ := Trees.rows_append_inj (hOther rfl) trees trees'
        (rest.goesOn hBehind) (rest'.goesOn hBehind') hSame
      obtain ⟨rfl, hRest⟩ := Fields.rows_append_inj hNext rest rest' hBehind hBehind' hBack
      exact ⟨rfl, hRest⟩
termination_by structural _ _ kept => kept

/-- A run of nodes is determined by its rows, as what follows does not open like one more of these
nodes. -/
theorem Trees.rows_append_inj {depth : Nat} {openings : List Opening} {behind behind' : List Row} :
    {rule : Rule} → .node rule ∉ openings → (trees others : Trees rule) →
      GoesOn depth openings behind → GoesOn depth openings behind' →
      trees.rows depth ++ behind = others.rows depth ++ behind' →
      trees = others ∧ behind = behind'
  | _, _, .nil, .nil, _, _, hSame => ⟨rfl, hSame⟩
  | _, hOther, .nil, .cons tree' _, hBehind, _, hSame => by
      obtain ⟨more, hRows⟩ := tree'.rows_eq_cons depth
      simp only [Trees.rows, hRows, List.cons_append] at hSame
      exact absurd hSame (hBehind.ne_cons hOther)
  | _, hOther, .cons tree _, .nil, _, hBehind', hSame => by
      obtain ⟨more, hRows⟩ := tree.rows_eq_cons depth
      simp only [Trees.rows, hRows, List.cons_append] at hSame
      exact absurd hSame.symm (hBehind'.ne_cons hOther)
  | rule, hOther, .cons tree trees, .cons tree' trees', hBehind, hBehind', hSame => by
      simp only [Trees.rows, List.append_assoc] at hSame
      obtain ⟨rfl, hBack⟩ := Tree.rows_append_inj tree tree' (trees.goesOn hBehind).risesTo
        (trees'.goesOn hBehind').risesTo hSame
      obtain ⟨rfl, hRest⟩ := Trees.rows_append_inj hOther trees trees' hBehind hBehind' hBack
      exact ⟨rfl, hRest⟩
termination_by structural _ _ trees => trees

end

/-- Documents with one outline are one document, wherever they come from and whatever the kinds and
texts of their tokens. -/
theorem Document.eq_of_outline_eq {first second : Document}
    (hSame : first.outline = second.outline) : first = second := by
  have hRows : first.rows 0 = second.rows 0 := by
    apply flatMap_text_inj
    rw [← Tree.toList_outline, ← Tree.toList_outline, hSame]
  have hEnd : RisesTo 1 [] := fun _ hRow => nomatch hRow
  exact (Tree.rows_append_inj first second hEnd hEnd (by rw [hRows])).1

/-- A list of two elements is the one document with its outline, both when it is built from its
elements and when it is written out node by node. -/
theorem Document.eq_of_outline_eq_list :
    Document.ofComponent (some "!>\n  a \"list\"\n<!")
        (Component.ofCollection (Collection.ofValues (Values.ofList .inline
          [Component.ofElement (Element.ofText .number "1"),
            Component.ofElement (Element.ofText .symbol "$a")]))) =
      .mk (.sequence (.optionalText (some "!>\n  a \"list\"\n<!")
        (.child (Component.ofCollection (Collection.ofValues
          (.mk (.oneOf .inlineValues (by decide) (.mk (.sequence
            (.child (Component.ofElement (.mk (.literal .number "1")))
              (.many (.cons (.mk (.sequence
                (.child (Component.ofElement (.mk (.literal .symbol "$a"))) .nil))) .nil)
                .nil)))))))) .nil))) :=
  Document.eq_of_outline_eq (by decide +kernel)

end DocumentLanguage
