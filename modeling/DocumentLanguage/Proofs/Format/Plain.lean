import DocumentLanguage.Proofs.Format.Pieces
import DocumentLanguage.Proofs.Grammar.Nested

/-!
The nodes whose text shows their terminals because of their parts alone: those whose gaps fit, and
those that put each of their items on a line.
-/
namespace DocumentLanguage

open Canonical

/-- Whether tokens are tokens by themselves and their last lines stand flush. -/
def KeptToken.Sound (held : KeptToken) : Prop :=
  Alone held.kind held.text.toList ∧ Text.endsFlush held.text = true

/-- Whether nothing is written around what a node of a form holds if the form is no sequence. -/
def Form.bare (rule : Rule) : Form → Bool
  | literal kinds =>
    (openingOf rule []).isEmpty && rule.follow = .ender && kinds.all fun kind =>
      literalOrder.contains kind && !kind.isLayout && kind != .note
  | oneOf rules =>
    (openingOf rule []).isEmpty && rules.all fun child =>
      child.follow = rule.follow && !hasLine child
  | sequence _ _ => true

theorem Rule.bare_form (rule : Rule) : rule.form.bare rule = true := by
  cases rule <;> decide

theorem leadIn_zero (rule : Rule) : leadIn rule 0 = [] := by
  cases rule <;> rfl

theorem hasLine_follow {rule : Rule} (hLine : hasLine rule = true) : rule.follow = .lineEnd := by
  revert hLine
  cases rule <;> decide

/-- What is written of a node that puts no lines around its items. -/
theorem Tree.written_eq {rule : Rule} (hSpans : spansLines rule = false) (content : Content rule.form)
    (depth : Nat) : (Tree.mk content).written depth =
      (if hasLine rule then lineBreak depth else (opening rule).toList) ++
        content.written depth ⟨rule, .mk content⟩ ++ (closing rule).toList := by
  simp [Tree.written, hSpans]

/-- What is written of a node begins with its line, if it has one. -/
theorem shows_lined {rule : Rule} {good : Prop} {text : List Char} {terminals : List Terminal}
    {ending : List Char} (depth : Nat)
    (hShows : Shows good text (if rule.follow = .lineEnd then terminals.dropLast else terminals) ending) :
    Shows good ((if hasLine rule then lineBreak depth else []) ++ text)
      (shownTerminals rule terminals) ending := by
  by_cases hLine : hasLine rule = true
  · simp only [hLine, if_true, shownTerminals]
    exact (Shows.lineBreak depth).behind hShows
  · simp only [hLine, Bool.false_eq_true, if_false, shownTerminals, List.nil_append]
    exact hShows

/-- Fields that begin no line are written between what opens and what closes their node. -/
theorem Fields.openingOf_append_body {node : Node} {parts : List Part}
    (fields : Fields (fieldsOf parts)) (depth : Nat) :
    openingOf node.rule parts ++ body node 0 (fields.pieces depth) =
      (if hasLine node.rule then [] else (opening node.rule).toList) ++
        (spread (gapBefore node) 0 (fields.pieces depth) ++ (closing node.rule).toList) := by
  have hNone := fields.pieces_nil_iff depth parts
  cases hPieces : fields.pieces depth with
  | nil => simp [openingOf, body, spread, hNone.mp hPieces]
  | cons piece pieces =>
      have hSome : fieldsOf parts ≠ [] := fun hEmpty => by simp [hNone.mpr hEmpty] at hPieces
      simp [openingOf, body, spread, hSome, gapBefore, leadIn_zero]

/-- A node of a rule whose parts fit shows its terminals if its children do. -/
theorem Content.shows {node : Node} {form : Form} (content : Content form)
    (hPlain : node.rule.fitsPlain = true) (hFits : form.fits node.rule = true)
    (hBare : form.bare node.rule = true)
    (hHolds : ∀ place, node.tree.content.holds place = content.holds place)
    (hMade : content.made = true) (hTokens : ∀ held ∈ content.tokens, held.Sound)
    (hNodes : ∀ child ∈ content.children, child.Shown) (depth : Nat) {ending : List Char}
    (hEnding : node.rule.follow.admits ending = true) :
    Shows (∀ child ∈ content.children, child.tree.Faithful)
      ((if hasLine node.rule then lineBreak depth else (opening node.rule).toList) ++
        content.written depth node ++ (closing node.rule).toList)
      (shownTerminals node.rule content.terminals) ending := by
  have hGaps : node.rule.gapsPlain = true := by
    simp only [Rule.fitsPlain, Bool.and_eq_true] at hPlain
    exact hPlain.1.1.1
  have hFront : (if hasLine node.rule then lineBreak depth else (opening node.rule).toList) =
      (if hasLine node.rule then lineBreak depth else []) ++
        (if hasLine node.rule then [] else (opening node.rule).toList) := by
    split <;> simp
  rw [hFront, List.append_assoc, List.append_assoc]
  refine shows_lined depth ?_
  cases content with
  | @literal kinds kind text =>
      simp only [made, List.contains_eq_mem, decide_eq_true_eq] at hMade
      simp only [Form.bare, Bool.and_eq_true, List.isEmpty_iff, decide_eq_true_eq,
        List.all_eq_true] at hBare
      obtain ⟨⟨hBare, hFollow⟩, hKinds⟩ := hBare
      have hKind := hKinds kind hMade
      simp only [List.contains_eq_mem, decide_eq_true_eq, Bool.not_eq_true', bne_iff_ne] at hKind
      obtain ⟨hAlone, hFlush⟩ := hTokens ⟨0, kind, text⟩ List.mem_cons_self
      obtain ⟨hOpening, hClosing⟩ := List.append_eq_nil_iff.mp hBare
      rw [hOpening, show (closing node.rule).toList = [] from hClosing, List.append_nil,
        List.nil_append, if_neg (by simp [hFollow])]
      rw [hFollow] at hEnding
      exact (Shows.literal hAlone hKind.1.1 hKind.1.2 hFlush (endsBefore_of_clears hKind.2 hEnding)
        depth).congr (by simp [children])
  | @oneOf rules rule allowed tree =>
      simp only [Form.bare, Bool.and_eq_true, List.isEmpty_iff, decide_eq_true_eq, List.all_eq_true,
        Bool.not_eq_true'] at hBare
      obtain ⟨hBare, hRules⟩ := hBare
      obtain ⟨hFollow, hLine⟩ := hRules rule allowed
      obtain ⟨hOpening, hClosing⟩ := List.append_eq_nil_iff.mp hBare
      rw [hOpening, show (closing node.rule).toList = [] from hClosing, List.append_nil,
        List.nil_append]
      have hShows := hNodes ⟨rule, tree⟩ List.mem_cons_self depth ending (by rwa [hFollow])
      simp only [shownTerminals, hLine, hFollow] at hShows
      exact hShows.congr (by simp [children])
  | @sequence standing parts fields =>
      have hIndex : ∀ place, node.tree.content.holds (0 + place) = fields.holds place := by
        intro place
        rw [Nat.zero_add, hHolds]
        rfl
      obtain ⟨shown, hWeave, hShows⟩ := fields.shows hGaps hEnding depth parts 0 _ hFits hIndex
        hMade hTokens hNodes
      have hTerminals : (if node.rule.follow = .lineEnd then (weave parts fields.marks).dropLast
          else weave parts fields.marks) = shown := by
        rw [hWeave]
        split <;> simp
      rw [fields.openingOf_append_body, ← hTerminals] at hShows
      exact hShows

/-- Whether a tree is made as its rules ask of tokens that are sound. -/
def Tree.Settled {rule : Rule} (tree : Tree rule) : Prop :=
  ∀ node ∈ tree.nodes, node.tree.content.made = true ∧
    ∀ held ∈ node.tree.content.tokens, held.Sound

theorem Tree.settled_mk {rule : Rule} {content : Content rule.form} :
    (Tree.mk content).Settled ↔ (content.made = true ∧ ∀ held ∈ content.tokens, held.Sound) ∧
      ∀ child ∈ content.children, child.tree.Settled :=
  Tree.forall_nodes_mk

/-- Lines one after another show their terminals. Each of them is ended by the line break before the
next, and the last one by the ending. -/
theorem Trees.shows_lines {rule : Rule} (hLine : hasLine rule = true) (depth : Nat)
    {ending : List Char} (hEnding : ending.head? = some '\n') : (trees : Trees rule) →
      (∀ node ∈ trees.asNodes, node.Shown) →
        ∃ shown, .newline :: trees.terminals = shown ++ [.newline] ∧
          Shows (∀ node ∈ trees.asNodes, node.tree.Faithful) (trees.written depth) shown ending
  | .nil, _ => ⟨[], rfl, (Shows.spaces rfl).congr (by simp)⟩
  | .cons tree trees, hNodes => by
      simp only [asNodes_cons, List.mem_cons, forall_eq_or_imp] at hNodes
      obtain ⟨shown, hShown, hTrees⟩ := trees.shows_lines hLine depth hEnding hNodes.2
      have hHead : (trees.written depth ++ ending).head? = some '\n' := by
        cases trees with
        | nil => exact hEnding
        | cons next trees =>
            obtain ⟨content⟩ := next
            have hSpans : spansLines rule = false := by
              revert hLine
              cases rule <;> decide
            rw [Trees.written, Tree.written_eq hSpans, if_pos hLine]
            rfl
      have hTree := hNodes.1 depth (trees.written depth ++ ending)
        (by simpa [hasLine_follow hLine, Follow.admits] using hHead)
      simp only [shownTerminals, hLine, hasLine_follow hLine, if_true] at hTree
      refine ⟨_, ?_, (hTree.append hTrees).congr (by simp)⟩
      have hLast : tree.terminals = tree.terminals.dropLast ++ [.newline] := by
        have hEnds : rule.endsLine = true := by
          revert hLine
          cases rule <;> decide
        exact (List.dropLast_append_getLast? _ (tree.getLast?_terminals hEnds)).symm
      rw [List.append_assoc, ← hShown, Trees.terminals, hLast]
      simp

/-- The lines of a node that puts them around its items show their terminals, with a line break
before each and one behind the last. -/
theorem Fields.shows_lines {node : Node} {label : String} {item : Rule} (hLine : hasLine item = true)
    (fields : Fields [⟨label, .many item⟩])
    (hNodes : ∀ child ∈ fields.stored.flatMap Stored.nodes, child.Shown) (depth : Nat)
    (ending : List Char) :
    Shows (∀ child ∈ fields.stored.flatMap Stored.nodes, child.tree.Faithful)
      (spread (gapBefore node) 0 (fields.pieces (depth + 1)) ++ lineBreak depth)
      (weave [.newline, .some label item] fields.marks) ending := by
  cases fields with
  | many trees rest =>
      cases rest
      simp only [stored, List.flatMap_cons, List.flatMap_nil, List.append_nil, Stored.nodes] at hNodes
      obtain ⟨shown, hShown, hTrees⟩ := @Trees.shows_lines _ hLine (depth + 1)
        (lineBreak depth ++ ending) rfl trees hNodes
      have hTerminals : weave [.newline, .some label item] (Fields.many trees .nil :
          Fields [⟨label, .many item⟩]).marks = shown ++ [.newline] := by
        rw [← hShown]
        simp [weave, Part.fixed?, marks]
      rw [hTerminals]
      have hBoth := (hTrees.append (Shows.lineBreak depth)).congr (and_iff_left trivial)
      simpa [pieces, spread, gapBefore, stored, Stored.nodes] using hBoth

/-- A node that puts its items on lines shows its terminals before anything. -/
theorem shown_spansLines {rule : Rule} (hSpans : spansLines rule = true) (content : Content rule.form)
    (hNodes : ∀ child ∈ content.children, child.Shown) : Node.Shown ⟨rule, .mk content⟩ := by
  intro depth ending _
  have hFuses : Node.fuses ⟨rule, .mk content⟩ = false := by
    revert hSpans
    cases rule <;> simp [spansLines, Node.fuses]
  have hFollow : rule.follow ≠ .lineEnd := by
    revert hSpans
    cases rule <;> decide
  rw [shownTerminals_eq hFollow]
  have hWritten : (Tree.mk content).written depth =
      content.written (depth + 1) ⟨rule, .mk content⟩ ++ lineBreak depth := by
    simp [Tree.written, hSpans]
  rw [hWritten]
  have hShows : Shows (∀ child ∈ content.children, child.tree.Faithful)
      (content.written (depth + 1) ⟨rule, .mk content⟩ ++ lineBreak depth) content.terminals ending := by
    generalize (⟨rule, .mk content⟩ : Node) = node
    cases rule <;> first
      | (cases content with
          | sequence fields => exact fields.shows_lines rfl hNodes depth ending)
      | cases hSpans
  refine hShows.congr ?_
  rw [Tree.faithful_mk, hFuses]
  simp

end DocumentLanguage
