import DocumentLanguage.Proofs.Format.Sign
import DocumentLanguage.Proofs.Token.Bracket

/-!
The canonical text in tokens. Scanned, the text of a tree gives what the terminals of the tree say,
with nothing but spaces between them, as long as no tokens of the tree run into each other.
-/
namespace DocumentLanguage

open Canonical

/-- Rules with parts that fit have no tokens that could run into each other. -/
theorem Node.fuses_of_fitsPlain {rule : Rule} (hPlain : rule.fitsPlain = true) (tree : Tree rule) :
    Node.fuses ⟨rule, tree⟩ = false := by
  revert hPlain
  cases rule <;> first | exact fun _ => rfl | exact fun hPlain => absurd hPlain (by decide)

/-- A node of a rule that fits plainly shows its terminals if its children do. Whether a rule fits
is decided once for each. -/
theorem shown_fitsPlain {rule : Rule} (hPlain : rule.fitsPlain = true) (content : Content rule.form)
    (settled : (Tree.mk content).Settled) (hNodes : ∀ child ∈ content.children, child.Shown) :
    Node.Shown ⟨rule, .mk content⟩ := by
  intro depth ending hEnding
  have hSpans : spansLines rule = false := by
    simp only [Rule.fitsPlain, Bool.and_eq_true, Bool.not_eq_true'] at hPlain
    exact hPlain.2
  obtain ⟨⟨hMade, hSound⟩, -⟩ := Tree.settled_mk.mp settled
  have hShows := @Content.shows ⟨rule, .mk content⟩ rule.form content hPlain (rule.fits_form hPlain)
    rule.bare_form (fun _ => rfl) hMade hSound hNodes depth ending hEnding
  rw [Tree.written_eq hSpans]
  refine hShows.congr ?_
  rw [Tree.faithful_mk, Node.fuses_of_fitsPlain hPlain]
  exact (and_iff_right rfl).symm

/-- Every node but a document shows its terminals. The induction is on the tree, with one lemma for
each way that a rule is written. -/
theorem Tree.shown {rule : Rule} (tree : Tree rule) (settled : tree.Settled) (hRule : rule ≠ .document) :
    Node.Shown ⟨rule, tree⟩ := by
  induction tree using Tree.induct with
  | step rule content ih =>
    have hNodes : ∀ child ∈ content.children, child.Shown := by
      intro child hChild
      refine ih child hChild ((Tree.settled_mk.mp settled).2 child hChild) ?_
      intro hDocument
      have hMem := content.rule_mem child hChild
      rw [hDocument] at hMem
      exact rule.document_not_mem hMem
    by_cases hPlain : rule.fitsPlain = true
    · exact shown_fitsPlain hPlain content settled hNodes
    by_cases hSpans : spansLines rule = true
    · exact shown_spansLines hSpans content hNodes
    have hOther : rule = .range ∨ rule = .method ∨ rule = .inversion := by
      revert hPlain hSpans hRule
      cases rule <;> decide
    rcases hOther with rfl | rfl | rfl
    · exact shown_range content settled hNodes
    · exact shown_method content settled hNodes
    · exact shown_inversion content settled hNodes

/-- What is written of a document, in terminals. The line of its comment ends before the component.
-/
def Document.laidOut (document : Document) : List Terminal :=
  ((Document.comment document).map fun text => [Terminal.kept .comment text, .newline]).getD [] ++
    (Document.component document).terminals

section

variable {component : Tree .component}

theorem Document.written_commented (text : String) :
    (.mk (.sequence (.optionalText (some text) (.child component .nil))) : Document).written 0 =
      (Text.indent text 0).toList ++ (lineBreak 0 ++ component.written 0) := by
  have hGap : between ⟨.document, .mk (.sequence (.optionalText (some text)
      (.child component .nil)))⟩ 1 = "\n" := rfl
  simp [Tree.written, Content.written, spansLines, hasLine, opening, closing, Fields.pieces, spread,
    gapBefore, hGap, lineBreak]

theorem Document.written_plain :
    (.mk (.sequence (.optionalText none (.child component .nil))) : Document).written 0 =
      component.written 0 := by
  have hGap : between ⟨.document, .mk (.sequence (.optionalText none
      (.child component .nil)))⟩ 1 = "" := rfl
  simp [Tree.written, Content.written, spansLines, hasLine, opening, closing, Fields.pieces, spread,
    gapBefore, hGap]

end

/-- A document is written as it is laid out, so that scanning what is written gives the tokens of
its terminals. -/
theorem Document.shows (document : Document) (settled : document.Settled) :
    Shows document.Faithful (document.written 0) (Document.laidOut document) [] := by
  obtain ⟨content⟩ := document
  obtain ⟨⟨-, hSound⟩, hChildren⟩ := Tree.settled_mk.mp settled
  cases content with
  | sequence fields =>
    cases fields with
    | optionalText comment rest =>
      cases rest with
      | child component rest =>
        cases rest
        have hSettled : component.Settled :=
          hChildren ⟨.component, component⟩ (by simp [Content.children, Fields.stored, Stored.nodes])
        have hFollow : Rule.component.follow ≠ .lineEnd := by decide
        have hComponent : Shows component.Faithful (component.written 0) component.terminals [] :=
          (component.shown hSettled (by decide)).shows hFollow (.inr rfl) 0
        have hFaithful : component.Faithful ↔
            (.mk (.sequence (.optionalText comment (.child component .nil))) : Document).Faithful := by
          have hFuses : Node.fuses ⟨.document, .mk (.sequence (.optionalText comment
              (.child component .nil)))⟩ = false := rfl
          refine Iff.trans ?_ (Tree.faithful_mk.trans (and_iff_right hFuses)).symm
          exact (List.forall_mem_singleton (p := fun child : Node => child.tree.Faithful)
            (a := ⟨.component, component⟩)).symm
        cases comment with
        | none =>
          rw [Document.written_plain]
          exact hComponent.congr hFaithful
        | some text =>
          obtain ⟨hAlone, hFlush⟩ : Alone .comment text.toList ∧ Text.endsFlush text = true :=
            hSound ⟨0, .comment, text⟩ (by simp [Content.tokens, Fields.stored, tokensFrom])
          have hComment : Shows True (Text.indent text 0).toList [.kept .comment text]
              (lineBreak 0 ++ component.written 0 ++ []) :=
            Shows.kept hAlone (by decide) rfl (.inl rfl) hFlush
              (endsBefore_of_clears (by decide) rfl) 0
          rw [Document.written_commented]
          exact (hComment.behind ((Shows.lineBreak 0).behind hComponent)).congr hFaithful

/-- Behind the end of a source there are only spaces, which no terminal is read from. -/
theorem Behind.all_space {tokens : List Token} (behind : Behind [] tokens) :
    ∀ token ∈ tokens, token.kind = .space := by
  have hNone := Scanned.of_nil behind
  simpa using hNone

/-- Terminals that are read along tokens are read along them without their spaces, too. -/
theorem Along.unspaced {terminals : List Terminal} {tokens rest : List Token}
    (along : Spaced terminals tokens rest) :
    Along (fun _ => false) terminals (unspaced tokens) (unspaced rest) := by
  induction along with
  | stop => exact .stop _
  | pass hPass _ ih =>
    rw [DocumentLanguage.unspaced, List.filter_cons_of_neg (by simpa using hPass)]
    exact ih
  | read hReads hSpace hError _ ih =>
    rw [DocumentLanguage.unspaced, List.filter_cons_of_pos (by simpa using hSpace)]
    exact .read hReads hSpace hError ih

/-- The tokens of the canonical text stand for what is written of the document. -/
theorem Document.behind_canonical (document : Document) :
    Behind (document.written 0 ++ []) (scan document.canonical) := by
  rw [List.append_nil, ← Tree.toList_canonical]
  exact (scanned_scan document.canonical).behind

/-- Where no tokens run into each other the canonical text is scanned into what was laid out, but
for spaces. -/
theorem Document.along_scan (document : Document) (settled : document.Settled)
    (faithful : document.Faithful) :
    Along (fun _ => false) (Document.laidOut document) (unspaced (scan document.canonical)) [] := by
  obtain ⟨rest, hSpaced, hRest⟩ :=
    (Document.shows document settled).reads faithful _ document.behind_canonical
  have hNone : unspaced rest = [] := by simpa [unspaced] using hRest.all_space
  rw [← hNone]
  exact hSpaced.unspaced

end DocumentLanguage
