import DocumentLanguage.Proofs.Format.Reread
import DocumentLanguage.Proofs.Token.Lossless
import DocumentLanguage.Proofs.Validation.Parsed

/-!
Documents that were read are read again. What is kept of a source has no tab and ends in a flush
line, so the canonical text of a document from a source is read as that document just when no two of
its tokens run into each other there.
-/
namespace DocumentLanguage

open Text

/-! ### What is kept of a source -/

/-- Whether a terminal that says a text as it is written stands for a token on one line. -/
def Terminal.onLine : Terminal → Bool
  | verbatim kind _ => !spanningKinds.contains kind && !kind.isLayout
  | dedented _ _ | newline => true

/-- Whether a part keeps as it is written only what is on one line. -/
def Part.keepsLine : Part → Bool
  | token _ kind | optionalToken _ kind => (Terminal.kept kind "").onLine
  | _ => true

/-- A text is kept without its indentation wherever it may span lines. -/
theorem Rule.keepsLine_form (rule : Rule) :
    match rule.form with
    | .sequence _ parts => parts.all Part.keepsLine = true
    | .literal _ | .oneOf _ => True := by
  cases rule <;> trivial

theorem Terminal.onLine_kept (kind : Kind) (text : String) :
    (Terminal.kept kind text).onLine = (Terminal.kept kind "").onLine := by
  unfold kept
  split <;> rfl

/-- A part that keeps to one line has no terminal that spans lines, if its nodes have none. -/
theorem Part.onLine_terminals {part : Part} (hLine : part.keepsLine = true) (kept : part.Kept)
    (hNodes : ∀ node ∈ part.nodes kept, ∀ terminal ∈ node.tree.terminals, terminal.onLine = true) :
    ∀ terminal ∈ part.terminals kept, terminal.onLine = true := by
  cases part with
  | keyword | delimiter | newline => exact List.forall_mem_singleton.mpr rfl
  | commit => exact nofun
  | choice label options =>
      refine List.forall_mem_singleton.mpr ?_
      rw [Terminal.onLine_kept]
      decide
  | token label kind =>
      refine List.forall_mem_singleton.mpr ?_
      rw [Terminal.onLine_kept]
      exact hLine
  | optionalToken label kind =>
      cases kept with
      | none => exact nofun
      | some text =>
          refine List.forall_mem_singleton.mpr ?_
          rw [Terminal.onLine_kept]
          exact hLine
  | child label rule | line label rule => exact hNodes ⟨rule, kept⟩ List.mem_cons_self
  | optional label rule =>
      cases kept with
      | none => exact nofun
      | some tree => exact hNodes ⟨rule, tree⟩ List.mem_cons_self
  | many label rule | some label rule =>
      intro terminal hTerminal
      rw [terminals, Trees.terminals_eq] at hTerminal
      obtain ⟨node, hNode, hTerminal⟩ := List.mem_flatMap.mp hTerminal
      exact hNodes node hNode terminal hTerminal

/-- The parts of a sequence keep to one line if each of them does. -/
theorem Fields.onLine_weave {parts : List Part} (hLine : parts.all Part.keepsLine = true)
    (fields : Fields (fieldsOf parts))
    (hNodes : ∀ node ∈ fields.stored.flatMap Stored.nodes, ∀ terminal ∈ node.tree.terminals,
      terminal.onLine = true) :
    ∀ terminal ∈ weave parts fields.marks, terminal.onLine = true := by
  induction parts with
  | nil => exact nofun
  | cons part parts ih =>
      obtain ⟨kept, rest, rfl⟩ := part.exists_keep fields
      rw [List.all_cons, Bool.and_eq_true] at hLine
      rw [Part.nodes_keep, List.forall_mem_append] at hNodes
      rw [Part.weave_keep, List.forall_mem_append]
      exact ⟨part.onLine_terminals hLine.1 kept hNodes.1, ih hLine.2 rest hNodes.2⟩

/-- What a tree says as it is written stands on one line. -/
theorem Tree.onLine_terminals {rule : Rule} (tree : Tree rule) :
    ∀ terminal ∈ tree.terminals, terminal.onLine = true := by
  induction tree using Tree.induct with
  | step rule content ih =>
      have hLine := rule.keepsLine_form
      rw [Tree.terminals]
      revert content hLine
      generalize rule.form = form
      intro content ih hLine
      cases content with
      | literal kind text => exact List.forall_mem_singleton.mpr rfl
      | oneOf child allowed tree => exact ih ⟨child, tree⟩ List.mem_cons_self
      | sequence fields => exact fields.onLine_weave hLine ih

/-- No tab is left in a text whose tabs are expanded. -/
theorem not_mem_expandTabs (text : String) : '\t' ∉ (expandTabs text).toList := by
  rw [expandTabs, String.toList_ofList, List.mem_flatMap]
  rintro ⟨c, -, hMem⟩
  split at hMem
  · simp at hMem
  · rename_i hOther
    exact hOther (List.mem_singleton.mp hMem).symm

/-- What is kept of a source has no tab in it, and no indentation before its last line. -/
theorem kept_of_parse {source : String} {document : Document}
    (hParse : parse source = .ok document) :
    ∀ node ∈ document.nodes, ∀ held ∈ node.tree.content.tokens,
      '\t' ∉ held.text.toList ∧ endsFlush held.text = true := by
  obtain ⟨spelled, made⟩ := spelled_of_parse hParse
  rw [parse_eq] at hParse
  obtain ⟨-, last, along, -⟩ := along_of_parseTokens hParse
  intro node hNode held hHeld
  obtain ⟨terminal, hTerminal, hKeeps⟩ := document.exists_keeps made node hNode held hHeld
  obtain ⟨before, after, hSplit⟩ := List.append_of_mem hTerminal
  rw [hSplit] at along
  obtain ⟨front, token, rest, hTokens, hReads, -, -⟩ := along.exists_split
  have hTab : '\t' ∉ token.text.toList := fun hMem =>
    not_mem_expandTabs source ((scanned_scan _).subset (by simp [hTokens]) hMem)
  rcases hKeeps with rfl | ⟨rfl, -⟩
  · obtain ⟨-, hText⟩ := hReads
    have hLine := document.onLine_terminals _ hTerminal
    simp only [Terminal.onLine, Bool.and_eq_true, Bool.not_eq_true', List.contains_eq_mem,
      decide_eq_false_iff_not] at hLine
    exact ⟨hText ▸ hTab, endsFlush_of_not_mem ((spelled node hNode held hHeld).not_mem_feed hLine.1 hLine.2)⟩
  · obtain ⟨-, hText⟩ := hReads
    rw [← hText]
    exact ⟨fun hMem => hTab ((relaid_dedent token.text).mem (by decide) hMem),
      endsFlush_dedent token.text⟩

/-! ### Reading the canonical text -/

/-- But for newlines, what is laid out of a document is what its terminals say. -/
theorem Document.matches_laidOut {document : Document} {tokens : List Token} :
    Matches (Document.laidOut document ++ []) tokens ↔ Matches document.terminals tokens := by
  obtain ⟨content⟩ := document
  cases content with
  | sequence fields =>
    cases fields with
    | optionalText comment rest =>
      cases rest with
      | child component rest =>
        cases rest
        cases comment <;> rfl

/-- The canonical text of a document that was read is read as that document just when no two of its
tokens run into each other there: no moniker stands in front of the points of a range, and no minus
sign in front of a number that begins with a digit outside ASCII. -/
theorem parse_canonical_iff_faithful {source : String} {document : Document}
    (hParse : parse source = .ok document) :
    parse document.canonical = .ok document ↔ document.Faithful := by
  obtain ⟨spelled, made⟩ := spelled_of_parse hParse
  have hKept := kept_of_parse hParse
  have settled : document.Settled := fun node hNode => ⟨made node hNode, fun held hHeld =>
    ⟨spelled node hNode held hHeld, (hKept node hNode held hHeld).2⟩⟩
  have untabbed : document.Untabbed := fun node hNode held hHeld => (hKept node hNode held hHeld).1
  rw [document.parse_canonical_eq untabbed]
  constructor
  · intro hSame
    by_contra hFuses
    obtain ⟨-, last, along, hLast⟩ := along_of_parseTokens hSame
    exact (Document.shows document settled).blocks hFuses _ [] document.behind_canonical
      (Document.matches_laidOut.mpr (along.matches hLast))
  · exact fun faithful => parseTokens_of_laidOut made (document.along_scan settled faithful)

/-- A range between numbers is read again from its canonical text, and a range from a moniker is
not. -/
theorem parse_canonical_iff_faithful_ranges :
    (∃ document, parse "[1 ..5]" = .ok document ∧ parse document.canonical = .ok document) ∧
      ∃ document, parse "[/a ..5]" = .ok document ∧ parse document.canonical ≠ .ok document := by
  constructor
  · obtain ⟨document, hParse, hFaithful⟩ := @exists_faithful_iff "[1 ..5]" false (by decide +kernel)
    exact ⟨document, hParse, (parse_canonical_iff_faithful hParse).mpr (hFaithful.mpr rfl)⟩
  · obtain ⟨document, hParse, hFaithful⟩ := @exists_faithful_iff "[/a ..5]" true (by decide +kernel)
    refine ⟨document, hParse, fun hSame => ?_⟩
    cases hFaithful.mp ((parse_canonical_iff_faithful hParse).mp hSame)

end DocumentLanguage
