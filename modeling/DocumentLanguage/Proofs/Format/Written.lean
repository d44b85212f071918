import DocumentLanguage.Format.Canonical
import DocumentLanguage.Proofs.Text.Indentation
import DocumentLanguage.Proofs.Tree.Children

/-!
The canonical text as a function of the tree. What is written of a node depends on nothing but the
node and its depth, so it can be taken apart as the tree can.
-/
namespace DocumentLanguage

open Canonical

/-- The end of a line and the indentation of the next. -/
def lineBreak (depth : Nat) : List Char :=
  '\n' :: List.replicate (depth * Text.indentationWidth) ' '

/-- What is written before the field of a node at an index. -/
def gapBefore (node : Node) : Nat → List Char
  | 0 => []
  | index + 1 => (between node (index + 1)).toList

/-- Pieces put behind one another, each behind its gap. -/
def spread (gap : Nat → List Char) : Nat → List (List Char) → List Char
  | _, [] => []
  | index, piece :: pieces => gap index ++ piece ++ spread gap (index + 1) pieces

mutual

/-- What is written of a node at a depth. -/
def Tree.written (depth : Nat) : {rule : Rule} → Tree rule → List Char
  | rule, .mk content =>
    if spansLines rule then content.written (depth + 1) ⟨rule, .mk content⟩ ++ lineBreak depth
    else (if hasLine rule then lineBreak depth else (opening rule).toList) ++
      content.written depth ⟨rule, .mk content⟩ ++ (closing rule).toList

def Content.written (depth : Nat) : {form : Form} → Content form → Node → List Char
  | _, .literal _ text, _ => (Text.indent text depth).toList
  | _, .oneOf _ _ tree, _ => tree.written depth
  | _, .sequence fields, node => spread (gapBefore node) 0 (fields.pieces depth)

def Fields.pieces (depth : Nat) : {fields : List Field} → Fields fields → List (List Char)
  | _, .nil => []
  | _, .text text rest => (Text.indent text depth).toList :: rest.pieces depth
  | _, .optionalText text rest =>
    (text.map (Text.indent · depth)).elim [] String.toList :: rest.pieces depth
  | _, .child tree rest | _, .present tree rest => tree.written depth :: rest.pieces depth
  | _, .absent rest => [] :: rest.pieces depth
  | _, .many trees rest => trees.written depth :: rest.pieces depth

def Trees.written (depth : Nat) : {rule : Rule} → Trees rule → List Char
  | _, .nil => []
  | _, .cons tree trees => tree.written depth ++ trees.written depth

end

namespace Canonical

/-- A part of a walk that adds to the page what belongs to its depth, and changes nothing else. -/
def Writes (hook : Hook Page Empty Unit) (text : Nat → List Char) : Prop :=
  ∀ page : Page, hook.run.run page = (.ok (), page.write (String.ofList (text page.depth)))

theorem Page.write_nil (page : Page) : page.write (String.ofList []) = page := by
  simp [Page.write]

theorem Page.write_write (page : Page) (first second : List Char) :
    (page.write (String.ofList first)).write (String.ofList second) =
      page.write (String.ofList (first ++ second)) := by
  simp [Page.write, String.append_assoc]

theorem writes_pure : Writes (pure ()) fun _ => [] := by
  intro page
  rw [Page.write_nil]
  rfl

/-- Texts are added to a page in the order of the walk, all at the depth where the walk began. -/
theorem Writes.bind {first second : Hook Page Empty Unit} {front back : Nat → List Char}
    (hFirst : Writes first front) (hSecond : Writes second back) :
    Writes (do first; second) fun depth => front depth ++ back depth := by
  intro page
  rw [Hook.run_bind (hFirst page), hSecond, Page.write_write]
  rfl

/-- The gap before a field is written when the slot is told, and it does not depend on the depth. -/
theorem writes_before (node : Node) (index : Nat) :
    Writes (writer.before node index) fun _ => gapBefore node index := by
  cases index with
  | zero => exact writes_pure
  | succ index =>
      intro page
      simp only [gapBefore, String.ofList_toList]
      rfl

theorem writes_token (kind : Kind) (text : String) :
    Writes (writer.token kind text) fun depth => (Text.indent text depth).toList := by
  intro page
  rw [String.ofList_toList]
  rfl

mutual

/-- The walk over a node writes what is written of it, whatever was on the page before. -/
theorem writes_tree {rule : Rule} : (tree : Tree rule) → (index size : Nat) →
    Writes (tree.walk writer index size) fun depth => tree.written depth
  | .mk content, index, size => by
      intro page
      have hContent := writes_content content ⟨rule, .mk content⟩
      have hEnter : (writer.enter ⟨rule, .mk content⟩ index size).run.run page =
          (.ok (), page.enter rule) := rfl
      have hLeave : ∀ page : Page, (writer.leave ⟨rule, .mk content⟩ index size).run.run page =
          (.ok (), page.leave rule) := fun _ => rfl
      simp only [Tree.walk, Tree.written]
      rw [Hook.run_bind hEnter, Hook.run_bind (hContent _), hLeave]
      by_cases hSpans : spansLines rule = true
      · simp [Page.enter, Page.leave, hSpans, Page.write, Page.newLine, lineBreak,
          String.append_assoc]
      · by_cases hLine : hasLine rule = true
        · simp [Page.enter, Page.leave, hSpans, hLine, Page.write, Page.newLine, lineBreak,
            String.append_assoc]
        · simp [Page.enter, Page.leave, hSpans, hLine, Page.write, String.append_assoc]

theorem writes_content : {form : Form} → (content : Content form) → (node : Node) →
    Writes (content.walk writer node) fun depth => content.written depth node
  | _, .literal kind text, _ => writes_token kind text
  | _, .oneOf _ _ tree, _ => writes_tree tree 0 1
  | _, .sequence fields, node => writes_fields fields node 0

/-- The walk over the fields of a node writes their pieces with the gaps between them. -/
theorem writes_fields : {fields : List Field} → (kept : Fields fields) → (node : Node) →
    (index : Nat) → Writes (kept.walk writer node index) fun depth =>
      spread (gapBefore node) index (kept.pieces depth)
  | _, .nil, _, _ => writes_pure
  | _, .text text rest, node, index => by
      simp only [Fields.walk, Fields.pieces, spread, List.append_assoc]
      exact (writes_before node index).bind
        ((writes_token _ text).bind (writes_fields rest node (index + 1)))
  | _, .optionalText none rest, node, index => by
      simp only [Fields.walk, Fields.pieces, spread, List.append_assoc]
      exact (writes_before node index).bind
        (writes_pure.bind (writes_fields rest node (index + 1)))
  | _, .optionalText (some text) rest, node, index => by
      simp only [Fields.walk, Fields.pieces, spread, List.append_assoc]
      exact (writes_before node index).bind
        ((writes_token _ text).bind (writes_fields rest node (index + 1)))
  | _, .child tree rest, node, index => by
      simp only [Fields.walk, Fields.pieces, spread, List.append_assoc]
      exact (writes_before node index).bind
        ((writes_tree tree 0 1).bind (writes_fields rest node (index + 1)))
  | _, .present tree rest, node, index => by
      simp only [Fields.walk, Fields.pieces, spread, List.append_assoc]
      exact (writes_before node index).bind
        ((writes_tree tree 0 1).bind (writes_fields rest node (index + 1)))
  | _, .absent rest, node, index => by
      simp only [Fields.walk, Fields.pieces, spread, List.append_assoc]
      exact (writes_before node index).bind
        (writes_pure.bind (writes_fields rest node (index + 1)))
  | _, .many trees rest, node, index => by
      simp only [Fields.walk, Fields.pieces, spread, List.append_assoc]
      exact (writes_before node index).bind
        ((writes_trees trees 0 trees.length).bind (writes_fields rest node (index + 1)))

theorem writes_trees : {rule : Rule} → (trees : Trees rule) → (index size : Nat) →
    Writes (trees.walk writer index size) fun depth => trees.written depth
  | _, .nil, _, _ => writes_pure
  | _, .cons tree trees, index, size => by
      simp only [Trees.walk, Trees.written]
      exact (writes_tree tree index size).bind (writes_trees trees (index + 1) size)

end

end Canonical

/-- The canonical text of a tree is what is written of it at no depth. -/
theorem Tree.toList_canonical {rule : Rule} (tree : Tree rule) (index size : Nat) :
    (tree.canonical index size).toList = tree.written 0 := by
  rw [Tree.canonical, Tree.process, writes_tree tree index size]
  simp [Page.write]

/-- What is written of what is kept in one place. -/
def Stored.written (depth : Nat) : Stored → List Char
  | text _ kept => (Text.indent kept depth).toList
  | optionalText _ kept => (kept.map (Text.indent · depth)).elim [] String.toList
  | child node => node.tree.written depth
  | optional node => node.toList.flatMap (·.tree.written depth)
  | many nodes => nodes.flatMap (·.tree.written depth)

theorem Trees.written_eq {rule : Rule} (depth : Nat) : (trees : Trees rule) →
    trees.written depth = trees.asNodes.flatMap (·.tree.written depth)
  | .nil => rfl
  | .cons tree trees => by simp [Trees.written, trees.written_eq depth]

/-- The pieces of fields are those of what the fields keep. -/
theorem Fields.pieces_eq {fields : List Field} (depth : Nat) (kept : Fields fields) :
    kept.pieces depth = kept.stored.map (Stored.written depth) := by
  cases kept with
  | nil => rfl
  | text _ rest | optionalText _ rest | absent rest | child _ rest | present _ rest =>
      simp [Fields.pieces, Fields.stored, Stored.written, rest.pieces_eq depth]
  | many trees rest =>
      simp [Fields.pieces, Fields.stored, Stored.written, rest.pieces_eq depth,
        trees.written_eq depth]

/-- Whether no token of a tree has a tab in it. -/
def Tree.Untabbed {rule : Rule} (tree : Tree rule) : Prop :=
  ∀ node ∈ tree.nodes, ∀ held ∈ node.tree.content.tokens, '\t' ∉ held.text.toList

theorem not_mem_indent {text : String} (hText : '\t' ∉ text.toList) (depth : Nat) :
    '\t' ∉ (Text.indent text depth).toList :=
  fun hMem => hText ((Text.relaid_indent text depth).mem (by decide) hMem)

theorem not_mem_lineBreak (depth : Nat) : '\t' ∉ lineBreak depth := by
  simp [lineBreak]

/-- There are no tabs in a gap, and a line feed is only in the one behind the comment of a
document. -/
theorem of_mem_gapBefore {node : Node} {index : Nat} {c : Char} (hMem : c ∈ gapBefore node index) :
    c ≠ '\t' ∧ (c = '\n' → node.rule = .document) := by
  have hSeparator : ∀ rule place, ∀ c ∈ (separator rule place).toList, c ≠ '\t' ∧ c ≠ '\n' := by
    intro rule place
    unfold separator
    split <;> simp
  have hOptional : ∀ rule place index text, optionalSeparator? rule place = some (index, text) →
      ∀ c ∈ text.toList, c ≠ '\t' ∧ (c = '\n' → rule = .document) := by
    intro rule place index text hText
    unfold optionalSeparator? at hText
    split at hText <;> cases hText <;> simp
  cases index with
  | zero => simp [gapBefore] at hMem
  | succ index =>
      simp only [gapBefore, between] at hMem
      split at hMem
      · split at hMem
        · have hSpace : c = ' ' := List.mem_singleton.mp hMem
          exact ⟨by rw [hSpace]; decide, fun hFeed => absurd (hSpace.symm.trans hFeed) (by decide)⟩
        · simp at hMem
      · split at hMem
        · rename_i hText
          split at hMem
          · exact hOptional _ _ _ _ hText c hMem
          · simp at hMem
        · exact (hSeparator _ _ c hMem).imp_right fun hFeed hEq => absurd hEq hFeed

theorem not_mem_gapBefore (node : Node) (index : Nat) : '\t' ∉ gapBefore node index :=
  fun hMem => (of_mem_gapBefore hMem).1 rfl

theorem not_mem_spread {gap : Nat → List Char} (hGap : ∀ index, '\t' ∉ gap index) (index : Nat)
    {pieces : List (List Char)} (hPieces : ∀ piece ∈ pieces, '\t' ∉ piece) :
    '\t' ∉ spread gap index pieces := by
  induction pieces generalizing index with
  | nil => simp [spread]
  | cons piece pieces ih =>
      rw [List.forall_mem_cons] at hPieces
      simp only [spread, List.mem_append, not_or]
      exact ⟨⟨hGap index, hPieces.1⟩, ih (index + 1) hPieces.2⟩

/-- No piece has a tab in it if no token has and no node is written with one. -/
theorem not_mem_pieces (depth place : Nat) {stored : List Stored}
    (hTokens : ∀ held ∈ tokensFrom place stored, '\t' ∉ held.text.toList)
    (hNodes : ∀ node ∈ stored.flatMap Stored.nodes, '\t' ∉ node.tree.written depth) :
    ∀ piece ∈ stored.map (Stored.written depth), '\t' ∉ piece := by
  induction stored generalizing place with
  | nil => simp
  | cons first rest ih =>
      simp only [List.flatMap_cons, List.forall_mem_append] at hNodes
      rw [List.map_cons, List.forall_mem_cons]
      cases first with
      | text kind text =>
          simp only [tokensFrom, List.forall_mem_cons] at hTokens
          exact ⟨not_mem_indent hTokens.1 depth, ih (place + 1) hTokens.2 hNodes.2⟩
      | optionalText kind text =>
          cases text with
          | none => exact ⟨by simp [Stored.written], ih (place + 1) hTokens hNodes.2⟩
          | some text =>
              simp only [tokensFrom, List.forall_mem_cons] at hTokens
              exact ⟨not_mem_indent hTokens.1 depth, ih (place + 1) hTokens.2 hNodes.2⟩
      | child node =>
          exact ⟨hNodes.1 node List.mem_cons_self, ih (place + 1) hTokens hNodes.2⟩
      | optional node | many nodes =>
          refine ⟨?_, ih (place + 1) hTokens hNodes.2⟩
          simp only [Stored.written, List.mem_flatMap, not_exists, not_and]
          exact hNodes.1

theorem Tree.untabbed_mk {rule : Rule} {content : Content rule.form} :
    (Tree.mk content).Untabbed ↔ (∀ held ∈ content.tokens, '\t' ∉ held.text.toList) ∧
      ∀ child ∈ content.children, child.tree.Untabbed :=
  Tree.forall_nodes_mk

/-- No tab is written for a node if none is in its tokens or in its children, as no gap has one. -/
theorem Content.not_mem_written {form : Form} (content : Content form) {depth : Nat}
    (hTokens : ∀ held ∈ content.tokens, '\t' ∉ held.text.toList)
    (hChildren : ∀ child ∈ content.children, '\t' ∉ child.tree.written depth) (node : Node) :
    '\t' ∉ content.written depth node := by
  cases content with
  | literal kind text => exact not_mem_indent (hTokens ⟨0, kind, text⟩ List.mem_cons_self) depth
  | oneOf rule allowed tree => exact hChildren ⟨rule, tree⟩ List.mem_cons_self
  | sequence fields =>
      refine not_mem_spread (not_mem_gapBefore node) 0 ?_
      rw [Fields.pieces_eq]
      exact not_mem_pieces depth 0 hTokens hChildren

/-- Where no token has a tab there is none in the canonical text. -/
theorem Tree.not_mem_written {rule : Rule} (tree : Tree rule) (untabbed : tree.Untabbed)
    (depth : Nat) : '\t' ∉ tree.written depth := by
  induction tree using Tree.induct generalizing depth with
  | step rule content ih =>
      obtain ⟨hTokens, hChildren⟩ := Tree.untabbed_mk.mp untabbed
      have ih := fun child hChild => ih child hChild (hChildren child hChild)
      have hOpening : '\t' ∉ (opening rule).toList := by cases rule <;> decide
      have hClosing : '\t' ∉ (closing rule).toList := by cases rule <;> decide
      have hContent : ∀ depth, '\t' ∉ content.written depth ⟨rule, .mk content⟩ :=
        fun depth => content.not_mem_written hTokens (fun child hChild => ih child hChild depth) _
      have hBreak := not_mem_lineBreak depth
      simp only [Tree.written]
      split
      · simp [hContent, hBreak]
      · split <;> simp [hContent, hBreak, hOpening, hClosing]

end DocumentLanguage
