import DocumentLanguage.Proofs.Format.Written
import DocumentLanguage.Proofs.Grammar.Nested
import DocumentLanguage.Proofs.Text.Shift
import DocumentLanguage.Proofs.Tree.Shape
import DocumentLanguage.Tree.Build

/-!
The canonical text of a component at any depth. The writer indents in two ways: it begins lines at
the depth of the page, and it indents each literal by that depth. Both come to one margin in front
of the continuation lines, so a component that is moved deeper keeps its text but for that margin.
-/
namespace DocumentLanguage

open Canonical

/-! ### Texts that move with their depth -/

/-- Whether a text that depends on a depth moves to the right with it, from some depth on. -/
def Shifts (least : Nat) (text : Nat → List Char) : Prop :=
  ∀ base depth, least ≤ base →
    Text.shift (depth * Text.indentationWidth) (text base) = text (base + depth)

/-- Whether it also never ends with a line feed. -/
structure Travels (least : Nat) (text : Nat → List Char) : Prop where
  shifts : Shifts least text
  last : ∀ base, least ≤ base → (text base).getLast? ≠ some '\n'

/-- Two texts that do not end with a line feed make up one that does not, either. -/
theorem getLast?_append_ne {first second : List Char} (hFirst : first.getLast? ≠ some '\n')
    (hSecond : second.getLast? ≠ some '\n') : (first ++ second).getLast? ≠ some '\n' := by
  rw [List.getLast?_append]
  cases hLast : second.getLast? with
  | none => simpa using hFirst
  | some last => simpa [hLast] using hSecond

section

variable {least : Nat} {first second : Nat → List Char}

/-- Behind a text that may end with a line feed comes one that does not begin with one. -/
theorem Shifts.append (hFirst : Shifts least first) (hSecond : Shifts least second)
    (hSeam : ∀ base, least ≤ base → (first base).getLast? = some '\n' →
      (second base).head? ≠ some '\n') :
    Shifts least fun depth => first depth ++ second depth := by
  intro base depth hBase
  rw [Text.shift_append _ (hSeam base hBase), hFirst base depth hBase, hSecond base depth hBase]

theorem Travels.append (hFirst : Travels least first) (hSecond : Travels least second) :
    Travels least fun depth => first depth ++ second depth where
  shifts := hFirst.shifts.append hSecond.shifts fun base hBase hLast =>
    absurd hLast (hFirst.last base hBase)
  last base hBase := getLast?_append_ne (hFirst.last base hBase) (hSecond.last base hBase)

/-- One level deeper a text moves from one level less on, because the margin of that level is
already there. -/
theorem Travels.deeper (hTravels : Travels (least + 1) first) :
    Travels least fun depth => first (depth + 1) where
  shifts base depth hBase := by
    rw [hTravels.shifts (base + 1) depth (Nat.succ_le_succ hBase), Nat.add_right_comm]
  last base hBase := hTravels.last (base + 1) (Nat.succ_le_succ hBase)

theorem Shifts.mono {more : Nat} (hShifts : Shifts least first) (hMore : least ≤ more) :
    Shifts more first :=
  fun base depth hBase => hShifts base depth (hMore.trans hBase)

theorem Travels.mono {more : Nat} (hTravels : Travels least first) (hMore : least ≤ more) :
    Travels more first where
  shifts := hTravels.shifts.mono hMore
  last base hBase := hTravels.last base (hMore.trans hBase)

end

/-- A text without line feeds is the same at every depth, and it moves with any text around it. -/
theorem travels_const {text : List Char} (hLine : '\n' ∉ text) (least : Nat) :
    Travels least fun _ => text where
  shifts _ _ _ := Text.shift_of_not_mem hLine
  last _ _ hLast := hLine (List.mem_of_getLast? hLast)

/-- A literal moves along with its node because indentations add up. -/
theorem travels_indent {text : String} (hText : text.toList.getLast? ≠ some '\n') (least : Nat) :
    Travels least fun depth => (Text.indent text depth).toList where
  shifts base depth _ := by
    simp only [Text.toList_indent hText, Text.shift_shift, Nat.add_mul]
  last base _ := by
    rw [Text.toList_indent hText]
    exact Text.getLast?_shift hText

theorem shifts_lineBreak : Shifts 0 lineBreak := by
  intro base depth _
  have hSpaces : '\n' ∉ List.replicate (base * Text.indentationWidth) ' ' := by simp
  have hHead : (List.replicate (base * Text.indentationWidth) ' ').head? ≠ some '\n' :=
    fun hHead => hSpaces (List.mem_of_mem_head? hHead)
  rw [lineBreak, Text.shift_feed hHead, Text.shift_of_not_mem hSpaces,
    List.replicate_append_replicate, lineBreak, Nat.add_mul, Nat.add_comm]

/-- A line break moves from depth one on. At depth zero it ends with its line feed, which no text
that moves may do. -/
theorem travels_lineBreak : Travels 1 lineBreak where
  shifts base depth _ := shifts_lineBreak base depth (Nat.zero_le base)
  last base hBase := by
    obtain ⟨less, rfl⟩ := Nat.exists_eq_add_of_le' hBase
    have hSpaces : List.replicate ((less + 1) * Text.indentationWidth) ' ' =
        List.replicate (less * Text.indentationWidth + 3) ' ' ++ [' '] := by
      rw [← List.replicate_succ', Nat.add_mul]
      rfl
    rw [lineBreak, hSpaces, ← List.cons_append, List.getLast?_concat]
    decide

/-! ### What is written of a node -/

def Stored.texts : Stored → List String
  | text _ kept => [kept]
  | optionalText _ kept => kept.toList
  | _ => []

/-- The texts of the tokens that a node keeps are those of its fields, in order. -/
theorem map_text_tokensFrom (place : Nat) (kept : List Stored) :
    (tokensFrom place kept).map (·.text) = kept.flatMap Stored.texts := by
  induction kept generalizing place with
  | nil => rfl
  | cons stored kept ih =>
      cases stored with
      | optionalText kind text => cases text <;> simp [tokensFrom, Stored.texts, ih]
      | _ => simp [tokensFrom, Stored.texts, ih]

theorem Content.map_text_tokens {form : Form} (content : Content form) :
    content.tokens.map (·.text) = content.kept.flatMap Stored.texts := by
  cases content with
  | sequence fields => exact map_text_tokensFrom 0 fields.stored
  | _ => rfl

/-- What a node holds is written as its pieces with the gaps between them, whether it is one of
several alternatives or a sequence. -/
theorem Content.written_eq {form : Form} (content : Content form) (depth : Nat) (node : Node) :
    content.written depth node =
      spread (gapBefore node) 0 (content.kept.map (Stored.written depth)) := by
  cases content with
  | sequence fields => rw [Content.written, Fields.pieces_eq]; rfl
  | _ => simp [Content.written, Content.kept, Stored.written, spread, gapBefore]

/-- Only in a document a field stands on a line of its own. -/
theorem newline_not_mem_gapBefore {node : Node} (hRule : node.rule ≠ .document) (index : Nat) :
    '\n' ∉ gapBefore node index :=
  fun hMem => hRule ((of_mem_gapBefore hMem).2 rfl)

section

variable {least : Nat}

/-- Nodes in a row move if each of them does. -/
theorem travels_flatMap {nodes : List Node}
    (hNodes : ∀ node ∈ nodes, Travels least (node.tree.written ·)) :
    Travels least fun depth => nodes.flatMap (·.tree.written depth) := by
  induction nodes with
  | nil => exact travels_const List.not_mem_nil least
  | cons node nodes ih =>
      rw [List.forall_mem_cons] at hNodes
      exact hNodes.1.append (ih hNodes.2)

/-- What is kept in a field moves if its texts do not end with a line feed and its nodes move. -/
theorem Stored.travels_written {stored : Stored}
    (hTexts : ∀ text ∈ stored.texts, text.toList.getLast? ≠ some '\n')
    (hNodes : ∀ node ∈ stored.nodes, Travels least (node.tree.written ·)) :
    Travels least (stored.written ·) := by
  cases stored with
  | text kind kept => exact travels_indent (hTexts kept List.mem_cons_self) least
  | optionalText kind kept =>
      cases kept with
      | none => exact travels_const List.not_mem_nil least
      | some kept => exact travels_indent (hTexts kept List.mem_cons_self) least
  | child node => exact hNodes node List.mem_cons_self
  | optional node | many nodes => exact travels_flatMap hNodes

/-- Pieces with gaps between them move if the pieces do, since no gap has a line feed in it. -/
theorem travels_spread {gap : Nat → List Char} (hGap : ∀ index, '\n' ∉ gap index)
    {kept : List Stored} (hKept : ∀ stored ∈ kept, Travels least (stored.written ·)) (index : Nat) :
    Travels least fun depth => spread gap index (kept.map (Stored.written depth)) := by
  induction kept generalizing index with
  | nil => exact travels_const List.not_mem_nil least
  | cons stored kept ih =>
      rw [List.forall_mem_cons] at hKept
      exact ((travels_const (hGap index) least).append hKept.1).append (ih hKept.2 (index + 1))

/-- What a node holds moves if its children do. A document is left out, as it alone has a line feed
in one of its gaps. -/
theorem Content.travels_written {form : Form} {content : Content form} {node : Node}
    (hRule : node.rule ≠ .document)
    (hTokens : ∀ held ∈ content.tokens, held.text.toList.getLast? ≠ some '\n')
    (hChildren : ∀ child ∈ content.children, Travels least (child.tree.written ·)) :
    Travels least (content.written · node) := by
  have hTexts : ∀ text ∈ content.tokens.map (·.text), text.toList.getLast? ≠ some '\n' :=
    List.forall_mem_map.mpr hTokens
  rw [content.map_text_tokens] at hTexts
  rw [content.children_eq] at hChildren
  simp only [content.written_eq]
  refine travels_spread (newline_not_mem_gapBefore hRule) (fun stored hStored => ?_) 0
  exact Stored.travels_written
    (fun text hText => hTexts text (List.mem_flatMap.mpr ⟨stored, hStored, hText⟩))
    (fun child hChild => hChildren child (List.mem_flatMap.mpr ⟨stored, hStored, hChild⟩))

end

/-! ### Rules -/

/-- Whether what is written of a node can end with a line feed, at no depth. -/
def endsLine : Rule → Bool
  | .associations | .values | .statements => true
  | rule => spansLines rule

/-- Whether a node of a form holds nothing but one other node. -/
def Form.isWrapper : Form → Bool
  | literal _ => false
  | oneOf _ => true
  | sequence _ parts =>
    match fieldsOf parts with
    | [⟨_, .child _⟩] => true
    | _ => false

/-- A node that only wraps another one keeps this one and nothing else. -/
theorem Form.Keeps.eq_child {form : Form} {kept : List Stored} (hForm : form.isWrapper = true)
    (keeps : form.Keeps kept) : ∃ node : Node, kept = [.child node] := by
  cases form with
  | literal kinds => cases hForm
  | oneOf rules =>
      obtain ⟨node, hKept, -⟩ := keeps
      exact ⟨node, hKept⟩
  | sequence standing parts =>
      simp only [isWrapper] at hForm
      simp only [Keeps] at keeps
      split at hForm
      · rename_i hFields
        rw [hFields] at keeps
        cases keeps with
        | cons hStored hRest =>
            cases hRest
            rename_i stored
            cases stored with
            | child node => exact ⟨node, rfl⟩
            | _ => cases hStored
      · cases hForm

theorem endsLine_of_spansLines (rule : Rule) (hSpans : spansLines rule = true) :
    endsLine rule = true := by
  revert hSpans
  cases rule <;> decide

/-- Around what can end with a line feed there is nothing but a bracket, if anything. -/
theorem wraps_of_endsLine (rule : Rule) (hInside : rule.form.rules.any endsLine = true) :
    rule.form.isWrapper = true ∧ ¬spansLines rule = true ∧
      (endsLine rule = false → (closing rule).toList ≠ []) := by
  revert hInside
  cases rule <;> decide

/-- Lines of their own are only where lines are opened for them. -/
theorem spansLines_of_hasLine (rule : Rule) (hInside : rule.form.rules.any hasLine = true) :
    spansLines rule = true := by
  revert hInside
  cases rule <;> decide

theorem newline_not_mem_opening (rule : Rule) : '\n' ∉ (opening rule).toList := by
  cases rule <;> decide

theorem newline_not_mem_closing (rule : Rule) : '\n' ∉ (closing rule).toList := by
  cases rule <;> decide

/-- The least depth at which a node of a rule can stand. Around a line of its own lines have been
opened. -/
def leastDepth (rule : Rule) : Nat :=
  if hasLine rule then 1 else 0

/-- What is written before what a node holds, where it opens no lines. -/
def leadOf (rule : Rule) (depth : Nat) : List Char :=
  if hasLine rule then lineBreak depth else (opening rule).toList

theorem travels_leadOf (rule : Rule) : Travels (leastDepth rule) (leadOf rule) := by
  unfold leastDepth leadOf
  split
  · exact travels_lineBreak
  · exact travels_const (newline_not_mem_opening rule) 0

/-! ### The text of a component -/

/-- Whether no token of a tree ends with a line feed. -/
def Tree.Trimmed {rule : Rule} (tree : Tree rule) : Prop :=
  ∀ node ∈ tree.nodes, ∀ held ∈ node.tree.content.tokens,
    held.text.toList.getLast? ≠ some '\n'

theorem Tree.trimmed_mk {rule : Rule} {content : Content rule.form} :
    (Tree.mk content).Trimmed ↔
      (∀ held ∈ content.tokens, held.text.toList.getLast? ≠ some '\n') ∧
        ∀ child ∈ content.children, child.tree.Trimmed :=
  Tree.forall_nodes_mk

theorem Tree.written_of_spansLines {rule : Rule} (hSpans : spansLines rule = true)
    (content : Content rule.form) (depth : Nat) :
    (Tree.mk content).written depth =
      content.written (depth + 1) ⟨rule, .mk content⟩ ++ lineBreak depth := by
  rw [Tree.written, if_pos hSpans]

/-- A node that does not span lines is written as its lead, what it holds and its closing, all at
the same depth. -/
theorem Tree.written_of_not_spansLines {rule : Rule} (hSpans : ¬spansLines rule = true)
    (content : Content rule.form) (depth : Nat) :
    (Tree.mk content).written depth =
      leadOf rule depth ++ content.written depth ⟨rule, .mk content⟩ ++ (closing rule).toList := by
  rw [Tree.written, if_neg hSpans]
  rfl

/-- What is written of any node but a document moves with the depth, as long as no token ends with a
line feed. -/
theorem Tree.travels_written {rule : Rule} (tree : Tree rule) (hRule : rule ≠ .document)
    (trimmed : tree.Trimmed) :
    Shifts (leastDepth rule) (tree.written ·) ∧
      (endsLine rule = false → Travels (leastDepth rule) (tree.written ·)) := by
  induction tree using Tree.induct with
  | step rule content ih =>
      obtain ⟨hTokens, hTrimmed⟩ := Tree.trimmed_mk.mp trimmed
      have ih := fun child hChild => ih child hChild
        (fun hDocument => rule.document_not_mem (hDocument ▸ content.rule_mem child hChild))
        (hTrimmed child hChild)
      have hClosing := travels_const (newline_not_mem_closing rule) (leastDepth rule)
      have hLeast : ¬spansLines rule = true → ∀ child ∈ content.children,
          leastDepth child.rule ≤ leastDepth rule := by
        intro hSpans child hChild
        have hLine : ¬hasLine child.rule = true := fun hLine => hSpans (spansLines_of_hasLine rule
          (List.any_eq_true.mpr ⟨child.rule, content.rule_mem child hChild, hLine⟩))
        rw [leastDepth, if_neg hLine]
        exact Nat.zero_le _
      by_cases hInside : rule.form.rules.any endsLine = true
      · -- The child may end with a line feed: what comes behind it begins with none.
        obtain ⟨hWrapper, hSpans, hFilled⟩ := wraps_of_endsLine rule hInside
        obtain ⟨child, hKept⟩ := content.keeps_kept.eq_child hWrapper
        have hChild : child ∈ content.children := by simp [content.children_eq, hKept, Stored.nodes]
        have hContent : ∀ depth,
            content.written depth ⟨rule, .mk content⟩ = child.tree.written depth := by
          intro depth
          simp [content.written_eq, hKept, spread, gapBefore, Stored.written]
        simp only [Tree.written_of_not_spansLines hSpans, hContent]
        have hShifts := ((travels_leadOf rule).shifts.append
          ((ih child hChild).1.mono (hLeast hSpans child hChild))
          fun base hBase hLast => absurd hLast ((travels_leadOf rule).last base hBase)).append
          hClosing.shifts
          fun base hBase _ hHead => newline_not_mem_closing rule (List.mem_of_mem_head? hHead)
        refine ⟨hShifts, fun hEnds => ⟨hShifts, fun base hBase => ?_⟩⟩
        rw [List.getLast?_append_of_ne_nil _ (hFilled hEnds)]
        exact hClosing.last base hBase
      · have hContent : ∀ least, (∀ child ∈ content.children, leastDepth child.rule ≤ least) →
            Travels least (content.written · ⟨rule, .mk content⟩) := by
          intro least hLeast
          refine Content.travels_written hRule hTokens fun child hChild => ?_
          have hEnds : endsLine child.rule = false := by
            rw [← Bool.not_eq_true]
            exact fun hEnds => hInside
              (List.any_eq_true.mpr ⟨child.rule, content.rule_mem child hChild, hEnds⟩)
          exact ((ih child hChild).2 hEnds).mono (hLeast child hChild)
        by_cases hSpans : spansLines rule = true
        · simp only [Tree.written_of_spansLines hSpans]
          have hLevel : ∀ child ∈ content.children, leastDepth child.rule ≤ 1 := by
            intro child _
            rw [leastDepth]
            split <;> decide
          have hItems := (hContent 1 hLevel).deeper
          refine ⟨(hItems.shifts.append shifts_lineBreak
            fun base hBase hLast => absurd hLast (hItems.last base hBase)).mono (Nat.zero_le _), ?_⟩
          intro hEnds
          rw [endsLine_of_spansLines rule hSpans] at hEnds
          cases hEnds
        · simp only [Tree.written_of_not_spansLines hSpans]
          have hTravels := ((travels_leadOf rule).append
            (hContent _ (hLeast hSpans))).append hClosing
          exact ⟨hTravels.shifts, fun _ => hTravels⟩

/-! ### The depth of the page -/

namespace Canonical

def Page.behind (page : Page) (notice : Notice) : Page :=
  ((writer.answer notice).run.run page).2

/-- Whether along notices lines are closed only where some are open. There the depth is not zero,
so it is one less behind them. -/
def Page.Unsaturated : Page → List Notice → Prop
  | _, [] => True
  | page, notice :: notices =>
    (∀ node index size, notice = .leave node index size → spansLines node.rule = true →
      0 < page.depth) ∧ (page.behind notice).Unsaturated notices

namespace Page

variable (page : Page) (node : Node) (index size : Nat)

theorem depth_behind_enter : (page.behind (.enter node index size)).depth =
    if spansLines node.rule then page.depth + 1 else page.depth := by
  have hBehind : page.behind (.enter node index size) = page.enter node.rule := rfl
  rw [hBehind, enter]
  split
  · rfl
  · split <;> rfl

theorem depth_behind_leave : (page.behind (.leave node index size)).depth =
    if spansLines node.rule then page.depth - 1 else page.depth := by
  have hBehind : page.behind (.leave node index size) = page.leave node.rule := rfl
  rw [hBehind, leave]
  split <;> rfl

/-- A page is far from its greatest depth all along two lists of notices if it is so along each, the
second from where the first ends. -/
theorem unsaturated_append {page : Page} {first second : List Notice} :
    page.Unsaturated (first ++ second) ↔
      page.Unsaturated first ∧ (first.foldl behind page).Unsaturated second := by
  induction first generalizing page with
  | nil => simp [Unsaturated]
  | cons notice first ih => simp [Unsaturated, ih, and_assoc]

end Page

/-- Between entering a node and leaving it the depth comes back to where it was. -/
theorem unsaturated_of_nested {around : Option Node} {notices : List Notice}
    (nested : Nested around notices) (page : Page) :
    page.Unsaturated notices ∧ (notices.foldl Page.behind page).depth = page.depth := by
  induction nested generalizing page with
  | nil => exact ⟨trivial, rfl⟩
  | token kind text _ ih =>
      have hRest := ih (page.behind (.token kind text))
      exact ⟨⟨nofun, hRest.1⟩, hRest.2⟩
  | @slot node place _ _ ih =>
      have hRest := ih (page.behind (.slot node place))
      exact ⟨⟨nofun, hRest.1⟩, hRest.2⟩
  | @node _ node index size inner _ _ _ ihInside ihBehind =>
      obtain ⟨hInside, hDepth⟩ := ihInside (page.behind (.enter node index size))
      rw [Page.depth_behind_enter] at hDepth
      let closing := inner.foldl Page.behind (page.behind (.enter node index size))
      obtain ⟨hBehind, hBehindDepth⟩ := ihBehind (closing.behind (.leave node index size))
      rw [Page.depth_behind_leave] at hBehindDepth
      refine ⟨⟨nofun, Page.unsaturated_append.mpr ⟨hInside, ?_, hBehind⟩⟩, ?_⟩
      · rintro _ _ _ ⟨⟩ hSpans
        rw [hDepth, if_pos hSpans]
        exact Nat.succ_pos page.depth
      · rw [List.foldl_cons, List.foldl_append, List.foldl_cons, hBehindDepth, hDepth]
        split <;> rfl

/-- What a component adds to a page is what it adds to an empty one, under the margin of the page's
depth, and it leaves the depth as it was. So its first line and its empty lines are the same at any
depth, and of every other line only the spaces in front. -/
theorem process_component (component : Tree .component) (trimmed : component.Trimmed) (page : Page)
    (index size : Nat) :
    component.process writer page index size =
        (.ok (), ⟨page.text ++ Text.indent (component.canonical index size) page.depth, page.depth⟩) ∧
      page.Unsaturated (component.heard writer page index size) ∧
      Text.splitLines (Text.indent (component.canonical index size) page.depth).toList =
        Text.indentLines (page.depth * Text.indentationWidth)
          (Text.splitLines (component.canonical index size).toList) := by
  have hTravels := (component.travels_written (by decide) trimmed).2 rfl
  refine ⟨?_, ?_, Text.splitLines_indent _ _⟩
  · have hWritten : component.written page.depth =
        (Text.indent (component.canonical index size) page.depth).toList := by
      rw [Text.toList_indent] <;> rw [component.toList_canonical]
      · rw [hTravels.shifts 0 page.depth (Nat.le_refl 0), Nat.zero_add]
      · exact hTravels.last 0 (Nat.le_refl 0)
    refine (writes_tree component index size page).trans ?_
    simp only [hWritten, String.ofList_toList]
    rfl
  · rw [Tree.heard_eq_notices]
    exact (unsaturated_of_nested (component.nested_notices none index size) page).1

/-- A list in a list around a narrative with an empty line in it, as the value of an association. -/
theorem process_nested_list :
    let narrative := Component.ofEntity (.mk (.oneOf .string (by decide)
      (.mk (.literal .narrative "\">\n    one\n\n    two\n<\""))))
    let listOf (note : Option String) (value : Tree .component) := Component.ofCollection
      (Collection.ofValues (Values.ofList (.multiline note) [value]))
    let component := listOf none (listOf (some "! a note") narrative)
    component.Trimmed ∧ component.process writer ⟨"$key: ", 1⟩ 0 1 =
      (.ok (), ⟨"$key: [\n        [\n            \">\n                one\n\n                two\n" ++
        "            <\"  ! a note\n        ]\n    ]", 1⟩) := by
  intro narrative listOf component
  have hTrimmed : component.Trimmed := (by decide : ∀ node ∈ component.nodes,
    ∀ held ∈ node.tree.content.tokens, held.text.toList.getLast? ≠ some '\n')
  refine ⟨hTrimmed, ?_⟩
  rw [(process_component component hTrimmed ⟨"$key: ", 1⟩ 0 1).1]
  decide +kernel

end Canonical

end DocumentLanguage
