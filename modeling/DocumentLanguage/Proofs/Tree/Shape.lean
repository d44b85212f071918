import DocumentLanguage.Proofs.Tree.Notices
import Mathlib.Data.List.Forall2

/-!
The shape of every walk. The notices are properly nested, and the slots right inside a node number
the gaps between its fields, whatever of them is absent. A processor that fails has got the same
notices as any other up to there.
-/
namespace DocumentLanguage

/-- Notices around which a node may stand and that are properly nested: what is entered is left
again, and each slot is one of the innermost node. -/
inductive Nested : Option Node → List Notice → Prop
  | nil {around : Option Node} : Nested around []
  | token {around : Option Node} (kind : Kind) (text : String) {notices : List Notice}
      (behind : Nested around notices) : Nested around (.token kind text :: notices)
  | slot {node : Node} (place : Nat) {notices : List Notice} (behind : Nested (some node) notices) :
      Nested (some node) (.slot node place :: notices)
  | node {around : Option Node} {node : Node} (index size : Nat) {inner notices : List Notice}
      (inside : Nested (some node) inner) (behind : Nested around notices) :
      Nested around (.enter node index size :: (inner ++ .leave node index size :: notices))

/-- Nested notices may stand one behind the other inside the same node. -/
theorem Nested.append {around : Option Node} {first second : List Notice}
    (front : Nested around first) (back : Nested around second) :
    Nested around (first ++ second) := by
  induction front with
  | nil => exact back
  | token kind text _ ih => exact .token kind text (ih back)
  | slot place _ ih => exact .slot place (ih back)
  | node index size inside _ _ ih =>
      rw [List.cons_append, List.append_assoc, List.cons_append]
      exact .node index size inside (ih back)

/-- The slots passed right inside the node that is entered first, where notices start so many nodes
deep. -/
def slotsInside : Nat → List Notice → List Nat
  | _, [] => []
  | depth, .enter _ _ _ :: notices => slotsInside (depth + 1) notices
  | depth, .leave _ _ _ :: notices => slotsInside (depth - 1) notices
  | depth, .slot _ place :: notices =>
    if depth = 1 then place :: slotsInside depth notices else slotsInside depth notices
  | depth, .token _ _ :: notices => slotsInside depth notices

/-- Whether something kept has the shape of a field. -/
def Shape.Keeps : Shape → Stored → Prop
  | text kind, .text kept _ => kept = kind
  | optionalText kind, .optionalText kept _ => kept = kind
  | child rule, .child node => node.rule = rule
  | optional rule, .optional kept => ∀ node ∈ kept, node.rule = rule
  | many rule, .many nodes => ∀ node ∈ nodes, node.rule = rule
  | _, _ => False

/-- Whether this is what a node of a form keeps, field by field as they are declared. -/
def Form.Keeps : Form → List Stored → Prop
  | literal _, kept => ∃ kind text, kept = [.text kind text]
  | oneOf rules, kept => ∃ node : Node, kept = [.child node] ∧ node.rule ∈ rules
  | sequence _ parts, kept =>
    List.Forall₂ (fun field stored => field.shape.Keeps stored) (fieldsOf parts) kept

def Form.fieldCount : Form → Nat
  | literal _ | oneOf _ => 1
  | sequence _ parts => (fieldsOf parts).length

/-- The shape of the notices along a walk of a node that stands at an index among so many. -/
structure Shaped {rule : Rule} (tree : Tree rule) (index size : Nat) (notices : List Notice) :
    Prop where
  /-- The node is entered, its fields are walked with a slot between each two, and it is left. -/
  framed : notices = .enter ⟨rule, tree⟩ index size ::
    (slotted ⟨rule, tree⟩ 0 (tree.content.kept.map Stored.notices) ++ [.leave ⟨rule, tree⟩ index size])
  /-- The fields are those that the rule declares. -/
  declared : rule.form.Keeps tree.content.kept
  nested : Nested none notices
  /-- The slots right inside the node depend on its rule alone. -/
  slots : slotsInside 0 notices = List.range' 1 (rule.form.fieldCount - 1)

/-! ### Nesting -/

/-- The notices of nodes in a row are nested if those of each node are. -/
theorem nested_flatMap {nodes : List Node} {around : Option Node}
    (hNodes : ∀ node ∈ nodes, ∀ index size, Nested around (node.tree.notices index size))
    (start size : Nat) :
    Nested around
      ((nodes.zipIdx start).flatMap fun (node, index) => node.tree.notices index size) := by
  induction nodes generalizing start with
  | nil => exact .nil
  | cons node nodes ih =>
      rw [List.forall_mem_cons] at hNodes
      exact (hNodes.1 start size).append (ih hNodes.2 (start + 1))

/-- The notices along what is kept in one field are nested if those of its nodes are. -/
theorem Stored.nested_notices {stored : Stored} {around : Option Node}
    (hNodes : ∀ node ∈ stored.nodes, ∀ index size, Nested around (node.tree.notices index size)) :
    Nested around stored.notices := by
  cases stored with
  | text kind kept => exact .token kind kept .nil
  | optionalText kind kept =>
      cases kept with
      | none => exact .nil
      | some kept => exact .token kind kept .nil
  | child node => exact hNodes node List.mem_cons_self 0 1
  | optional node =>
      cases node with
      | none => exact .nil
      | some node => exact hNodes node List.mem_cons_self 0 1
  | many nodes => exact nested_flatMap hNodes 0 nodes.length

theorem nested_slotBefore (node : Node) (index : Nat) :
    Nested (some node) (slotBefore node index) := by
  cases index with
  | zero => exact .nil
  | succ index => exact .slot (index + 1) .nil

/-- The notices of fields are nested inside their node, and the slots between them belong to that
node. -/
theorem nested_slotted {node : Node} (index : Nat) {fields : List (List Notice)}
    (hFields : ∀ field ∈ fields, Nested (some node) field) :
    Nested (some node) (slotted node index fields) := by
  induction fields generalizing index with
  | nil => exact .nil
  | cons field fields ih =>
      rw [List.forall_mem_cons] at hFields
      exact ((nested_slotBefore node index).append hFields.1).append (ih (index + 1) hFields.2)

/-- The children of a node are the nodes among what it keeps. -/
theorem Content.children_eq {form : Form} (content : Content form) :
    content.children = content.kept.flatMap Stored.nodes := by
  cases content <;> rfl

/-- The notices of what a node holds are nested inside it if the notices of its children are. -/
theorem Content.nested_slotted {form : Form} (content : Content form) (node : Node)
    (hChildren : ∀ child ∈ content.children, ∀ index size,
      Nested (some node) (child.tree.notices index size)) :
    Nested (some node) (slotted node 0 (content.kept.map Stored.notices)) := by
  rw [content.children_eq] at hChildren
  refine DocumentLanguage.nested_slotted 0 fun field hField => ?_
  obtain ⟨stored, hStored, rfl⟩ := List.mem_map.mp hField
  exact Stored.nested_notices fun node hNode =>
    hChildren node (List.mem_flatMap.mpr ⟨stored, hStored, hNode⟩)

/-- The notices along a walk are nested: whatever is told between entering a node and leaving it is
about the node or about one below it. -/
theorem Tree.nested_notices {rule : Rule} (tree : Tree rule) (around : Option Node)
    (index size : Nat) : Nested around (tree.notices index size) := by
  induction tree using Tree.induct generalizing around index size with
  | step rule content ih =>
      rw [(Tree.makes_notices _ index size).2]
      exact .node index size (content.nested_slotted _ fun child hChild => ih child hChild _) .nil

/-! ### Slots -/

/-- Notices below the nodes right inside pass no slot right inside. -/
theorem Nested.slotsInside_append {around : Option Node} {notices : List Notice}
    (nested : Nested around notices) {depth : Nat} (hDepth : 1 < depth) (behind : List Notice) :
    slotsInside depth (notices ++ behind) = slotsInside depth behind := by
  induction nested generalizing depth behind with
  | nil => rfl
  | token kind text _ ih => exact ih hDepth behind
  | slot place _ ih =>
      rw [List.cons_append, slotsInside, if_neg (by omega)]
      exact ih hDepth behind
  | node index size _ _ ihInside ihBehind =>
      rw [List.cons_append, slotsInside, List.append_assoc, ihInside (by omega), List.cons_append,
        slotsInside, Nat.add_sub_cancel]
      exact ihBehind hDepth behind

/-- The notices along a walk of a node have no slot right inside the node around it, since all of
its own slots are told between entering and leaving it. -/
theorem Tree.slotsInside_notices {rule : Rule} (tree : Tree rule) (index size : Nat)
    (behind : List Notice) :
    slotsInside 1 (tree.notices index size ++ behind) = slotsInside 1 behind := by
  have hInside := tree.content.nested_slotted ⟨rule, tree⟩ fun child _ => child.tree.nested_notices _
  rw [(tree.makes_notices index size).2, List.cons_append, slotsInside, List.append_assoc,
    hInside.slotsInside_append (Nat.lt_add_one 1)]
  rfl

/-- Nodes in a row inside another one add no slots of that one, as their slots are deeper. -/
theorem slotsInside_flatMap (nodes : List Node) (start size : Nat) (behind : List Notice) :
    slotsInside 1
        (((nodes.zipIdx start).flatMap fun (node, index) => node.tree.notices index size) ++
          behind) = slotsInside 1 behind := by
  induction nodes generalizing start with
  | nil => rfl
  | cons node nodes ih =>
      rw [List.zipIdx_cons, List.flatMap_cons, List.append_assoc, node.tree.slotsInside_notices, ih]

/-- The notices along what is kept in one field have no slot right inside the node with that field.
-/
theorem Stored.slotsInside_notices (stored : Stored) (behind : List Notice) :
    slotsInside 1 (stored.notices ++ behind) = slotsInside 1 behind := by
  cases stored with
  | text kind kept => rfl
  | optionalText kind kept => cases kept <;> rfl
  | child node => exact node.tree.slotsInside_notices 0 1 behind
  | optional node =>
      cases node with
      | none => rfl
      | some node => exact node.tree.slotsInside_notices 0 1 behind
  | many nodes => exact slotsInside_flatMap nodes 0 nodes.length behind

/-- Right inside a node its slots come one after another, one before each field but the first. -/
theorem slotsInside_slotted (node : Node) (index : Nat) (kept : List Stored) (behind : List Notice) :
    slotsInside 1 (slotted node (index + 1) (kept.map Stored.notices) ++ behind) =
      List.range' (index + 1) kept.length ++ slotsInside 1 behind := by
  induction kept generalizing index with
  | nil => rfl
  | cons stored kept ih =>
      rw [List.map_cons, slotted, slotBefore, List.append_assoc, List.append_assoc, List.cons_append,
        List.nil_append, slotsInside, if_pos rfl, stored.slotsInside_notices, ih, List.length_cons,
        List.range'_succ, List.cons_append]

/-! ### Fields -/

/-- Every field keeps something of its own shape, and nothing is kept without a field. -/
theorem Fields.keeps_stored : {fields : List Field} → (kept : Fields fields) →
    List.Forall₂ (fun field stored => field.shape.Keeps stored) fields kept.stored
  | _, .nil => .nil
  | _, .text _ rest => .cons rfl rest.keeps_stored
  | _, .optionalText _ rest => .cons rfl rest.keeps_stored
  | _, .child _ rest => .cons rfl rest.keeps_stored
  | _, .absent rest => .cons (by simp [Shape.Keeps]) rest.keeps_stored
  | _, .present _ rest => .cons (by simp [Shape.Keeps]) rest.keeps_stored
  | _, .many trees rest => .cons (by simp [Shape.Keeps, Trees.asNodes]) rest.keeps_stored

/-- A node keeps the fields that its form declares, in their order and each in its shape. -/
theorem Content.keeps_kept {form : Form} (content : Content form) : form.Keeps content.kept := by
  cases content with
  | literal kind text => exact ⟨kind, text, rfl⟩
  | oneOf rule allowed tree => exact ⟨⟨rule, tree⟩, rfl, allowed⟩
  | sequence fields => exact fields.keeps_stored

/-- A node keeps as many things as its form has fields. -/
theorem Form.Keeps.length_eq {form : Form} {kept : List Stored} (keeps : form.Keeps kept) :
    kept.length = form.fieldCount := by
  cases form with
  | literal kinds =>
      obtain ⟨kind, text, rfl⟩ := keeps
      rfl
  | oneOf rules =>
      obtain ⟨node, rfl, -⟩ := keeps
      rfl
  | sequence standing parts => exact (List.Forall₂.length_eq keeps).symm

/-- The notices along every walk have the shape that the node has. A processor that fails on none
gets them all; one that fails gets the first of them up to where it fails, and its error ends the
walk. -/
theorem Tree.shaped_notices {rule : Rule} (tree : Tree rule) (index size : Nat) :
    Shaped tree index size (tree.notices index size) ∧
      ∀ (σ ε : Type) (processor : Processor σ ε) (state : σ),
        processor.Takes state (tree.notices index size) (tree.heard processor state index size)
          (tree.process processor state index size) := by
  have hNotices := (tree.makes_notices index size).2
  refine ⟨⟨hNotices, tree.content.keeps_kept, tree.nested_notices none index size, ?_⟩, ?_⟩
  · rw [hNotices, ← tree.content.keeps_kept.length_eq]
    cases tree.content.kept with
    | nil => rfl
    | cons stored kept =>
        rw [List.map_cons, slotted, slotBefore, List.nil_append, slotsInside, List.append_assoc,
          stored.slotsInside_notices, slotsInside_slotted]
        simp [slotsInside]
  · exact fun σ ε processor state => tree.takes_heard processor state index size

/-- A method has three slots also where it has no arguments. -/
example :
    let method : Tree .method :=
      .mk (.sequence (.text "bag" (.text "<-" (.text "pop" (.absent .nil)))))
    slotsInside 0 (method.notices 0 1) = [1, 2, 3] := by decide

end DocumentLanguage
