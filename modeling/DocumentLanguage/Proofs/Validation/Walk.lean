import DocumentLanguage.Proofs.Tree.Children
import DocumentLanguage.Validation

/-!
What the validator decides. It walks the whole tree, and at each token it knows the node around it
and the place in that node. So what it finds is what is wrong with the first token that is wrong by
itself, and it accepts a tree just when each node by itself is in order.
-/
namespace DocumentLanguage

/-! ### Tokens in the order of the document -/

/-- A token of a tree with the field that keeps it: the rule of its node, and the place and the
label of the field. -/
structure HeldToken where
  rule : Rule
  place : Nat
  label : String
  kind : Kind
  text : String

mutual

/-- The tokens of a tree in the order of the document. -/
def Tree.held : {rule : Rule} → Tree rule → List HeldToken
  | rule, .mk content => content.held rule

def Content.held : {form : Form} → Content form → Rule → List HeldToken
  | _, .literal kind text, rule => [⟨rule, 0, "value", kind, text⟩]
  | _, .oneOf _ _ tree, _ => tree.held
  | _, .sequence fields, rule => fields.held rule 0

def Fields.held : {fields : List Field} → Fields fields → Rule → Nat → List HeldToken
  | _, .nil, _, _ => []
  | _, @Fields.text label kind _ text rest, rule, place =>
    ⟨rule, place, label, kind, text⟩ :: rest.held rule (place + 1)
  | _, @Fields.optionalText label kind _ (some text) rest, rule, place =>
    ⟨rule, place, label, kind, text⟩ :: rest.held rule (place + 1)
  | _, .optionalText none rest, rule, place | _, .absent rest, rule, place =>
    rest.held rule (place + 1)
  | _, .child tree rest, rule, place | _, .present tree rest, rule, place =>
    tree.held ++ rest.held rule (place + 1)
  | _, .many trees rest, rule, place => trees.held ++ rest.held rule (place + 1)

def Trees.held : {rule : Rule} → Trees rule → List HeldToken
  | _, .nil => []
  | _, .cons tree trees => tree.held ++ trees.held

end

theorem Trees.held_eq {rule : Rule} : (trees : Trees rule) →
    trees.held = trees.asNodes.flatMap (·.tree.held)
  | .nil => rfl
  | .cons tree trees => by simp [Trees.held, trees.held_eq]

theorem Trees.forall_held {property : HeldToken → Prop} {rule : Rule} (trees : Trees rule) :
    (∀ held ∈ trees.held, property held) ↔
      ∀ node ∈ trees.asNodes, ∀ held ∈ node.tree.held, property held := by
  rw [trees.held_eq, List.forall_mem_flatMap]

/-- What holds of all tokens of fields holds of those that they keep themselves and of those of the
nodes right below. -/
theorem Fields.forall_held {property : Rule → Nat → Kind → String → Prop} :
    {fields : List Field} → (kept : Fields fields) → (rule : Rule) → (place : Nat) →
    ((∀ held ∈ kept.held rule place, property held.rule held.place held.kind held.text) ↔
      (∀ held ∈ tokensFrom place kept.stored, property rule held.place held.kind held.text) ∧
        ∀ child ∈ kept.stored.flatMap Stored.nodes, ∀ held ∈ child.tree.held,
          property held.rule held.place held.kind held.text)
  | _, .nil, rule, place => by simp [Fields.held, Fields.stored, tokensFrom]
  | _, .text _ rest, rule, place | _, .optionalText (some _) rest, rule, place => by
      simp only [Fields.held, Fields.stored, tokensFrom, List.forall_mem_cons, List.flatMap_cons,
        Stored.nodes, List.nil_append, rest.forall_held rule (place + 1), and_assoc]
  | _, .optionalText none rest, rule, place | _, .absent rest, rule, place => by
      simp only [Fields.held, Fields.stored, tokensFrom, List.flatMap_cons, Stored.nodes,
        Option.toList_none, List.nil_append, rest.forall_held rule (place + 1)]
  | _, .child tree rest, rule, place | _, .present tree rest, rule, place => by
      simp only [Fields.held, Fields.stored, tokensFrom, List.forall_mem_append, List.flatMap_cons,
        Stored.nodes, Option.toList_some, List.forall_mem_singleton,
        rest.forall_held rule (place + 1)]
      exact and_left_comm
  | _, .many trees rest, rule, place => by
      simp only [Fields.held, Fields.stored, tokensFrom, List.forall_mem_append, List.flatMap_cons,
        Stored.nodes, trees.forall_held, rest.forall_held rule (place + 1)]
      exact and_left_comm

/-- What holds of the tokens that a node holds is asked token by token, each with its place. -/
theorem Content.forall_held {property : Rule → Nat → Kind → String → Prop} (rule : Rule)
    {form : Form} (content : Content form) :
    (∀ held ∈ content.held rule, property held.rule held.place held.kind held.text) ↔
      (∀ held ∈ content.tokens, property rule held.place held.kind held.text) ∧
        ∀ child ∈ content.children, ∀ held ∈ child.tree.held,
          property held.rule held.place held.kind held.text := by
  cases content with
  | literal | oneOf => simp [Content.held, Content.tokens, Content.children]
  | sequence fields => exact fields.forall_held rule 0

/-- What holds of all tokens of a tree holds of those that its nodes keep. -/
theorem Tree.forall_held {property : Rule → Nat → Kind → String → Prop} {rule : Rule}
    (tree : Tree rule) :
    (∀ held ∈ tree.held, property held.rule held.place held.kind held.text) ↔
      ∀ node ∈ tree.nodes, ∀ held ∈ node.tree.content.tokens,
        property node.rule held.place held.kind held.text := by
  induction tree using Tree.induct with
  | step rule content ih =>
      rw [Tree.forall_nodes_mk, Tree.held, content.forall_held]
      exact and_congr_right fun _ => forall₂_congr ih

namespace Validator

/-- What the validator finds wrong with a token. -/
def fault? (held : HeldToken) : Option Inconsistency :=
  check? (some ⟨held.rule, held.place⟩) held.kind held.text

/-- Whether the validator has nothing against tokens of a node. -/
def Passes (rule : Rule) (tokens : List KeptToken) : Prop :=
  ∀ held ∈ tokens, check? (some ⟨rule, held.place⟩) held.kind held.text = none

/-- Whether the validator has nothing against the tokens of any node. -/
def PassesAll (nodes : List Node) : Prop :=
  ∀ node ∈ nodes, Passes node.rule node.tree.content.tokens

/-- A part of a walk that takes frames to others if it finds nothing, and stops at what it finds. -/
def Finds (hook : Hook (List Frame) Inconsistency Unit) (before after : List Frame) :
    Option Inconsistency → Prop
  | none => hook.run.run before = (.ok (), after)
  | some fault => ∃ last, hook.run.run before = (.error fault, last)

section

variable {hook next : Hook (List Frame) Inconsistency Unit} {before middle after : List Frame}
  {first second : Option Inconsistency}

/-- Of two walks the first fault is that of the first walk, or else that of the second from where
the first one left the frames. -/
theorem Finds.bind (hFirst : Finds hook before middle first)
    (hSecond : Finds next middle after second) :
    Finds (hook >>= fun _ => next) before after (first.or second) := by
  have hRun : (hook >>= fun _ => next).run.run before =
      match hook.run.run before with
      | (.ok _, state) => next.run.run state
      | (.error fault, state) => (.error fault, state) := by
    simp only [ExceptT.run_bind, StateT.run_bind]
    rcases hook.run.run before with ⟨outcome, state⟩
    cases outcome <;> rfl
  cases first with
  | none =>
      rw [Finds] at hFirst
      rw [hFirst] at hRun
      cases second with
      | none => exact hRun.trans hSecond
      | some fault =>
          obtain ⟨last, hError⟩ := hSecond
          exact ⟨last, hRun.trans hError⟩
  | some fault =>
      obtain ⟨last, hError⟩ := hFirst
      rw [hError] at hRun
      exact ⟨last, hRun⟩

theorem Finds.congr (finds : Finds hook before after first) (hSame : first = second) :
    Finds hook before after second :=
  hSame ▸ finds

theorem finds_modify (change : List Frame → List Frame) (before : List Frame) :
    Finds (modify change) before (change before) none :=
  rfl

theorem finds_pure (before : List Frame) : Finds (pure ()) before before none :=
  rfl

end

theorem findSome?_fault?_cons (held : HeldToken) (tokens : List HeldToken) :
    (held :: tokens).findSome? fault? = (fault? held).or (tokens.findSome? fault?) := by
  rw [List.findSome?_cons]
  cases fault? held <;> rfl

/-- A token is checked against the frame on top, and the frames are left as they are. -/
theorem finds_token (kind : Kind) (text : String) (frames : List Frame) :
    Finds (checker.token kind text) frames frames (check? frames.head? kind text) := by
  have hGet : ∀ next : List Frame → Hook (List Frame) Inconsistency Unit,
      (get >>= next).run.run frames = (next frames).run.run frames := fun _ => rfl
  cases hCheck : check? frames.head? kind text with
  | none =>
      rw [Finds, checker, hGet, hCheck]
      rfl
  | some fault =>
      refine ⟨frames, ?_⟩
      rw [checker, hGet, hCheck]
      rfl

theorem passes_cons {rule : Rule} {held : KeptToken} {tokens : List KeptToken} :
    Passes rule (held :: tokens) ↔
      check? (some ⟨rule, held.place⟩) held.kind held.text = none ∧ Passes rule tokens := by
  simp only [Passes, List.mem_cons, forall_eq_or_imp]

/-- The place before the field at an index is what the validator knows of it. -/
theorem finds_before (node : Node) (index : Nat) {rule : Rule} {place : Nat} {frames : List Frame}
    (hPlace : index = 0 → place = 0) :
    Finds (checker.before node index) (⟨rule, place⟩ :: frames) (⟨rule, index⟩ :: frames) none := by
  cases index with
  | zero =>
      rw [hPlace rfl]
      exact finds_pure _
  | succ index => exact finds_modify _ _

end Validator

open Validator

mutual

/-- A walk finds what is wrong with the first token that is wrong, and leaves the frames alone. -/
theorem Tree.finds_walk {rule : Rule} : (tree : Tree rule) → (index size : Nat) →
    (frames : List Frame) →
      Finds (tree.walk checker index size) frames frames (tree.held.findSome? fault?)
  | .mk content, index, size, frames => by
      obtain ⟨place, hContent⟩ := content.finds_walk ⟨rule, .mk content⟩ rule frames
      have hEnter : Finds (checker.enter ⟨rule, .mk content⟩ index size) frames
          (⟨rule, 0⟩ :: frames) none := finds_modify _ _
      have hLeave : Finds (checker.leave ⟨rule, .mk content⟩ index size)
          (⟨rule, place⟩ :: frames) frames none := finds_modify _ _
      exact (hEnter.bind (hContent.bind hLeave)).congr (by simp [Tree.held])

/-- The walk of what a node holds finds the first fault among its tokens, counting up the place in
the frame on top. -/
theorem Content.finds_walk {form : Form} : (content : Content form) → (node : Node) →
    (rule : Rule) → (frames : List Frame) →
      ∃ place, Finds (content.walk checker node) (⟨rule, 0⟩ :: frames) (⟨rule, place⟩ :: frames)
        ((content.held rule).findSome? fault?)
  | .literal kind text, _, _, _ =>
      ⟨0, (finds_token kind text _).congr (by simp [Content.held, fault?])⟩
  | .oneOf _ _ tree, _, _, _ => ⟨0, tree.finds_walk 0 1 _⟩
  | .sequence fields, node, rule, frames => fields.finds_walk node 0 rule 0 frames fun _ => rfl

/-- The walk of fields finds the first fault among them and counts a place for each slot. -/
theorem Fields.finds_walk {fields : List Field} : (kept : Fields fields) → (node : Node) →
    (index : Nat) → (rule : Rule) → (place : Nat) → (frames : List Frame) →
      (index = 0 → place = 0) →
        ∃ last, Finds (kept.walk checker node index) (⟨rule, place⟩ :: frames)
          (⟨rule, last⟩ :: frames) ((kept.held rule index).findSome? fault?)
  | .nil, _, _, _, place, _, _ => ⟨place, finds_pure _⟩
  | @Fields.text _ kind _ text rest, node, index, rule, place, frames, hPlace => by
      obtain ⟨last, hRest⟩ := rest.finds_walk node (index + 1) rule index frames (by simp)
      exact ⟨last, ((finds_before node index hPlace).bind
        ((finds_token kind text _).bind hRest)).congr (by
          rw [Fields.held, findSome?_fault?_cons]
          rfl)⟩
  | @Fields.optionalText _ kind _ none rest, node, index, rule, place, frames, hPlace => by
      obtain ⟨last, hRest⟩ := rest.finds_walk node (index + 1) rule index frames (by simp)
      exact ⟨last, ((finds_before node index hPlace).bind ((finds_pure _).bind hRest)).congr rfl⟩
  | @Fields.optionalText _ kind _ (some text) rest, node, index, rule, place, frames, hPlace => by
      obtain ⟨last, hRest⟩ := rest.finds_walk node (index + 1) rule index frames (by simp)
      exact ⟨last, ((finds_before node index hPlace).bind
        ((finds_token kind text _).bind hRest)).congr (by
          rw [Fields.held, findSome?_fault?_cons]
          rfl)⟩
  | .child tree rest, node, index, rule, place, frames, hPlace => by
      obtain ⟨last, hRest⟩ := rest.finds_walk node (index + 1) rule index frames (by simp)
      exact ⟨last, ((finds_before node index hPlace).bind
        ((tree.finds_walk 0 1 _).bind hRest)).congr (by simp [Fields.held, List.findSome?_append])⟩
  | .absent rest, node, index, rule, place, frames, hPlace => by
      obtain ⟨last, hRest⟩ := rest.finds_walk node (index + 1) rule index frames (by simp)
      exact ⟨last, ((finds_before node index hPlace).bind hRest).congr rfl⟩
  | .present tree rest, node, index, rule, place, frames, hPlace => by
      obtain ⟨last, hRest⟩ := rest.finds_walk node (index + 1) rule index frames (by simp)
      exact ⟨last, ((finds_before node index hPlace).bind
        ((tree.finds_walk 0 1 _).bind hRest)).congr (by simp [Fields.held, List.findSome?_append])⟩
  | .many trees rest, node, index, rule, place, frames, hPlace => by
      obtain ⟨last, hRest⟩ := rest.finds_walk node (index + 1) rule index frames (by simp)
      exact ⟨last, ((finds_before node index hPlace).bind
        ((trees.finds_walk 0 trees.length _).bind hRest)).congr
          (by simp [Fields.held, List.findSome?_append])⟩

/-- The walk of a run of nodes finds the first fault among the tokens of them all. -/
theorem Trees.finds_walk {rule : Rule} : (trees : Trees rule) → (index size : Nat) →
    (frames : List Frame) →
      Finds (trees.walk checker index size) frames frames (trees.held.findSome? fault?)
  | .nil, _, _, _ => finds_pure _
  | .cons tree trees, index, size, frames =>
      ((tree.finds_walk index size frames).bind
        (trees.finds_walk (index + 1) size frames)).congr
          (by simp [Trees.held, List.findSome?_append])

end

/-- The validator ends with what is wrong with the first token that is wrong. -/
theorem Tree.validate_eq {rule : Rule} (tree : Tree rule) (index size : Nat) :
    tree.validate index size = (tree.held.findSome? fault?).elim (.ok ()) .error := by
  have finds := tree.finds_walk index size []
  rw [Tree.validate, Tree.process]
  cases hFault : tree.held.findSome? fault? with
  | none =>
      rw [hFault, Finds] at finds
      rw [finds]
      rfl
  | some fault =>
      rw [hFault] at finds
      obtain ⟨last, hError⟩ := finds
      rw [hError]
      rfl

/-- The validator accepts a tree just when it has nothing against any node by itself. -/
theorem Tree.validate_eq_ok {rule : Rule} {tree : Tree rule} {index size : Nat} :
    tree.validate index size = .ok () ↔ PassesAll tree.nodes := by
  have hNone : tree.validate index size = .ok () ↔ tree.held.findSome? fault? = none := by
    rw [tree.validate_eq]
    cases tree.held.findSome? fault? <;> simp
  rw [hNone, List.findSome?_eq_none_iff]
  exact @Tree.forall_held (fun rule place kind text => check? (some ⟨rule, place⟩) kind text = none)
    rule tree

end DocumentLanguage
