import DocumentLanguage.Proofs.Grammar.Derivation
import DocumentLanguage.Proofs.Token.Layout
import DocumentLanguage.Proofs.Validation.Walk

/-!
What it means for the validator to have nothing against a tree: every token is one by itself, every
literal has a kind that its rule allows, and every delimiter to choose is among its choices.
-/
namespace DocumentLanguage

/-- Whether every token that a node keeps itself is one token by itself. -/
def Content.Spelled {form : Form} (content : Content form) : Prop :=
  ∀ held ∈ content.tokens, Alone held.kind held.text.toList

/-- Whether every token of a tree is one token by itself. -/
def Tree.Spelled {rule : Rule} (tree : Tree rule) : Prop :=
  ∀ node ∈ tree.nodes, node.tree.content.Spelled

/-- Whether a part that asks for something at least once has it. -/
def Part.fills : Part → Stored → Bool
  | .some _ _, .many nodes => !nodes.isEmpty
  | _, _ => true

/-- Whether a content has something wherever its form asks for it at least once: a line in what
spans lines, and a handler in what handles. -/
def Content.filled : {form : Form} → Content form → Bool
  | .sequence _ parts, .sequence fields => aligned Part.fills parts fields.stored
  | _, _ => true

/-- Whether all nodes of a tree have a line or a handler where one is asked for. -/
def Tree.Filled {rule : Rule} (tree : Tree rule) : Prop :=
  ∀ node ∈ tree.nodes, node.tree.content.filled = true

theorem soleKind?_eq_some_iff_alone {text : String} {kind : Kind} (hKind : kind ≠ .error) :
    soleKind? text = some kind ↔ Alone kind text.toList :=
  soleKind?_eq_some hKind

namespace Validator

/-- Whether a delimiter is among the choices of the place where it stands. -/
def Chosen (frame : Frame) (kind : Kind) (text : String) : Prop :=
  kind = .delimiter → ∀ choice ∈ frame.choice?, text ∈ choice.delimiters

/-- The validator has nothing against a token that is one by itself, where the node may hold its
kind and, if it is chosen, it is one of the choices. -/
theorem check?_eq_none {frame : Frame} {kind : Kind} {text : String} :
    check? (some frame) kind text = none ↔
      allows frame.rule kind = true ∧ Alone kind text.toList ∧ Chosen frame kind text := by
  constructor
  · intro hNone
    rw [check?] at hNone
    split at hNone
    · cases hNone
    · rename_i hFilter
      split at hNone
      · cases hNone
      · rename_i hAccepts
        split at hNone
        · cases hNone
        · rename_i hSole
          have hKind : kind ≠ .error := by
            rintro rfl
            simp [Kind.accepts, Kind.pattern?] at hAccepts
          refine ⟨by simpa [Option.filter] using hFilter, ?_, ?_⟩
          · exact (soleKind?_eq_some_iff_alone hKind).mp (not_not.mp hSole)
          · intro hDelimiter choice hChoice
            rw [if_pos hDelimiter] at hNone
            simp only [Option.bind_some, Option.mem_def.mp hChoice] at hNone
            split at hNone
            · rename_i hContains
              rw [choices_name] at hContains
              simpa using hContains
            · cases hNone
  · rintro ⟨hAllows, alone, hChosen⟩
    have hKind : kind ≠ .error := kind_ne_error_of_lexeme? alone
    have hSole := (soleKind?_eq_some_iff_alone hKind).mpr alone
    have hFilter : (some frame).filter (fun frame => !allows frame.rule kind) = none := by
      simp [Option.filter, hAllows]
    rw [check?, hFilter]
    simp only [alone.accepts, Bool.not_true, Bool.false_eq_true, if_false, hSole, ne_eq,
      not_true_eq_false, Option.bind_some]
    split
    · rename_i hDelimiter
      cases hChoice : frame.choice? with
      | none => rfl
      | some choice =>
          have hMem := hChosen hDelimiter choice hChoice
          simp [choices_name, hMem]
    · rfl

/-- Whether the validator knows the choice of every delimiter that parts leave from a place on. -/
def knows (rule : Rule) : Nat → List Part → Bool
  | _, [] => true
  | place, .choice _ choice :: parts =>
    decide (Frame.choice? ⟨rule, place⟩ = some choice) && knows rule (place + 1) parts
  | place, .token _ kind :: parts | place, .optionalToken _ kind :: parts =>
    decide (kind ≠ .delimiter) && knows rule (place + 1) parts
  | place, .keyword _ :: parts | place, .delimiter _ :: parts | place, .newline :: parts
  | place, .commit :: parts => knows rule place parts
  | place, .child _ _ :: parts | place, .line _ _ :: parts | place, .optional _ _ :: parts
  | place, .many _ _ :: parts | place, .some _ _ :: parts => knows rule (place + 1) parts

/-- The validator knows every choice of the grammar, and what the literals of a rule may be. -/
theorem knows_form (rule : Rule) :
    match rule.form with
    | .literal kinds => allows rule = kinds.contains ∧ kinds.contains .delimiter = false
    | .oneOf _ => True
    | .sequence _ parts => knows rule 0 parts = true ∧ allows rule = fun _ => true := by
  cases rule <;> trivial

variable {rule : Rule}

/-- The fields of a sequence pass their checks if and only if their texts are the ones that the
grammar allows there. -/
theorem passes_fields (hAllows : allows rule = fun _ => true) (place : Nat) (parts : List Part)
    (fields : Fields (fieldsOf parts)) (hKnows : knows rule place parts = true) :
    (Passes rule (tokensFrom place fields.stored) ∧ aligned Part.fills parts fields.stored = true) ↔
      (∀ held ∈ tokensFrom place fields.stored, Alone held.kind held.text.toList) ∧
        aligned Part.admits parts fields.stored = true := by
  induction parts generalizing place with
  | nil =>
      cases fields
      simp [Fields.stored, tokensFrom, Passes, aligned]
  | cons part parts ih =>
      obtain ⟨kept, rest, rfl⟩ := part.exists_keep fields
      cases part with
      | keyword | delimiter | newline | commit => exact ih place rest hKnows
      | choice label choice =>
          simp only [knows, Bool.and_eq_true, decide_eq_true_eq] at hKnows
          have hRest := ih (place + 1) rest hKnows.2
          simp only [Part.keep, Fields.stored, tokensFrom, aligned, Part.fixed?, Part.fills,
            Part.admits, passes_cons, List.forall_mem_cons, check?_eq_none, hAllows, Chosen,
            hKnows.1, Bool.and_eq_true, List.contains_eq_mem, decide_eq_true_eq]
          grind
      | token label kind =>
          simp only [knows, Bool.and_eq_true, decide_eq_true_eq] at hKnows
          have hRest := ih (place + 1) rest hKnows.2
          simp only [Part.keep, Fields.stored, tokensFrom, aligned, Part.fixed?, Part.fills,
            Part.admits, passes_cons, List.forall_mem_cons, check?_eq_none, hAllows, Chosen,
            Bool.and_eq_true]
          grind
      | optionalToken label kind =>
          simp only [knows, Bool.and_eq_true, decide_eq_true_eq] at hKnows
          have hRest := ih (place + 1) rest hKnows.2
          cases kept with
          | none =>
              simpa [Part.keep, Fields.stored, tokensFrom, aligned, Part.fixed?, Part.fills,
                Part.admits]
          | some kept =>
              simp only [Part.keep, Fields.stored, tokensFrom, aligned, Part.fixed?, Part.fills,
                Part.admits, passes_cons, List.forall_mem_cons, check?_eq_none, hAllows, Chosen,
                Bool.and_eq_true]
              grind
      | child label child | line label child | many label child =>
          simpa [Part.keep, Fields.stored, tokensFrom, aligned, Part.fixed?, Part.fills, Part.admits]
            using ih (place + 1) rest hKnows
      | optional label child =>
          cases kept <;>
            simpa [Part.keep, Fields.stored, tokensFrom, aligned, Part.fixed?, Part.fills,
              Part.admits] using ih (place + 1) rest hKnows
      | some label child =>
          have hRest := ih (place + 1) rest hKnows
          simp only [Part.keep, Fields.stored, tokensFrom, aligned, Part.fixed?, Part.fills,
            Part.admits, Bool.and_eq_true]
          grind

/-- Node by node the validator asks for tokens that are some by themselves and for choices and
kinds as the rules have them. -/
theorem passes_content {rule : Rule} (content : Content rule.form) :
    (Passes rule content.tokens ∧ content.filled = true) ↔ content.Spelled ∧ content.made = true := by
  have hKnows := knows_form rule
  revert content hKnows
  generalize rule.form = form
  intro content hKnows
  cases content with
  | @literal kinds kind text =>
      have hNotChosen : kind ∈ kinds → kind ≠ .delimiter := by
        rintro hKind rfl
        simp [hKind] at hKnows
      simp only [Passes, Content.tokens, Content.filled, Content.Spelled, Content.made,
        List.forall_mem_singleton, check?_eq_none, hKnows.1, Chosen, and_true,
        List.contains_eq_mem, decide_eq_true_eq]
      grind
  | oneOf child allowed tree =>
      simp [Passes, Content.tokens, Content.filled, Content.Spelled, Content.made]
  | sequence fields => exact passes_fields hKnows.2 0 _ fields hKnows.1

end Validator

open Validator

/-- The validator accepts a tree that has its lines and handlers just when all its tokens are
tokens by themselves and its nodes are as their rules ask. -/
theorem Tree.passesAll_iff {rule : Rule} {tree : Tree rule} :
    (PassesAll tree.nodes ∧ tree.Filled) ↔ tree.Spelled ∧ tree.Made := by
  simp only [PassesAll, Tree.Filled, Tree.Spelled, Tree.Made]
  have hNode : ∀ node : Node, (Passes node.rule node.tree.content.tokens ∧
      node.tree.content.filled = true) ↔
        node.tree.content.Spelled ∧ node.tree.content.made = true :=
    fun node => passes_content node.tree.content
  grind

end DocumentLanguage
