import DocumentLanguage.Proofs.Validation.Walk

/-!
The validator as a judgement on each token. It is told of nothing but the tokens, of the nodes
around them and of the places passed there; what it knows from that is what the label of the field
says. So it finds what is wrong with the first token that is not sound.
-/
namespace DocumentLanguage

/-- The fields whose delimiter is one to choose, each with its choice. -/
def choiceFields : List (Rule × String × Choice) :=
  [(.predicate, "operator", .operator), (.inversion, "inverse", .inverse),
   (.letClause, "assign", .assign), (.method, "invoke", .invoke),
   (.range, "left", .leftBracket), (.range, "right", .rightBracket)]

/-- The choice that the token of a field is made in, if there is one. -/
def choiceOf? (rule : Rule) (label : String) : Option Choice :=
  (choiceFields.find? fun field => field.1 = rule && field.2.1 = label).map (·.2.2)

namespace HeldToken

/-- Whether the node may hold a token of this kind. -/
structure Allowed (held : HeldToken) : Prop where
  element : held.rule = .element → held.kind ∈ Kind.elements
  string : held.rule = .string → held.kind ∈ Kind.strings

/-- Whether a token is in order: its node may hold its kind, its text looks like its kind and is,
scanned alone, one token of its kind, and a delimiter to choose is one of its choices. -/
structure Sound (held : HeldToken) : Prop where
  allowed : held.Allowed
  accepted : held.kind.accepts held.text = true
  alone : ∃ token, scan held.text = [token] ∧ token.kind = held.kind ∧ token.text = held.text
  chosen : ∀ choice ∈ choiceOf? held.rule held.label, held.text ∈ choices choice.name

/-- What is wrong with a token. Each reason counts only where those before it do not. -/
inductive Faulty (held : HeldToken) : Inconsistency → Prop
  | unexpectedKind (hKind : ¬ held.Allowed) : Faulty held (.unexpectedKind held.rule held.kind)
  | malformed (allowed : held.Allowed) (hText : held.kind.accepts held.text = false) :
      Faulty held (.malformed held.kind held.text)
  | misread (allowed : held.Allowed) (hText : held.kind.accepts held.text = true)
      (hAlone : soleKind? held.text ≠ some held.kind) :
      Faulty held (.misread held.kind held.text (soleKind? held.text))
  | notAChoice {choice : Choice} (allowed : held.Allowed)
      (hText : held.kind.accepts held.text = true) (hAlone : soleKind? held.text = some held.kind)
      (hChoice : choiceOf? held.rule held.label = some choice)
      (hOther : held.text ∉ choices choice.name) :
      Faulty held (.notAChoice choice held.text)

end HeldToken

namespace Validator

/-- What the validator takes a token of a kind at a place for that is one to choose. -/
def chosenAs (rule : Rule) (place : Nat) (kind : Kind) : Option Choice :=
  if kind = .delimiter then Frame.choice? ⟨rule, place⟩ else none

/-- Whether at the places from one on the validator knows the choices of the fields. -/
def labelled (rule : Rule) : Nat → List Field → Bool
  | _, [] => true
  | place, ⟨label, .text kind⟩ :: fields | place, ⟨label, .optionalText kind⟩ :: fields =>
    decide (chosenAs rule place kind = choiceOf? rule label) && labelled rule (place + 1) fields
  | place, _ :: fields => labelled rule (place + 1) fields

theorem labelled_form (rule : Rule) :
    match rule.form with
    | .literal _ => Frame.choice? ⟨rule, 0⟩ = none ∧ choiceOf? rule "value" = none
    | .oneOf _ => True
    | .sequence _ parts => labelled rule 0 (fieldsOf parts) = true := by
  cases rule <;> trivial

/-- Whether the validator takes a token for what its field says. -/
def Known (held : HeldToken) : Prop :=
  chosenAs held.rule held.place held.kind = choiceOf? held.rule held.label

/-- The tokens that fields hold are checked against the choice that is known at their place. -/
theorem known_fields (rule : Rule) {fields : List Field} (kept : Fields fields) (place : Nat)
    (hLabelled : labelled rule place fields = true)
    (hNodes : ∀ child ∈ kept.stored.flatMap Stored.nodes, ∀ held ∈ child.tree.held, Known held) :
    ∀ held ∈ kept.held rule place, Known held := by
  match kept with
  | .nil => exact fun _ hHeld => absurd hHeld List.not_mem_nil
  | .text _ rest | .optionalText (some _) rest =>
      simp only [labelled, Bool.and_eq_true, decide_eq_true_eq] at hLabelled
      rw [Fields.held, List.forall_mem_cons]
      exact ⟨hLabelled.1, known_fields rule rest (place + 1) hLabelled.2 hNodes⟩
  | .optionalText none rest =>
      simp only [labelled, Bool.and_eq_true] at hLabelled
      exact known_fields rule rest (place + 1) hLabelled.2 hNodes
  | .absent rest =>
      simp only [labelled] at hLabelled
      exact known_fields rule rest (place + 1) hLabelled hNodes
  | .child tree rest | .present tree rest =>
      simp only [labelled] at hLabelled
      simp only [Fields.stored, List.flatMap_cons, Stored.nodes, Option.toList_some,
        List.forall_mem_append, List.forall_mem_singleton] at hNodes
      rw [Fields.held, List.forall_mem_append]
      exact ⟨hNodes.1, known_fields rule rest (place + 1) hLabelled hNodes.2⟩
  | .many trees rest =>
      simp only [labelled] at hLabelled
      simp only [Fields.stored, List.flatMap_cons, Stored.nodes, List.forall_mem_append] at hNodes
      rw [Fields.held, List.forall_mem_append]
      exact ⟨trees.forall_held.mpr hNodes.1, known_fields rule rest (place + 1) hLabelled hNodes.2⟩

/-- However deep a token is, the validator takes it for what its field says. -/
theorem known_of_mem_held {rule : Rule} (tree : Tree rule) : ∀ held ∈ tree.held, Known held := by
  induction tree using Tree.induct with
  | step rule content ih =>
      have hLabelled := labelled_form rule
      rw [Tree.held]
      revert content hLabelled
      generalize rule.form = form
      intro content ih hLabelled
      cases content with
      | literal kind text =>
          rw [Content.held, List.forall_mem_singleton, Known, chosenAs, hLabelled.2]
          split
          · exact hLabelled.1
          · rfl
      | oneOf other allowed tree => exact ih ⟨other, tree⟩ List.mem_cons_self
      | sequence fields => exact known_fields rule fields 0 hLabelled ih

/-- The kinds that the validator allows at a place are those that the grammar allows there. -/
theorem allows_iff (held : HeldToken) : allows held.rule held.kind = true ↔ held.Allowed := by
  have hElement : held.kind.isElement = true ↔ held.kind ∈ Kind.elements := List.contains_iff_mem
  have hString : held.kind.isString = true ↔ held.kind ∈ Kind.strings := List.contains_iff_mem
  unfold allows
  split
  · rename_i hRule
    exact hElement.trans ⟨fun hKind => ⟨fun _ => hKind, by simp [hRule]⟩,
      fun allowed => allowed.element hRule⟩
  · rename_i hRule
    exact hString.trans ⟨fun hKind => ⟨by simp [hRule], fun _ => hKind⟩,
      fun allowed => allowed.string hRule⟩
  · rename_i hElement hString
    exact iff_of_true rfl ⟨fun hRule => absurd hRule hElement, fun hRule => absurd hRule hString⟩

/-- A text has a kind of its own if it is scanned as a single token of this kind. -/
theorem soleKind?_eq_some_iff {text : String} {kind : Kind} :
    soleKind? text = some kind ↔
      ∃ token, scan text = [token] ∧ token.kind = kind ∧ token.text = text := by
  unfold soleKind?
  split
  · rename_i token hScan
    simp only [hScan, List.cons.injEq, and_true, exists_eq_left']
    split
    · rename_i hText
      simp [hText]
    · rename_i hText
      simp [hText]
  · rename_i hNone
    exact iff_of_false nofun fun ⟨token, hScan, _⟩ => hNone token hScan

/-- The last thing that the validator asks is whether a token is one of its choices. -/
theorem fault?_eq_of_alone {held : HeldToken} (known : Known held) (allowed : held.Allowed)
    (hText : held.kind.accepts held.text = true) (hAlone : soleKind? held.text = some held.kind) :
    fault? held = (choiceOf? held.rule held.label).bind fun choice =>
      if (choices choice.name).contains held.text then none
      else some (.notAChoice choice held.text) := by
  have hFilter : (some (⟨held.rule, held.place⟩ : Frame)).filter
      (fun frame => !allows frame.rule held.kind) = none := by
    simp [Option.filter, (allows_iff held).mpr allowed]
  rw [Known, chosenAs] at known
  rw [← known, fault?, check?, hFilter]
  simp only [hText, hAlone, Bool.not_true, Bool.false_eq_true, if_false, ne_eq,
    not_true_eq_false, Option.bind_some]
  split
  · cases Frame.choice? ⟨held.rule, held.place⟩ <;> rfl
  · rfl

/-- What the validator finds wrong with a token that it knows is wrong with it, and nothing is wrong
with a token where it finds nothing. -/
theorem judges {held : HeldToken} (known : Known held) :
    match fault? held with
    | none => held.Sound
    | some fault => held.Faulty fault := by
  by_cases hAllows : allows held.rule held.kind = true
  · have allowed := (allows_iff held).mp hAllows
    have hFilter : (some (⟨held.rule, held.place⟩ : Frame)).filter
        (fun frame => !allows frame.rule held.kind) = none := by
      simp [Option.filter, hAllows]
    by_cases hText : held.kind.accepts held.text = true
    · by_cases hAlone : soleKind? held.text = some held.kind
      · have alone := soleKind?_eq_some_iff.mp hAlone
        rw [fault?_eq_of_alone known allowed hText hAlone]
        cases hChoice : choiceOf? held.rule held.label with
        | none => exact ⟨allowed, hText, alone, by simp [hChoice]⟩
        | some choice =>
            rw [Option.bind_some]
            by_cases hMem : held.text ∈ choices choice.name
            · rw [if_pos (List.contains_iff_mem.mpr hMem)]
              exact ⟨allowed, hText, alone, by simp [hChoice, hMem]⟩
            · rw [if_neg (mt List.contains_iff_mem.mp hMem)]
              exact .notAChoice allowed hText hAlone hChoice hMem
      · rw [fault?, check?, hFilter]
        simpa [hText, hAlone] using HeldToken.Faulty.misread allowed hText hAlone
    · have hText : held.kind.accepts held.text = false := by simpa using hText
      rw [fault?, check?, hFilter]
      simpa [hText] using HeldToken.Faulty.malformed allowed hText
  · have hFilter : (some (⟨held.rule, held.place⟩ : Frame)).filter
        (fun frame => !allows frame.rule held.kind) = some ⟨held.rule, held.place⟩ := by
      simp [Option.filter, hAllows]
    rw [fault?, check?, hFilter]
    exact .unexpectedKind fun allowed => hAllows ((allows_iff held).mpr allowed)

end Validator

namespace HeldToken

variable {held : HeldToken} {fault other : Inconsistency}

/-- A token with something wrong is not sound. -/
theorem Faulty.not_sound (faulty : held.Faulty fault) : ¬ held.Sound := by
  intro sound
  cases faulty with
  | unexpectedKind hKind => exact hKind sound.allowed
  | malformed _ hText => simp [sound.accepted] at hText
  | misread _ _ hAlone => exact hAlone (Validator.soleKind?_eq_some_iff.mpr sound.alone)
  | notAChoice _ _ _ hChoice hOther => exact hOther (sound.chosen _ hChoice)

/-- Only one thing counts as wrong with a token, namely the first of the checks that it fails. -/
theorem Faulty.unique (faulty : held.Faulty fault) (faulty' : held.Faulty other) :
    fault = other := by
  cases faulty <;> cases faulty' <;> simp_all

end HeldToken

namespace Validator

/-- What the validator finds is exactly what is wrong with a token that it knows. -/
theorem fault?_iff {held : HeldToken} (known : Known held) :
    (fault? held = none ↔ held.Sound) ∧
      ∀ fault, fault? held = some fault ↔ held.Faulty fault := by
  have hJudged := judges known
  cases hFault : fault? held with
  | none =>
      rw [hFault] at hJudged
      exact ⟨iff_of_true rfl hJudged,
        fun fault => iff_of_false nofun fun faulty => faulty.not_sound hJudged⟩
  | some found =>
      rw [hFault] at hJudged
      refine ⟨iff_of_false nofun hJudged.not_sound, fun fault => ?_⟩
      rw [Option.some_inj]
      exact ⟨fun hSame => hSame ▸ hJudged, hJudged.unique⟩

end Validator

open Validator

/-- The validator accepts a tree just when all its tokens are sound. Otherwise its error is what is
wrong with the first token of the document that is not. -/
theorem Tree.validate_first {rule : Rule} (tree : Tree rule) (index size : Nat) :
    (tree.validate index size = .ok () ↔ ∀ held ∈ tree.held, held.Sound) ∧
      ∀ fault, tree.validate index size = .error fault ↔
        ∃ before held after, tree.held = before ++ held :: after ∧
          (∀ earlier ∈ before, earlier.Sound) ∧ held.Faulty fault := by
  have hKnown := fun held hHeld => fault?_iff (known_of_mem_held tree held hHeld)
  rw [tree.validate_eq]
  constructor
  · rw [← forall₂_congr fun held hHeld => (hKnown held hHeld).1, ← List.findSome?_eq_none_iff]
    cases tree.held.findSome? fault? <;> simp
  · intro fault
    have hError : (tree.held.findSome? fault?).elim (.ok ()) .error =
        (.error fault : Except Inconsistency Unit) ↔ tree.held.findSome? fault? = some fault := by
      cases tree.held.findSome? fault? <;> simp
    rw [hError, List.findSome?_eq_some_iff]
    refine exists₃_congr fun before held after => and_congr_right fun hSplit => ?_
    have hBefore : ∀ earlier ∈ before, fault? earlier = none ↔ earlier.Sound :=
      fun earlier hMem => (hKnown earlier (hSplit ▸ List.mem_append_left _ hMem)).1
    have hHeld : fault? held = some fault ↔ held.Faulty fault :=
      (hKnown held (hSplit ▸ List.mem_append_right _ List.mem_cons_self)).2 fault
    rw [hHeld, forall₂_congr hBefore, and_comm]

end DocumentLanguage
