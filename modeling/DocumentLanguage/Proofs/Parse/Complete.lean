import DocumentLanguage.Proofs.Parse.Exact

/-!
Sequences are found part by part. What follows a part of a sequence does not go on with it, so that
each part ends where its terminals do.
-/
namespace DocumentLanguage

/-- As many tokens are used up as there are terminals, one for each. -/
theorem Exactly.length_eq {terminals : List Terminal} {start last : List Token}
    (exactly : Exactly terminals start last) : start.length = terminals.length + last.length := by
  induction exactly with
  | stop => simp
  | pass hPass => cases hPass
  | read _ _ _ _ ih => simp only [List.length_cons, ih]; omega

/-- What is known of a node that is a part of a sequence. -/
structure Node.Ready (node : Node) : Prop where
  begins : node.Begins
  complete : node.Complete
  fresh : node.rule.comesAgain = true → node.Fresh

/-- Nodes of a rule one after another are found, and no more of them. -/
theorem Trees.complete {rule : Rule} (hAgain : rule.comesAgain = true) (trees : Trees rule)
    (hNodes : ∀ node ∈ trees.asNodes, node.Ready) {line : Line} {spot next : Spot}
    (between : Between trees.terminals spot next)
    (hTails : ∀ tail ∈ .rule rule :: rule.tails, tail.Absent line next) {bound : Nat}
    (hBound : spot.rest.length < bound) :
    seekMany look line rule bound spot = .found trees false next := by
  obtain ⟨bound, rfl⟩ : ∃ less, bound = less + 1 := ⟨bound - 1, by omega⟩
  rw [seekMany_succ]
  cases trees with
  | nil =>
    have hNone : look rule line next = .absent := hTails _ List.mem_cons_self
    obtain rfl := between.eq_of_nil
    rw [hNone]
    rfl
  | cons tree trees =>
    simp only [asNodes_cons, List.forall_mem_cons] at hNodes
    obtain ⟨middle, hTree, hTrees⟩ := between.exactly.exists_append
    have hEnds : ∀ tail ∈ rule.tails, tail.Absent line ⟨middle, spot.nesting⟩ := by
      cases trees with
      | nil =>
        have hNone : Between [] ⟨middle, spot.nesting⟩ next := ⟨hTrees, between.nesting⟩
        obtain rfl := hNone.eq_of_nil
        exact (List.forall_mem_cons.mp hTails).2
      | cons second trees =>
        obtain ⟨rest, hSecond, -⟩ := hTrees.exists_append
        exact (hNodes.2 ⟨rule, second⟩ List.mem_cons_self).fresh hAgain hSecond
    have hHere : Between tree.terminals spot ⟨middle, spot.nesting⟩ := ⟨hTree, rfl⟩
    have hBehind : Between trees.terminals ⟨middle, spot.nesting⟩ next := ⟨hTrees, between.nesting⟩
    obtain ⟨commits, hFound⟩ := hNodes.1.complete hHere hEnds
    have hLess : middle.length < bound := by
      have hTaken : tree.terminals ≠ [] := by
        intro hEmpty
        have hMay : rule.mayBeEmpty = true := hNodes.1.begins.empty hEmpty
        simp [Rule.comesAgain, hMay] at hAgain
      have hPositive := List.length_pos_iff.mpr hTaken
      have hLength := hTree.length_eq
      omega
    have hRest := trees.complete hAgain hNodes.2 hBehind hTails hLess
    rw [hFound, Reply.either_found, hRest]
    rfl

section

variable {tails inner : List Tail} {line : Line} {depth start : Nat} {next : Spot}

/-- Nothing that could go on with a part comes behind it. -/
theorem absent_behind {parts : List Part} {fields : Fields (fieldsOf parts)}
    (hEnds : (bars tails inner (leadsOf Rule.leads parts) (parts.all Part.mayBeEmpty) = true) ∧
      (!parts.all Part.mayBeEmpty || decide (depth = 0)) = true)
    (begins : Begins (weave parts fields.marks) (leadsOf Rule.leads parts) (parts.all Part.mayBeEmpty))
    {rest : List Token} (hExactly : Exactly (weave parts fields.marks) rest next.rest)
    (hNext : next.nesting = start) (hTails : ∀ tail ∈ tails, tail.Absent line next) :
    ∀ tail ∈ inner, tail.Absent line ⟨rest, start + depth⟩ := by
  refine Tail.absent_of_bars hEnds.1 begins hExactly ?_ hTails
  intro hEmpty
  have hDepth : depth = 0 := by simpa [hEmpty] using hEnds.2
  rw [hNext, hDepth, Nat.add_zero]

/-- The text that is kept of a token is the one it was read for. -/
theorem keptText_of_reads {kind : Kind} {text : String} {token : Token}
    (hReads : (Terminal.kept kind text).reads token) : token.kind = kind ∧ keptText token = text := by
  by_cases hComment : kind = .comment
  · rw [Terminal.kept, if_pos hComment] at hReads
    refine ⟨hReads.1, ?_⟩
    rw [keptText, if_pos (hReads.1.trans hComment)]
    exact hReads.2
  · rw [Terminal.kept, if_neg hComment] at hReads
    refine ⟨hReads.1, ?_⟩
    rw [keptText, if_neg (by rw [hReads.1]; exact hComment)]
    exact hReads.2

/-- A delimiter is found where it is the next terminal, and opens or closes its bracket. -/
theorem Spot.expectOneOf_of_exactly {spot : Spot} {texts : List String} {text : String} {depth' : Nat}
    {middle : List Token} (hSpot : spot.nesting = start + depth)
    (hExactly : Exactly [.verbatim .delimiter text] spot.rest middle) (hText : text ∈ texts)
    (hBrackets : bracketsBehind text depth = some depth') :
    ∃ token : Token, token.text = text ∧
      spot.expectOneOf line texts = .found token false ⟨middle, start + depth'⟩ := by
  obtain ⟨token, hRest, ⟨hKind, rfl⟩, -, -⟩ := hExactly.exists_single
  have hFound := @expectOneOf_eq_found line _ _ _ texts hRest hKind hText
  rw [hSpot, Stands.nestingAfter_of_bracketsBehind hKind hBrackets start] at hFound
  exact ⟨token, rfl, hFound⟩

/-- A repeated child that must come is found where its nodes are, and no more of them. -/
theorem Trees.complete_some {bound : Nat} {setting : Setting} {label : String} {rule : Rule}
    (hAgain : rule.comesAgain = true) (trees : Trees rule) (hSome : trees ≠ .nil)
    (hNodes : ∀ node ∈ trees.asNodes, node.Ready) (progress : Progress) {spot : Spot}
    (between : Between trees.terminals spot next)
    (hTails : ∀ tail ∈ .rule rule :: rule.tails, tail.Absent setting.line next)
    (hBound : spot.rest.length < bound) :
    seekPart look bound setting progress spot (.some label rule) =
      .found (trees, setting.commit progress) false next := by
  have hFound := Trees.complete hAgain trees hNodes between hTails (Nat.lt_succ_of_lt hBound)
  rw [seekMany_succ] at hFound
  rcases Reply.either_eq_found.mp hFound with ⟨first, _, between, hTree, hMore⟩ | ⟨-, hNone⟩
  · obtain ⟨rest, hRest, rfl⟩ := Reply.of_map_eq_found hMore
    rw [seekPart, hTree, Reply.either_found, hRest, Reply.either_found]
  · cases hNone
    exact absurd rfl hSome

/-- An optional child is found where its node is, and found to be missing where it has none. -/
theorem Node.complete_optional {bound : Nat} {setting : Setting} {label : String} {rule : Rule}
    (kept : Option (Tree rule)) (progress : Progress)
    (hNodes : ∀ node ∈ (Part.optional label rule).nodes kept, node.Ready) {spot : Spot}
    (between : Between ((Part.optional label rule).terminals kept) spot next)
    (hTails : ∀ tail ∈ .rule rule :: rule.tails, tail.Absent setting.line next) :
    ∃ progress', seekPart look bound setting progress spot (.optional label rule) =
      .found (kept, progress') false next := by
  obtain ⟨hNone, hBehind⟩ := List.forall_mem_cons.mp hTails
  cases kept with
  | none =>
    obtain rfl := between.eq_of_nil
    have hAbsent : look rule setting.line next = .absent := hNone
    exact ⟨_, by rw [seekPart, hAbsent, Reply.either_absent]⟩
  | some tree =>
    obtain ⟨commits, hFound⟩ := (hNodes _ List.mem_cons_self).complete between hBehind
    exact ⟨_, by rw [seekPart, hFound, Reply.either_found]⟩

/-- A part is found where its terminals are, if nothing that could go on with it comes behind. -/
theorem Part.complete {bound : Nat} {setting : Setting} (part : Part) (kept : part.Kept)
    {parts : List Part} (depth : Nat) (hCloses : partsEnd tails depth (part :: parts) = true)
    (hSuits : part.suits kept = true) (hOther : part.tokenKind? ≠ Option.some .delimiter)
    (hNodes : ∀ node ∈ part.nodes kept, node.Ready) (progress : Progress) {spot : Spot}
    (hSpot : spot.nesting = start + depth) {middle : List Token}
    (hExactly : Exactly (part.terminals kept) spot.rest middle)
    (hAbsent : ∀ inner, (bars tails inner (leadsOf Rule.leads parts) (parts.all Part.mayBeEmpty) =
      true) ∧ (!parts.all Part.mayBeEmpty || decide (depth = 0)) = true →
        ∀ tail ∈ inner, tail.Absent setting.line ⟨middle, start + depth⟩)
    (hBound : spot.rest.length < bound) :
    ∃ progress' depth', partsEnd tails depth' parts = true ∧
      seekPart look bound setting progress spot part =
        .found (kept, progress') false ⟨middle, start + depth'⟩ := by
  have between : Between (part.terminals kept) spot ⟨middle, start + depth⟩ :=
    ⟨hExactly, hSpot.symm⟩
  cases part with
  | keyword text | delimiter text =>
    cases kept
    simp only [partsEnd, Option.any_eq_true] at hCloses
    obtain ⟨behind, hBrackets, hCloses⟩ := hCloses
    obtain ⟨token, -, hFound⟩ := @Spot.expectOneOf_of_exactly setting.line _ _ _ [text] _ _ _ hSpot
      hExactly List.mem_cons_self hBrackets
    exact ⟨_, behind, hCloses, by rw [seekPart, hFound, Reply.either_found]⟩
  | newline =>
    cases kept
    obtain ⟨token, hRest, hKind, -, -⟩ := hExactly.exists_single
    have hFound := @Spot.expectKind_eq_found setting.line _ _ _ .newline hRest hKind (by decide)
      (by decide) (by decide)
    rw [hSpot] at hFound
    exact ⟨_, depth, hCloses, by rw [seekPart, hFound, Reply.either_found]⟩
  | commit =>
    cases kept
    exact ⟨_, depth, hCloses, by rw [seekPart, between.eq_of_nil]⟩
  | choice label options =>
    simp only [partsEnd, Option.any_eq_true, Bool.and_eq_true, List.all_eq_true,
      decide_eq_true_eq] at hCloses
    obtain ⟨behind, -, hBrackets, hCloses⟩ := hCloses
    have hText : kept ∈ options.delimiters := by simpa [suits] using hSuits
    obtain ⟨token, hSame, hFound⟩ := @Spot.expectOneOf_of_exactly setting.line _ _ _ _ _ _ _ hSpot
      hExactly hText (hBrackets _ hText)
    exact ⟨_, behind, hCloses, by rw [seekPart, hFound, Reply.either_found, hSame]⟩
  | token label kind =>
    obtain ⟨token, hRest, hReads, hSpace, hError⟩ := hExactly.exists_single
    obtain ⟨rfl, rfl⟩ := keptText_of_reads hReads
    have hDelimiter : token.kind ≠ .delimiter := fun hEq => hOther (congrArg Option.some hEq)
    have hFound := @Spot.expectKind_eq_found setting.line _ _ _ token.kind hRest rfl hSpace hError
      hDelimiter
    rw [hSpot] at hFound
    exact ⟨_, depth, hCloses, by rw [seekPart, hFound, Reply.either_found]⟩
  | optionalToken | line => cases hCloses
  | child label rule =>
    simp only [partsEnd, Bool.and_eq_true] at hCloses
    obtain ⟨commits, hFound⟩ := (hNodes _ List.mem_cons_self).complete between (hAbsent _ hCloses.1)
    exact ⟨_, depth, hCloses.2, by rw [seekPart, hFound, Reply.either_found]⟩
  | optional label rule =>
    simp only [partsEnd, Bool.and_eq_true] at hCloses
    obtain ⟨_, hFound⟩ :=
      Node.complete_optional kept progress hNodes between (hAbsent _ hCloses.1)
    exact ⟨_, depth, hCloses.2, hFound⟩
  | many label rule =>
    simp only [partsEnd, Bool.and_eq_true] at hCloses
    obtain ⟨⟨hAgain, hEnds⟩, hCloses⟩ := hCloses
    have hFound := Trees.complete hAgain kept hNodes between (hAbsent _ hEnds) hBound
    exact ⟨_, depth, hCloses, by rw [seekPart, hFound]; rfl⟩
  | some label rule =>
    simp only [partsEnd, Bool.and_eq_true] at hCloses
    obtain ⟨⟨hAgain, hEnds⟩, hCloses⟩ := hCloses
    have hSome : kept ≠ .nil := by
      rintro rfl
      cases hSuits
    exact ⟨_, depth, hCloses,
      Trees.complete_some hAgain kept hSome hNodes progress between (hAbsent _ hEnds) hBound⟩

/-- The parts of a sequence are found, one after another, where their terminals are. Each part ends
where its own terminals do, since nothing behind it goes on with it. -/
theorem Fields.complete {bound : Nat} {setting : Setting} (parts : List Part)
    (depth : Nat) (hCloses : partsEnd tails depth parts = true) (fields : Fields (fieldsOf parts))
    (hMade : aligned Part.admits parts fields.stored = true)
    (hKinds : ∀ part ∈ parts, part.tokenKind? ≠ some .delimiter)
    (hNodes : ∀ node ∈ fields.stored.flatMap Stored.nodes, node.Ready)
    (progress : Progress) {spot : Spot} (hSpot : spot.nesting = start + depth)
    (hNext : next.nesting = start) (hExactly : Exactly (weave parts fields.marks) spot.rest next.rest)
    (hTails : ∀ tail ∈ tails, tail.Absent setting.line next) (hBound : spot.rest.length < bound) :
    ∃ owner, seekParts look bound setting parts progress spot = .found fields owner next := by
  induction parts generalizing depth progress spot with
  | nil =>
    cases fields
    have hDepth : depth = 0 := by simpa [partsEnd] using hCloses
    have hNone : Between [] spot next := ⟨hExactly, by rw [hSpot, hNext, hDepth, Nat.add_zero]⟩
    obtain rfl := hNone.eq_of_nil
    exact ⟨progress.owner, rfl⟩
  | cons part parts ih =>
    obtain ⟨kept, fields, rfl⟩ := part.exists_keep fields
    rw [Part.aligned_keep, Bool.and_eq_true] at hMade
    rw [Part.nodes_keep, List.forall_mem_append] at hNodes
    rw [Part.weave_keep] at hExactly
    rw [List.forall_mem_cons] at hKinds
    obtain ⟨middle, hPart, hBehind⟩ := hExactly.exists_append
    have hBegins := fields.begins parts hMade.2 hKinds.2 fun node hNode => (hNodes.2 node hNode).begins
    obtain ⟨progress', depth', hRest, hFound⟩ :=
      part.complete kept depth hCloses hMade.1 hKinds.1 hNodes.1 progress hSpot hPart
        (fun _ hEnds => absent_behind hEnds hBegins hBehind hNext hTails) hBound
    have hLess : middle.length < bound := by
      have hLength := hPart.length_eq
      omega
    obtain ⟨owner, hFields⟩ := @ih depth' hRest fields hMade.2 hKinds.2 hNodes.2 progress'
      ⟨middle, start + depth'⟩ rfl hBehind hLess
    refine ⟨owner, ?_⟩
    rw [seekParts_cons, hFound, Reply.either_found, hFields]
    rfl

end

end DocumentLanguage
