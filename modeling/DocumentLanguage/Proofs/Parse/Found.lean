import DocumentLanguage.Proofs.Parse.Bracketed

/-!
Every tree is found where its terminals are. Tokens that say one for one what the terminals of a
node say are read as that node, unless something comes behind them that could go on with it.
-/
namespace DocumentLanguage

/-- What is not behind a node without terminals is not there. -/
theorem Node.foremost_of_empty {rule : Rule} (tree : Tree rule) (hEmpty : tree.terminals = [])
    (hRivals : ∀ rival ∈ rule.rivals, .rule rival ∈ rule.tails) : Node.Foremost ⟨rule, tree⟩ := by
  intro line spot next between hTails rival hRival
  have hNone : Between [] spot next := hEmpty ▸ between
  have hAbsent : look rival line next = .absent := hTails _ (hRivals rival hRival)
  rwa [hNone.eq_of_nil] at hAbsent

/-- No rival of a node is there where the node is. -/
theorem Tree.foremost {rule : Rule} (tree : Tree rule) (made : tree.Made) :
    Node.Foremost ⟨rule, tree⟩ := by
  by_cases hNone : rule.rivals = []
  · intro line spot next _ _ rival hRival
    exact absurd (hNone ▸ hRival : rival ∈ []) List.not_mem_nil
  have hRule : rule ∈ [Rule.catalog, .list, .noValues, .noStatements, .method, .attributeTarget,
      .variableTarget, .precedence] := by
    revert hNone
    cases rule <;> decide
  simp only [List.mem_cons, List.not_mem_nil, or_false] at hRule
  rcases hRule with rfl | rfl | rfl | rfl | rfl | rfl | rfl | rfl
  · exact Node.foremost_catalog tree made
  · exact Node.foremost_list tree made
  · obtain ⟨content⟩ := tree
    cases content with
    | sequence fields =>
      cases fields
      exact Node.foremost_of_empty _ rfl (by decide)
  · obtain ⟨content⟩ := tree
    cases content with
    | sequence fields =>
      cases fields
      exact Node.foremost_of_empty _ rfl (by decide)
  · exact Node.foremost_method tree made
  · exact Node.foremost_attributeTarget tree
  · exact Node.foremost_variableTarget tree
  · exact Node.foremost_precedence tree made

section

variable {line : Line} {spot next : Spot} {token : Token} {rest last : List Token}

/-- A node is found if its content is, under any bound that is large enough. -/
theorem look_eq_found {rule : Rule} {content : Content rule.form}
    (hForm : ∀ bound, spot.rest.length < bound →
      ∃ commits, seekForm look bound rule line spot rule.form = .found content commits next) :
    ∃ commits, look rule line spot = .found (.mk content) commits next := by
  have hLength : spot.rest.length < nestingPerToken * spot.rest.length + rule.rank + 1 := by
    simp only [nestingPerToken]
    omega
  obtain ⟨commits, hFound⟩ := hForm _ hLength
  refine ⟨commits, ?_⟩
  rw [look_eq (Nat.le_succ _), hFound]
  rfl

/-! ### Literals -/

def Form.literalsPrimitive : Form → Bool
  | literal kinds => kinds.all primitiveKinds.contains
  | oneOf _ | sequence _ _ => true

theorem Rule.literalsPrimitive_form (rule : Rule) : rule.form.literalsPrimitive = true := by
  cases rule <;> decide

/-- A literal is found where its terminal is the next one, whichever of its kinds it has. -/
theorem seekForm_literal {bound : Nat} {rule : Rule} {kinds : List Kind} {kind : Kind} {text : String}
    (hKind : kind ∈ kinds) (hPrimitive : (Form.literal kinds).literalsPrimitive = true)
    (between : Between [.dedented kind text] spot next) :
    seekForm look bound rule line spot (.literal kinds) = .found (.literal kind text) false next := by
  obtain ⟨token, rest, hRest, ⟨rfl, rfl⟩, hSpace, hError, hBehind⟩ := between.exactly.exists_cons
  have hAll : ∀ kind ∈ primitiveKinds, kind ≠ .newline ∧ kind ≠ .delimiter := by decide
  obtain ⟨hNewline, hDelimiter⟩ :=
    hAll token.kind (List.contains_iff_mem.mp (List.all_eq_true.mp hPrimitive _ hKind))
  have hFound := @Spot.expect_eq_found line spot token rest true (kinds.contains ·.kind) hRest hSpace
    hError (fun _ => hNewline) (List.contains_iff_mem.mpr hKind)
  rw [nestingAfter_of_kind hDelimiter, hBehind.eq_of_nil, ← between.nesting] at hFound
  rw [seekForm, Spot.expectKinds, hFound]
  rfl

/-! ### Alternatives -/

/-- The first alternative that is there is found. Those listed before it are missing at this spot,
and those behind it are never asked for. -/
theorem seekFirst_eq_found {seek : Seeker} {rule : Rule} {tree : Tree rule} {commits : Bool}
    (hFound : seek rule line spot = .found tree commits next) {rules : List Rule} (allowed : rule ∈ rules)
    (hOthers : ∀ other ∈ rules.takeWhile (· ≠ rule), seek other line spot = .absent) :
    seekFirst seek line spot rules = .found (.oneOf rule allowed tree) commits next := by
  induction rules with
  | nil => cases allowed
  | cons first rules ih =>
    rw [seekFirst_cons]
    by_cases hFirst : first = rule
    · subst hFirst
      rw [hFound]
      rfl
    · rw [List.takeWhile_cons_of_pos (by simpa using hFirst), List.forall_mem_cons] at hOthers
      have hMem : rule ∈ rules := (List.mem_cons.mp allowed).resolve_left (Ne.symm hFirst)
      rw [hOthers.1, Reply.either_absent, ih hMem hOthers.2]
      rfl

/-- A rival of a rule is missing where a node of that rule stands: either it is known to differ
later on, or its leads do not go with what the node begins with. -/
theorem look_other_eq_absent {rule other : Rule} (tree : Tree rule) (made : tree.Made)
    (hOther : other ∈ rule.rivals ∨ (bars [] [.rule other] rule.leads false = true ∧
      rule.mayBeEmpty = false))
    (between : Between tree.terminals spot next) (hTails : ∀ tail ∈ rule.tails, tail.Absent line next) :
    look other line spot = .absent := by
  rcases hOther with hRival | ⟨hBars, hSome⟩
  · exact tree.foremost made between hTails other hRival
  · have hBegins := tree.begins made
    rw [hSome] at hBegins
    exact Tail.absent_of_bars hBars hBegins between.exactly nofun nofun (.rule other) List.mem_cons_self

/-- An alternative is found where its node stands, since the ones that are listed before it are
either rivals or begin with something else. -/
theorem seekForm_oneOf {bound : Nat} {rule child : Rule} {rules : List Rule} (allowed : child ∈ rules)
    {tree : Tree child} (made : tree.Made) (ready : Node.Ready ⟨child, tree⟩)
    (hTell : (Form.oneOf rules).alternativesTell = true)
    (between : Between tree.terminals spot next)
    (hTails : ∀ tail ∈ child.tails, tail.Absent line next) :
    ∃ commits, seekForm look bound rule line spot (.oneOf rules) =
      .found (.oneOf child allowed tree) commits next := by
  obtain ⟨commits, hFound⟩ := ready.complete between hTails
  refine ⟨commits, seekFirst_eq_found hFound allowed fun other hOther => ?_⟩
  refine look_other_eq_absent tree made ?_ between hTails
  have hHere := List.all_eq_true.mp (List.all_eq_true.mp hTell child allowed) other hOther
  simpa only [Bool.or_eq_true, Bool.and_eq_true, Bool.not_eq_true', List.contains_eq_mem,
    decide_eq_true_eq] using hHere

/-! ### Lines -/

/-- A newline on its own is found where it is the next terminal, and it has nothing to keep. -/
theorem seekParts_newline {bound : Nat} {setting : Setting} (progress : Progress)
    (between : Between [.newline] spot next) :
    seekParts look bound setting [.newline] progress spot = .found .nil progress.owner next := by
  obtain ⟨newline, rest, hRest, hKind, -, -, hBehind⟩ := between.exactly.exists_cons
  rw [seekParts_cons, seekPart,
    Spot.expectKind_eq_found hRest hKind (by decide) (by decide) (by decide), hBehind.eq_of_nil,
    ← between.nesting]
  rfl

/-- Before the end of a line there is no note, since a note is looked for on the line where it would
stand. -/
theorem expectKind_note_eq_absent (hRest : spot.rest = token :: rest) (hKind : token.kind = .newline) :
    spot.expectKind line .note = .absent := by
  refine Spot.expect_eq_absent fun first hFirst => ?_
  rw [Spot.visible_newline hRest hKind, if_neg (by simp)] at hFirst
  cases hFirst
  simp [hKind]

/-- The end of a line is found, with its note if it has one. -/
theorem seekParts_lineEnding {bound : Nat} {setting : Setting} (progress : Progress)
    (note : Option String) (between : Between (lineEnding note) spot next) :
    ∃ owner, seekParts look bound setting [.commit, .optionalToken "note" .note, .newline] progress spot =
      .found (.optionalText note .nil) owner next := by
  rw [seekParts_cons, seekPart, Reply.either_found, seekParts_cons, seekPart]
  cases note with
  | none =>
    obtain ⟨newline, rest, hRest, hKind, -, -, -⟩ := between.exactly.exists_cons
    rw [expectKind_note_eq_absent hRest hKind, Reply.either_absent, Reply.either_found,
      seekParts_newline _ between]
    exact ⟨_, rfl⟩
  | some text =>
    obtain ⟨token, rest, hRest, hReads, hSpace, hError, hBehind⟩ := between.exactly.exists_cons
    obtain ⟨hKind, rfl⟩ := keptText_of_reads hReads
    have hNewline : Between [.newline] ⟨rest, spot.nesting⟩ next := ⟨hBehind, between.nesting⟩
    rw [Spot.expectKind_eq_found hRest hKind (by decide) (by decide) (by decide), Reply.either_found,
      Reply.either_found, seekParts_newline _ hNewline]
    exact ⟨_, rfl⟩

/-- A line of associations or of values is found with the note at its end, if there is one, and with
the newline that ends it. -/
theorem seekParts_annotated {bound : Nat} {setting : Setting} {label : String} {rule : Rule}
    {tree : Tree rule} (complete : Node.Complete ⟨rule, tree⟩)
    (hRule : rule.tails = Rule.componentTails) (note : Option String)
    (between : Between (tree.terminals ++ lineEnding note) spot next)
    (hTails : ∀ tail ∈ Rule.componentTails, tail.Absent setting.line next) :
    ∃ owner, seekParts look bound setting [.child label rule, .commit, .optionalToken "note" .note,
      .newline] ⟨false, false⟩ spot = .found (.child tree (.optionalText note .nil)) owner next := by
  obtain ⟨middle, hTree, hEnding⟩ := between.exactly.exists_append
  have hBehind : Between (lineEnding note) ⟨middle, spot.nesting⟩ next := ⟨hEnding, between.nesting⟩
  have hHere : Between tree.terminals spot ⟨middle, spot.nesting⟩ := ⟨hTree, rfl⟩
  have hEnds : ∀ tail ∈ rule.tails, tail.Absent setting.line ⟨middle, spot.nesting⟩ := by
    intro tail hTail
    rw [hRule] at hTail
    refine Tail.absent_lineEnding hTail note hEnding ?_
    rw [← between.nesting]
    exact hTails tail hTail
  obtain ⟨commits, hFound⟩ := complete hHere hEnds
  rw [seekParts_cons, seekPart, hFound, Reply.either_found, Reply.either_found]
  obtain ⟨owner, hRest⟩ := seekParts_lineEnding ⟨false || commits, false⟩ note hBehind
  exact ⟨owner, congrArg (Reply.map _) hRest⟩

/-- What could go on with a statement is not seen over the end of its line. -/
theorem Tail.absent_lineEnd {tail : Tail} (hTail : tail ∈ Rule.statementTails) (note : Option String)
    (exactly : Exactly (lineEnding note) spot.rest last) (hLine : line = some spot.nesting) :
    tail.Absent line spot := by
  have hAll : ∀ tail ∈ Rule.statementTails, tail.isSeen = true ∧ tail ≠ .rule .annotatedStatement ∧
      Lead.kind .note ∉ tail.leads ∧ Lead.kind .newline ∉ tail.leads := by
    decide
  obtain ⟨hSeen, hOther, hNote, hNewline⟩ := hAll tail hTail
  cases note with
  | some text =>
    obtain ⟨token, rest, hRest, hReads, -, hError, -⟩ := exactly.exists_cons
    have hKind : token.kind = .note := (keptText_of_reads hReads).1
    refine Tail.absent_of_solid hSeen hRest (by rw [hKind]; rfl) hError ?_ _
    rwa [Token.lead_of_kind hKind (by decide)]
  | none =>
    obtain ⟨newline, rest, hRest, hKind, -, -, -⟩ := exactly.exists_cons
    have clear : spot.Clear line tail.leads :=
      Spot.clear_newline hRest hKind hNewline fun hOther => absurd hLine hOther
    cases tail with
    | word text => exact clear
    | rule other =>
      have hDirect : other.isDirect = true := by
        simp only [Tail.isSeen, Bool.or_eq_true, decide_eq_true_eq] at hSeen
        exact hSeen.resolve_right fun hSame => hOther (congrArg Tail.rule hSame)
      exact look_eq_absent hDirect clear

/-- A statement is found on a line of its own. Its note is looked for on that line only, and the
newline ends both. -/
theorem seekParts_statementLine {bound : Nat} {setting : Setting} {label : String}
    {tree : Tree .statement} (made : tree.Made) (complete : Node.Complete ⟨.statement, tree⟩)
    (note : Option String) (between : Between (tree.terminals ++ lineEnding note) spot next) :
    ∃ owner, seekParts look bound setting [.line label .statement, .commit, .optionalToken "note" .note,
      .newline] ⟨false, false⟩ spot = .found (.child tree (.optionalText note .nil)) owner next := by
  obtain ⟨middle, hTree, hEnding⟩ := between.exactly.exists_append
  have hBehind : Between (lineEnding note) ⟨middle, spot.nesting⟩ next := ⟨hEnding, between.nesting⟩
  obtain ⟨token, rest, hRest, hSolid, -, -⟩ :=
    tree.exists_head made (by decide) (by decide) hTree
  have hSpot : spot.behindLayout = spot := by
    obtain ⟨tokens, nesting⟩ := spot
    obtain rfl : tokens = token :: rest := hRest
    simp [Spot.behindLayout, hSolid]
  have hHere : Between tree.terminals spot ⟨middle, spot.nesting⟩ := ⟨hTree, rfl⟩
  have hEnds : ∀ tail ∈ Rule.statementTails, tail.Absent (some spot.nesting) ⟨middle, spot.nesting⟩ :=
    fun tail hTail => Tail.absent_lineEnd hTail note hEnding rfl
  obtain ⟨commits, hFound⟩ := complete hHere hEnds
  rw [seekParts_cons, seekPart, hSpot, hFound, Reply.either_found, Reply.either_found]
  obtain ⟨owner, hRest⟩ := seekParts_lineEnding ⟨false, false⟩ note hBehind
  exact ⟨owner, congrArg (Reply.map _) hRest⟩

end

/-! ### Trees -/

/-- A sequence is found where its parts are found, whether or not one of them committed it on the
way. -/
theorem seekForm_sequence {bound : Nat} {rule : Rule} {line : Line} {spot next : Spot}
    {standing : Standing} {parts : List Part} {fields : Fields (fieldsOf parts)}
    (hFields : ∃ owner, seekParts look bound ⟨rule, standing, line⟩ parts ⟨false, false⟩ spot =
      .found fields owner next) :
    ∃ commits, seekForm look bound rule line spot (.sequence standing parts) =
      .found (.sequence fields) commits next := by
  obtain ⟨owner, hFound⟩ := hFields
  refine ⟨owner, ?_⟩
  rw [seekForm, hFound]
  rfl

/-- What a node holds is found if each of its children is. The conditions on the form are those that
every rule of the language meets, and they are decided once for all rules. -/
theorem Content.found {rule : Rule} {form : Form} (content : Content form)
    (hEnds : form.partsEnd rule.tails = true) (hTell : form.alternativesTell = true)
    (hKinds : ∀ part ∈ form.parts, part.tokenKind? ≠ some .delimiter)
    (hLiterals : form.literalsPrimitive = true) (hMade : content.made = true)
    (hNodes : ∀ child ∈ content.children, child.tree.Made ∧ child.Ready) {line : Line}
    {spot next : Spot} (between : Between content.terminals spot next)
    (hTails : ∀ tail ∈ rule.tails, tail.Absent line next) {bound : Nat}
    (hBound : spot.rest.length < bound) :
    ∃ commits, seekForm look bound rule line spot form = .found content commits next := by
  cases content with
  | literal kind text =>
    simp only [made, List.contains_eq_mem, decide_eq_true_eq] at hMade
    exact ⟨false, seekForm_literal hMade hLiterals between⟩
  | oneOf child allowed tree =>
    obtain ⟨hTree, ready⟩ := hNodes ⟨child, tree⟩ List.mem_cons_self
    refine seekForm_oneOf allowed hTree ready hTell between fun tail hTail => hTails tail ?_
    exact List.contains_iff_mem.mp
      (List.all_eq_true.mp (List.all_eq_true.mp hEnds child allowed) tail hTail)
  | @sequence standing parts fields =>
    refine seekForm_sequence ?_
    exact fields.complete parts 0 hEnds hMade hKinds (fun node hNode => (hNodes node hNode).2)
      ⟨false, false⟩ (Nat.add_zero _).symm between.nesting between.exactly hTails hBound

/-- A line that a node stands for is found if what it begins with is. -/
theorem Tree.complete_line {rule : Rule} (hRule : rule.endsAmidst = true) (hOther : rule ≠ .document)
    (content : Content rule.form)
    (hNodes : ∀ child ∈ content.children, child.tree.Made ∧ child.Ready) :
    Node.Complete ⟨rule, .mk content⟩ := by
  intro line spot next between hTails
  have hCases : rule = .annotatedAssociation ∨ rule = .annotatedValue ∨ rule = .statementLine := by
    revert hRule hOther
    cases rule <;> decide
  refine look_eq_found fun bound _ => ?_
  rcases hCases with rfl | rfl | rfl
  · cases content with
    | sequence fields =>
      cases fields with
      | child association fields =>
        cases fields with
        | optionalText note fields =>
          cases fields
          obtain ⟨-, ready⟩ := hNodes ⟨.association, association⟩ List.mem_cons_self
          exact seekForm_sequence (seekParts_annotated ready.complete rfl note between hTails)
  · cases content with
    | sequence fields =>
      cases fields with
      | child value fields =>
        cases fields with
        | optionalText note fields =>
          cases fields
          obtain ⟨-, ready⟩ := hNodes ⟨.component, value⟩ List.mem_cons_self
          exact seekForm_sequence (seekParts_annotated ready.complete rfl note between hTails)
  · cases content with
    | sequence fields =>
      cases fields with
      | child statement fields =>
        cases fields with
        | optionalText note fields =>
          cases fields
          obtain ⟨made, ready⟩ := hNodes ⟨.statement, statement⟩ List.mem_cons_self
          exact seekForm_sequence (seekParts_statementLine made ready.complete note between)

/-- Every node but a document is found where its terminals are. -/
theorem Tree.ready {rule : Rule} (tree : Tree rule) (made : tree.Made) (hRule : rule ≠ .document) :
    Node.Ready ⟨rule, tree⟩ := by
  induction tree using Tree.induct with
  | step rule content ih =>
    obtain ⟨hMade, hChildren⟩ := Tree.made_mk.mp made
    have hBegins : Node.Begins ⟨rule, .mk content⟩ := Tree.begins (.mk content) made
    have hNodes : ∀ child ∈ content.children, child.tree.Made ∧ child.Ready := by
      intro child hChild
      have hOther : child.rule ≠ .document := by
        intro hDocument
        have hMem := content.rule_mem child hChild
        rw [hDocument] at hMem
        exact rule.document_not_mem hMem
      exact ⟨hChildren child hChild, ih child hChild (hChildren child hChild) hOther⟩
    refine ⟨hBegins, ?_, ?_⟩
    · cases hLine : rule.endsAmidst with
      | true => exact Tree.complete_line hLine hRule content hNodes
      | false =>
        intro line spot next between hTails
        refine look_eq_found fun bound hBound => ?_
        exact content.found (rule.partsEnd_form hLine) rule.alternativesTell_form
          rule.tokenKind?_ne_delimiter rule.literalsPrimitive_form hMade hNodes between hTails hBound
    · intro hAgain
      simp only [Rule.comesAgain, Bool.and_eq_true, Bool.or_eq_true, decide_eq_true_eq,
        Bool.not_eq_true'] at hAgain
      obtain ⟨hApart | rfl, hSome⟩ := hAgain
      · exact hBegins.fresh hSome hApart
      · exact Node.fresh_annotatedValue _ made

end DocumentLanguage
