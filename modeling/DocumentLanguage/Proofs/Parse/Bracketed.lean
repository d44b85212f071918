import DocumentLanguage.Proofs.Parse.Foremost

/-!
What stands behind an opening bracket. A range has points behind its first literal, associations a
colon, and the values of a list neither; so that of the rules that begin with a bracket only one is
there.
-/
namespace DocumentLanguage

section

variable {line : Line} {spot next : Spot} {token : Token} {rest last : List Token} {text : String}

/-! ### The end of a line -/

/-- The terminals at the end of a line: perhaps a note, and a newline. -/
def lineEnding (note : Option String) : List Terminal :=
  (note.map (Terminal.kept .note)).toList ++ [.newline]

/-- Behind what could go on is a note, or a newline and what comes behind that. -/
theorem Tail.absent_lineEnding {tail : Tail} (hTail : tail ∈ Rule.componentTails) (note : Option String)
    (exactly : Exactly (lineEnding note) spot.rest last)
    (hAbsent : tail.Absent line ⟨last, spot.nesting⟩) : tail.Absent line spot := by
  obtain ⟨token, rest, hRest, hReads, -, hError, hBehind⟩ :
      ∃ token rest, spot.rest = token :: rest ∧
        ((note.map (Terminal.kept .note)).getD .newline).reads token ∧ token.kind ≠ .space ∧
          token.kind ≠ .error ∧ Exactly (if note.isSome then [.newline] else []) rest last := by
    cases note <;> exact exactly.exists_cons
  cases note with
  | none =>
    obtain rfl := hBehind.eq_of_nil
    exact Tail.absent_newline hTail hRest hReads hAbsent
  | some kept =>
    have hKind : token.kind = .note := hReads.1
    have hAll : ∀ tail ∈ Rule.componentTails, tail.isSeen = true ∧ Lead.kind .note ∉ tail.leads := by
      decide
    obtain ⟨hSeen, hLeads⟩ := hAll tail hTail
    refine Tail.absent_of_solid hSeen hRest (by rw [hKind]; rfl) hError ?_ line
    rwa [Token.lead_of_kind hKind (by decide)]

/-! ### Nodes one after another -/

/-- Lines begin with a newline and a first line. The tokens of that line come right behind the
newline, so that they say how the whole goes on. -/
theorem Fields.exists_line {label : String} {rule : Rule}
    (fields : Fields (fieldsOf [.newline, .some label rule]))
    (hMade : aligned Part.admits [.newline, .some label rule] fields.stored = true)
    (hNodes : ∀ node ∈ fields.stored.flatMap Stored.nodes, node.tree.Made)
    (exactly : Exactly (weave [.newline, .some label rule] fields.marks) spot.rest last) :
    ∃ (newline : Token) (rest middle : List Token) (first : Tree rule) (trees : Trees rule),
      spot.rest = newline :: rest ∧ newline.kind = .newline ∧ Exactly first.terminals rest middle ∧
        Exactly trees.terminals middle last ∧ first.Made ∧ ∀ node ∈ trees.asNodes, node.tree.Made := by
  cases fields with
  | many trees fields =>
    cases fields
    cases trees with
    | nil => cases hMade
    | cons first trees =>
      have hAll : ∀ node ∈ (⟨rule, first⟩ :: trees.asNodes : List Node), node.tree.Made := by
        simpa [Fields.stored, Stored.nodes] using hNodes
      rw [List.forall_mem_cons] at hAll
      have hExactly : Exactly (.newline :: (first.terminals ++ trees.terminals ++ [])) spot.rest last :=
        exactly
      obtain ⟨newline, rest, hRest, hReads, -, -, hBehind⟩ := hExactly.exists_cons
      rw [List.append_nil] at hBehind
      obtain ⟨middle, hFirst, hMore⟩ := hBehind.exists_append
      exact ⟨newline, rest, middle, first, trees, hRest, hReads, hFirst, hMore, hAll.1, hAll.2⟩

/-- A node with more behind it, as they stand in the tokens: those of the node come first, and what
follows it is found from where they end. -/
theorem Fields.exists_more {label more : String} {rule other : Rule}
    (fields : Fields (fieldsOf [.child label rule, .many more other]))
    (hNodes : ∀ node ∈ fields.stored.flatMap Stored.nodes, node.tree.Made)
    (exactly : Exactly (weave [.child label rule, .many more other] fields.marks) spot.rest last) :
    ∃ (middle : List Token) (tree : Tree rule) (trees : Trees other),
      Exactly tree.terminals spot.rest middle ∧ Exactly trees.terminals middle last ∧ tree.Made ∧
        ∀ node ∈ trees.asNodes, node.tree.Made := by
  cases fields with
  | child tree fields =>
    cases fields with
    | many trees fields =>
      cases fields
      have hAll : ∀ node ∈ (⟨rule, tree⟩ :: trees.asNodes : List Node), node.tree.Made := by
        simpa [Fields.stored, Stored.nodes] using hNodes
      rw [List.forall_mem_cons] at hAll
      have hExactly : Exactly (tree.terminals ++ (trees.terminals ++ [])) spot.rest last := exactly
      rw [List.append_nil] at hExactly
      obtain ⟨middle, hTree, hTrees⟩ := hExactly.exists_append
      exact ⟨middle, tree, trees, hTree, hTrees, hAll.1, hAll.2⟩

/-- A tail that is not behind nodes of a rule is not before them if they do not begin with it. -/
theorem Trees.absent_before {rule : Rule} {tail : Tail} (hBars : bars [tail] [tail] rule.leads true = true)
    (trees : Trees rule) (made : ∀ node ∈ trees.asNodes, node.tree.Made)
    (exactly : Exactly trees.terminals spot.rest last) (hAbsent : tail.Absent line ⟨last, spot.nesting⟩) :
    tail.Absent line spot := by
  have hBegins : Begins trees.terminals rule.leads true :=
    ⟨(trees.begins fun node hNode => node.tree.begins (made node hNode)).head, fun _ => rfl⟩
  have hNext : Exactly trees.terminals spot.rest (⟨last, spot.nesting⟩ : Spot).rest := exactly
  exact Tail.absent_of_bars hBars hBegins hNext (fun _ => rfl) (by simpa using hAbsent) tail
    List.mem_cons_self

/-! ### Associations have colons -/

theorem Association.lone (association : Tree .association) (made : association.Made)
    (exactly : Exactly association.terminals spot.rest last) : spot.Lone line ".." := by
  obtain ⟨content⟩ := association
  obtain ⟨-, hChildren⟩ := Tree.made_mk.mp made
  cases content with
  | sequence fields =>
    cases fields with
    | child key fields =>
      obtain ⟨middle, hKey, hBehind⟩ := exactly.exists_append
      obtain ⟨colon, rest, rfl, ⟨hKind, hText⟩, -, hError, -⟩ := hBehind.exists_cons
      refine Primitive.lone key (hChildren ⟨.primitive, key⟩ List.mem_cons_self) hKey ?_
      exact Spot.clear_of_delimiter rfl hKind (by simp [hText]) line

theorem AnnotatedAssociation.lone (tree : Tree .annotatedAssociation) (made : tree.Made)
    (exactly : Exactly tree.terminals spot.rest last) : spot.Lone line ".." := by
  obtain ⟨content⟩ := tree
  obtain ⟨-, hChildren⟩ := Tree.made_mk.mp made
  cases content with
  | sequence fields =>
    cases fields with
    | child association fields =>
      obtain ⟨middle, hAssociation, -⟩ := exactly.exists_append
      exact Association.lone association
        (hChildren ⟨.association, association⟩ List.mem_cons_self) hAssociation

/-- No associations look like the first endpoint of a range, since whatever they begin with is
followed by a colon and not by the points of a range. -/
theorem Associations.lone (associations : Tree .associations) (made : associations.Made)
    (exactly : Exactly associations.terminals spot.rest last) : spot.Lone line ".." := by
  obtain ⟨content⟩ := associations
  obtain ⟨-, hChildren⟩ := Tree.made_mk.mp made
  cases content with
  | oneOf rule allowed tree =>
    have hTree : tree.Made := hChildren ⟨rule, tree⟩ List.mem_cons_self
    have hRule : rule = .multilineAssociations ∨ rule = .inlineAssociations ∨ rule = .noAssociations := by
      simpa using allowed
    rcases hRule with rfl | rfl | rfl
    · obtain ⟨content⟩ := tree
      obtain ⟨hMade, hChildren⟩ := Tree.made_mk.mp hTree
      cases content with
      | sequence fields =>
        obtain ⟨newline, rest, middle, first, trees, hRest, hNewline, hFirst, -, hLine, -⟩ :=
          fields.exists_line hMade hChildren exactly
        exact Spot.lone_newline hRest hNewline (AnnotatedAssociation.lone first hLine hFirst)
    · obtain ⟨content⟩ := tree
      obtain ⟨-, hChildren⟩ := Tree.made_mk.mp hTree
      cases content with
      | sequence fields =>
        cases fields with
        | child association fields =>
          obtain ⟨middle, hAssociation, -⟩ := exactly.exists_append
          exact Association.lone association
            (hChildren ⟨.association, association⟩ List.mem_cons_self) hAssociation
    · exact tree.lone_of_opensBare (by decide) hTree exactly

/-- A catalog is the first thing found at its opening bracket: what it holds has a colon where a
range would need its points, so that a range is not found there. -/
theorem Node.foremost_catalog (tree : Tree .catalog) (made : tree.Made) : Node.Foremost ⟨.catalog, tree⟩ := by
  intro line spot next between _ rival hRival
  obtain rfl : rival = .range := by simpa [Rule.rivals] using hRival
  obtain ⟨content⟩ := tree
  obtain ⟨-, hChildren⟩ := Tree.made_mk.mp made
  cases content with
  | sequence fields =>
    cases fields with
    | child associations fields =>
      cases fields
      have hExactly : Exactly (.verbatim .delimiter "[" :: (associations.terminals ++
        [.verbatim .delimiter "]"])) spot.rest next.rest := between.exactly
      obtain ⟨bracket, rest, hRest, ⟨hKind, -⟩, -, -, hBehind⟩ := hExactly.exists_cons
      obtain ⟨middle, hAssociations, -⟩ := hBehind.exists_append
      refine look_range_eq_absent hRest hKind ?_
      exact Associations.lone associations
        (hChildren ⟨.associations, associations⟩ List.mem_cons_self) hAssociations

/-! ### Values have neither points nor colons -/

/-- Only two delimiters could go on with a component in a way that matters here: the points of a
range and the colon of an association. -/
theorem eq_of_word_mem (hText : Tail.word text ∈ Rule.componentTails) : text = ".." ∨ text = ":" := by
  simpa [Rule.componentTails] using hText

/-- A component stands alone before whatever does not go on with it: no element at its start is
taken for the beginning of a range or for a key. -/
theorem Component.lone_of_tail (component : Tree .component) (made : component.Made)
    (hText : Tail.word text ∈ Rule.componentTails) (exactly : Exactly component.terminals spot.rest last)
    (hAbsent : (Tail.word text).Absent line ⟨last, spot.nesting⟩) : spot.Lone line text := by
  refine Component.lone component made ?_ exactly hAbsent
  rcases eq_of_word_mem hText with rfl | rfl <;> decide

/-- A value on a line and the end of the line. -/
theorem AnnotatedValue.exists_value (tree : Tree .annotatedValue) (made : tree.Made)
    (exactly : Exactly tree.terminals spot.rest last) :
    ∃ (component : Tree .component) (note : Option String) (middle : List Token), component.Made ∧
      Exactly component.terminals spot.rest middle ∧ Exactly (lineEnding note) middle last := by
  obtain ⟨content⟩ := tree
  obtain ⟨-, hChildren⟩ := Tree.made_mk.mp made
  cases content with
  | sequence fields =>
    cases fields with
    | child component fields =>
      cases fields with
      | optionalText note fields =>
        cases fields
        have hExactly : Exactly (component.terminals ++ lineEnding note) spot.rest last := exactly
        obtain ⟨middle, hComponent, hEnding⟩ := hExactly.exists_append
        exact ⟨component, note, middle, hChildren ⟨.component, component⟩ List.mem_cons_self,
          hComponent, hEnding⟩

theorem AnnotatedValue.lone (tree : Tree .annotatedValue) (made : tree.Made)
    (hText : Tail.word text ∈ Rule.componentTails) (exactly : Exactly tree.terminals spot.rest last)
    (hAbsent : (Tail.word text).Absent line ⟨last, spot.nesting⟩) : spot.Lone line text := by
  obtain ⟨component, note, middle, hMade, hComponent, hEnding⟩ := exists_value tree made exactly
  refine Component.lone_of_tail component hMade hText hComponent ?_
  exact Tail.absent_lineEnding hText note hEnding hAbsent

/-- Where a literal or an opening bracket is seen but no colon behind it, nothing is keyed. -/
theorem Spot.unkeyed_of_solid (hRest : spot.rest = token :: rest) (hSolid : token.kind.isLayout = false)
    (hError : token.kind ≠ .error) (hLead : token.lead ≠ .word ":") (lone : spot.Lone line ":") :
    spot.Unkeyed line where
  lone := lone
  clear := clear_of_solid hRest hSolid hError (by simpa using hLead) line
  behindLine := by
    intro first more hVisible hNewline
    rw [visible_of_solid hRest hSolid] at hVisible
    rw [(List.cons.inj hVisible).1, hNewline] at hSolid
    cases hSolid

/-- Behind a newline there are no associations if there are none on the line that it opens, neither
inline ones nor ones over several lines. -/
theorem Spot.unkeyed_newline (hRest : spot.rest = token :: rest) (hKind : token.kind = .newline)
    (clear : (⟨rest, spot.nesting⟩ : Spot).Clear line [.word ":"])
    (lone : (⟨rest, spot.nesting⟩ : Spot).Lone line ":") : spot.Unkeyed line where
  lone := lone_newline hRest hKind lone
  clear := clear_newline hRest hKind (by simp) fun _ => clear
  behindLine := by
    intro first more hVisible _
    rw [visible_newline hRest hKind, if_neg (by simp)] at hVisible
    rwa [← (List.cons.inj hVisible).2]

/-- Where what stands behind an opening bracket is no range and is not keyed. -/
structure Spot.Plain (line : Line) (spot : Spot) : Prop where
  lone : spot.Lone line ".."
  unkeyed : spot.Unkeyed line

theorem Spot.plain_of_solid (hRest : spot.rest = token :: rest) (hSolid : token.kind.isLayout = false)
    (hError : token.kind ≠ .error) (hLead : token.lead ≠ .word ":")
    (hLone : ∀ text, Tail.word text ∈ Rule.componentTails → spot.Lone line text) : spot.Plain line :=
  ⟨hLone _ (by simp [Rule.componentTails]),
    unkeyed_of_solid hRest hSolid hError hLead (hLone _ (by simp [Rule.componentTails]))⟩

/-- Where a list ends neither points nor a colon are there, nor are they behind what does not begin
with them. -/
theorem Trees.absent_before_closing {rule : Rule} (hRule : rule ∈ [Rule.annotatedValue, .additionalValue])
    (hText : Tail.word text ∈ Rule.componentTails) (trees : Trees rule)
    (made : ∀ node ∈ trees.asNodes, node.tree.Made) (exactly : Exactly trees.terminals spot.rest last)
    (hLast : last = token :: rest) (hClosing : (Terminal.verbatim .delimiter "]").reads token) :
    (Tail.word text).Absent line spot := by
  have hBars : ∀ rule ∈ [Rule.annotatedValue, .additionalValue], ∀ text ∈ ["..", ":"],
      bars [.word text] [.word text] rule.leads true = true := by
    decide
  have hMem : text ∈ ["..", ":"] := by simpa using eq_of_word_mem hText
  obtain ⟨hKind, hToken⟩ := hClosing
  refine trees.absent_before (hBars rule hRule text hMem) made exactly ?_
  refine Spot.clear_of_delimiter hLast hKind ?_ line
  rcases eq_of_word_mem hText with rfl | rfl <;> simp [hToken]

/-- No rule that values begin with begins with a colon, which would make the brackets those of an
empty catalog. -/
theorem lead_ne_colon {rule : Rule} (hRule : rule ∈ [Rule.annotatedValue, .component])
    (hLead : token.lead ∈ rule.leads) : token.lead ≠ .word ":" := by
  have hAll : ∀ rule ∈ [Rule.annotatedValue, .component], Lead.word ":" ∉ rule.leads := by
    decide
  exact fun hSame => hAll rule hRule (hSame ▸ hLead)

/-- The values between the brackets of a list are no range and are not keyed. -/
theorem Values.plain (values : Tree .values) (made : values.Made)
    (exactly : Exactly (values.terminals ++ [.verbatim .delimiter "]"]) spot.rest last) :
    spot.Plain line := by
  obtain ⟨behind, hValues, hClosing⟩ := exactly.exists_append
  obtain ⟨closing, more, hBehind, hReads, -, hError, -⟩ := hClosing.exists_cons
  obtain ⟨content⟩ := values
  obtain ⟨-, hChildren⟩ := Tree.made_mk.mp made
  cases content with
  | oneOf rule allowed tree =>
    have hTree : tree.Made := hChildren ⟨rule, tree⟩ List.mem_cons_self
    have hRule : rule = .multilineValues ∨ rule = .inlineValues ∨ rule = .noValues := by
      simpa using allowed
    obtain ⟨content⟩ := tree
    obtain ⟨hMade, hChildren⟩ := Tree.made_mk.mp hTree
    rcases hRule with rfl | rfl | rfl
    · cases content with
      | sequence fields =>
        obtain ⟨newline, rest, middle, first, trees, hRest, hNewline, hFirst, hMore, hLine, hLines⟩ :=
          fields.exists_line hMade hChildren hValues
        obtain ⟨token, after, hHead, hSolid, hNoError, hLead⟩ :=
          first.exists_head hLine (by decide) (by decide) hFirst
        have hPlain : (⟨rest, spot.nesting⟩ : Spot).Plain line := by
          refine Spot.plain_of_solid hHead hSolid hNoError (lead_ne_colon (by simp) hLead) ?_
          intro text hText
          refine AnnotatedValue.lone first hLine hText hFirst ?_
          exact trees.absent_before_closing (by simp) hText hLines hMore hBehind hReads
        exact ⟨Spot.lone_newline hRest hNewline hPlain.lone,
          Spot.unkeyed_newline hRest hNewline hPlain.unkeyed.clear hPlain.unkeyed.lone⟩
    · cases content with
      | sequence fields =>
        obtain ⟨middle, component, trees, hFirst, hMore, hComponent, hTrees⟩ :=
          fields.exists_more hChildren hValues
        obtain ⟨token, after, hHead, hSolid, hNoError, hLead⟩ :=
          component.exists_head hComponent (by decide) (by decide) hFirst
        refine Spot.plain_of_solid hHead hSolid hNoError (lead_ne_colon (by simp) hLead) ?_
        intro text hText
        refine Component.lone_of_tail component hComponent hText hFirst ?_
        exact trees.absent_before_closing (by simp) hText hTrees hMore hBehind hReads
    · cases content with
      | sequence fields =>
        cases fields
        have hNone : Exactly [] spot.rest behind := hValues
        obtain ⟨hKind, hText⟩ := hReads
        have hSolid : closing.kind.isLayout = false := by simp [hKind, Kind.isLayout]
        have hLead : closing.lead = .word "]" := by rw [Token.lead_of_delimiter hKind, hText]
        have hSpot : spot.rest = closing :: more := hNone.eq_of_nil.trans hBehind
        refine Spot.plain_of_solid hSpot hSolid hError (by simp [hLead]) fun text _ => ?_
        exact .inl (Spot.clear_of_solid hSpot hSolid hError (by rw [hLead]; decide) line)

/-- A list is the first thing found at its opening bracket: neither the points of a range nor the
colon of a catalog follow what it begins with. -/
theorem Node.foremost_list (tree : Tree .list) (made : tree.Made) : Node.Foremost ⟨.list, tree⟩ := by
  intro line spot next between _ rival hRival
  have hRule : rival = .range ∨ rival = .catalog := by simpa [Rule.rivals] using hRival
  obtain ⟨content⟩ := tree
  obtain ⟨-, hChildren⟩ := Tree.made_mk.mp made
  cases content with
  | sequence fields =>
    cases fields with
    | child values fields =>
      cases fields
      have hExactly : Exactly (.verbatim .delimiter "[" :: (values.terminals ++
        [.verbatim .delimiter "]"])) spot.rest next.rest := between.exactly
      obtain ⟨bracket, rest, hRest, ⟨hKind, -⟩, -, -, hBehind⟩ := hExactly.exists_cons
      have hPlain : (⟨rest, Cursor.nestingAfter bracket spot.nesting⟩ : Spot).Plain line :=
        Values.plain values (hChildren ⟨.values, values⟩ List.mem_cons_self) hBehind
      rcases hRule with rfl | rfl
      · exact look_range_eq_absent hRest hKind hPlain.lone
      · exact look_catalog_eq_absent hRest hKind hPlain.unkeyed

/-! ### What stands between round brackets -/

/-- A subject stands alone where no points follow it. Only then is a bracket before it taken for one
around an expression. -/
theorem Subject.lone (subject : Tree .subject) (made : subject.Made)
    (exactly : Exactly subject.terminals spot.rest last)
    (hAbsent : (Tail.word "..").Absent line ⟨last, spot.nesting⟩) : spot.Lone line ".." := by
  obtain ⟨content⟩ := subject
  obtain ⟨-, hChildren⟩ := Tree.made_mk.mp made
  cases content with
  | oneOf rule allowed tree =>
    have hTree : tree.Made := hChildren ⟨rule, tree⟩ List.mem_cons_self
    by_cases hComponent : rule = .component
    · subst hComponent
      exact Component.lone_of_tail tree hTree (by simp [Rule.componentTails]) exactly hAbsent
    · have hBare : ∀ other ∈ [Rule.component, .target, .referent, .precedence, .inversion,
          .magnitude, .complement], other ≠ .component → other.opensBare = true := by
        decide
      exact tree.lone_of_opensBare (hBare rule allowed hComponent) hTree exactly

/-- An expression before its closing bracket stands alone: neither its operators nor the bracket are
the points of a range. -/
theorem Expression.lone (expression : Tree .expression) (made : expression.Made)
    (exactly : Exactly (expression.terminals ++ [.verbatim .delimiter ")"]) spot.rest last) :
    spot.Lone line ".." := by
  obtain ⟨behind, hExpression, hClosing⟩ := exactly.exists_append
  obtain ⟨closing, more, hBehind, ⟨hKind, hText⟩, -, hError, -⟩ := hClosing.exists_cons
  obtain ⟨content⟩ := expression
  obtain ⟨-, hChildren⟩ := Tree.made_mk.mp made
  cases content with
  | sequence fields =>
    obtain ⟨middle, subject, predicates, hSubject, hMore, hMade, hPredicates⟩ :=
      fields.exists_more hChildren hExpression
    refine Subject.lone subject hMade hSubject ?_
    refine predicates.absent_before (by decide) hPredicates hMore ?_
    exact Spot.clear_of_delimiter hBehind hKind (by simp [hText]) line

/-- Where a round bracket opens that begins no range, no component is there. -/
theorem look_component_eq_absent (hRest : spot.rest = token :: rest) (hError : token.kind ≠ .error)
    (hLead : token.lead = .word "(")
    (lone : (⟨rest, Cursor.nestingAfter token spot.nesting⟩ : Spot).Lone line "..") :
    look .component line spot = .absent := by
  have hKind := Token.kind_of_lead hLead
  have hNone : ∀ rule ∈ [Rule.element, .string, .procedure, .catalog, .list],
      look rule line spot = .absent := by
    intro rule hRule
    have hAll : ∀ rule ∈ [Rule.element, .string, .procedure, .catalog, .list],
        rule.isDirect = true ∧ Lead.word "(" ∉ rule.leads := by
      decide
    refine look_eq_absent (hAll rule hRule).1 ?_
    exact Spot.clear_of_solid hRest (by simp [hKind, Kind.isLayout]) hError
      (by rw [hLead]; exact (hAll rule hRule).2) line
  have hRange : look .range line spot = .absent := look_range_eq_absent hRest hKind lone
  have hCollection : look .collection line spot = .absent :=
    look_eq_absent_of_rules rfl (by simp [hRange, hNone])
  have hEntity : look .entity line spot = .absent :=
    look_eq_absent_of_rules rfl (by simp [hCollection, hNone])
  exact look_eq_absent_of_parts rfl fun _ => seekParts_eq_absent_of_child hEntity

/-- An expression in brackets is the first thing found at its opening bracket, although a range may
begin with the same one. -/
theorem Node.foremost_precedence (tree : Tree .precedence) (made : tree.Made) :
    Node.Foremost ⟨.precedence, tree⟩ := by
  intro line spot next between _ rival hRival
  obtain rfl : rival = .component := by simpa [Rule.rivals] using hRival
  obtain ⟨content⟩ := tree
  obtain ⟨-, hChildren⟩ := Tree.made_mk.mp made
  cases content with
  | sequence fields =>
    cases fields with
    | child expression fields =>
      cases fields
      have hExactly : Exactly (.verbatim .delimiter "(" :: (expression.terminals ++
        [.verbatim .delimiter ")"])) spot.rest next.rest := between.exactly
      obtain ⟨bracket, rest, hRest, ⟨hKind, hText⟩, -, hError, hBehind⟩ := hExactly.exists_cons
      refine look_component_eq_absent hRest hError (by rw [Token.lead_of_delimiter hKind, hText]) ?_
      exact Expression.lone expression (hChildren ⟨.expression, expression⟩ List.mem_cons_self) hBehind

/-- Behind the bracket at the head of a range nothing is keyed. -/
theorem Range.unkeyed (tree : Tree .range) (made : tree.Made)
    (exactly : Exactly tree.terminals spot.rest last) : ∃ bracket rest, spot.rest = bracket :: rest ∧
      ∀ nesting, (⟨rest, nesting⟩ : Spot).Unkeyed line := by
  obtain ⟨content⟩ := tree
  obtain ⟨-, hChildren⟩ := Tree.made_mk.mp made
  cases content with
  | sequence fields =>
    cases fields with
    | text left fields =>
      cases fields with
      | child first fields =>
        have hFirst : first.Made := hChildren ⟨.primitive, first⟩ List.mem_cons_self
        cases fields with
        | child second fields =>
          cases fields with
          | text right fields =>
            cases fields
            have hExactly : Exactly (.kept .delimiter left :: (first.terminals ++
              (.verbatim .delimiter ".." :: (second.terminals ++ [.kept .delimiter right]))))
                spot.rest last := exactly
            obtain ⟨bracket, rest, hRest, -, -, -, hBehind⟩ := hExactly.exists_cons
            obtain ⟨middle, hPrimitive, hMore⟩ := hBehind.exists_append
            obtain ⟨points, after, rfl, ⟨hKind, hText⟩, -, hError, -⟩ := hMore.exists_cons
            obtain ⟨token, behind, hHead, hSolid, hNoError, hLead⟩ :=
              first.exists_head hFirst (by decide) (by decide) hPrimitive
            refine ⟨bracket, rest, hRest, fun nesting => ?_⟩
            have hOther : token.lead ≠ .word ":" := by
              intro hSame
              rw [hSame] at hLead
              revert hLead
              decide
            refine Spot.unkeyed_of_solid hHead hSolid hNoError hOther ?_
            refine Primitive.lone first hFirst hPrimitive ?_
            exact Spot.clear_of_delimiter rfl hKind (by simp [hText]) line

/-- What has a round bracket at its head and is a child of one of these rules is a range. -/
theorem Entity.exists_range (entity : Tree .entity) (made : entity.Made)
    (exactly : Exactly entity.terminals spot.rest last)
    (hRest : spot.rest = token :: rest) (hLead : token.lead = .word "(") :
    ∃ tree : Tree .range, tree.Made ∧ Exactly tree.terminals spot.rest last := by
  have hAll : ∀ rule ∈ [Rule.element, .string, .procedure, .catalog, .list],
      rule.mayBeEmpty = false ∧ Lead.kind .newline ∉ rule.leads ∧ Lead.word "(" ∉ rule.leads := by
    decide
  have hOther : ∀ {rule : Rule} (tree : Tree rule), tree.Made → Exactly tree.terminals spot.rest last →
      rule ∉ [Rule.element, .string, .procedure, .catalog, .list] := by
    intro rule tree hMade hExactly hRule
    obtain ⟨head, more, hHead, -, -, hMem⟩ :=
      tree.exists_head hMade (hAll rule hRule).1 (hAll rule hRule).2.1 hExactly
    rw [hRest] at hHead
    rw [← (List.cons.inj hHead).1, hLead] at hMem
    exact (hAll rule hRule).2.2 hMem
  obtain ⟨content⟩ := entity
  obtain ⟨-, hChildren⟩ := Tree.made_mk.mp made
  cases content with
  | oneOf rule allowed tree =>
    have hTree : tree.Made := hChildren ⟨rule, tree⟩ List.mem_cons_self
    have hRule : rule = .collection := by
      have hNot := hOther tree hTree exactly
      revert hNot
      simp only [List.mem_cons, List.not_mem_nil, or_false] at allowed ⊢
      tauto
    subst hRule
    obtain ⟨content⟩ := tree
    obtain ⟨-, hChildren⟩ := Tree.made_mk.mp hTree
    cases content with
    | oneOf rule allowed tree =>
      have hTree : tree.Made := hChildren ⟨rule, tree⟩ List.mem_cons_self
      have hRule : rule = .range := by
        have hNot := hOther tree hTree exactly
        revert hNot
        simp only [List.mem_cons, List.not_mem_nil, or_false] at allowed ⊢
        tauto
      subst hRule
      exact ⟨tree, hTree, exactly⟩

/-- Lines of a list may come one after another: what a line begins with does not go on with the one
before it. -/
theorem Node.fresh_annotatedValue (tree : Tree .annotatedValue) (made : tree.Made) :
    Node.Fresh ⟨.annotatedValue, tree⟩ := by
  intro line spot last hExactly tail hTail
  obtain ⟨component, note, middle, hMade, hComponent, -⟩ := AnnotatedValue.exists_value tree made hExactly
  obtain ⟨token, rest, hRest, hSolid, hError, hLead⟩ :=
    component.exists_head hMade (by decide) (by decide) hComponent
  have hTails : ∀ tail ∈ Rule.componentTails, tail.isSeen = true ∧
      ∀ lead ∈ Rule.component.leads, lead ∈ tail.leads →
        tail = .rule .parameters ∧ lead = .word "(" := by
    decide
  obtain ⟨hSeen, hSame⟩ := hTails tail hTail
  by_cases hMem : token.lead ∈ tail.leads
  · obtain ⟨rfl, hBracket⟩ := hSame token.lead hLead hMem
    obtain ⟨entity, behind, hEntity, hHere, -⟩ := Component.exists_entity component hMade hComponent
    obtain ⟨range, hRange, hThere⟩ := Entity.exists_range entity hEntity hHere hRest hBracket
    obtain ⟨bracket, more, hBehind, hUnkeyed⟩ := Range.unkeyed range hRange hThere
    have hKind := Token.kind_of_lead hBracket
    rw [hRest] at hBehind
    obtain ⟨rfl, rfl⟩ := List.cons.inj hBehind
    exact look_parameters_eq_absent hRest hKind (hUnkeyed _)
  · exact Tail.absent_of_solid hSeen hRest hSolid hError hMem line

end

end DocumentLanguage
