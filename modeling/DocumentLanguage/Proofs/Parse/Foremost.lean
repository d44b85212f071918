import DocumentLanguage.Proofs.Parse.Rival

/-!
Which of several rules is there. Most alternatives are told by the token at their heads; where one
begins like those that are tried before it, what comes behind rules the others out.
-/
namespace DocumentLanguage

namespace Rule

/-- The rules that are tried before a rule and are not told from it by what they begin with. -/
def rivals : Rule → List Rule
  | catalog => [range]
  | list => [range, catalog]
  | noValues => [multilineValues, inlineValues]
  | noStatements => [multilineStatements, inlineStatements]
  | method => [function]
  | attributeTarget => [function, method]
  | variableTarget => [function, method, attributeTarget]
  | precedence => [component]
  | _ => []

end Rule

/-- Whether the alternatives of a form are told from those before them by what they begin with, or
are rivals. -/
def Form.alternativesTell : Form → Bool
  | oneOf rules => rules.all fun rule => (rules.takeWhile (· ≠ rule)).all fun other =>
      rule.rivals.contains other || (bars [] [.rule other] rule.leads false && !rule.mayBeEmpty)
  | literal _ | sequence _ _ => true

theorem Rule.alternativesTell_form (rule : Rule) : rule.form.alternativesTell = true := by
  cases rule <;> decide

/-- Whether no rival of a node is there where the node is. -/
def Node.Foremost (node : Node) : Prop :=
  ∀ ⦃line : Line⦄ ⦃spot next : Spot⦄, Between node.tree.terminals spot next →
    (∀ tail ∈ node.rule.tails, tail.Absent line next) →
      ∀ rival ∈ node.rule.rivals, look rival line spot = .absent

/-- What a node that cannot be empty begins with is seen at its spot: a token that is no layout and
that the leads of its rule name. -/
theorem Tree.exists_head {rule : Rule} (tree : Tree rule) (made : tree.Made)
    (hSome : rule.mayBeEmpty = false) (hNewline : Lead.kind .newline ∉ rule.leads)
    {start last : List Token} (exactly : Exactly tree.terminals start last) :
    ∃ token rest, start = token :: rest ∧ token.kind.isLayout = false ∧ token.kind ≠ .error ∧
      token.lead ∈ rule.leads := by
  have hBegins := tree.begins made
  cases hTerminals : tree.terminals with
  | nil =>
    have hMay := hBegins.empty hTerminals
    rw [hSome] at hMay
    cases hMay
  | cons terminal terminals =>
    rw [hTerminals] at hBegins exactly
    exact hBegins.exists_solid hNewline rule.leads_ne_delimiter exactly

section

variable {line : Line} {spot next : Spot} {token : Token} {rest : List Token} {text : String}

/-! ### Where a line ends -/

/-- Over a newline the same is seen as behind it, unless a line ends with it. -/
theorem Spot.visible_newline (hRest : spot.rest = token :: rest) (hKind : token.kind = .newline)
    (overLines : Bool) : spot.visible line overLines =
      if overLines = true ∧ line ≠ some spot.nesting then
        (⟨rest, spot.nesting⟩ : Spot).visible line overLines
      else token :: rest := by
  rw [visible, visible, hRest]
  split
  · rename_i hOver
    exact List.dropWhile_cons_of_pos (by simp [passes, hKind, hOver])
  · rename_i hOver
    refine List.dropWhile_cons_of_neg ?_
    simp only [passes, hKind, Bool.or_eq_true, Bool.and_eq_true, decide_eq_true_eq,
      Bool.not_eq_true', decide_eq_false_iff_not]
    rintro (hSpace | ⟨⟨-, hOverLines⟩, hLine⟩)
    · cases hSpace
    · exact hOver ⟨hOverLines, hLine⟩

/-- A rule that cannot begin with a newline and is not to be found behind one is not found before
it, since all that is passed there is the newline. -/
theorem Spot.clear_newline (hRest : spot.rest = token :: rest) (hKind : token.kind = .newline)
    {leads : List Lead} (hLeads : Lead.kind .newline ∉ leads)
    (clear : line ≠ some spot.nesting → (⟨rest, spot.nesting⟩ : Spot).Clear line leads) :
    spot.Clear line leads := by
  intro overLines first hFirst
  rw [visible_newline hRest hKind] at hFirst
  split at hFirst
  · rename_i hOver
    exact clear hOver.2 overLines first hFirst
  · cases hFirst
    refine ⟨by simp [hKind], ?_⟩
    rwa [Token.lead_of_kind hKind (by decide)]

/-- What stands alone behind a newline stands alone before it as well. Either the newline is passed
and the same literal is seen, or it ends the line and no literal is seen at all. -/
theorem Spot.lone_newline (hRest : spot.rest = token :: rest) (hKind : token.kind = .newline)
    (lone : (⟨rest, spot.nesting⟩ : Spot).Lone line text) : spot.Lone line text := by
  by_cases hLine : line = some spot.nesting
  · exact .inl (clear_newline hRest hKind (by decide) fun hOther => absurd hLine hOther)
  · rcases lone with clear | ⟨literal, more, hVisible, hLiteral, clear⟩
    · exact .inl (clear_newline hRest hKind (by decide) fun _ => clear)
    · refine .inr ⟨literal, more, ?_, hLiteral, clear⟩
      rw [visible_newline hRest hKind, if_pos ⟨rfl, hLine⟩]
      exact hVisible

/-- A tail that is not behind a newline is not before it, if it is a word or parameters. -/
theorem Tail.absent_newline {tail : Tail} (hTail : tail ∈ Rule.componentTails)
    (hRest : spot.rest = token :: rest) (hKind : token.kind = .newline)
    (hAbsent : tail.Absent line ⟨rest, spot.nesting⟩) : tail.Absent line spot := by
  cases tail with
  | word text => exact Spot.clear_newline hRest hKind (by simp) fun _ => hAbsent
  | rule other =>
    obtain rfl : other = .parameters := by simpa [Rule.componentTails] using hTail
    by_cases hLine : line = some spot.nesting
    · refine look_eq_absent (by decide) (Spot.clear_newline hRest hKind (by decide) ?_)
      exact fun hOther => absurd hLine hOther
    · -- At both spots the same bracket is seen, or none.
      have hForm : ∀ bound spot, seekForm look bound .parameters line spot Rule.parameters.form =
          (seekParts look bound ⟨.parameters, .attempt, line⟩ [.delimiter "(",
            .child "associations" .associations, .delimiter ")"] ⟨false, false⟩ spot).map .sequence :=
        fun _ _ => rfl
      have hExpect : spot.expectOneOf line ["("] =
          (⟨rest, spot.nesting⟩ : Spot).expectOneOf line ["("] := by
        simp only [Spot.expectOneOf, Spot.expect]
        rw [Spot.visible_newline hRest hKind, if_pos ⟨rfl, hLine⟩]
      have hBound : nestingPerToken * rest.length + Rule.parameters.rank ≤
          nestingPerToken * spot.rest.length + Rule.parameters.rank := by
        simp [hRest, Nat.mul_add]
      have hNone : look .parameters line ⟨rest, spot.nesting⟩ = .absent := hAbsent
      rw [look_eq hBound, hForm, seekParts_cons, seekPart, ← hExpect] at hNone
      rw [Tail.Absent, look_eq (Nat.le_refl _), hForm, seekParts_cons, seekPart]
      cases hBracket : spot.expectOneOf line ["("] with
      | found bracket commits next => rwa [hBracket] at hNone
      | absent =>
        rw [Reply.either_absent, Setting.giveUp_uncommitted]
        rfl
      | failed failure next =>
        rw [hBracket] at hNone
        cases hNone

/-! ### Where a literal has no word behind it -/

/-- A literal has no word behind it that is not there. -/
theorem Spot.lone_of_literal {kind : Kind} {kept : String} (hKind : kind ∈ primitiveKinds)
    (exactly : Exactly [.dedented kind kept] spot.rest rest)
    (clear : (⟨rest, spot.nesting⟩ : Spot).Clear line [.word text]) : spot.Lone line text := by
  have hAll : ∀ kind ∈ primitiveKinds, kind.isLayout = false := by decide
  obtain ⟨token, behind, hRest, ⟨hToken, -⟩, -, -, hBehind⟩ := exactly.exists_cons
  obtain rfl := hBehind.eq_of_nil
  refine .inr ⟨token, behind, ?_, hToken ▸ hKind, clear⟩
  exact Spot.visible_of_solid hRest (by rw [hToken]; exact hAll kind hKind) line true

/-- A primitive stands alone where the delimiter does not follow it, since it is a single token and
the rest begins right behind it. -/
theorem Primitive.lone (primitive : Tree .primitive) (made : primitive.Made)
    (exactly : Exactly primitive.terminals spot.rest rest)
    (clear : (⟨rest, spot.nesting⟩ : Spot).Clear line [.word text]) : spot.Lone line text := by
  obtain ⟨content⟩ := primitive
  obtain ⟨-, hChildren⟩ := Tree.made_mk.mp made
  cases content with
  | oneOf rule allowed tree =>
    have hMade : tree.Made := hChildren ⟨rule, tree⟩ List.mem_cons_self
    have hRule : rule = .element ∨ rule = .string := by simpa using allowed
    rcases hRule with rfl | rfl
    · obtain ⟨content⟩ := tree
      cases content with
      | literal kind kept =>
        have hKind : Kind.elements.contains kind = true := (Tree.made_mk.mp hMade).1
        exact Spot.lone_of_literal
          (List.mem_append.mpr (.inl (List.contains_iff_mem.mp hKind))) exactly clear
    · obtain ⟨content⟩ := tree
      cases content with
      | literal kind kept =>
        have hKind : Kind.strings.contains kind = true := (Tree.made_mk.mp hMade).1
        exact Spot.lone_of_literal
          (List.mem_append.mpr (.inr (List.contains_iff_mem.mp hKind))) exactly clear

/-- Whether a rule begins neither with a literal nor with a newline. -/
def Rule.opensBare (rule : Rule) : Bool :=
  !rule.mayBeEmpty && (Lead.kind .newline :: Rule.primitive.leads).all (!rule.leads.contains ·)

/-- A node whose rule begins with no literal is not mistaken for something with a delimiter behind
its first literal. -/
theorem Tree.lone_of_opensBare {rule : Rule} (hBare : rule.opensBare = true) (tree : Tree rule)
    (made : tree.Made) {last : List Token} (exactly : Exactly tree.terminals spot.rest last) :
    spot.Lone line text := by
  simp only [Rule.opensBare, Bool.and_eq_true, Bool.not_eq_true', List.all_cons,
    List.contains_eq_mem, decide_eq_false_iff_not, List.all_eq_true] at hBare
  obtain ⟨token, rest, hRest, hSolid, hError, hLead⟩ :=
    tree.exists_head made hBare.1 hBare.2.1 exactly
  exact .inl (Spot.clear_of_solid hRest hSolid hError (fun hMem => hBare.2.2 _ hMem hLead) line)

/-- An entity stands alone where the delimiter does not follow it. A collection or a procedure does
so anyway, as it begins with a bracket and not with a literal. -/
theorem Entity.lone (entity : Tree .entity) (made : entity.Made)
    (exactly : Exactly entity.terminals spot.rest rest)
    (clear : (⟨rest, spot.nesting⟩ : Spot).Clear line [.word text]) : spot.Lone line text := by
  obtain ⟨content⟩ := entity
  obtain ⟨-, hChildren⟩ := Tree.made_mk.mp made
  cases content with
  | oneOf rule allowed tree =>
    have hMade : tree.Made := hChildren ⟨rule, tree⟩ List.mem_cons_self
    have hRule : (rule = .element ∨ rule = .string) ∨ rule = .collection ∨ rule = .procedure := by
      simpa [or_assoc] using allowed
    rcases hRule with hLiteral | hOther
    · have hPrimitive : rule ∈ [Rule.element, .string] := by simpa using hLiteral
      refine Primitive.lone (.mk (.oneOf rule hPrimitive tree)) ?_ exactly clear
      exact Tree.made_mk.mpr ⟨rfl, by simpa [Content.children] using hMade⟩
    · have hBare : rule.opensBare = true := by rcases hOther with rfl | rfl <;> decide
      exact tree.lone_of_opensBare hBare hMade exactly

/-- The terminals of a component are those of its entity and perhaps those of parameters. -/
theorem Component.exists_entity (component : Tree .component) (made : component.Made) {last : List Token}
    (exactly : Exactly component.terminals spot.rest last) :
    ∃ (entity : Tree .entity) (rest : List Token), entity.Made ∧
      Exactly entity.terminals spot.rest rest ∧
        (rest = last ∨ ∃ parameters : Tree .parameters, parameters.Made ∧
          Exactly parameters.terminals rest last) := by
  obtain ⟨content⟩ := component
  obtain ⟨-, hChildren⟩ := Tree.made_mk.mp made
  cases content with
  | sequence fields =>
    cases fields with
    | child entity fields =>
      obtain ⟨rest, hEntity, hBehind⟩ := exactly.exists_append
      refine ⟨entity, rest, hChildren ⟨.entity, entity⟩ (by simp [Content.children, Fields.stored, Stored.nodes]), hEntity, ?_⟩
      cases fields with
      | absent fields =>
        cases fields
        exact .inl hBehind.eq_of_nil
      | present parameters fields =>
        cases fields
        refine .inr ⟨parameters, hChildren ⟨.parameters, parameters⟩ (by simp [Content.children, Fields.stored, Stored.nodes]), ?_⟩
        have hTerminals : weave [.optional "parameters" .parameters] [parameters.terminals] =
            parameters.terminals := List.append_nil _
        rwa [← hTerminals]

/-- A component has no word behind a literal at its head that is not behind the component, unless it
is what parameters begin with. -/
theorem Component.lone (component : Tree .component) (made : component.Made) {last : List Token}
    (hText : Lead.word text ∉ Rule.parameters.leads)
    (exactly : Exactly component.terminals spot.rest last)
    (clear : (⟨last, spot.nesting⟩ : Spot).Clear line [.word text]) : spot.Lone line text := by
  obtain ⟨entity, rest, hEntity, hExactly, rfl | ⟨parameters, hParameters, hBehind⟩⟩ :=
    Component.exists_entity component made exactly
  · exact Entity.lone entity hEntity hExactly clear
  · refine Entity.lone entity hEntity hExactly ?_
    obtain ⟨token, more, hRest, hSolid, hError, hLead⟩ :=
      parameters.exists_head hParameters (by decide) (by decide) hBehind
    refine Spot.clear_of_solid hRest hSolid hError ?_ line
    simp only [List.mem_singleton]
    exact fun hSame => hText (hSame ▸ hLead)

/-! ### The rivals of names -/

/-- What comes behind the name at the head of a rule. -/
def Rule.signs : Rule → List String
  | function => ["("]
  | method => [".", "<-"]
  | attributeTarget => ["["]
  | _ => []

/-- Behind a name nothing is that would make it the head of a rule. -/
theorem look_named_eq_absent {rule : Rule} (hRule : rule ∈ [Rule.function, .method, .attributeTarget])
    (hRest : spot.rest = token :: rest) (hKind : token.kind = .identifier)
    (clear : (⟨rest, spot.nesting⟩ : Spot).Clear line (rule.signs.map .word)) :
    look rule line spot = .absent := by
  have hCases : rule = .function ∨ rule = .method ∨ rule = .attributeTarget := by simpa using hRule
  rcases hCases with rfl | rfl | rfl
  all_goals
    refine look_eq_absent_of_parts rfl fun bound => ?_
    exact seekParts_eq_absent_of_name hRest hKind rfl rfl clear (by decide) (by decide)

/-- None of some words is there if each of them is not. -/
theorem Spot.clear_words {words : List String} (hSome : words ≠ [])
    (hWords : ∀ word ∈ words, spot.Clear line [.word word]) : spot.Clear line (words.map .word) := by
  intro overLines token hToken
  constructor
  · obtain ⟨word, hWord⟩ := List.exists_mem_of_ne_nil words hSome
    exact (hWords word hWord overLines token hToken).1
  · intro hMem
    obtain ⟨word, hWord, hLead⟩ := List.mem_map.mp hMem
    exact (hWords word hWord overLines token hToken).2 (by simp [hLead])

/-- A method is found before the other expressions, although it begins with a name as a function and
a variable do: only a method has a mark of invocation behind its name. -/
theorem Node.foremost_method (tree : Tree .method) (made : tree.Made) : Node.Foremost ⟨.method, tree⟩ := by
  intro line spot next between _ rival hRival
  obtain rfl : rival = .function := by simpa [Rule.rivals] using hRival
  obtain ⟨content⟩ := tree
  cases content with
  | sequence fields =>
    cases fields with
    | text name fields =>
      cases fields with
      | text sign fields =>
        have hSign : Choice.invoke.delimiters.contains sign = true :=
          (Bool.and_eq_true_iff.mp (Tree.made_mk.mp made).1).1
        obtain ⟨token, rest, hRest, hReads, -, -, hBehind⟩ := between.exactly.exists_cons
        obtain ⟨invoke, more, hInvoke, ⟨hKind, hText⟩, -, -, -⟩ := hBehind.exists_cons
        refine look_named_eq_absent (by simp) hRest (keptText_of_reads hReads).1 ?_
        refine Spot.clear_of_delimiter hInvoke hKind ?_ line
        have hOther : sign ≠ "(" := by
          rintro rfl
          revert hSign
          decide
        simpa [hText, Rule.signs] using hOther

/-- An attribute as a target is found before a variable, since it alone has an opening bracket
behind its name. -/
theorem Node.foremost_attributeTarget (tree : Tree .attributeTarget) : Node.Foremost ⟨.attributeTarget, tree⟩ := by
  intro line spot next between _ rival hRival
  obtain ⟨content⟩ := tree
  cases content with
  | sequence fields =>
    cases fields with
    | text name fields =>
      obtain ⟨token, rest, hRest, hReads, -, -, hBehind⟩ := between.exactly.exists_cons
      obtain ⟨bracket, more, hBracket, ⟨hKind, hText⟩, -, -, -⟩ := hBehind.exists_cons
      have hRule : rival = .function ∨ rival = .method := by simpa [Rule.rivals] using hRival
      refine look_named_eq_absent (by rcases hRule with rfl | rfl <;> simp) hRest
        (keptText_of_reads hReads).1 ?_
      refine Spot.clear_of_delimiter hBracket hKind ?_ line
      rcases hRule with rfl | rfl <;> simp [hText, Rule.signs]

/-- A variable as a target is found where no bracket opens behind its name, which would make it an
attribute. -/
theorem Node.foremost_variableTarget (tree : Tree .variableTarget) : Node.Foremost ⟨.variableTarget, tree⟩ := by
  intro line spot next between hTails rival hRival
  obtain ⟨content⟩ := tree
  cases content with
  | sequence fields =>
    cases fields with
    | text name fields =>
      cases fields
      obtain ⟨token, rest, hRest, hReads, -, -, hBehind⟩ := between.exactly.exists_cons
      have hNext : (⟨rest, spot.nesting⟩ : Spot) = next := by
        rw [← between.nesting, hBehind.eq_of_nil]
      refine look_named_eq_absent hRival hRest (keptText_of_reads hReads).1 ?_
      rw [hNext]
      have hWords : ∀ rule ∈ [Rule.function, .method, .attributeTarget], rule.signs ≠ [] ∧
          ∀ word ∈ rule.signs, Tail.word word ∈ Rule.nameTails := by
        decide
      obtain ⟨hSome, hTail⟩ := hWords rival hRival
      exact Spot.clear_words hSome fun word hWord => hTails _ (hTail word hWord)

end

end DocumentLanguage
