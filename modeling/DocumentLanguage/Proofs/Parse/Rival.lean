import DocumentLanguage.Proofs.Parse.Complete

/-!
Rules that begin alike. A range, a catalog and a list all begin with a bracket, and what a name
belongs to is told by what comes behind it. Which of them is not there is seen one token later: a
literal that points or a colon come behind, or do not.
-/
namespace DocumentLanguage

/-- The kinds of tokens that are ends of ranges and keys. -/
def primitiveKinds : List Kind := Kind.elements ++ Kind.strings

/-- Whether no literal is at a spot with a word behind it. -/
def Spot.Lone (line : Line) (spot : Spot) (text : String) : Prop :=
  spot.Clear line Rule.primitive.leads ∨ ∃ token rest, spot.visible line true = token :: rest ∧
    token.kind ∈ primitiveKinds ∧ (⟨rest, spot.nesting⟩ : Spot).Clear line [.word text]

section

variable {line : Line} {spot : Spot} {token : Token} {rest : List Token}

/-- A literal that is seen is found where one is looked for. -/
theorem look_primitive_eq_found (hVisible : spot.visible line true = token :: rest)
    (hKind : token.kind ∈ primitiveKinds) :
    ∃ tree, look .primitive line spot = .found tree false ⟨rest, spot.nesting⟩ := by
  have hAll : ∀ kind ∈ primitiveKinds, kind ≠ .error ∧ kind ≠ .delimiter := by decide
  obtain ⟨hError, hDelimiter⟩ := hAll _ hKind
  have hFound : ∀ kinds : List Kind, token.kind ∈ kinds →
      spot.expectKinds line kinds = .found token false ⟨rest, spot.nesting⟩ := by
    intro kinds hMem
    have hTest : kinds.contains token.kind = true := by simpa using hMem
    have hHere := @Spot.expect_of_visible line spot token rest true (kinds.contains ·.kind) hVisible
      hError hTest
    rwa [nestingAfter_of_kind hDelimiter] at hHere
  have hFirst : ∀ bound, seekForm look bound .primitive line spot Rule.primitive.form =
      seekFirst look line spot [.element, .string] := fun _ => rfl
  have hElement : ∀ bound, seekForm look bound .element line spot Rule.element.form =
      (spot.expectKinds line Kind.elements).map
        fun token => .literal token.kind (Text.dedent token.text) := fun _ => rfl
  have hString : ∀ bound, seekForm look bound .string line spot Rule.string.form =
      (spot.expectKinds line Kind.strings).map
        fun token => .literal token.kind (Text.dedent token.text) := fun _ => rfl
  rw [look_eq (Nat.le_refl _), hFirst, seekFirst_cons, seekFirst_cons]
  by_cases hElements : token.kind ∈ Kind.elements
  · have hLook : look .element line spot =
        .found (.mk (.literal token.kind (Text.dedent token.text))) false ⟨rest, spot.nesting⟩ := by
      rw [look_eq (Nat.le_refl _), hElement, hFound _ hElements]
      rfl
    rw [hLook]
    exact ⟨_, rfl⟩
  · have hNone : look .element line spot = .absent := by
      have hExpect : spot.expectKinds line Kind.elements = .absent := by
        refine Spot.expect_eq_absent fun head hHead => ?_
        rw [hVisible] at hHead
        cases hHead
        exact ⟨hError, by simpa using hElements⟩
      rw [look_eq (Nat.le_refl _), hElement, hExpect]
      rfl
    have hLook : look .string line spot =
        .found (.mk (.literal token.kind (Text.dedent token.text))) false ⟨rest, spot.nesting⟩ := by
      rw [look_eq (Nat.le_refl _), hString, hFound _ ((List.mem_append.mp hKind).resolve_left hElements)]
      rfl
    rw [hNone, hLook]
    exact ⟨_, rfl⟩

/-- Where a literal is looked for and a word behind it, neither is there. -/
theorem seekParts_eq_absent_of_lone {bound : Nat} {setting : Setting} {label text : String}
    {parts : List Part} {owner : Bool} (lone : spot.Lone setting.line text) :
    seekParts look bound setting (.child label .primitive :: .delimiter text :: parts) ⟨false, owner⟩ spot =
      .absent := by
  rw [seekParts_cons, seekPart]
  rcases lone with clear | ⟨token, rest, hVisible, hKind, clear⟩
  · rw [look_eq_absent (by decide) clear, Reply.either_absent, setting.giveUp_uncommitted]
    rfl
  · obtain ⟨tree, hFound⟩ := look_primitive_eq_found hVisible hKind
    rw [hFound, Reply.either_found, Reply.either_found, seekParts_cons, seekPart,
      clear.expectOneOf (by simp), Reply.either_absent]
    dsimp only
    rw [Bool.or_false, setting.giveUp_uncommitted]
    rfl

/-- There is no association where what begins there has no colon behind it. -/
theorem look_association_eq_absent (lone : spot.Lone line ":") : look .association line spot = .absent :=
  look_eq_absent_of_parts rfl fun _ => seekParts_eq_absent_of_lone lone

/-- There is no range behind a bracket if what begins there has no points behind it, although the
bracket itself is one that a range might have. -/
theorem look_range_eq_absent (hRest : spot.rest = token :: rest) (hKind : token.kind = .delimiter)
    (lone : (⟨rest, Cursor.nestingAfter token spot.nesting⟩ : Spot).Lone line "..") :
    look .range line spot = .absent := by
  refine look_eq_absent_of_parts rfl fun bound => ?_
  rw [seekParts_cons, seekPart]
  by_cases hText : token.text ∈ Choice.leftBracket.delimiters
  · rw [Spot.expectOneOf_eq_found hRest hKind hText, Reply.either_found, Reply.either_found,
      seekParts_eq_absent_of_lone lone]
    rfl
  · have clear : spot.Clear line (Choice.leftBracket.delimiters.map Lead.word) :=
      Spot.clear_of_delimiter hRest hKind (by simpa using hText) line
    rw [clear.expectOneOf fun text hMem => List.mem_map_of_mem hMem]
    rfl

/-- Where no associations begin behind a bracket. A newline may come before them. -/
structure Spot.Unkeyed (line : Line) (spot : Spot) : Prop where
  lone : spot.Lone line ":"
  clear : spot.Clear line [.word ":"]
  behindLine : ∀ token rest, spot.visible line false = token :: rest → token.kind = .newline →
    (⟨rest, spot.nesting⟩ : Spot).Lone line ":"

/-- Behind a newline that opens a line without a key there are no associations over several lines.
-/
theorem Spot.Unkeyed.look_multilineAssociations (unkeyed : spot.Unkeyed line) :
    look .multilineAssociations line spot = .absent := by
  refine look_eq_absent_of_parts rfl fun bound => ?_
  rw [seekParts_cons, seekPart]
  by_cases hLine : ∃ token rest, spot.visible line false = token :: rest ∧ token.kind = .newline
  · obtain ⟨token, rest, hVisible, hNewline⟩ := hLine
    have hExpect : spot.expectKind line .newline = .found token false ⟨rest, spot.nesting⟩ := by
      have hFound := @expect_of_visible line spot token rest false (·.kind = .newline) hVisible
        (by simp [hNewline]) (by simpa using hNewline)
      rwa [nestingAfter_of_kind (by simp [hNewline])] at hFound
    have hBehind : look .annotatedAssociation line ⟨rest, spot.nesting⟩ = .absent :=
      look_eq_absent_of_parts rfl fun _ => seekParts_eq_absent_of_child
        (look_association_eq_absent (unkeyed.behindLine token rest hVisible hNewline))
    rw [hExpect, Reply.either_found, Reply.either_found, seekParts_cons, seekPart, hBehind,
      Reply.either_absent, Setting.giveUp_uncommitted]
    rfl
  · have hExpect : spot.expectKind line .newline = .absent := by
      refine expect_eq_absent fun token hToken => ⟨(unkeyed.clear false token hToken).1, ?_⟩
      obtain ⟨rest, hVisible⟩ := List.head?_eq_some_iff.mp hToken
      exact decide_eq_false fun hNewline => hLine ⟨token, rest, hVisible, hNewline⟩
    rw [hExpect, Reply.either_absent, Setting.giveUp_uncommitted]
    rfl

/-- Where nothing has a key there are no associations of any sort, and an empty catalog does not
begin there either. -/
theorem Spot.Unkeyed.look_associations (unkeyed : spot.Unkeyed line) :
    look .associations line spot = .absent := by
  have hInline : look .inlineAssociations line spot = .absent :=
    look_eq_absent_of_parts rfl fun _ => seekParts_eq_absent_of_child
      (look_association_eq_absent unkeyed.lone)
  have hNone : look .noAssociations line spot = .absent :=
    look_eq_absent (by decide) (unkeyed.clear.mono (by decide))
  exact look_eq_absent_of_rules rfl (by simp [unkeyed.look_multilineAssociations, hInline, hNone])

/-- Where no associations begin behind a bracket, neither a catalog nor parameters are there. -/
theorem seekParts_eq_absent_of_unkeyed {bound : Nat} {setting : Setting} {left label : String}
    {parts : List Part} {owner : Bool} (hRest : spot.rest = token :: rest)
    (hKind : token.kind = .delimiter)
    (unkeyed : (⟨rest, Cursor.nestingAfter token spot.nesting⟩ : Spot).Unkeyed setting.line) :
    seekParts look bound setting (.delimiter left :: .child label .associations :: parts)
      ⟨false, owner⟩ spot = .absent := by
  rw [seekParts_cons, seekPart]
  by_cases hText : token.text = left
  · rw [Spot.expectOneOf_eq_found hRest hKind (by simp [hText]), Reply.either_found, Reply.either_found,
      seekParts_cons, seekPart, unkeyed.look_associations, Reply.either_absent, setting.giveUp_uncommitted]
    rfl
  · have clear : spot.Clear setting.line [.word left] :=
      Spot.clear_of_delimiter hRest hKind (by simpa using hText) _
    rw [clear.expectOneOf (by simp), Reply.either_absent, setting.giveUp_uncommitted]
    rfl

/-- No catalog is found at a bracket with nothing behind it that has a key. -/
theorem look_catalog_eq_absent (hRest : spot.rest = token :: rest) (hKind : token.kind = .delimiter)
    (unkeyed : (⟨rest, Cursor.nestingAfter token spot.nesting⟩ : Spot).Unkeyed line) :
    look .catalog line spot = .absent :=
  look_eq_absent_of_parts rfl fun _ => seekParts_eq_absent_of_unkeyed hRest hKind unkeyed

/-- No parameters are found at a bracket with nothing behind it that has a key, as they hold
associations like a catalog. -/
theorem look_parameters_eq_absent (hRest : spot.rest = token :: rest) (hKind : token.kind = .delimiter)
    (unkeyed : (⟨rest, Cursor.nestingAfter token spot.nesting⟩ : Spot).Unkeyed line) :
    look .parameters line spot = .absent :=
  look_eq_absent_of_parts rfl fun _ => seekParts_eq_absent_of_unkeyed hRest hKind unkeyed

/-- What a name belongs to is not there if what must come behind the name is not. -/
theorem seekParts_eq_absent_of_name {bound : Nat} {setting : Setting} {label : String} {part : Part}
    {parts : List Part} {owner : Bool} {leads : List Lead} (hRest : spot.rest = token :: rest)
    (hKind : token.kind = .identifier) (hDirect : part.isDirect = true) (hRule : part.rule? = none)
    (clear : (⟨rest, spot.nesting⟩ : Spot).Clear setting.line leads)
    (hLeads : part.leads Rule.leads ⊆ leads) (hDelimiter : Lead.kind .delimiter ∉ leads) :
    seekParts look bound setting (.token label .identifier :: part :: parts) ⟨false, owner⟩ spot =
      .absent := by
  have hPart : seekPart look bound setting ⟨false, owner⟩ ⟨rest, spot.nesting⟩ part = .absent :=
    seekPart_eq_absent part hDirect clear hLeads hDelimiter (by simp [hRule])
  rw [seekParts_cons, seekPart, Spot.expectKind_eq_found hRest hKind (by decide) (by decide) (by decide),
    Reply.either_found, Reply.either_found, seekParts_cons]
  dsimp only
  rw [hPart]
  rfl

end

end DocumentLanguage
