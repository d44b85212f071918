import DocumentLanguage.Proofs.Format.Tight

/-!
An inversion in its text. A sign stands right in front of what it inverts, so what matters is how a
subject begins: before a digit the sign becomes part of a number, and before nothing else it
changes.
-/
namespace DocumentLanguage

open Canonical Pattern

/-- A literal at some depth begins as it does by itself, and as tokens of its kind do. -/
theorem Alone.exists_indent {kind : Kind} {text : String} (alone : Alone kind text.toList)
    (hKind : kind ∈ Kind.elements ++ Kind.strings ++ [.identifier]) (depth : Nat) :
    ∃ c pattern body, text.toList.head? = some c ∧ kind.pattern? = some pattern ∧
      pattern.opens c = true ∧ (Text.indent text depth).toList = c :: body := by
  have hAll : ∀ kind ∈ Kind.elements ++ Kind.strings ++ [.identifier], kind ≠ .delimiter ∧
      kind.pattern?.all (fun pattern => !pattern.opens '\n') = true := by
    decide
  obtain ⟨hLiteral, hFeed⟩ := hAll kind hKind
  obtain ⟨c, rest, hText⟩ := List.exists_cons_of_ne_nil alone.ne_nil
  obtain ⟨-, pattern, hPattern, hEnds⟩ := alone.mem_ends hLiteral
  rw [hText] at hEnds
  have hOpens := opens_of_mem_ends hEnds
  have hLine : c ≠ '\n' := by
    rintro rfl
    simp [hPattern, hOpens] at hFeed
  have hRelaid := Text.relaid_indent text depth
  rw [hText] at hRelaid
  obtain ⟨body, hBody, -⟩ := hRelaid.exists_cons hLine
  exact ⟨c, pattern, body, by simp [hText], hPattern, hOpens, hBody⟩

/-- How what is inverted begins: with its element, if that is all it is, and with no digit
otherwise. In neither case a sign becomes an assignment. -/
def BeginsAs (element? : Option String) (text : List Char) : Prop :=
  ∃ c body, text = c :: body ∧ c ≠ '=' ∧
    match element? with
    | some text => text.toList.head? = some c
    | none => Unicode.isDecimalDigit c = false

theorem BeginsAs.append {element? : Option String} {front : List Char} (begins : BeginsAs element? front)
    (back : List Char) : BeginsAs element? (front ++ back) := by
  obtain ⟨c, body, rfl, hFirst⟩ := begins
  exact ⟨c, body ++ back, rfl, hFirst⟩

theorem beginsAs_of_mem {c : Char} (hMem : c ∈ ['[', '(', '\x7b', '@', '|', '-', '*', 'n'])
    (body : List Char) : BeginsAs none (c :: body) := by
  have hAll : ∀ c ∈ ['[', '(', '\x7b', '@', '|', '-', '*', 'n'],
      c ≠ '=' ∧ Unicode.isDecimalDigit c = false := by
    decide
  exact ⟨c, body, rfl, hAll c hMem⟩

/-- An element begins with its own text, at whatever depth it is written. -/
theorem beginsAs_element {kind : Kind} {text : String} (alone : Alone kind text.toList)
    (hKind : kind ∈ Kind.elements) (depth : Nat) :
    BeginsAs (some text) (Text.indent text depth).toList := by
  have hAll : ∀ kind ∈ Kind.elements,
      kind.pattern?.all (fun pattern => !pattern.opens '=') = true := by
    decide
  obtain ⟨c, pattern, body, hHead, hPattern, hOpens, hText⟩ :=
    alone.exists_indent (by simp [hKind]) depth
  refine ⟨c, body, hText, ?_, hHead⟩
  rintro rfl
  simpa [hPattern, hOpens] using hAll kind hKind

/-- A string begins with a mark of its own, which is no digit and not what a sign goes on with. -/
theorem beginsAs_string {kind : Kind} {text : String} (alone : Alone kind text.toList)
    (hKind : kind ∈ Kind.strings) (depth : Nat) : BeginsAs none (Text.indent text depth).toList := by
  have hAll : ∀ kind ∈ Kind.strings, kind.pattern?.all (fun pattern =>
      pattern.openers?.any fun openers => openers.all fun c =>
        c ≠ '=' && !Unicode.isDecimalDigit c) = true := by
    decide
  obtain ⟨c, pattern, body, -, hPattern, hOpens, hText⟩ :=
    alone.exists_indent (by simp [hKind]) depth
  have hOpeners := hAll kind hKind
  simp only [hPattern, Option.all_some, Option.any_eq_true, List.all_eq_true, Bool.and_eq_true,
    decide_eq_true_eq, Bool.not_eq_true'] at hOpeners
  obtain ⟨openers, hSome, hOpeners⟩ := hOpeners
  refine ⟨c, body, hText, hOpeners c ?_⟩
  by_contra hNot
  simp [not_opens_of_openers? hSome hNot] at hOpens

theorem beginsAs_identifier {text : String} (alone : Alone .identifier text.toList) (depth : Nat) :
    BeginsAs none (Text.indent text depth).toList := by
  obtain ⟨c, body, hText, hAlpha⟩ := alone.head_isAlpha
  rw [Text.indent_of_not_mem (alone.not_mem_feed (by decide) rfl), hText]
  refine ⟨c, body, rfl, ?_, isDecimalDigit_of_isAlpha hAlpha⟩
  rintro rfl
  cases hAlpha

section

variable {rule : Rule} {depth : Nat} {element? : Option String}

theorem exists_written {content : Content rule.form}
    (hPlain : spansLines rule = false ∧ hasLine rule = false) (depth : Nat) :
    ∃ back, (Tree.mk content).written depth =
      (opening rule).toList ++ content.written depth ⟨rule, .mk content⟩ ++ back := by
  refine ⟨(closing rule).toList, ?_⟩
  rw [Tree.written_eq hPlain.1, hPlain.2]
  rfl

/-- A node begins as its rule is opened, with one of a few characters that are no digits and that no
sign goes on with. -/
theorem beginsAs_opening {c : Char} {front : List Char} (hOpening : (opening rule).toList = c :: front)
    (hMem : c ∈ ['[', '(', '\x7b', '@', '|', '-', '*', 'n']) (tree : Tree rule) :
    BeginsAs none (tree.written depth) := by
  have hPlain : spansLines rule = false ∧ hasLine rule = false := by
    revert hOpening
    cases rule <;> simp [opening, spansLines, hasLine]
  obtain ⟨content⟩ := tree
  obtain ⟨back, hWritten⟩ := exists_written hPlain depth
  rw [hWritten, hOpening]
  exact beginsAs_of_mem hMem _

/-- A rule that is not opened and does not span lines begins as what it holds. -/
theorem beginsAs_content
    (hPlain : (opening rule).toList = [] ∧ spansLines rule = false ∧ hasLine rule = false)
    {content : Content rule.form}
    (hContent : BeginsAs element? (content.written depth ⟨rule, .mk content⟩)) :
    BeginsAs element? ((Tree.mk content).written depth) := by
  obtain ⟨back, hWritten⟩ := exists_written hPlain.2 depth
  rw [hWritten, hPlain.1]
  exact hContent.append back

/-- Fields begin as the first of them, as there is no gap before that one. -/
theorem beginsAs_fields {fields : List Field} {kept : Fields fields} {first : Stored}
    {rest : List Stored} (hStored : kept.stored = first :: rest) (node : Node)
    (hFirst : BeginsAs element? (first.written depth)) :
    BeginsAs element? (spread (gapBefore node) 0 (kept.pieces depth)) := by
  rw [Fields.pieces_eq, hStored, List.map_cons, spread, gapBefore, List.nil_append]
  exact hFirst.append _

end

/-- The text of the element an entity is, if it is one. -/
def Entity.element? : Tree .entity → Option String
  | .mk (.oneOf .element _ (.mk (.literal _ text))) => some text
  | _ => none

/-- A range begins with its bracket, and so it is no element that a sign could run into. -/
theorem Range.beginsAs (tree : Tree .range) (settled : tree.Settled) (depth : Nat) :
    BeginsAs none (tree.written depth) := by
  obtain ⟨content⟩ := tree
  obtain ⟨⟨hMade, hSound⟩, -⟩ := Tree.settled_mk.mp settled
  cases content with
  | sequence fields =>
    refine beginsAs_content ⟨rfl, rfl, rfl⟩ ?_
    cases fields with
    | text left rest =>
      refine beginsAs_fields rfl _ ?_
      have hAlone : Alone .delimiter left.toList := (hSound ⟨0, .delimiter, left⟩ List.mem_cons_self).1
      have hLeft : left = "[" ∨ left = "(" := by
        have hBoth : (Choice.leftBracket.delimiters.contains left &&
          aligned Part.admits [.child "first" .primitive, .delimiter "..",
            .child "last" .primitive, .choice "right" .rightBracket] rest.stored) = true := hMade
        simpa [Choice.delimiters] using (Bool.and_eq_true_iff.mp hBoth).1
      rw [Stored.written, Text.indent_of_not_mem (hAlone.not_mem_feed (by decide) rfl)]
      rcases hLeft with rfl | rfl
      · exact beginsAs_of_mem (by decide) []
      · exact beginsAs_of_mem (by decide) []

theorem Collection.beginsAs (tree : Tree .collection) (settled : tree.Settled) (depth : Nat) :
    BeginsAs none (tree.written depth) := by
  obtain ⟨content⟩ := tree
  cases content with
  | oneOf rule allowed tree =>
    have hTree := (Tree.settled_mk.mp settled).2 ⟨rule, tree⟩ List.mem_cons_self
    refine beginsAs_content ⟨rfl, rfl, rfl⟩ ?_
    have hRule : rule = .range ∨ rule = .catalog ∨ rule = .list := by simpa using allowed
    rcases hRule with rfl | rfl | rfl
    · exact Range.beginsAs tree hTree depth
    · exact beginsAs_opening (c := '[') rfl (by decide) tree
    · exact beginsAs_opening (c := '[') rfl (by decide) tree

/-- An entity begins as its element does if it has one, and with a mark or a bracket otherwise. -/
theorem Entity.beginsAs (entity : Tree .entity) (settled : entity.Settled) (depth : Nat) :
    BeginsAs (Entity.element? entity) (entity.written depth) := by
  obtain ⟨content⟩ := entity
  cases content with
  | oneOf rule allowed tree =>
    have hTree := (Tree.settled_mk.mp settled).2 ⟨rule, tree⟩ List.mem_cons_self
    have hRule : rule = .element ∨ rule = .string ∨ rule = .collection ∨ rule = .procedure := by
      simpa using allowed
    refine beginsAs_content ⟨rfl, rfl, rfl⟩ ?_
    rcases hRule with rfl | rfl | rfl | rfl
    · obtain ⟨content⟩ := tree
      obtain ⟨⟨hMade, hSound⟩, -⟩ := Tree.settled_mk.mp hTree
      cases content with
      | literal kind text =>
        have hAlone : Alone kind text.toList := (hSound ⟨0, kind, text⟩ List.mem_cons_self).1
        have hKind : kind ∈ Kind.elements := List.contains_iff_mem.mp hMade
        refine @beginsAs_content .element depth _ ⟨rfl, rfl, rfl⟩ (.literal kind text) ?_
        exact beginsAs_element hAlone hKind depth
    · obtain ⟨content⟩ := tree
      obtain ⟨⟨hMade, hSound⟩, -⟩ := Tree.settled_mk.mp hTree
      cases content with
      | literal kind text =>
        have hAlone : Alone kind text.toList := (hSound ⟨0, kind, text⟩ List.mem_cons_self).1
        have hKind : kind ∈ Kind.strings := List.contains_iff_mem.mp hMade
        refine @beginsAs_content .string depth _ ⟨rfl, rfl, rfl⟩ (.literal kind text) ?_
        exact beginsAs_string hAlone hKind depth
    · exact Collection.beginsAs tree hTree depth
    · exact beginsAs_opening (c := '\x7b') rfl (by decide) tree

/-- A target begins with a name, so that no sign runs into it. -/
theorem Target.beginsAs (target : Tree .target) (settled : target.Settled) (depth : Nat) :
    BeginsAs none (target.written depth) := by
  obtain ⟨content⟩ := target
  cases content with
  | oneOf rule allowed tree =>
    have hTree := (Tree.settled_mk.mp settled).2 ⟨rule, tree⟩ List.mem_cons_self
    have hRule : rule = .function ∨ rule = .method ∨ rule = .attributeTarget ∨
        rule = .variableTarget := by simpa using allowed
    refine beginsAs_content ⟨rfl, rfl, rfl⟩ ?_
    change BeginsAs none (tree.written depth)
    obtain ⟨content⟩ := tree
    obtain ⟨⟨-, hSound⟩, -⟩ := Tree.settled_mk.mp hTree
    rcases hRule with rfl | rfl | rfl | rfl <;> cases content with
    | sequence fields =>
      cases fields with
      | text name rest =>
        have hAlone : Alone .identifier name.toList :=
          (hSound ⟨0, .identifier, name⟩ List.mem_cons_self).1
        refine beginsAs_content ⟨rfl, rfl, rfl⟩ ?_
        refine beginsAs_fields rfl _ ?_
        exact beginsAs_identifier hAlone depth

theorem Inversion.beginsAs (tree : Tree .inversion) (settled : tree.Settled) (depth : Nat) :
    BeginsAs none (tree.written depth) := by
  obtain ⟨content⟩ := tree
  obtain ⟨⟨hMade, hSound⟩, -⟩ := Tree.settled_mk.mp settled
  cases content with
  | sequence fields =>
    refine beginsAs_content ⟨rfl, rfl, rfl⟩ ?_
    cases fields with
    | text sign rest =>
      refine beginsAs_fields rfl _ ?_
      have hAlone : Alone .delimiter sign.toList := (hSound ⟨0, .delimiter, sign⟩ List.mem_cons_self).1
      have hSign : sign = "-" ∨ sign = "*" := by
        have hBoth : (Choice.inverse.delimiters.contains sign &&
          aligned Part.admits [.child "subject" .subject] rest.stored) = true := hMade
        simpa [Choice.delimiters] using (Bool.and_eq_true_iff.mp hBoth).1
      rw [Stored.written, Text.indent_of_not_mem (hAlone.not_mem_feed (by decide) rfl)]
      rcases hSign with rfl | rfl
      · exact beginsAs_of_mem (by decide) []
      · exact beginsAs_of_mem (by decide) []

/-- A subject begins with its element, if that is all it is, and with no digit otherwise. -/
theorem Subject.beginsAs (subject : Tree .subject) (settled : subject.Settled) (depth : Nat) :
    BeginsAs (Subject.element? subject) (subject.written depth) := by
  obtain ⟨content⟩ := subject
  cases content with
  | oneOf rule allowed tree =>
    have hTree := (Tree.settled_mk.mp settled).2 ⟨rule, tree⟩ List.mem_cons_self
    have hRule : rule = .component ∨ rule = .target ∨ rule = .referent ∨ rule = .precedence ∨
        rule = .inversion ∨ rule = .magnitude ∨ rule = .complement := by
      simpa using allowed
    refine beginsAs_content ⟨rfl, rfl, rfl⟩ ?_
    rcases hRule with rfl | rfl | rfl | rfl | rfl | rfl | rfl
    · obtain ⟨content⟩ := tree
      cases content with
      | sequence fields =>
        cases fields with
        | child entity rest =>
          have hEntity := (Tree.settled_mk.mp hTree).2 ⟨.entity, entity⟩ List.mem_cons_self
          have hBegins := Entity.beginsAs entity hEntity depth
          have hElement : Subject.element? (.mk (.oneOf .component allowed
              (.mk (.sequence (.child entity rest))))) = Entity.element? entity := by
            obtain ⟨content⟩ := entity
            cases content with
            | oneOf rule allowed tree =>
              have hRule : rule = .element ∨ rule = .string ∨ rule = .collection ∨ rule = .procedure := by
                simpa using allowed
              rcases hRule with rfl | rfl | rfl | rfl
              · obtain ⟨content⟩ := tree
                cases content
                rfl
              · rfl
              · rfl
              · rfl
          rw [hElement]
          refine @beginsAs_content .component depth _ ⟨rfl, rfl, rfl⟩ (.sequence (.child entity rest)) ?_
          refine beginsAs_fields rfl _ ?_
          exact hBegins
    · exact Target.beginsAs tree hTree depth
    · exact beginsAs_opening (c := '@') rfl (by decide) tree
    · exact beginsAs_opening (c := '(') rfl (by decide) tree
    · exact Inversion.beginsAs tree hTree depth
    · exact beginsAs_opening (c := '|') rfl (by decide) tree
    · exact beginsAs_opening (c := 'n') rfl (by decide) tree

/-- What stands between the sign and the subject of an inversion. -/
def Inversion.gap (subject : Tree .subject) : List Char :=
  if (Subject.element? subject).any fun text => text.toList.head?.any Char.isDigit then [' '] else []

/-- A sign ends before all but an equals sign and, if it is a minus sign, a digit. -/
theorem delimiterEnds_sign {sign : String} (hSign : sign ∈ Choice.inverse.delimiters) {c : Char}
    (hEqual : c ≠ '=') (hDigit : sign = "-" → Unicode.isDecimalDigit c = false) (ending : List Char) :
    delimiterEnds sign.toList (c :: ending) = true := by
  have hOnly : ∀ sign ∈ Choice.inverse.delimiters, ∀ other ∈ delimiters,
      ∀ d ∈ (other.toList.drop 1).head?, other.toList.take 1 = sign.toList → d = '=' := by
    decide
  have hLonger : delimiters.any (fun other => (sign.toList ++ [c]).isPrefixOf other.toList) = false := by
    refine List.any_eq_false.mpr ?_
    intro other hOther hPrefix
    obtain ⟨back, hBack⟩ := List.isPrefixOf_iff_prefix.mp hPrefix
    have hSigns : sign = "-" ∨ sign = "*" := by simpa [Choice.delimiters] using hSign
    refine hEqual (hOnly sign hSign other hOther c ?_ ?_)
    · rcases hSigns with rfl | rfl <;> simp [← hBack]
    · rcases hSigns with rfl | rfl <;> simp [← hBack]
  have hWords : ∀ sign ∈ Choice.inverse.delimiters,
      sign.toList.getLast?.any Unicode.isAlphanumeric = false := by
    decide
  have hLiteral : opensLiteral sign.toList c = false := by
    have hSigns : sign = "-" ∨ sign = "*" := by simpa [Choice.delimiters] using hSign
    rcases hSigns with rfl | rfl
    · exact hDigit rfl
    · rfl
  simp [delimiterEnds, lengthens, splitsWord, hLonger, hWords sign hSign, hLiteral]

section

variable {sign : String} {subject : Tree .subject}

/-- An inversion is its sign and its subject, with a gap between them if the subject begins with a
digit that the writer knows. -/
theorem Inversion.written_eq (depth : Nat) :
    (.mk (.sequence (.text sign (.child subject .nil))) : Tree .inversion).written depth =
      (Text.indent sign depth).toList ++ (Inversion.gap subject ++ subject.written depth) := by
  have hGap : (between ⟨.inversion, .mk (.sequence (.text sign (.child subject .nil)))⟩ 1).toList =
      Inversion.gap subject := by
    have hSpace : Inversion.needsSpace (.mk (.sequence (.text sign (.child subject .nil)))) =
        (Subject.element? subject).any fun text => text.toList.head?.any Char.isDigit := rfl
    rw [between, hSpace, Inversion.gap]
    split <;> rfl
  simp [Tree.written, Content.written, spansLines, hasLine, opening, closing, Fields.pieces, spread,
    hGap, gapBefore]

/-- A sign in front of what it inverts is read unless it becomes part of a number. -/
theorem Inversion.shows_sign (hSign : sign ∈ Choice.inverse.delimiters) {text : List Char}
    (begins : BeginsAs (Subject.element? subject) text) (ending : List Char) :
    Shows (Node.fuses ⟨.inversion, .mk (.sequence (.text sign (.child subject .nil)))⟩ = false)
      sign.toList [.kept .delimiter sign] (Inversion.gap subject ++ text ++ ending) := by
  have hFuses : Node.fuses ⟨.inversion, .mk (.sequence (.text sign (.child subject .nil)))⟩ =
      (decide (sign = "-") && (Subject.element? subject).any fun text =>
        text.toList.head?.any fun c => Unicode.isDecimalDigit c && !c.isDigit) := rfl
  have hAll : ∀ sign ∈ Choice.inverse.delimiters,
      sign ∈ delimiters ∧ delimiterEnds sign.toList [' '] = true := by
    decide
  obtain ⟨hDelimiter, hSpace⟩ := hAll sign hSign
  obtain ⟨c, body, rfl, hEqual, hFirst⟩ := begins
  rw [hFuses, Inversion.gap]
  cases hElement : Subject.element? subject with
  | none =>
    rw [hElement] at hFirst
    exact (Shows.delimiter hDelimiter (delimiterEnds_sign hSign hEqual (fun _ => hFirst) _)).congr
      (by simp)
  | some text =>
    rw [hElement] at hFirst
    dsimp only at hFirst
    simp only [Option.any_some, hFirst]
    by_cases hAscii : c.isDigit = true
    · simp only [hAscii, if_true]
      have hEnds : delimiterEnds sign.toList ([' '] ++ c :: body ++ ending) = true := hSpace
      exact (Shows.delimiter hDelimiter hEnds).congr (by simp)
    · simp only [hAscii]
      by_cases hFused : sign = "-" ∧ Unicode.isDecimalDigit c = true
      · obtain ⟨rfl, hDigit⟩ := hFused
        exact (shows_minus_digit hDigit [] _).congr (by simp [hDigit])
      · have hDigit : sign = "-" → Unicode.isDecimalDigit c = false := by
          intro hMinus
          simpa [hMinus] using hFused
        refine (Shows.delimiter hDelimiter (delimiterEnds_sign hSign hEqual hDigit _)).congr ?_
        simpa using hDigit

end

/-- An inversion shows its terminals if its sign does not run into its subject, and this is what
being faithful asks of it. -/
theorem shown_inversion (content : Content Rule.inversion.form) (settled : (Tree.mk content).Settled)
    (hNodes : ∀ child ∈ content.children, child.Shown) : Node.Shown ⟨.inversion, .mk content⟩ := by
  intro depth ending hEnding
  obtain ⟨⟨hMade, hSound⟩, hChildren⟩ := Tree.settled_mk.mp settled
  cases content with
  | sequence fields =>
    cases fields with
    | text sign rest =>
      cases rest with
      | child subject rest =>
        cases rest
        have hSign : sign ∈ Choice.inverse.delimiters := by
          have hBoth : (Choice.inverse.delimiters.contains sign && (true && true)) = true := hMade
          simpa using hBoth
        have hAlone : Alone .delimiter sign.toList := (hSound ⟨0, .delimiter, sign⟩ List.mem_cons_self).1
        have hEnds : Rule.inversion.follow ≠ .lineEnd := by decide
        have hFollow : Rule.subject.follow ≠ .lineEnd := by decide
        have hSubject := (hNodes ⟨.subject, subject⟩ List.mem_cons_self).shows hFollow (.inr hEnding) depth
        have hSpaces : (Inversion.gap subject).all (· = ' ') = true := by
          unfold Inversion.gap
          split <;> rfl
        have hBegins := Subject.beginsAs subject (hChildren ⟨.subject, subject⟩ List.mem_cons_self) depth
        rw [shownTerminals_eq hEnds]
        have hTerminals : (.mk (.sequence (.text sign (.child subject .nil))) : Tree .inversion).terminals =
            [.kept .delimiter sign] ++ ([] ++ subject.terminals) := by
          simp [Tree.terminals, Content.terminals, Fields.marks, weave, Part.fixed?]
        rw [Inversion.written_eq, hTerminals,
          Text.indent_of_not_mem (hAlone.not_mem_feed (by decide) rfl)]
        refine ((Inversion.shows_sign hSign hBegins ending).append
          ((Shows.spaces hSpaces).behind hSubject)).congr ?_
        refine (and_congr_right fun _ => ?_).trans Tree.faithful_mk.symm
        exact (List.forall_mem_singleton (p := fun child : Node => child.tree.Faithful)
          (a := ⟨.subject, subject⟩)).symm

end DocumentLanguage
