import DocumentLanguage.Proofs.Format.Plain
import DocumentLanguage.Proofs.Token.Word
import DocumentLanguage.Tree.Build

/-!
The nodes in which tokens touch that could run into each other. A range has points right behind its
first end, a method has its mark right behind a name and in front of another, and an inversion has
its sign right in front of what it inverts.
-/
namespace DocumentLanguage

open Canonical Pattern

/-- Points end every literal but a moniker, in which a point may stand, and a note, which goes on to
the end of its line. -/
theorem endsBefore_points {kind : Kind} (hNote : kind ≠ .note) (hMoniker : kind ≠ .moniker)
    (ending : List Char) : endsBefore kind ('.' :: '.' :: ending) = true := by
  have hSeparates : separates ('.' :: '.' :: ending) = true := by
    have hPoint : Unicode.isDecimalDigit '.' = false := by decide
    simp [separates, separators, endsNumber, hPoint]
  cases kind <;> first | exact hSeparates | contradiction

/-- A literal in front of points shows itself unless it is a moniker. -/
theorem shows_literal_points {kind : Kind} {text : String}
    (hKind : kind ∈ literalOrder ∧ kind.isLayout = false ∧ kind ≠ .note)
    (alone : Alone kind text.toList) (hFlush : Text.endsFlush text = true) (depth : Nat)
    (ending : List Char) :
    Shows (kind ≠ .moniker) (Text.indent text depth).toList [.dedented kind text]
      ('.' :: '.' :: ending) := by
  obtain ⟨hLiteral, hLayout, hNote⟩ := hKind
  by_cases hMoniker : kind = .moniker
  · subst hMoniker
    rw [Text.indent_of_not_mem (alone.not_mem_feed (by decide) rfl)]
    exact (shows_moniker_points alone [] _).congr (by simp)
  · exact (Shows.literal alone hLiteral hLayout hFlush (endsBefore_points hNote hMoniker ending)
      depth).congr (by simp [hMoniker])

/-- A primitive in front of points shows its terminals unless it is a moniker. -/
theorem Primitive.shows_points (tree : Tree .primitive) (settled : tree.Settled) (depth : Nat)
    (ending : List Char) :
    Shows (Primitive.isMoniker tree = false) (tree.written depth) tree.terminals
      ('.' :: '.' :: ending) := by
  obtain ⟨content⟩ := tree
  cases content with
  | oneOf rule allowed literal =>
    have hLiteral := (Tree.settled_mk.mp settled).2 ⟨rule, literal⟩ List.mem_cons_self
    have hAllowed : rule = .element ∨ rule = .string := by simpa using allowed
    obtain ⟨content⟩ := literal
    obtain ⟨⟨hMade, hSound⟩, -⟩ := Tree.settled_mk.mp hLiteral
    have hKinds : (∀ kind ∈ Kind.elements, kind ≠ .moniker) ∧ ∀ kind ∈ Kind.elements ++ Kind.strings,
        kind ∈ literalOrder ∧ kind.isLayout = false ∧ kind ≠ .note := by
      decide
    rcases hAllowed with rfl | rfl
    · cases content with
      | literal kind text =>
        have hElement : kind ∈ Kind.elements := List.contains_iff_mem.mp hMade
        obtain ⟨hAlone, hFlush⟩ := hSound ⟨0, kind, text⟩ List.mem_cons_self
        have hShows := shows_literal_points (hKinds.2 kind (List.mem_append_left _ hElement))
          hAlone hFlush depth ending
        have hNever : Primitive.isMoniker (.mk (.oneOf .element allowed (.mk (.literal kind text)))) =
            false := rfl
        rw [hNever]
        simpa [Tree.written, Content.written, spansLines, hasLine, opening, closing, Tree.terminals,
          Content.terminals] using hShows.congr (iff_of_true (hKinds.1 kind hElement) trivial)
    · cases content with
      | literal kind text =>
        have hString : kind ∈ Kind.strings := List.contains_iff_mem.mp hMade
        obtain ⟨hAlone, hFlush⟩ := hSound ⟨0, kind, text⟩ List.mem_cons_self
        have hShows := shows_literal_points (hKinds.2 kind (List.mem_append_right _ hString))
          hAlone hFlush depth ending
        have hMoniker : Primitive.isMoniker (.mk (.oneOf .string allowed (.mk (.literal kind text)))) =
            decide (kind = .moniker) := rfl
        rw [hMoniker]
        simpa [Tree.written, Content.written, spansLines, hasLine, opening, closing, Tree.terminals,
          Content.terminals] using hShows

/-- A chosen delimiter ends whatever follows, if all delimiters that might be chosen do. -/
theorem shows_choice {choice : Choice} {text : String} (alone : Alone .delimiter text.toList)
    (hChosen : text ∈ choice.delimiters)
    (hSolid : ∀ text ∈ choice.delimiters, isSolid text.toList = true) (depth : Nat)
    (ending : List Char) :
    Shows True (Text.indent text depth).toList [.kept .delimiter text] ending := by
  rw [Text.indent_of_not_mem (alone.not_mem_feed (by decide) rfl)]
  exact Shows.delimiter (alone_eq_delimiter alone) (delimiterEnds_of_isSolid (hSolid text hChosen) _)

/-- A primitive is always faithful, since no range is in it and no inversion. -/
theorem Primitive.faithful (tree : Tree .primitive) : tree.Faithful := by
  obtain ⟨content⟩ := tree
  cases content with
  | oneOf rule allowed literal =>
    refine Tree.faithful_mk.mpr ⟨rfl, List.forall_mem_singleton.mpr ?_⟩
    have hAllowed : rule = .element ∨ rule = .string := by simpa using allowed
    obtain ⟨content⟩ := literal
    rcases hAllowed with rfl | rfl
    · cases content
      exact Tree.faithful_mk.mpr ⟨rfl, nofun⟩
    · cases content
      exact Tree.faithful_mk.mpr ⟨rfl, nofun⟩

section

variable {left right : String} {first last : Tree .primitive}

theorem Range.written_of (depth : Nat) : (Range.of left first last right).written depth =
    (Text.indent left depth).toList ++ (first.written depth ++ ("..".toList ++
      (last.written depth ++ (Text.indent right depth).toList))) := by
  simp [Range.of, Tree.written, Content.written, spansLines, hasLine, opening, closing,
    Fields.pieces, spread, gapBefore, between, optionalSeparator?, separator]

theorem Range.terminals_of : (Range.of left first last right).terminals =
    [.kept .delimiter left] ++ (first.terminals ++ ([.verbatim .delimiter ".."] ++
      (last.terminals ++ [.kept .delimiter right]))) := rfl

theorem Range.faithful_of : (Range.of left first last right).Faithful ↔
    Primitive.isMoniker first = false ∧ last.Faithful ∧ True := by
  refine Tree.faithful_mk.trans ?_
  have hFuses : Node.fuses ⟨.range, Range.of left first last right⟩ = Primitive.isMoniker first := rfl
  rw [Range.of] at hFuses
  rw [hFuses]
  simp [Content.children, Fields.stored, Stored.nodes, Primitive.faithful]

/-- A range shows its terminals unless its first endpoint is a moniker. Then the points behind it
are read as part of that. -/
theorem Range.shows_of (settled : first.Settled) (shown : Node.Shown ⟨.primitive, last⟩)
    (hLeft : left ∈ Choice.leftBracket.delimiters) (hRight : right ∈ Choice.rightBracket.delimiters)
    (hOpens : Alone .delimiter left.toList) (hCloses : Alone .delimiter right.toList) (depth : Nat)
    (ending : List Char) :
    Shows (Range.of left first last right).Faithful ((Range.of left first last right).written depth)
      (Range.of left first last right).terminals ending := by
  have hFollow : Rule.primitive.follow ≠ .lineEnd := by decide
  have hClears : clears ((Text.indent right depth).toList ++ ending) = true := by
    rw [Text.indent_of_not_mem (hCloses.not_mem_feed (by decide) rfl)]
    have hAll : ∀ text ∈ Choice.rightBracket.delimiters,
        text.toList ≠ [] ∧ clears text.toList = true := by decide
    obtain ⟨hSome, hClear⟩ := hAll right hRight
    rwa [clears_append hSome]
  have hLast := (shown.shows hFollow (.inr hClears) depth).append
    (shows_choice hCloses hRight (by decide) depth ending)
  have hPoints : Shows True "..".toList [.verbatim .delimiter ".."]
      (last.written depth ++ (Text.indent right depth).toList ++ ending) :=
    Shows.delimiter (by decide) (delimiterEnds_of_isSolid (by decide) _)
  have hFirst := (Primitive.shows_points first settled depth
    (last.written depth ++ (Text.indent right depth).toList ++ ending)).append (hPoints.behind hLast)
  rw [Range.written_of, Range.terminals_of]
  exact ((shows_choice hOpens hLeft (by decide) depth _).behind hFirst).congr Range.faithful_of.symm

end

/-- A range is shown just if it is faithful, at every depth and before every ending. -/
theorem shown_range (content : Content Rule.range.form) (settled : (Tree.mk content).Settled)
    (hNodes : ∀ child ∈ content.children, child.Shown) : Node.Shown ⟨.range, .mk content⟩ := by
  intro depth ending _
  obtain ⟨⟨hMade, hSound⟩, hChildren⟩ := Tree.settled_mk.mp settled
  cases content with
  | sequence fields =>
    cases fields with
    | text left rest =>
      cases rest with
      | child first rest =>
        cases rest with
        | child last rest =>
          cases rest with
          | text right rest =>
            cases rest
            have hBrackets : left ∈ Choice.leftBracket.delimiters ∧
                right ∈ Choice.rightBracket.delimiters := by
              have hBoth : (Choice.leftBracket.delimiters.contains left &&
                (true && (true && (Choice.rightBracket.delimiters.contains right && true)))) = true := hMade
              simpa using hBoth
            have hEnds : Rule.range.follow ≠ .lineEnd := by decide
            rw [shownTerminals_eq hEnds]
            refine Range.shows_of (hChildren ⟨.primitive, first⟩ ?_) (hNodes ⟨.primitive, last⟩ ?_)
              hBrackets.1 hBrackets.2 (hSound ⟨0, .delimiter, left⟩ ?_).1
              (hSound ⟨3, .delimiter, right⟩ ?_).1 depth ending
            · simp [Content.children, Fields.stored, Stored.nodes]
            · simp [Content.children, Fields.stored, Stored.nodes]
            · simp [Content.tokens, Fields.stored, tokensFrom]
            · simp [Content.tokens, Fields.stored, tokensFrom]

/-- The mark of a method ends a name, as it is not a character that a name could go on with. -/
theorem endsBefore_invoke {text : String} (hChosen : text ∈ Choice.invoke.delimiters)
    {c : Char} (hLetter : Unicode.isDecimalDigit c = false) (ending : List Char) :
    endsBefore .identifier (text.toList ++ c :: ending) = true := by
  have hText : text = "." ∨ text = "<-" := by simpa [Choice.delimiters] using hChosen
  rcases hText with rfl | rfl
  · simp [endsBefore, separates, separators, endsNumber, hLetter]
  · simp [endsBefore, separates, separators, endsNumber]

/-- An identifier begins with a letter, so that the mark of a method has a letter behind it. -/
theorem Alone.head_isAlpha {text : List Char} (alone : Alone .identifier text) :
    ∃ c body, text = c :: body ∧ c.isAlpha = true := by
  obtain ⟨-, pattern, hPattern, hEnds⟩ := alone.mem_ends (by decide)
  obtain ⟨c, front, hText, hAlpha, -⟩ := (mem_ends_identifier hPattern).mp hEnds
  exact ⟨c, front, by simpa using hText, hAlpha⟩

theorem isDecimalDigit_of_isAlpha {c : Char} (hAlpha : c.isAlpha = true) :
    Unicode.isDecimalDigit c = false := by
  have hAscii := toNat_lt_of_isAlphanum (isAlphanum_of_isAlpha hAlpha)
  refine forall_ascii (fun c => c.isAlpha = true → Unicode.isDecimalDigit c = false) ?_ hAscii hAlpha
  decide

/-- The mark of a method ends before a name, because no longer delimiter begins with it and a
letter. -/
theorem delimiterEnds_invoke {text : String} (hChosen : text ∈ Choice.invoke.delimiters)
    {c : Char} (hAlpha : c.isAlpha = true) (ending : List Char) :
    delimiterEnds text.toList (c :: ending) = true := by
  have hAscii := toNat_lt_of_isAlphanum (isAlphanum_of_isAlpha hAlpha)
  have hAll : ∀ text ∈ Choice.invoke.delimiters, ∀ code < 128, (Char.ofNat code).isAlpha = true →
      delimiterEnds text.toList [Char.ofNat code] = true := by
    decide
  exact forall_ascii (fun c => c.isAlpha = true → delimiterEnds text.toList [c] = true)
    (hAll text hChosen) hAscii hAlpha

/-- The arguments of a call, or none, up to the bracket that closes them. -/
theorem shows_arguments (fields : Fields [⟨"arguments", .optional .arguments⟩])
    (hNodes : ∀ child ∈ fields.stored.flatMap Stored.nodes, child.Shown) (depth : Nat)
    (ending : List Char) :
    Shows (∀ child ∈ fields.stored.flatMap Stored.nodes, child.tree.Faithful)
      ((fields.pieces depth).flatten ++ ")".toList)
      (fields.marks.flatten ++ [.verbatim .delimiter ")"]) ending := by
  have hCloses : Shows True ")".toList [.verbatim .delimiter ")"] ending :=
    Shows.delimiter (by decide) (delimiterEnds_of_isSolid (by decide) _)
  cases fields with
  | absent rest =>
    cases rest
    exact hCloses.congr (by simp [Fields.stored, Stored.nodes])
  | present tree rest =>
    cases rest
    have hFollow : Rule.arguments.follow ≠ .lineEnd := by decide
    have hShown := hNodes ⟨.arguments, tree⟩ (by simp [Fields.stored, Stored.nodes])
    have hTree := (hShown.shows hFollow (.inr (rfl : clears (")".toList ++ ending) = true)) depth).append
      hCloses
    simpa [Fields.pieces, Fields.marks, Fields.stored, Stored.nodes] using hTree

section

variable {target invoke method : String} {rest : Fields [⟨"arguments", .optional .arguments⟩]}

theorem Method.written_eq (depth : Nat) :
    (.mk (.sequence (.text target (.text invoke (.text method rest)))) : Tree .method).written depth =
      (Text.indent target depth).toList ++ ((Text.indent invoke depth).toList ++
        ((Text.indent method depth).toList ++ ("(".toList ++
          ((rest.pieces depth).flatten ++ ")".toList)))) := by
  cases rest with
  | absent rest | present _ rest =>
    cases rest
    simp [Tree.written, Content.written, spansLines, hasLine, opening, closing, Fields.pieces, spread,
      gapBefore, between, optionalSeparator?, separator]

theorem Method.terminals_eq :
    (.mk (.sequence (.text target (.text invoke (.text method rest)))) : Tree .method).terminals =
      [.kept .identifier target] ++ ([.kept .delimiter invoke] ++ ([.kept .identifier method] ++
        ([.verbatim .delimiter "("] ++ (rest.marks.flatten ++ [.verbatim .delimiter ")"])))) := by
  cases rest with
  | absent rest | present _ rest =>
    cases rest
    simp [Tree.terminals, Content.terminals, Fields.marks, weave, Part.fixed?]

/-- A method shows its terminals if its arguments do. There are no gaps in it, and so each seam is
looked at. -/
theorem Method.shows {good : Prop} {depth : Nat} {ending : List Char} (hTarget : Alone .identifier target.toList)
    (hInvoke : Alone .delimiter invoke.toList) (hChosen : invoke ∈ Choice.invoke.delimiters)
    (hMethod : Alone .identifier method.toList)
    (hArguments : Shows good ((rest.pieces depth).flatten ++ ")".toList)
      (rest.marks.flatten ++ [.verbatim .delimiter ")"]) ending) :
    Shows good
      ((.mk (.sequence (.text target (.text invoke (.text method rest)))) : Tree .method).written depth)
      (.mk (.sequence (.text target (.text invoke (.text method rest)))) : Tree .method).terminals
      ending := by
  obtain ⟨c, body, hBody, hAlpha⟩ := hMethod.head_isAlpha
  have hOneLine : ∀ {kind text}, Alone kind text.toList → kind ∉ spanningKinds → kind.isLayout = false →
      Text.indent text depth = text := fun alone hSpanning hLayout =>
    Text.indent_of_not_mem (alone.not_mem_feed hSpanning hLayout) depth
  have hFlush : ∀ {text}, Alone .identifier text.toList → Text.endsFlush text = true := fun alone =>
    Text.endsFlush_of_not_mem (alone.not_mem_feed (by decide) rfl)
  have hOpens : Shows True "(".toList [.verbatim .delimiter "("]
      ((rest.pieces depth).flatten ++ ")".toList ++ ending) :=
    Shows.delimiter (by decide) (delimiterEnds_of_isSolid (by decide) _)
  have hName : ∀ {text}, Alone .identifier text.toList → ∀ {ending},
      endsBefore .identifier ending = true →
        Shows True (Text.indent text depth).toList [.kept .identifier text] ending :=
    fun alone _ hEnding => Shows.kept alone (by decide) rfl (.inr (by decide)) (hFlush alone) hEnding depth
  have hMark : Shows True invoke.toList [.verbatim .delimiter invoke]
      ((Text.indent method depth).toList ++ ("(".toList ++
        ((rest.pieces depth).flatten ++ ")".toList)) ++ ending) := by
    refine Shows.delimiter (alone_eq_delimiter hInvoke) ?_
    rw [hOneLine hMethod (by decide) rfl, hBody]
    exact delimiterEnds_invoke hChosen hAlpha _
  rw [Method.written_eq, Method.terminals_eq, hOneLine hInvoke (by decide) rfl]
  refine (hName hTarget ?_).behind (hMark.behind ((hName hMethod ?_).behind (hOpens.behind hArguments)))
  · rw [hOneLine hMethod (by decide) rfl, hBody]
    simpa using endsBefore_invoke hChosen (isDecimalDigit_of_isAlpha hAlpha) _
  · exact endsBefore_of_clears (by decide) rfl

end

/-- A method is shown if what it keeps is, with its name, its mark and its brackets written tight.
-/
theorem shown_method (content : Content Rule.method.form) (settled : (Tree.mk content).Settled)
    (hNodes : ∀ child ∈ content.children, child.Shown) : Node.Shown ⟨.method, .mk content⟩ := by
  intro depth ending _
  obtain ⟨⟨hMade, hSound⟩, -⟩ := Tree.settled_mk.mp settled
  cases content with
  | sequence fields =>
    cases fields with
    | text target rest =>
      cases rest with
      | text invoke rest =>
        cases rest with
        | text method rest =>
          have hChosen : invoke ∈ Choice.invoke.delimiters := by
            have hBoth : (true && (Choice.invoke.delimiters.contains invoke &&
              (true && aligned Part.admits [.delimiter "(", .optional "arguments" .arguments,
                .delimiter ")"] rest.stored))) = true := hMade
            simp only [Bool.true_and, Bool.and_eq_true, List.contains_iff_mem] at hBoth
            exact hBoth.1
          have hEnds : Rule.method.follow ≠ .lineEnd := by decide
          rw [shownTerminals_eq hEnds]
          refine (Method.shows (hSound ⟨0, .identifier, target⟩ ?_).1 (hSound ⟨1, .delimiter, invoke⟩ ?_).1
            hChosen (hSound ⟨2, .identifier, method⟩ ?_).1
            (shows_arguments rest (fun child hChild => hNodes child hChild) depth ending)).congr ?_
          · simp [Content.tokens, Fields.stored, tokensFrom]
          · simp [Content.tokens, Fields.stored, tokensFrom]
          · simp [Content.tokens, Fields.stored, tokensFrom]
          · have hFuses : Node.fuses ⟨.method, .mk (.sequence (.text target (.text invoke
                (.text method rest))))⟩ = false := rfl
            exact (Tree.faithful_mk.trans (and_iff_right hFuses)).symm

end DocumentLanguage
