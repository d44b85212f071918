import DocumentLanguage.Proofs.Format.Written
import DocumentLanguage.Proofs.Grammar.Lead
import DocumentLanguage.Proofs.Parse.Derivation
import DocumentLanguage.Proofs.Token.Context
import DocumentLanguage.Proofs.Token.Layout

/-!
Texts that show terminals: scanned in front of what follows, a text gives just the tokens that its
terminals stand for. Texts put behind one another show their terminals behind one another.
-/
namespace DocumentLanguage

open Pattern

/-- No keyword and no punctuation begins with a space or a line feed, so that layout is not mistaken
for one. -/
theorem head?_words : ∀ word ∈ keywords ++ punctuation,
    word.toList.head? ≠ some ' ' ∧ word.toList.head? ≠ some '\n' := by
  decide

/-- Spaces in a row are one token, up to the first character that is none. -/
theorem lexeme?_spaces (rest : List Char) :
    lexeme? (' ' :: rest) = some ⟨.space, ' ' :: rest.takeWhile (· = ' '), rest.dropWhile (· = ' ')⟩ := by
  have hPattern : Kind.space.pattern? = some (plus (oneOf [.char ' '])) := rfl
  have hTest : ∀ c, (CharTest.oneOf [.char ' ']).holds c = decide (c = ' ') := by
    intro c
    simp [CharTest.holds, SetItem.holds, eq_comm]
  refine lexeme?_of_head?_ends (by decide) hPattern ?_ (by simp) (by simp)
    (fun word hWord => (head?_words word hWord).1) (by simp [literalOrder])
  have hOne : (oneOf [.char ' ']).ends (' ' :: rest) = [rest] := rfl
  rw [ends_plus, hOne, List.flatMap_cons, List.flatMap_nil, List.append_nil, oneOf,
    head?_ends_star_one, funext hTest]

/-- A line feed is a token by itself, whatever follows. Only a carriage return before it would be
taken with it. -/
theorem lexeme?_lineFeed (rest : List Char) :
    lexeme? ('\n' :: rest) = some ⟨.newline, ['\n'], rest⟩ := by
  have hPattern : Kind.newline.pattern? = some lineEnd := rfl
  refine lexeme?_of_head?_ends (by decide) hPattern ?_ (by simp) (by simp)
    (fun word hWord => (head?_words word hWord).2) ?_
  · rw [ends_lineEnd]
    rfl
  · have hAll : ∀ other ∈ literalOrder.takeWhile (· ≠ .newline), other ∈ literalOrder ∧
        other.pattern?.all (fun pattern => !pattern.opens '\n') = true := by
      decide
    exact fun other hOther tried hTried =>
      ends_eq_nil_of_all (hAll other hOther).1 hTried (hAll other hOther).2

/-- Only spaces are taken for space: a source whose first token is one begins with a space. -/
theorem head?_of_lexeme?_space {source : List Char} {lexeme : Lexeme}
    (hLexeme : lexeme? source = some lexeme) (hKind : lexeme.kind = .space) :
    source.head? = some ' ' := by
  obtain ⟨before, trial, after, hTrials, hTrial, -⟩ := lexeme?_eq_some_iff.mp hLexeme
  obtain ⟨hHead, hSame, hText, hTaken, -⟩ := Trial.lexeme?_eq_some.mp hTrial
  have hMem : trial ∈ trials := by simp [hTrials]
  rw [hSame] at hKind
  rcases mem_trials.mp hMem with rfl | ⟨hLiteral, hPattern⟩ | rfl
  · cases hKind
  · rw [hKind] at hPattern
    obtain ⟨c, text, rfl⟩ : ∃ c text, source = c :: text := by
      rw [hText]
      exact List.exists_cons_of_ne_nil (by simp [hTaken])
    by_contra hSpace
    have hOpens : trial.pattern.opens c = false := by
      have hPlus : plus (oneOf [.char ' ']) = trial.pattern := Option.some.inj hPattern
      rw [← hPlus]
      have hOther : c ≠ ' ' := by simpa using hSpace
      simp [oneOf, opens, CharTest.holds, SetItem.holds, hOther]
    have hNone := @ends_eq_nil_of_not_opens c text _ hOpens
      (productive_pattern hLiteral (hKind ▸ hPattern)).2
    rw [hNone] at hHead
    cases hHead
  · cases hKind

/-- Tokens of a source, but for the spaces at the heads of both. -/
def Behind (source : List Char) (tokens : List Token) : Prop :=
  Scanned (source.dropWhile (· = ' ')) (tokens.dropWhile (·.kind = .space))

/-- A source that does not begin with a space has no space for its first token. -/
theorem Scanned.dropWhile_eq {source : List Char} {tokens : List Token}
    (scanned : Scanned source tokens) (hHead : source.head? ≠ some ' ') :
    tokens.dropWhile (·.kind = .space) = tokens := by
  cases scanned with
  | nil => rfl
  | token hLexeme hKind =>
      refine List.dropWhile_cons_of_neg ?_
      rw [decide_eq_true_eq, hKind]
      exact fun hSpace => hHead (head?_of_lexeme?_space hLexeme hSpace)
  | error _ hKind => simp [hKind]

theorem head?_dropWhile_space (source : List Char) :
    (source.dropWhile (· = ' ')).head? ≠ some ' ' := by
  intro hHead
  have hNot := List.head?_dropWhile_not (fun c => decide (c = ' ')) source
  rw [hHead] at hNot
  simp at hNot

/-- The tokens of a source are what stands behind its start, with no space left over from before. -/
theorem Scanned.behind {source : List Char} {tokens : List Token}
    (scanned : Scanned source tokens) : Behind source tokens := by
  cases source with
  | nil =>
      rw [scanned.of_nil]
      exact .nil
  | cons c source =>
      by_cases hSpace : c = ' '
      · subst hSpace
        obtain ⟨token, rest, rfl, hKind, -, hRest⟩ := scanned.of_lexeme (lexeme?_spaces source)
        have hSame := hRest.dropWhile_eq (head?_dropWhile_space source)
        simpa [Behind, List.dropWhile_cons, hKind, hSame] using hRest
      · have hSame := scanned.dropWhile_eq (by simpa using hSpace)
        rw [Behind, hSame, List.dropWhile_cons_of_neg (by simpa using hSpace)]
        exact scanned

/-- Spaces in front of a source change nothing about the tokens that are not spaces. -/
theorem behind_spaces_append {spaces source : List Char} (hSpaces : spaces.all (· = ' ') = true)
    {tokens : List Token} : Behind (spaces ++ source) tokens ↔ Behind source tokens := by
  rw [Behind, Behind, List.dropWhile_append_of_pos (by simpa using hSpaces)]

/-- Tokens up to a place are what terminals say, and nothing else but spaces. -/
abbrev Spaced : List Terminal → List Token → List Token → Prop :=
  Along (decide <| · = .space)

/-- A text that is one token is read as that, and the tokens of the rest follow it. -/
theorem Behind.of_lexeme {text ending : List Char} {kind : Kind} {tokens : List Token}
    (behind : Behind (text ++ ending) tokens)
    (hLexeme : lexeme? (text ++ ending) = some ⟨kind, text, ending⟩) (hKind : kind ≠ .space)
    {terminal : Terminal}
    (hReads : ∀ token : Token, token.kind = kind → token.text.toList = text → terminal.reads token) :
    ∃ rest, Spaced [terminal] tokens rest ∧ Behind ending rest := by
  have hHead : (text ++ ending).head? ≠ some ' ' := by
    intro hSpace
    obtain ⟨source, hSource⟩ := List.head?_eq_some_iff.mp hSpace
    rw [hSource, lexeme?_spaces] at hLexeme
    cases hLexeme
    exact hKind rfl
  have hSource : (text ++ ending).dropWhile (· = ' ') = text ++ ending := by
    cases hText : text ++ ending with
    | nil => rfl
    | cons c source =>
        rw [hText] at hHead
        exact List.dropWhile_cons_of_neg (by simpa using hHead)
  rw [Behind, hSource] at behind
  obtain ⟨token, rest, hTokens, hToken, hText, hRest⟩ := behind.of_lexeme hLexeme
  dsimp only at hToken hText hRest
  refine ⟨rest, ?_, hRest.behind⟩
  refine @Along.dropWhile _ _ _ _ (·.kind = .space) (fun token hSpace => hSpace) ?_
  rw [hTokens]
  refine .read (hReads token hToken hText) (by rwa [hToken]) ?_ (.stop rest)
  rw [hToken]
  exact kind_ne_error_of_lexeme? hLexeme

/-- Whether tokens but for layout are what terminals but for newlines say, one for one. -/
def Matches (terminals : List Terminal) (tokens : List Token) : Prop :=
  List.Forall₂ Terminal.reads (terminals.filter (·.lead ≠ .kind .newline))
    (tokens.filter (!·.kind.isLayout))

/-- A token is a newline just when the terminal that it is read for is one. -/
theorem Terminal.lead_eq_newline_iff {terminal : Terminal} {token : Token}
    (hReads : terminal.reads token) : terminal.lead = .kind .newline ↔ token.kind = .newline := by
  cases terminal with
  | verbatim kind text =>
      obtain ⟨rfl, -⟩ := hReads
      by_cases hDelimiter : token.kind = .delimiter
      · simp [lead, Lead.of, hDelimiter]
      · simp [lead, Lead.of, hDelimiter]
  | dedented kind text =>
      obtain ⟨rfl, -⟩ := hReads
      simp [lead]
  | newline =>
      have hKind : token.kind = .newline := hReads
      simp [lead, hKind]

theorem matches_pass {terminals : List Terminal} {token : Token} {tokens : List Token}
    (hLayout : token.kind.isLayout = true) :
    Matches terminals (token :: tokens) ↔ Matches terminals tokens := by
  rw [Matches, Matches, List.filter_cons_of_neg (by simp [hLayout])]

/-- A terminal and the token that is read for it may be left out on both sides. -/
theorem matches_read {terminal : Terminal} {terminals : List Terminal} {token : Token}
    {tokens : List Token} (hReads : terminal.reads token) (hSpace : token.kind ≠ .space) :
    Matches (terminal :: terminals) (token :: tokens) ↔ Matches terminals tokens := by
  have hNewline := Terminal.lead_eq_newline_iff hReads
  by_cases hKind : token.kind = .newline
  · rw [matches_pass (Kind.isLayout_iff.mpr (.inr hKind)), Matches, Matches,
      List.filter_cons_of_neg (by simp [hNewline.mpr hKind])]
  · have hLayout : token.kind.isLayout = false := by
      rw [← Bool.not_eq_true, Kind.isLayout_iff]
      exact fun hEither => hEither.elim hSpace hKind
    have hLead : terminal.lead ≠ .kind .newline := fun hLead => hKind (hNewline.mp hLead)
    rw [Matches, Matches, List.filter_cons_of_pos (by simpa using hLead),
      List.filter_cons_of_pos (by simp [hLayout]), List.forall₂_cons]
    exact ⟨fun hBoth => hBoth.2, fun hRest => ⟨hReads, hRest⟩⟩

/-- What is read along tokens can be taken away on both sides, so that only what follows is left to
be compared. -/
theorem Along.matches_iff {front terminals : List Terminal} {tokens rest : List Token}
    {passes : Kind → Bool} (hPasses : ∀ kind, passes kind = true → kind.isLayout = true)
    (along : Along passes front tokens rest) :
    Matches (front ++ terminals) tokens ↔ Matches terminals rest := by
  induction along with
  | stop => exact Iff.rfl
  | pass hPass _ ih => exact (matches_pass (hPasses _ hPass)).trans ih
  | read hReads hSpace _ _ ih => exact (matches_read hReads hSpace).trans ih

/-- Terminals that are read along all tokens up to the layout at their end are what these tokens
say. -/
theorem Along.matches {terminals : List Terminal} {tokens rest : List Token}
    (along : Along Kind.isLayout terminals tokens rest)
    (hRest : ∀ token ∈ rest, token.kind.isLayout = true) : Matches terminals tokens := by
  have hIff := @Along.matches_iff _ [] _ _ _ (fun _ hLayout => hLayout) along
  rw [List.append_nil] at hIff
  refine hIff.mpr ?_
  have hNone : rest.filter (!·.kind.isLayout) = [] := by simpa using hRest
  rw [Matches, hNone]
  exact .nil

/-- A text in front of an ending shows terminals if something is good: then its tokens are what
the terminals say. Where it is not good the terminals cannot be read at all. -/
structure Shows (good : Prop) (text : List Char) (terminals : List Terminal)
    (ending : List Char) : Prop where
  reads : good → ∀ tokens, Behind (text ++ ending) tokens →
    ∃ rest, Spaced terminals tokens rest ∧ Behind ending rest
  blocks : ¬ good → ∀ tokens more, Behind (text ++ ending) tokens →
    ¬ Matches (terminals ++ more) tokens

namespace Shows

variable {good other : Prop} {text back ending : List Char} {terminals others : List Terminal}

theorem congr (shows' : Shows good text terminals ending) (hIff : good ↔ other) :
    Shows other text terminals ending := by
  rwa [← propext hIff]

/-- What is read whatever follows shows its terminals, and nothing has to be assumed for it. -/
theorem always (hReads : ∀ tokens, Behind (text ++ ending) tokens →
    ∃ rest, Spaced terminals tokens rest ∧ Behind ending rest) :
    Shows True text terminals ending :=
  ⟨fun _ => hReads, fun hBad => absurd trivial hBad⟩

/-- Texts behind one another show terminals behind one another, as long as the first is read before
the second one as its ending. -/
theorem append (first : Shows good text terminals (back ++ ending))
    (second : Shows other back others ending) :
    Shows (good ∧ other) (text ++ back) (terminals ++ others) ending where
  reads := by
    intro hBoth tokens behind
    rw [List.append_assoc] at behind
    obtain ⟨middle, hFirst, behind⟩ := first.reads hBoth.1 tokens behind
    obtain ⟨rest, hSecond, behind⟩ := second.reads hBoth.2 middle behind
    exact ⟨rest, hFirst.append hSecond, behind⟩
  blocks := by
    intro hBad tokens more behind hMatches
    rw [List.append_assoc] at behind hMatches
    by_cases hGood : good
    · obtain ⟨middle, hFirst, behind⟩ := first.reads hGood tokens behind
      have hRest := (hFirst.matches_iff (by simp [Kind.isLayout_iff])).mp hMatches
      exact second.blocks (fun hOther => hBad ⟨hGood, hOther⟩) middle more behind hRest
    · exact first.blocks hGood tokens _ behind hMatches

/-- What is always read changes nothing for what stands behind it, and its condition is left out. -/
theorem behind (first : Shows True text terminals (back ++ ending))
    (second : Shows good back others ending) :
    Shows good (text ++ back) (terminals ++ others) ending :=
  (first.append second).congr (and_iff_right trivial)

theorem spaces (hSpaces : text.all (· = ' ') = true) : Shows True text [] ending := by
  refine always ?_
  intro tokens behind
  exact ⟨tokens, .stop tokens, (behind_spaces_append hSpaces).mp behind⟩

/-- A piece between spaces shows its terminals, and so does what is written behind it. -/
theorem piece {blank lead : List Char} (hBlank : blank.all (· = ' ') = true)
    (hLead : lead.all (· = ' ') = true) (first : Shows good text terminals (back ++ ending))
    (second : Shows other back others ending) :
    Shows (good ∧ other) (blank ++ (lead ++ text ++ back)) (terminals ++ others) ending := by
  have hSpaces : (blank ++ lead).all (· = ' ') = true := by simp [hBlank, hLead]
  have hBoth := (spaces hSpaces).behind (first.append second)
  simpa using hBoth

/-- A delimiter shows itself where it ends as it should, whatever it is that follows. -/
theorem delimiter {word : String} (hWord : word ∈ delimiters)
    (hEnding : delimiterEnds word.toList ending = true) :
    Shows True word.toList [.verbatim .delimiter word] ending := by
  refine always ?_
  intro tokens behind
  refine behind.of_lexeme (lexeme?_delimiter hWord hEnding) (by decide) ?_
  intro token hKind hText
  exact ⟨hKind, String.ext hText⟩

theorem lineBreak (depth : Nat) : Shows True (lineBreak depth) [.newline] ending := by
  have hBreak : Shows True ['\n'] [.newline]
      (List.replicate (depth * Text.indentationWidth) ' ' ++ ending) := by
    refine always ?_
    intro tokens behind
    exact behind.of_lexeme (lexeme?_lineFeed _) (by decide) fun token hKind _ => hKind
  exact (hBreak.append (spaces (by simp))).congr (and_self_iff)

/-- A token that is written at some depth is read again there, with its text as the indentation
leaves it. -/
theorem token {kind : Kind} {text : String} (alone : Alone kind text.toList)
    (hKind : kind ∈ literalOrder) (hLayout : kind.isLayout = false)
    (hEnding : endsBefore kind ending = true) (depth : Nat) {terminal : Terminal}
    (hReads : ∀ token : Token, token.kind = kind → token.text = Text.indent text depth →
      terminal.reads token) : Shows True (Text.indent text depth).toList [terminal] ending := by
  have aloneLaid := alone.relaid hLayout (Text.relaid_indent text depth)
  refine always ?_
  intro tokens behind
  refine behind.of_lexeme (aloneLaid.lexeme?_append hKind hLayout hEnding) ?_ ?_
  · rintro rfl
    cases hLayout
  · exact fun token hSame hText => hReads token hSame (String.ext hText)

theorem literal {kind : Kind} {text : String} (alone : Alone kind text.toList)
    (hKind : kind ∈ literalOrder) (hLayout : kind.isLayout = false)
    (hFlush : Text.endsFlush text = true) (hEnding : endsBefore kind ending = true) (depth : Nat) :
    Shows True (Text.indent text depth).toList [.dedented kind text] ending := by
  refine token alone hKind hLayout hEnding depth ?_
  intro token hSame hText
  refine ⟨hSame, ?_⟩
  rw [hText, alone.dedent_indent hLayout hFlush]

theorem kept {kind : Kind} {text : String} (alone : Alone kind text.toList)
    (hKind : kind ∈ literalOrder) (hLayout : kind.isLayout = false)
    (hSpanning : kind = .comment ∨ kind ∉ spanningKinds) (hFlush : Text.endsFlush text = true)
    (hEnding : endsBefore kind ending = true) (depth : Nat) :
    Shows True (Text.indent text depth).toList [.kept kind text] ending := by
  rcases hSpanning with rfl | hSpanning
  · exact literal alone hKind hLayout hFlush hEnding depth
  · refine token alone hKind hLayout hEnding depth ?_
    have hComment : kind ≠ .comment := by
      rintro rfl
      exact hSpanning (by decide)
    intro token hSame hText
    rw [Terminal.kept, if_neg hComment]
    rw [Text.indent_of_not_mem (alone.not_mem_feed hSpanning hLayout)] at hText
    exact ⟨hSame, hText⟩

end Shows

end DocumentLanguage
