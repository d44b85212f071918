import DocumentLanguage.Proofs.Pattern.Enclosed
import DocumentLanguage.Proofs.Token.Scanned
import Mathlib.Data.List.Infix

/-!
Where tokens end. A text that is one token by itself is that same token in front of whatever may
follow it in canonical text.
-/
namespace DocumentLanguage

open Pattern

/-- Characters that may follow a token that is no delimiter. -/
def separators : List Char :=
  [' ', '\n', '(', ')', '[', ']', ':', ',', ';', '|', '.', '<']

/-- Whether a token that is no delimiter may end before an ending. -/
def separates : List Char → Bool
  | [] => true
  | c :: ending => separators.contains c && endsNumber (c :: ending)

/-- What is tried: the delimiters that are words or punctuation, the pattern of each literal, and
the operators. -/
theorem mem_trials {trial : Trial} :
    trial ∈ trials ↔
      trial = ⟨.delimiter, anyWord (keywords ++ punctuation)⟩ ∨
        (trial.kind ∈ literalOrder ∧ trial.kind.pattern? = some trial.pattern) ∨
          trial = ⟨.delimiter, anyWord operators⟩ := by
  simp only [trials, List.mem_append, List.mem_cons, List.mem_filterMap, List.not_mem_nil, or_false,
    Option.map_eq_some_iff]
  constructor
  · rintro ((rfl | ⟨kind, hKind, pattern, hPattern, rfl⟩) | rfl)
    · exact .inl rfl
    · exact .inr (.inl ⟨hKind, hPattern⟩)
    · exact .inr (.inr rfl)
  · rintro (rfl | ⟨hKind, hPattern⟩ | rfl)
    · exact .inl (.inl rfl)
    · exact .inl (.inr ⟨trial.kind, hKind, trial.pattern, hPattern, rfl⟩)
    · exact .inr rfl

/-- The pattern of a literal takes something with each run of a repetition, and it does not match
the empty text. -/
theorem productive_pattern {kind : Kind} {pattern : Pattern} (hKind : kind ∈ literalOrder)
    (hPattern : kind.pattern? = some pattern) :
    pattern.productive = true ∧ pattern.nullable = false := by
  have hAll : ∀ kind ∈ literalOrder,
      kind.pattern?.all (fun pattern => pattern.productive && !pattern.nullable) = true := by
    decide
  have hThis := hAll kind hKind
  rw [hPattern] at hThis
  simpa using hThis

theorem productive_alts {patterns : List Pattern}
    (hPatterns : ∀ pattern ∈ patterns, pattern.productive = true ∧ pattern.wordless = true) :
    (alts patterns).productive = true ∧ (alts patterns).wordless = true := by
  induction patterns with
  | nil => exact ⟨rfl, rfl⟩
  | cons pattern patterns ih =>
      cases patterns with
      | nil => exact hPatterns pattern List.mem_cons_self
      | cons other patterns =>
          have hHere := hPatterns pattern List.mem_cons_self
          have hRest := ih fun other hOther => hPatterns other (List.mem_cons_of_mem _ hOther)
          exact ⟨by simp [alts, productive, hHere, hRest], by simp [alts, wordless, hHere, hRest]⟩

theorem productive_word (chars : List Char) :
    (word chars).productive = true ∧ (word chars).wordless = true := by
  induction chars with
  | nil => exact ⟨rfl, rfl⟩
  | cons c chars ih =>
      cases chars with
      | nil => exact ⟨rfl, rfl⟩
      | cons d chars => exact ⟨by simpa [word, cats, productive] using ih.1,
          by simpa [word, cats, wordless] using ih.2⟩

/-- Words are found whatever follows, since only the characters of the word are looked at. -/
theorem local_anyWord (words : List String) (ending : List Char) :
    Local (anyWord words).ends ending := by
  have hWords : ∀ pattern ∈ (inTriedOrder words).map (fun word => Pattern.word word.toList),
      pattern.productive = true ∧ pattern.wordless = true := by
    intro pattern hPattern
    obtain ⟨word, -, rfl⟩ := List.mem_map.mp hPattern
    exact productive_word word.toList
  obtain ⟨hProductive, hWordless⟩ := productive_alts hWords
  exact local_ends hProductive (.inl hWordless)

/-- A text is one token of a kind by itself. -/
def Alone (kind : Kind) (text : List Char) : Prop :=
  lexeme? text = some ⟨kind, text, []⟩

/-- The pattern of a token that is no delimiter takes all of it. -/
theorem Alone.head?_ends {kind : Kind} {text : List Char} (alone : Alone kind text)
    (hKind : kind ≠ .delimiter) :
    kind ∈ literalOrder ∧
      ∃ pattern, kind.pattern? = some pattern ∧ (pattern.ends text).head? = some [] := by
  obtain ⟨before, trial, after, hTrials, hTrial, -⟩ := lexeme?_eq_some_iff.mp alone
  obtain ⟨hRest, rfl, -, -, -⟩ := Trial.lexeme?_eq_some.mp hTrial
  have hMem : trial ∈ trials := by simp [hTrials]
  rcases mem_trials.mp hMem with rfl | ⟨hLiteral, hPattern⟩ | rfl
  · exact absurd rfl hKind
  · exact ⟨hLiteral, trial.pattern, hPattern, hRest⟩
  · exact absurd rfl hKind

/-- A token by itself that is no delimiter is one of the literals, and its pattern takes the whole
text. -/
theorem Alone.mem_ends {kind : Kind} {text : List Char} (alone : Alone kind text)
    (hKind : kind ≠ .delimiter) :
    kind ∈ literalOrder ∧ ∃ pattern, kind.pattern? = some pattern ∧ [] ∈ pattern.ends text := by
  obtain ⟨hLiteral, pattern, hPattern, hHead⟩ := alone.head?_ends hKind
  exact ⟨hLiteral, pattern, hPattern, List.mem_of_head? hHead⟩

theorem Alone.ne_nil {kind : Kind} {text : List Char} (alone : Alone kind text) : text ≠ [] :=
  (lexeme?_text_append_rest alone).2

/-- Where an ending changes no trial, a token ends before it. -/
theorem Alone.append {kind : Kind} {text ending : List Char} (alone : Alone kind text)
    (hKind : kind ≠ .delimiter) (hTrials : ∀ trial ∈ trials, trial.Bounded text ending) :
    lexeme? (text ++ ending) = some ⟨kind, text, ending⟩ := by
  obtain ⟨before, trial, after, hSplit, hTrial, hBefore⟩ := lexeme?_eq_some_iff.mp alone
  obtain ⟨-, hSame, -, -, -⟩ := Trial.lexeme?_eq_some.mp hTrial
  refine lexeme?_eq_some_iff.mpr ⟨before, trial, after, hSplit, ?_, ?_⟩
  · refine (hTrials trial (by simp [hSplit])).eq_some hTrial ?_
    intro hDelimiter
    exact absurd (hSame.trans hDelimiter) hKind
  · intro other hOther
    exact (hTrials other (by simp [hSplit, hOther])).eq_none (hBefore other hOther)

theorem Pattern.Stops.bounded {trial : Trial} {text ending : List Char}
    (stops : trial.pattern.Stops text ending) (hLocal : Local trial.pattern.ends ending) :
    trial.Bounded text ending := by
  rw [Trial.Bounded, stops.ends_append hLocal, List.head?_map]

/-- What separates begins with one of the separators, unless it is empty. -/
theorem mem_separators {ending : List Char} (hEnding : separates ending = true) {c : Char}
    (hHead : c ∈ ending.head?) : c ∈ separators := by
  cases ending with
  | nil => cases hHead
  | cons d ending =>
      cases hHead
      simpa [separates] using (Bool.and_eq_true_iff.mp hEnding).1

theorem endsWord_of_separates {ending : List Char} (hEnding : separates ending = true) :
    endsWord ending = true := by
  cases ending with
  | nil => rfl
  | cons c ending =>
      have hAll : ∀ c ∈ separators, Unicode.isWord c = false := by decide
      simp only [separates, Bool.and_eq_true, List.contains_eq_mem, decide_eq_true_eq] at hEnding
      simp [endsWord, hAll c hEnding.1]

/-- Two points are the only word with a separator behind its first character. -/
theorem eq_points_of_separator : ∀ word ∈ keywords ++ punctuation ++ operators,
    ∀ c ∈ word.toList.tail, c ∈ separators → word.toList = ['.', '.'] := by
  decide

/-- A word goes on from a text with a separator only from a point. -/
theorem eq_point_of_separator {word : String} (hWord : word ∈ keywords ++ punctuation ++ operators)
    {front : List Char} (hFront : front ≠ []) {c : Char} (hSeparator : c ∈ separators)
    (hPrefix : front ++ [c] <+: word.toList) : front = ['.'] := by
  obtain ⟨first, front, rfl⟩ := List.exists_cons_of_ne_nil hFront
  obtain ⟨rest, hText⟩ := hPrefix
  have hPoints : word.toList = ['.', '.'] :=
    eq_points_of_separator word hWord c (by simp [← hText]) hSeparator
  rw [hPoints] at hText
  cases front with
  | nil =>
      cases hText
      rfl
  | cons second front => simp at hText

/-- No separator makes a longer delimiter of a token: none of the words goes on with one. -/
theorem Alone.bounded_words {kind : Kind} {text ending : List Char} (alone : Alone kind text)
    (hKind : kind ≠ .delimiter) (hEnding : separates ending = true) {words : List String}
    (hWords : words ⊆ keywords ++ punctuation ++ operators) (hNonempty : words ≠ []) :
    (⟨.delimiter, anyWord words⟩ : Trial).Bounded text ending := by
  cases ending with
  | nil =>
      simp only [Trial.Bounded, List.append_nil, Option.map_id']
  | cons c ending =>
      simp only [separates, Bool.and_eq_true, List.contains_eq_mem, decide_eq_true_eq] at hEnding
      refine Pattern.Stops.bounded (stops_anyWord hNonempty ?_) (local_anyWord words _)
      intro word hWord hPrefix
      have hPoint := eq_point_of_separator (hWords hWord) alone.ne_nil hEnding.1 hPrefix
      subst hPoint
      have hDelimiter : (lexeme? ['.']).map Lexeme.kind = some .delimiter := by decide
      rw [alone] at hDelimiter
      exact hKind (Option.some.inj hDelimiter)

/-- Kinds whose tokens hold only characters that are told from separators. -/
def plainKinds : List Kind :=
  [.duration, .angle, .boolean, .percentage, .probability, .number, .symbol, .tag, .moniker,
   .version, .identifier]

/-- No pattern goes on from a plain token into a separator, but a moniker's into a point. -/
theorem clears_plainKinds : ∀ kind ∈ plainKinds, ∀ c ∈ separators, (kind = .moniker → c ≠ '.') →
    ∀ other ∈ literalOrder, (kind.pattern?.any fun token => other.pattern?.any (clears token c)) = true := by
  decide

def patternWords : Pattern :=
  cats [alts [Pattern.text "none".toList, Pattern.text "any".toList], wordEnd]

theorem clears_patternWords : ∀ c ∈ separators, ∀ other ∈ literalOrder,
    other.pattern?.any (clears patternWords c) = true := by
  decide

/-- A pattern that takes a whole text can begin with its first character. -/
theorem opens_of_mem_ends {pattern : Pattern} {c : Char} {text : List Char}
    (hEnds : [] ∈ pattern.ends (c :: text)) : pattern.opens c = true := by
  by_contra hOpens
  simp only [Bool.not_eq_true] at hOpens
  cases (nullable_of_not_opens hOpens hEnds).1

/-- A literal's trial finds the same before a separator if the token is told from it. -/
theorem bounded_of_clears {token : Pattern} {text ending : List Char} (hNonempty : text ≠ [])
    (hToken : [] ∈ token.ends text) (hEnding : separates ending = true) {trial : Trial}
    (hLiteral : trial.kind ∈ literalOrder) (hPattern : trial.kind.pattern? = some trial.pattern)
    (hClears : ∀ c ∈ ending.head?, clears token c trial.pattern = true) :
    trial.Bounded text ending := by
  have hLocal : Local trial.pattern.ends ending :=
    local_ends (productive_pattern hLiteral hPattern).1 (.inr (endsWord_of_separates hEnding))
  refine Pattern.Stops.bounded ?_ hLocal
  cases ending with
  | nil => exact fun rest _ => Nat.zero_le _
  | cons c ending =>
      simp only [separates, Bool.and_eq_true] at hEnding
      cases text with
      | nil => contradiction
      | cons d text =>
          exact stops_of_clears hEnding.2 (opens_of_mem_ends hToken) (hClears c rfl)

/-- A plain token ends before a separator; a moniker does not end before a point. -/
theorem Alone.append_plain {kind : Kind} {text ending : List Char} (alone : Alone kind text)
    (hPlain : kind ∈ plainKinds) (hEnding : separates ending = true)
    (hMoniker : kind = .moniker → ending.head? ≠ some '.') :
    lexeme? (text ++ ending) = some ⟨kind, text, ending⟩ := by
  have hKind : kind ≠ .delimiter := by
    rintro rfl
    revert hPlain
    decide
  obtain ⟨-, pattern, hPattern, hEnds⟩ := alone.mem_ends hKind
  refine alone.append hKind ?_
  intro trial hTrial
  rcases mem_trials.mp hTrial with rfl | ⟨hLiteral, hTried⟩ | rfl
  · exact alone.bounded_words hKind hEnding (by simp) (by decide)
  · refine bounded_of_clears alone.ne_nil hEnds hEnding hLiteral hTried ?_
    intro c hHead
    have hMem := mem_separators hEnding hHead
    have hNotPoint : kind = .moniker → c ≠ '.' := by
      rintro hMonikerKind rfl
      exact hMoniker hMonikerKind hHead
    simpa [hPattern, hTried] using
      clears_plainKinds kind hPlain c hMem hNotPoint trial.kind hLiteral
  · exact alone.bounded_words hKind hEnding (by simp) (by decide)

/-- A token ends where it ends by itself if the few trials that can begin as it does say so. -/
theorem Alone.append_of_kinds {kind : Kind} {c : Char} {text ending : List Char}
    (alone : Alone kind (c :: text)) (hKind : kind ≠ .delimiter)
    (hEnding : separates ending = true) (kinds : List Kind)
    (hOthers : ∀ other ∈ literalOrder, other ∉ kinds →
      other.pattern?.all (fun pattern => !pattern.opens c) = true)
    (hKinds : ∀ other ∈ kinds, ∀ pattern, other.pattern? = some pattern →
      (⟨other, pattern⟩ : Trial).Bounded (c :: text) ending) :
    lexeme? (c :: text ++ ending) = some ⟨kind, c :: text, ending⟩ := by
  refine alone.append hKind ?_
  intro trial hTrial
  rcases mem_trials.mp hTrial with rfl | ⟨hLiteral, hTried⟩ | rfl
  · exact alone.bounded_words hKind hEnding (by simp) (by decide)
  · by_cases hMem : trial.kind ∈ kinds
    · exact hKinds trial.kind hMem trial.pattern hTried
    · have hOpens := hOthers trial.kind hLiteral hMem
      simp only [hTried, Option.all_some, Bool.not_eq_true'] at hOpens
      have hNullable := (productive_pattern hLiteral hTried).2
      rw [Trial.Bounded, List.cons_append, ends_eq_nil_of_not_opens hOpens hNullable,
        ends_eq_nil_of_not_opens hOpens hNullable]
      rfl
  · exact alone.bounded_words hKind hEnding (by simp) (by decide)

theorem bounded_of_closesInside {c d : Char} {text ending : List Char} (hPoint : c ≠ '.')
    (hEnding : separates ending = true) {trial : Trial} (hProductive : trial.pattern.productive = true)
    (hCloses : trial.pattern.closesInside c = true) :
    trial.Bounded (d :: text ++ [c]) ending :=
  Pattern.Stops.bounded (stops_of_closesInside hPoint hCloses text ending)
    (local_ends hProductive (.inr (endsWord_of_separates hEnding)))

/-- Tokens between marks that cannot stand inside them end where they end by themselves. -/
theorem Alone.append_closed {kind : Kind} {text ending : List Char} (alone : Alone kind text)
    (hKind : kind ∈ [.moment, .resource, .binary, .bytecode]) (hEnding : separates ending = true) :
    lexeme? (text ++ ending) = some ⟨kind, text, ending⟩ := by
  have hNotDelimiter : kind ≠ .delimiter := by
    rintro rfl
    revert hKind
    decide
  obtain ⟨-, pattern, hPattern, hEnds⟩ := alone.mem_ends hNotDelimiter
  have hCase : ∀ (opening closing : Char) (kinds : List Kind), closing ≠ '.' → kind ∈ kinds →
      (∀ other ∈ literalOrder, other ∉ kinds →
        other.pattern?.all (fun pattern => !pattern.opens opening) = true) →
      (∀ other ∈ kinds, other.pattern?.all (fun pattern =>
        pattern.productive && pattern.closesInside closing &&
          decide (pattern.openers? = some [opening])) = true) →
        lexeme? (text ++ ending) = some ⟨kind, text, ending⟩ := by
    intro opening closing kinds hPoint hMem hOthers hCloses
    have hOwn := hCloses kind hMem
    simp only [hPattern, Option.all_some, Bool.and_eq_true, decide_eq_true_eq] at hOwn
    obtain ⟨c, front, rfl⟩ := exists_append_of_closesInside hOwn.1.2 hEnds
    have hOpens := opens_of_mem_ends hEnds
    have hFirst : c = opening := by
      by_contra hNe
      have hNot := not_opens_of_openers? hOwn.2 (by simpa using hNe)
      rw [hNot] at hOpens
      cases hOpens
    subst hFirst
    refine alone.append_of_kinds hNotDelimiter hEnding kinds hOthers ?_
    intro other hOther pattern hPattern
    have hThis := hCloses other hOther
    simp only [hPattern, Option.all_some, Bool.and_eq_true] at hThis
    exact bounded_of_closesInside hPoint hEnding hThis.1.1 hThis.1.2
  have hAngle : kind ∈ [Kind.moment, .resource] ∨ kind ∈ [Kind.binary, .bytecode] := by
    simpa [or_assoc] using hKind
  rcases hAngle with hAngle | hTick
  · exact hCase '<' '>' _ (by decide) hAngle (by decide) (by decide)
  · exact hCase '\'' '\'' _ (by decide) hTick (by decide) (by decide)

def quotationKinds : List Kind := [.pattern, .narrative, .quote]

theorem not_opens_quotation : ∀ other ∈ literalOrder, other ∉ quotationKinds →
    other.pattern?.all (fun pattern => !pattern.opens '"') = true := by
  decide

/-- The trial for patterns in quotes, where a text begins with a quotation mark. -/
theorem ends_pattern_quotation {pattern : Pattern} (hPattern : Kind.pattern.pattern? = some pattern)
    (text : List Char) :
    pattern.ends ('"' :: text) = (quoted.ends ('"' :: text)).flatMap (char '?').ends := by
  obtain rfl := Option.some.inj (pattern?_pattern.symm.trans hPattern)
  have hWords : (cats [alts [Pattern.text "none".toList, Pattern.text "any".toList],
      wordEnd]).ends ('"' :: text) = [] := ends_eq_nil_of_not_opens (by decide) (by decide)
  have hAlt : (alts [cats [alts [Pattern.text "none".toList, Pattern.text "any".toList], wordEnd],
      cats [quoted, char '?']]).ends ('"' :: text) =
        (cats [alts [Pattern.text "none".toList, Pattern.text "any".toList],
          wordEnd]).ends ('"' :: text) ++ (cats [quoted, char '?']).ends ('"' :: text) := rfl
  rw [hAlt, hWords, List.nil_append]
  rfl

/-- Where a quote ends nothing is enclosed, as a narrative has a line end where the quote goes on.
-/
theorem ends_narrative_of_quoted {text rest : List Char} (hQuoted : rest ∈ quoted.ends text) :
    (enclosed '"' '>' '<' '"').ends text = [] := by
  by_contra hEnds
  obtain ⟨feed, body, hFeed, rfl⟩ := exists_of_ends_enclosed hEnds
  rw [ends_quoted_lineEnd feed body hFeed] at hQuoted
  cases hQuoted

/-- No mark of a pattern is behind a text before a separator. -/
theorem ends_mark_of_separates {ending : List Char} (hEnding : separates ending = true) :
    (char '?').ends ending = [] := by
  cases ending with
  | nil => rfl
  | cons c ending =>
      have hAll : ∀ c ∈ separators, c ≠ '?' := by decide
      simp only [separates, Bool.and_eq_true, List.contains_eq_mem, decide_eq_true_eq] at hEnding
      simp [char, ends, CharTest.holds, hAll c hEnding.1]

/-- A quote, perhaps with the mark of a pattern behind it, ends before a separator. -/
theorem Alone.append_quoted {kind : Kind} {text mark ending : List Char} (alone : Alone kind text)
    (hKind : kind ≠ .delimiter) (hQuoted : mark ∈ quoted.ends text)
    (hMark : (char '?').ends (mark ++ ending) = ((char '?').ends mark).map (· ++ ending))
    (hEnding : separates ending = true) :
    lexeme? (text ++ ending) = some ⟨kind, text, ending⟩ := by
  obtain ⟨body, rfl⟩ : ∃ body, text = '"' :: body := by
    cases text with
    | nil => cases hQuoted
    | cons c body =>
        by_cases hFirst : c = '"'
        · exact ⟨body, by rw [hFirst]⟩
        · have hOpeners : quoted.openers? = some ['"'] := rfl
          have hNil : quoted.ends (c :: body) = [] :=
            ends_eq_nil_of_not_opens (not_opens_of_openers? hOpeners (by simpa using hFirst)) rfl
          rw [hNil] at hQuoted
          cases hQuoted
  have hAlone : quoted.ends ('"' :: body) = [mark] := by
    simpa using ends_quoted_append hQuoted []
  have hBefore : quoted.ends ('"' :: body ++ ending) = [mark ++ ending] :=
    ends_quoted_append hQuoted ending
  refine alone.append_of_kinds hKind hEnding quotationKinds not_opens_quotation ?_
  intro other hOther pattern hPattern
  simp only [quotationKinds, List.mem_cons, List.not_mem_nil, or_false] at hOther
  rcases hOther with rfl | rfl | rfl
  · rw [Trial.Bounded]
    dsimp only
    rw [List.cons_append, ends_pattern_quotation hPattern, ends_pattern_quotation hPattern,
      ← List.cons_append, hAlone, hBefore, List.flatMap_cons, List.flatMap_cons, List.flatMap_nil,
      List.append_nil, List.append_nil, hMark, List.head?_map]
  · obtain rfl := Option.some.inj (pattern?_narrative.symm.trans hPattern)
    have hFirst := ends_narrative_of_quoted hQuoted
    have hSecond := ends_narrative_of_quoted (List.mem_of_mem_head? (by rw [hBefore]; rfl) :
      mark ++ ending ∈ quoted.ends ('"' :: body ++ ending))
    rw [Trial.Bounded, hFirst, hSecond]
    rfl
  · obtain rfl := Option.some.inj (pattern?_quote.symm.trans hPattern)
    rw [Trial.Bounded, hAlone, hBefore]
    rfl

/-- A quote ends before a separator, because it is closed by its own mark. -/
theorem Alone.append_quote {text ending : List Char} (alone : Alone .quote text)
    (hEnding : separates ending = true) : lexeme? (text ++ ending) = some ⟨.quote, text, ending⟩ := by
  obtain ⟨-, pattern, hPattern, hEnds⟩ := alone.mem_ends (by decide)
  obtain rfl := Option.some.inj (pattern?_quote.symm.trans hPattern)
  refine alone.append_quoted (by decide) hEnds ?_ hEnding
  rw [List.nil_append, ends_mark_of_separates hEnding]
  rfl

/-- A pattern, whether a word or a quote, ends before a separator. -/
theorem Alone.append_pattern {text ending : List Char} (alone : Alone .pattern text)
    (hEnding : separates ending = true) :
    lexeme? (text ++ ending) = some ⟨.pattern, text, ending⟩ := by
  obtain ⟨-, pattern, hPattern, hEnds⟩ := alone.mem_ends (by decide)
  obtain rfl := Option.some.inj (pattern?_pattern.symm.trans hPattern)
  rcases List.mem_append.mp hEnds with hWord | hQuoted
  · refine alone.append (by decide) ?_
    intro trial hTrial
    rcases mem_trials.mp hTrial with rfl | ⟨hLiteral, hTried⟩ | rfl
    · exact alone.bounded_words (by decide) hEnding (by simp) (by decide)
    · have hToken : [] ∈ patternWords.ends text := hWord
      refine bounded_of_clears alone.ne_nil hToken hEnding hLiteral hTried ?_
      intro c hHead
      simpa [hTried] using clears_patternWords c (mem_separators hEnding hHead) trial.kind hLiteral
    · exact alone.bounded_words (by decide) hEnding (by simp) (by decide)
  · obtain ⟨mark, hMark, hEnd⟩ := List.mem_flatMap.mp hQuoted
    refine alone.append_quoted (by decide) hMark ?_ hEnding
    cases mark with
    | nil => cases hEnd
    | cons c mark =>
        simp only [char, ends, List.cons_append]
        split <;> simp

/-- A narrative ends before a separator. It is tried before the quote, which begins with the same
mark. -/
theorem Alone.append_narrative {text ending : List Char} (alone : Alone .narrative text)
    (hEnding : separates ending = true) :
    lexeme? (text ++ ending) = some ⟨.narrative, text, ending⟩ := by
  obtain ⟨-, pattern, hPattern, hHead⟩ := alone.head?_ends (by decide)
  obtain rfl := Option.some.inj (pattern?_narrative.symm.trans hPattern)
  obtain ⟨body, rfl, hQuoted⟩ :
      ∃ body, text = '"' :: body ∧ ∀ ending, quoted.ends ('"' :: (body ++ ending)) = [] := by
    obtain ⟨feed, body, hFeed, rfl⟩ := exists_of_ends_enclosed
      (List.ne_nil_of_mem (List.mem_of_head? hHead))
    refine ⟨'>' :: feed ++ body, rfl, fun ending => ?_⟩
    simpa using ends_quoted_lineEnd feed (body ++ ending) hFeed
  have hNil := hQuoted []
  rw [List.append_nil] at hNil
  refine alone.append_of_kinds (by decide) hEnding quotationKinds not_opens_quotation ?_
  intro other hOther pattern hPattern
  simp only [quotationKinds, List.mem_cons, List.not_mem_nil, or_false] at hOther
  rcases hOther with rfl | rfl | rfl
  · rw [Trial.Bounded]
    dsimp only
    rw [List.cons_append, ends_pattern_quotation hPattern, ends_pattern_quotation hPattern, hNil,
      hQuoted ending]
    rfl
  · obtain rfl := Option.some.inj (pattern?_narrative.symm.trans hPattern)
    rw [Trial.Bounded]
    dsimp only
    rw [head?_ends_enclosed_append hHead, hHead]
    rfl
  · obtain rfl := Option.some.inj (pattern?_quote.symm.trans hPattern)
    rw [Trial.Bounded]
    dsimp only
    rw [List.cons_append, hNil, hQuoted ending]
    rfl

def exclamationKinds : List Kind := [.comment, .note]

theorem not_opens_exclamation : ∀ other ∈ literalOrder, other ∉ exclamationKinds →
    other.pattern?.all (fun pattern => !pattern.opens '!') = true := by
  decide

/-- A comment ends before a separator, since it has its closing marks before whatever follows. -/
theorem Alone.append_comment {text ending : List Char} (alone : Alone .comment text)
    (hEnding : separates ending = true) :
    lexeme? (text ++ ending) = some ⟨.comment, text, ending⟩ := by
  obtain ⟨-, pattern, hPattern, hHead⟩ := alone.head?_ends (by decide)
  obtain rfl := Option.some.inj (pattern?_comment.symm.trans hPattern)
  obtain ⟨body, rfl⟩ : ∃ body, text = '!' :: '>' :: body := by
    obtain ⟨feed, body, -, rfl⟩ := exists_of_ends_enclosed
      (List.ne_nil_of_mem (List.mem_of_head? hHead))
    exact ⟨feed ++ body, rfl⟩
  refine alone.append_of_kinds (by decide) hEnding exclamationKinds not_opens_exclamation ?_
  intro other hOther pattern hPattern
  simp only [exclamationKinds, List.mem_cons, List.not_mem_nil, or_false] at hOther
  rcases hOther with rfl | rfl
  · obtain rfl := Option.some.inj (pattern?_comment.symm.trans hPattern)
    rw [Trial.Bounded]
    dsimp only
    rw [head?_ends_enclosed_append hHead, hHead]
    rfl
  · cases hPattern
    rfl

/-- A note ends with its line, which is why only a line feed or the end may follow it. -/
theorem Alone.append_note {text ending : List Char} (alone : Alone .note text)
    (hEnding : ending = [] ∨ ending.head? = some '\n') :
    lexeme? (text ++ ending) = some ⟨.note, text, ending⟩ := by
  rcases hEnding with rfl | hFeed
  · rw [List.append_nil]
    exact alone
  obtain ⟨ending, rfl⟩ : ∃ rest, ending = '\n' :: rest := by
    cases ending with
    | nil => cases hFeed
    | cons c ending => exact ⟨ending, by rw [Option.some.inj hFeed]⟩
  obtain ⟨-, pattern, hPattern, hHead⟩ := alone.head?_ends (by decide)
  have hEnds := List.mem_of_head? hHead
  obtain ⟨body, rfl⟩ : ∃ body, text = '!' :: ' ' :: body := by
    cases hPattern
    rw [ends_cats_cons, ends_pair] at hEnds
    split at hEnds
    · split at hEnds
      · rename_i hMarks
        exact ⟨_, by rw [hMarks.1, hMarks.2]⟩
      · cases hEnds
    · cases hEnds
  refine alone.append_of_kinds (by decide) rfl exclamationKinds not_opens_exclamation ?_
  intro other hOther pattern hPattern
  simp only [exclamationKinds, List.mem_cons, List.not_mem_nil, or_false] at hOther
  rcases hOther with rfl | rfl
  · obtain rfl := Option.some.inj (pattern?_comment.symm.trans hPattern)
    rw [Trial.Bounded]
    dsimp only
    rw [ends_enclosed, ends_enclosed]
    rfl
  · cases hPattern
    exact Pattern.Stops.bounded (stops_of_stopsInside rfl (by decide) _)
      (local_ends (by decide) (.inl (by decide)))

/-- Whether a token of a kind that is no delimiter ends before an ending. A note takes the rest of
its line, and a moniker a point. -/
def endsBefore : Kind → List Char → Bool
  | .note, ending => ending.head?.all (· = '\n')
  | .moniker, ending => separates ending && ending.head? != some '.'
  | _, ending => separates ending

/-- A token that is one by itself ends where it should. -/
theorem Alone.lexeme?_append {kind : Kind} {text ending : List Char} (alone : Alone kind text)
    (hKind : kind ∈ literalOrder) (hLayout : kind.isLayout = false)
    (hEnding : endsBefore kind ending = true) :
    lexeme? (text ++ ending) = some ⟨kind, text, ending⟩ := by
  cases kind with
  | note =>
      refine alone.append_note ?_
      cases ending with
      | nil => exact .inl rfl
      | cons c ending => exact .inr (by simpa [endsBefore] using hEnding)
  | moniker =>
      simp only [endsBefore, Bool.and_eq_true, bne_iff_ne] at hEnding
      exact alone.append_plain (by decide) hEnding.1 fun _ => hEnding.2
  | comment => exact alone.append_comment hEnding
  | narrative => exact alone.append_narrative hEnding
  | quote => exact alone.append_quote hEnding
  | pattern => exact alone.append_pattern hEnding
  | moment | resource | binary | bytecode => exact alone.append_closed (by decide) hEnding
  | error | delimiter => exact absurd hKind (by decide)
  | space | newline => cases hLayout
  | _ => exact alone.append_plain (by decide) hEnding (fun hEq => by cases hEq)

end DocumentLanguage
