import DocumentLanguage.Proofs.Token.Delimiter

/-!
Tokens taken out of their source. What is one token where it stands is the same token by itself,
unless it is a word and some word character follows it.
-/
namespace DocumentLanguage

open Pattern

/-- Whether a word could go on with what follows it. -/
def continuesWord (rest : List Char) : Bool :=
  rest.head?.any fun c => Unicode.isWord c || Unicode.isAlphanumeric c || c = '_'

def beginsWord (text : List Char) : Bool :=
  text.head?.any Char.isAlpha

/-- A word ends before what does not go on with it. -/
theorem endsWord_of_not_continuesWord {rest : List Char} (hRest : continuesWord rest = false) :
    endsWord rest = true := by
  cases rest with
  | nil => rfl
  | cons c rest =>
      simp only [continuesWord, List.head?_cons, Option.any_some, Bool.or_eq_false_iff] at hRest
      simp [endsWord, hRest.1.1]

/-- The kinds for which the end of a word counts. -/
def wordEndKinds : List Kind := [.boolean, .pattern, .version]

/-- Only the patterns of a few literals ask for the end of a word. The others look at nothing behind
them. -/
theorem wordless_pattern {kind : Kind} {pattern : Pattern} (hKind : kind ∈ literalOrder)
    (hPattern : kind.pattern? = some pattern) (hWordEnd : kind ∉ wordEndKinds) :
    pattern.wordless = true := by
  have hAll : ∀ kind ∈ literalOrder, kind ∉ wordEndKinds →
      kind.pattern?.all Pattern.wordless = true := by decide
  have hThis := hAll kind hKind hWordEnd
  rw [hPattern] at hThis
  simpa using hThis

/-- A pattern that begins with a letter finds nothing in a text that does not begin with one. -/
theorem ends_eq_nil_of_not_beginsWord {pattern : Pattern} {openers : List Char} {c : Char}
    {text : List Char} (hOpeners : pattern.openers? = some openers)
    (hLetters : ∀ d ∈ openers, d.isAlpha = true) (hNullable : pattern.nullable = false)
    (hWord : c.isAlpha = false) : pattern.ends (c :: text) = [] := by
  refine ends_eq_nil_of_not_opens (not_opens_of_openers? hOpeners ?_) hNullable
  intro hMem
  rw [hLetters c hMem] at hWord
  cases hWord

theorem ends_append_of_not_beginsWord {pattern : Pattern} (openers : List Char) {c : Char}
    {text : List Char} (hOpeners : pattern.openers? = some openers)
    (hLetters : ∀ d ∈ openers, d.isAlpha = true) (hNullable : pattern.nullable = false)
    (hWord : c.isAlpha = false) (rest : List Char) :
    reaching rest (pattern.ends (c :: text ++ rest)) = (pattern.ends (c :: text)).map (· ++ rest) := by
  rw [List.cons_append, ends_eq_nil_of_not_beginsWord hOpeners hLetters hNullable hWord,
    ends_eq_nil_of_not_beginsWord hOpeners hLetters hNullable hWord]
  rfl

/-- What a literal's pattern finds inside a text does not depend on what follows, unless that goes
on with a word. -/
theorem reaching_ends {kind : Kind} {pattern : Pattern} (hKind : kind ∈ literalOrder)
    (hPattern : kind.pattern? = some pattern) {text rest : List Char} (hText : text ≠ [])
    (hWord : beginsWord text = true → continuesWord rest = false) :
    reaching rest (pattern.ends (text ++ rest)) = (pattern.ends text).map (· ++ rest) := by
  have hProductive := (productive_pattern hKind hPattern).1
  by_cases hWordEnd : kind ∈ wordEndKinds
  · cases hBegins : beginsWord text with
    | true =>
        exact local_ends hProductive (.inr (endsWord_of_not_continuesWord (hWord hBegins))) text
    | false =>
        obtain ⟨c, text, rfl⟩ := List.exists_cons_of_ne_nil hText
        have hNotAlpha : c.isAlpha = false := by simpa [beginsWord] using hBegins
        simp only [wordEndKinds, List.mem_cons, List.not_mem_nil, or_false] at hWordEnd
        rcases hWordEnd with rfl | rfl | rfl
        · cases hPattern
          exact ends_append_of_not_beginsWord ['f', 't'] rfl (by decide) rfl hNotAlpha rest
        · obtain rfl := Option.some.inj (pattern?_pattern.symm.trans hPattern)
          have hWords : reaching rest (patternWords.ends (c :: text ++ rest)) =
              (patternWords.ends (c :: text)).map (· ++ rest) :=
            ends_append_of_not_beginsWord ['n', 'a'] rfl (by decide) rfl hNotAlpha rest
          have hQuoted : Local (cats [quoted, char '?']).ends rest := local_ends rfl (.inl rfl)
          have hAlt : ∀ text, (alts [patternWords, cats [quoted, char '?']]).ends text =
              patternWords.ends text ++ (cats [quoted, char '?']).ends text := fun _ => rfl
          rw [patternWords] at hAlt hWords
          rw [hAlt, hAlt, reaching_append, hWords, hQuoted, List.map_append]
        · cases hPattern
          exact ends_append_of_not_beginsWord ['v'] rfl (by decide) rfl hNotAlpha rest
  · exact local_ends hProductive (.inl (wordless_pattern hKind hPattern hWordEnd)) text

/-- A literal's trial fails only where its pattern does not match. -/
theorem ends_eq_nil_of_lexeme?_eq_none {trial : Trial} (hKind : trial.kind ∈ literalOrder)
    (hPattern : trial.kind.pattern? = some trial.pattern) {text : List Char}
    (hNone : trial.lexeme? text = none) : trial.pattern.ends text = [] := by
  have hNullable := (productive_pattern hKind hPattern).2
  have hDelimiter : trial.kind ≠ .delimiter := by
    intro hEq
    rw [hEq] at hKind
    revert hKind
    decide
  cases hEnds : trial.pattern.ends text with
  | nil => rfl
  | cons rest others =>
      have hMem : rest ∈ trial.pattern.ends text := by simp [hEnds]
      obtain ⟨taken, rfl⟩ := shrinks_ends trial.pattern text rest hMem
      have hTaken := takes_ends hNullable _ _ hMem
      have hSome : trial.lexeme? (taken ++ rest) = some ⟨trial.kind, taken, rest⟩ := by
        refine Trial.lexeme?_eq_some.mpr ⟨by simp [hEnds], rfl, rfl, ?_, fun hEq => absurd hEq hDelimiter⟩
        rintro rfl
        simp at hTaken
      rw [hNone] at hSome
      cases hSome

/-- A delimiter that ends with a letter holds nothing but letters. -/
theorem isAlpha_of_splitsWord {word : String} (hWord : word ∈ delimiters) {following : Option Char}
    (hSplits : splitsWord word.toList following = true) : ∀ c ∈ word.toList, c.isAlpha = true := by
  have hAll : ∀ word ∈ delimiters, word.toList.getLast?.any Unicode.isAlphanumeric = true →
      ∀ c ∈ word.toList, c.isAlpha = true := by
    decide
  simp only [splitsWord, Bool.and_eq_true] at hSplits
  exact hAll word hWord hSplits.1

/-- What holds of every ASCII character is checked one by one, by their codes. -/
theorem forall_ascii (property : Char → Prop) (hAll : ∀ code < 128, property (Char.ofNat code))
    {c : Char} (hAscii : c.toNat < 128) : property c := by
  have hThis := hAll c.toNat hAscii
  rwa [Char.ofNat_toNat] at hThis

theorem toNat_lt_of_isAlphanum {c : Char} (hAlphanum : c.isAlphanum = true) : c.toNat < 128 := by
  rw [← holds_alphanumeric] at hAlphanum
  simp only [CharTest.holds, SetItem.holds, letters, List.cons_append, List.nil_append,
    List.any_cons, List.any_nil, Bool.or_false, Bool.or_eq_true, Bool.and_eq_true,
    decide_eq_true_eq] at hAlphanum
  rcases hAlphanum with ⟨-, hLe⟩ | ⟨-, hLe⟩ | ⟨-, hLe⟩
  · exact Nat.lt_of_le_of_lt hLe (by decide)
  · exact Nat.lt_of_le_of_lt hLe (by decide)
  · exact Nat.lt_of_le_of_lt hLe (by decide)

theorem isAlphanum_of_isAlpha {c : Char} (hAlpha : c.isAlpha = true) : c.isAlphanum = true := by
  simp [Char.isAlphanum, hAlpha]

theorem continuesWord_of_isAlpha {c : Char} {rest : List Char} (hAlpha : c.isAlpha = true) :
    continuesWord (c :: rest) = true := by
  have hAscii := toNat_lt_of_isAlphanum (isAlphanum_of_isAlpha hAlpha)
  simp [continuesWord, Unicode.isAlphanumeric, Unicode.Ranges.extend_of_ascii hAscii,
    isAlphanum_of_isAlpha hAlpha]

/-- Where a delimiter would be split off from a word, more of the word is behind it. -/
theorem continuesWord_of_splitsWord {word rest : List Char}
    (hSplits : splitsWord word rest.head? = true) : continuesWord rest = true := by
  simp only [splitsWord, Bool.and_eq_true] at hSplits
  obtain ⟨c, hHead, hAfter⟩ := (Option.any_eq_true _ _).mp hSplits.2
  simp only [continuesWord, hHead, Option.any_some, Bool.or_eq_true] at hAfter ⊢
  rcases hAfter with hAlphanumeric | hLine
  · exact .inl (.inr hAlphanumeric)
  · exact .inr hLine

/-- Words are no token only where the longest of those that stand there splits a word. -/
theorem exists_longest_splitting {words : List String} (hWords : words ⊆ delimiters)
    {text : List Char} (hBegins : ∃ word ∈ words, word.toList <+: text)
    (hNone : (⟨.delimiter, anyWord words⟩ : Trial).lexeme? text = none) :
    ∃ long ∈ words, ∃ behind, long.toList ++ behind = text ∧
      (∀ other ∈ words, other.toList <+: text → other.toList.length ≤ long.toList.length) ∧
        splitsWord long.toList behind.head? = true := by
  obtain ⟨long, hLong, ⟨behind, rfl⟩, hLongest⟩ := exists_longest hBegins
  refine ⟨long, hLong, behind, rfl, hLongest, ?_⟩
  by_contra hNot
  have hTrial : (⟨.delimiter, anyWord words⟩ : Trial).lexeme? (long.toList ++ behind) =
      some ⟨.delimiter, long.toList, behind⟩ := by
    have hFilled : ∀ word ∈ delimiters, word.toList ≠ [] := by decide
    exact Trial.lexeme?_eq_some.mpr ⟨head?_ends_anyWord hLong hLongest, rfl, rfl,
      hFilled long (hWords hLong), fun _ => by simpa using hNot⟩
  rw [hNone] at hTrial
  cases hTrial

/-- A text that agrees with a word of letters in front begins with a letter. -/
theorem beginsWord_of_agrees {word text rest : List Char}
    (hLetters : ∀ c ∈ word, c.isAlpha = true) (hFilled : word ≠ []) (hText : text ≠ [])
    (hPrefix : text <+: word ++ rest) : beginsWord text = true := by
  obtain ⟨c, text, rfl⟩ := List.exists_cons_of_ne_nil hText
  obtain ⟨d, letters, rfl⟩ := List.exists_cons_of_ne_nil hFilled
  obtain rfl := (List.cons_prefix_cons.mp hPrefix).1
  simpa [beginsWord] using hLetters c List.mem_cons_self

/-- A word of letters with more of a word behind it ends strictly inside a text that stands in the same
place, provided that what follows the text does not go on with a word. -/
theorem ends_inside_of_splitsWord {word behind text rest : List Char}
    (hLetters : ∀ c ∈ word, c.isAlpha = true) (hSplits : splitsWord word behind.head? = true)
    (hText : text ≠ []) (hWord : beginsWord text = true → continuesWord rest = false)
    (hSame : word ++ behind = text ++ rest) :
    ∃ c beyond, text = word ++ c :: beyond ∧ behind = c :: beyond ++ rest := by
  have hFilled : word ≠ [] := by
    rintro rfl
    simp [splitsWord] at hSplits
  have hNotOver : ∀ beyond, word = text ++ beyond → rest ≠ beyond ++ behind := by
    intro beyond hOver hRest
    have hPrefix : text <+: word ++ [] := by
      rw [List.append_nil, hOver]
      exact List.prefix_append text beyond
    have hContinues : continuesWord rest = true := by
      rw [hRest]
      cases beyond with
      | nil => exact continuesWord_of_splitsWord hSplits
      | cons c beyond => exact continuesWord_of_isAlpha (hLetters c (by simp [hOver]))
    rw [hWord (beginsWord_of_agrees hLetters hFilled hText hPrefix)] at hContinues
    cases hContinues
  rcases List.append_eq_append_iff.mp hSame with ⟨beyond, hInside, hRest⟩ | ⟨beyond, hOver, hRest⟩
  · cases beyond with
    | nil => exact absurd hRest.symm (hNotOver [] (by simp [hInside]))
    | cons c beyond => exact ⟨c, beyond, hInside, hRest⟩
  · exact absurd hRest (hNotOver beyond hOver)

/-- Where words are no token in front of what follows a text, they are none of the text alone. -/
theorem words_eq_none {words : List String} (hWords : words ⊆ delimiters) (hNonempty : words ≠ [])
    {text rest : List Char} (hText : text ≠ [])
    (hWord : beginsWord text = true → continuesWord rest = false)
    (hNone : (⟨.delimiter, anyWord words⟩ : Trial).lexeme? (text ++ rest) = none) :
    (⟨.delimiter, anyWord words⟩ : Trial).lexeme? text = none := by
  by_contra hSome
  obtain ⟨⟨kind, taken, more⟩, hLexeme⟩ := Option.ne_none_iff_exists'.mp hSome
  obtain ⟨hMore, -, hTaken, -, hSplits⟩ := Trial.lexeme?_eq_some.mp hLexeme
  dsimp only at hMore hTaken hSplits
  obtain ⟨short, hShort, hShortText⟩ := (mem_ends_anyWord hNonempty).mp (List.mem_of_head? hMore)
  -- the longest word in front of everything, which splits a word
  have hBegins : short.toList <+: text ++ rest :=
    List.IsPrefix.trans ⟨more, hShortText.symm⟩ (List.prefix_append text rest)
  obtain ⟨long, hLong, behind, hBehind, hLongest, hLongSplits⟩ :=
    exists_longest_splitting hWords ⟨short, hShort, hBegins⟩ hNone
  obtain ⟨c, beyond, hInside, hRest⟩ := ends_inside_of_splitsWord
    (isAlpha_of_splitsWord (hWords hLong) hLongSplits) hLongSplits hText hWord hBehind
  -- the same word is the longest in the text alone
  have hHead : ((anyWord words).ends text).head? = some (c :: beyond) := by
    rw [hInside]
    refine head?_ends_anyWord hLong ?_
    intro other hOther hPrefix
    refine hLongest other hOther ?_
    rw [← hInside] at hPrefix
    exact hPrefix.trans (List.prefix_append text rest)
  rw [hMore] at hHead
  obtain rfl := Option.some.inj hHead
  rw [hInside] at hTaken
  rw [← List.append_cancel_right hTaken] at hSplits
  rw [hRest] at hLongSplits
  simp only [List.cons_append, List.head?_cons] at hSplits hLongSplits
  rw [hLongSplits] at hSplits
  cases hSplits trivial

/-- What is a token of some kind where it stands is so by itself, unless it is a word and what
follows could go on with it. -/
theorem alone_of_lexeme? {kind : Kind} {text rest : List Char}
    (hLexeme : lexeme? (text ++ rest) = some ⟨kind, text, rest⟩) (hKind : kind ≠ .delimiter)
    (hWord : beginsWord text = true → continuesWord rest = false) : Alone kind text := by
  have hText := (lexeme?_text_append_rest hLexeme).2
  obtain ⟨before, trial, after, hTrials, hTrial, hBefore⟩ := lexeme?_eq_some_iff.mp hLexeme
  refine lexeme?_eq_some_iff.mpr ⟨before, trial, after, hTrials, ?_, ?_⟩
  · obtain ⟨hRest, hSame, -, hTaken, -⟩ := Trial.lexeme?_eq_some.mp hTrial
    dsimp only at hRest hSame
    have hMem : trial ∈ trials := by simp [hTrials]
    rcases mem_trials.mp hMem with rfl | ⟨hLiteral, hPattern⟩ | rfl
    · exact absurd hSame hKind
    · refine Trial.lexeme?_eq_some.mpr ⟨?_, hSame, by simp, hTaken, ?_⟩
      · have hReaching := reaching_ends hLiteral hPattern hText hWord
        obtain ⟨others, hEnds⟩ := List.head?_eq_some_iff.mp hRest
        have hFirst : (reaching rest (trial.pattern.ends (text ++ rest))).head? = some rest := by
          simp [hEnds, reaching]
        rw [hReaching, List.head?_map] at hFirst
        obtain ⟨last, hLast, hEmpty⟩ := Option.map_eq_some_iff.mp hFirst
        rw [hLast, List.append_left_eq_self.mp hEmpty]
      · exact fun hDelimiter => absurd (hSame.trans hDelimiter) hKind
    · exact absurd hSame hKind
  · intro other hOther
    have hNone := hBefore other hOther
    have hMem : other ∈ trials := by simp [hTrials, hOther]
    rcases mem_trials.mp hMem with rfl | ⟨hLiteral, hPattern⟩ | rfl
    · exact words_eq_none (List.subset_append_left _ _) (by decide) hText hWord hNone
    · refine Trial.lexeme?_eq_none_of_ends ?_
      have hReaching := reaching_ends hLiteral hPattern hText hWord
      rw [ends_eq_nil_of_lexeme?_eq_none hLiteral hPattern hNone] at hReaching
      exact List.map_eq_nil_iff.mp hReaching.symm
    · exact words_eq_none (List.subset_append_right _ _) (by decide) hText hWord hNone

/-- A repetition of single characters takes all that are allowed, up to the first that is not. -/
theorem head?_ends_star_one (test : CharTest) (text : List Char) :
    ((star (one test)).ends text).head? = some (text.dropWhile test.holds) := by
  induction text with
  | nil => rfl
  | cons c text ih =>
      have hOne : (one test).ends (c :: text) = if test.holds c then [text] else [] := rfl
      rw [ends_star rfl, hOne, List.dropWhile_cons]
      split
      · rw [List.flatMap_cons, List.flatMap_nil, List.append_nil, List.head?_append, ih]
        rfl
      · rfl

theorem pattern?_identifier : Kind.identifier.pattern? = some
    (cats [oneOf letters, star (oneOf (letters ++ [.range '0' '9']))]) := rfl

/-- Where the pattern of an identifier stops no letter and no digit follows. -/
theorem head?_of_ends_identifier {text : List Char} {c : Char} {rest : List Char}
    (hEnds : ((cats [oneOf letters, star (oneOf (letters ++ [.range '0' '9']))]).ends text).head? =
      some (c :: rest)) : c.isAlphanum = false := by
  cases text with
  | nil => cases hEnds
  | cons d text =>
      rw [ends_cats_cons] at hEnds
      have hFirst : (oneOf letters).ends (d :: text) =
        if (CharTest.oneOf letters).holds d then [text] else [] := rfl
      have hRest : cats [star (oneOf (letters ++ [.range '0' '9']))] =
        star (one (.oneOf (letters ++ [.range '0' '9']))) := rfl
      rw [hFirst, hRest] at hEnds
      split at hEnds
      · rw [List.flatMap_cons, List.flatMap_nil, List.append_nil, head?_ends_star_one] at hEnds
        have hHead := List.head?_dropWhile_not
          (CharTest.holds (.oneOf (letters ++ [.range '0' '9']))) text
        rw [Option.some.inj hEnds] at hHead
        rw [← holds_alphanumeric]
        exact hHead
      · cases hEnds

/-- Whether a match always ends at the end of a word. -/
def Pattern.endsAtWord : Pattern → Bool
  | wordEnd => true
  | cat _ second => second.endsAtWord
  | _ => false

/-- A pattern that ends where a word does leaves a text that does not go on with the word. -/
theorem endsWord_of_endsAtWord {pattern : Pattern} (hPattern : pattern.endsAtWord = true)
    {text rest : List Char} (hRest : rest ∈ pattern.ends text) : endsWord rest = true := by
  induction pattern generalizing text with
  | wordEnd =>
      cases text with
      | nil =>
          rw [List.mem_singleton.mp hRest]
          rfl
      | cons c text =>
          simp only [ends] at hRest
          split at hRest
          · cases hRest
          · rename_i hNot
            rw [List.mem_singleton.mp hRest]
            simpa [endsWord] using hNot
  | cat first second _ ihSecond =>
      obtain ⟨middle, -, hRest⟩ := List.mem_flatMap.mp hRest
      exact ihSecond hPattern hRest
  | _ => cases hPattern

/-- The kinds of tokens that may begin with a letter. -/
def letterKinds : List Kind := [.boolean, .pattern, .version, .identifier]

/-- Only a few literals begin with a letter, and they are known by their kinds. -/
theorem not_opens_letter {c : Char} (hAlpha : c.isAlpha = true) : ∀ kind ∈ literalOrder,
    kind ∉ letterKinds → kind.pattern?.all (fun pattern => !pattern.opens c) = true := by
  have hAll : ∀ code < 128, (Char.ofNat code).isAlpha = true → ∀ kind ∈ literalOrder,
      kind ∉ letterKinds →
        kind.pattern?.all (fun pattern => !pattern.opens (Char.ofNat code)) = true := by
    decide
  exact forall_ascii (fun c => c.isAlpha = true → ∀ kind ∈ literalOrder,
    kind ∉ letterKinds → kind.pattern?.all (fun pattern => !pattern.opens c) = true) hAll
      (toNat_lt_of_isAlphanum (isAlphanum_of_isAlpha hAlpha)) hAlpha

theorem isAlphanum_of_endsWord {c : Char} {rest : List Char} (hEnds : endsWord (c :: rest) = true) :
    c.isAlphanum = false := by
  cases hAlphanum : c.isAlphanum with
  | false => rfl
  | true =>
      have hAscii := toNat_lt_of_isAlphanum hAlphanum
      simp [endsWord, Unicode.isWord, Unicode.Ranges.extend_of_ascii hAscii, hAlphanum] at hEnds

/-- The pattern that makes a literal of what is first in a source. -/
theorem head?_ends_of_lexeme? {kind : Kind} {text rest : List Char}
    (hLexeme : lexeme? (text ++ rest) = some ⟨kind, text, rest⟩) (hKind : kind ≠ .delimiter) :
    ∃ pattern, kind.pattern? = some pattern ∧ kind ∈ literalOrder ∧
      (pattern.ends (text ++ rest)).head? = some rest := by
  obtain ⟨before, trial, after, hTrials, hTrial, -⟩ := lexeme?_eq_some_iff.mp hLexeme
  obtain ⟨hHead, rfl, -, -, -⟩ := Trial.lexeme?_eq_some.mp hTrial
  have hMem : trial ∈ trials := by simp [hTrials]
  rcases mem_trials.mp hMem with rfl | ⟨hLiteral, hPattern⟩ | rfl
  · exact absurd rfl hKind
  · exact ⟨trial.pattern, hPattern, hLiteral, hHead⟩
  · exact absurd rfl hKind

/-- What cannot begin as a text does is not tried in vain. -/
theorem ends_eq_nil_of_all {other : Kind} {tried : Pattern} {c : Char} {text : List Char}
    (hOther : other ∈ literalOrder) (hTried : other.pattern? = some tried)
    (hAll : other.pattern?.all (fun pattern => !pattern.opens c) = true) :
    tried.ends (c :: text) = [] := by
  rw [hTried, Option.all_some, Bool.not_eq_true'] at hAll
  exact ends_eq_nil_of_not_opens hAll (productive_pattern hOther hTried).2

/-- A literal that begins with a letter is of one of few kinds. -/
theorem mem_letterKinds_of_lexeme? {kind : Kind} {text rest : List Char}
    (hLexeme : lexeme? (text ++ rest) = some ⟨kind, text, rest⟩) (hKind : kind ≠ .delimiter)
    (hWord : beginsWord text = true) : kind ∈ letterKinds := by
  obtain ⟨pattern, hPattern, hLiteral, hHead⟩ := head?_ends_of_lexeme? hLexeme hKind
  cases text with
  | nil => cases hWord
  | cons first letters =>
      have hAlpha : first.isAlpha = true := by simpa [beginsWord] using hWord
      by_contra hNot
      have hNone := not_opens_letter hAlpha kind hLiteral hNot
      have hRest := List.mem_of_head? hHead
      rw [List.cons_append, ends_eq_nil_of_all hLiteral hPattern hNone] at hRest
      cases hRest

/-- No quoted pattern begins with a letter, whatever stands behind the word. -/
theorem ends_quotedPattern_of_beginsWord {text : List Char} (hWord : beginsWord text = true)
    (rest : List Char) : (alts [cats [quoted, char '?']]).ends (text ++ rest) = [] := by
  cases text with
  | nil => cases hWord
  | cons c text =>
      refine ends_eq_nil_of_not_opens (not_opens_of_openers? (rfl : _ = some ['"']) ?_) rfl
      intro hQuote
      rw [List.mem_singleton.mp hQuote] at hWord
      cases hWord

/-- A token that begins with a letter is followed by no letter and no digit of ASCII. -/
theorem isAlphanum_of_beginsWord {kind : Kind} {text rest : List Char} {c : Char}
    (hLexeme : lexeme? (text ++ c :: rest) = some ⟨kind, text, c :: rest⟩)
    (hKind : kind ≠ .delimiter) (hWord : beginsWord text = true) :
    kind ∈ letterKinds ∧ c.isAlphanum = false := by
  have hLetter := mem_letterKinds_of_lexeme? hLexeme hKind hWord
  obtain ⟨pattern, hPattern, -, hHead⟩ := head?_ends_of_lexeme? hLexeme hKind
  have hRest := List.mem_of_head? hHead
  refine ⟨hLetter, ?_⟩
  simp only [letterKinds, List.mem_cons, List.not_mem_nil, or_false] at hLetter
  rcases hLetter with rfl | rfl | rfl | rfl
  · cases hPattern
    exact isAlphanum_of_endsWord (endsWord_of_endsAtWord rfl hRest)
  · obtain rfl := Option.some.inj (pattern?_pattern.symm.trans hPattern)
    rcases List.mem_append.mp hRest with hRest | hRest
    · exact isAlphanum_of_endsWord (endsWord_of_endsAtWord rfl hRest)
    · rw [ends_quotedPattern_of_beginsWord hWord] at hRest
      cases hRest
  · cases hPattern
    exact isAlphanum_of_endsWord (endsWord_of_endsAtWord rfl hRest)
  · obtain rfl := Option.some.inj (pattern?_identifier.symm.trans hPattern)
    exact head?_of_ends_identifier hHead

/-- A word character that is no letter and no digit of ASCII is a line or above ASCII. -/
theorem not_ascii_of_continuesWord {c : Char} {rest : List Char}
    (hContinues : continuesWord (c :: rest) = true) (hAlphanum : c.isAlphanum = false) :
    c = '_' ∨ 128 ≤ c.toNat := by
  by_cases hAscii : c.toNat < 128
  · simp [continuesWord, Unicode.isWord, Unicode.isAlphanumeric,
      Unicode.Ranges.extend_of_ascii hAscii, hAlphanum] at hContinues
    exact .inl hContinues
  · exact .inr (by omega)

/-- The kinds of tokens that may begin with a digit. -/
def digitKinds : List Kind := [.number, .percentage]

theorem openers_ascii : ∀ kind ∈ literalOrder, kind ∉ digitKinds → kind ≠ .identifier →
    kind.pattern?.all (fun pattern => pattern.openers?.any fun openers =>
      openers.all fun c => decide (c ≠ '_' ∧ c.toNat < 128)) = true := by
  decide

/-- Where a word goes on behind a token, the next token is a number, if it is any. -/
theorem kind_of_continuesWord {c : Char} {rest : List Char} {lexeme : Lexeme}
    (hLexeme : lexeme? (c :: rest) = some lexeme) (hContinues : continuesWord (c :: rest) = true)
    (hAlphanum : c.isAlphanum = false) : lexeme.kind ∈ digitKinds := by
  have hAbove := not_ascii_of_continuesWord hContinues hAlphanum
  obtain ⟨before, trial, after, hTrials, hTrial, -⟩ := lexeme?_eq_some_iff.mp hLexeme
  obtain ⟨hHead, hSame, -, -, -⟩ := Trial.lexeme?_eq_some.mp hTrial
  have hMem : trial ∈ trials := by simp [hTrials]
  have hRest := List.mem_of_head? hHead
  have hWords : ∀ {words : List String}, words ⊆ delimiters → words ≠ [] →
      lexeme.rest ∉ (anyWord words).ends (c :: rest) := by
    intro words hWords hNonempty hRest
    obtain ⟨word, hWord, hText⟩ := (mem_ends_anyWord hNonempty).mp hRest
    have hFirsts : ∀ word ∈ delimiters, word.toList ≠ [] ∧
        word.toList.head?.all (fun c => decide (c ≠ '_' ∧ c.toNat < 128)) = true := by
      decide
    obtain ⟨hFilled, hFirst⟩ := hFirsts word (hWords hWord)
    obtain ⟨d, chars, hChars⟩ := List.exists_cons_of_ne_nil hFilled
    rw [hChars] at hText hFirst
    obtain rfl := (List.cons.inj hText).1
    simp only [List.head?_cons, Option.all_some, decide_eq_true_eq] at hFirst
    rcases hAbove with rfl | hAbove
    · exact hFirst.1 rfl
    · omega
  rcases mem_trials.mp hMem with rfl | ⟨hLiteral, hPattern⟩ | rfl
  · exact absurd hRest (hWords (List.subset_append_left _ _) (by decide))
  · by_contra hNot
    rw [hSame] at hNot
    have hOpens : trial.pattern.opens c = false := by
      by_cases hIdentifier : trial.kind = .identifier
      · rw [hIdentifier, pattern?_identifier] at hPattern
        rw [← Option.some.inj hPattern]
        have hAlpha : c.isAlpha = false := by
          simp only [Char.isAlphanum, Bool.or_eq_false_iff] at hAlphanum
          exact hAlphanum.1
        simpa [cats, oneOf, opens, nullable, holds_letters] using hAlpha
      · have hOpeners := openers_ascii trial.kind hLiteral hNot hIdentifier
        rw [hPattern, Option.all_some] at hOpeners
        obtain ⟨openers, hOpeners, hAscii⟩ := (Option.any_eq_true _ _).mp hOpeners
        refine not_opens_of_openers? hOpeners ?_
        intro hMem
        have hThis := List.all_eq_true.mp hAscii c hMem
        simp only [decide_eq_true_eq] at hThis
        rcases hAbove with rfl | hAbove
        · exact hThis.1 rfl
        · omega
    rw [ends_eq_nil_of_not_opens hOpens (productive_pattern hLiteral hPattern).2] at hRest
    cases hRest
  · exact absurd hRest (hWords (List.subset_append_right _ _) (by decide))

end DocumentLanguage
