import DocumentLanguage.Proofs.Token.Rescan

/-!
Words where they stand. A word is never cut short, whatever reserved word it begins with, and in
front of anything that does not go on with it it is one token, of the kind it has by itself.
-/
namespace DocumentLanguage

open Pattern

/-- Every range of one table lies inside some range of another. -/
def Unicode.Ranges.covers (many few : Unicode.Ranges) : Bool :=
  few.all fun inner => many.any fun outer => outer.1.ble inner.1 && inner.2.ble outer.2

/-- Ranges that cover others contain what these contain. Whether they do is decided range by range.
-/
theorem Unicode.Ranges.contains_of_covers {few many : Unicode.Ranges}
    (hCovers : many.covers few = true) {c : Char} (hFew : few.contains c = true) :
    many.contains c = true := by
  simp only [covers, List.all_eq_true, List.any_eq_true, Bool.and_eq_true, Nat.ble_eq] at hCovers
  simp only [contains, List.any_eq_true, Bool.and_eq_true, decide_eq_true_eq] at hFew ⊢
  obtain ⟨inner, hInner, hLow, hHigh⟩ := hFew
  obtain ⟨outer, hOuter, hBelow, hAbove⟩ := hCovers inner hInner
  exact ⟨outer, hOuter, hBelow.trans hLow, hHigh.trans hAbove⟩

/-- Every decimal digit can stand inside a word, whatever its script. -/
theorem isWord_of_isDecimalDigit {c : Char} (hDigit : Unicode.isDecimalDigit c = true) :
    Unicode.isWord c = true := by
  unfold Unicode.isDecimalDigit Unicode.Ranges.extend at hDigit
  unfold Unicode.isWord Unicode.Ranges.extend
  split at hDigit
  next hAscii => simp [hAscii, Char.isAlphanum, hDigit]
  next hAscii =>
    rw [if_neg hAscii]
    have hTables : Unicode.Ranges.covers Unicode.wordChars Unicode.decimalDigits = true := by
      decide +kernel
    exact Unicode.Ranges.contains_of_covers hTables hDigit

theorem continuesWord_of_isAlphanum {c : Char} {rest : List Char} (hAlphanum : c.isAlphanum = true) :
    continuesWord (c :: rest) = true := by
  have hAscii := toNat_lt_of_isAlphanum hAlphanum
  simp [continuesWord, Unicode.isAlphanumeric, Unicode.Ranges.extend_of_ascii hAscii, hAlphanum]

theorem continuesWord_of_isWord {c : Char} {rest : List Char} (hWord : Unicode.isWord c = true) :
    continuesWord (c :: rest) = true := by
  simp [continuesWord, hWord]

/-- A delimiter that is the first token of a source splits no word. -/
theorem splitsWord_of_lexeme? {text rest : List Char}
    (hLexeme : lexeme? (text ++ rest) = some ⟨.delimiter, text, rest⟩) :
    splitsWord text rest.head? = false := by
  obtain ⟨before, trial, after, -, hTrial, -⟩ := lexeme?_eq_some_iff.mp hLexeme
  obtain ⟨-, hSame, -, -, hSplits⟩ := Trial.lexeme?_eq_some.mp hTrial
  simpa using hSplits hSame.symm

/-- A delimiter that begins with a letter is all letters and ends with one. -/
theorem isAlpha_of_delimiter {word : String} (hWord : word ∈ delimiters)
    (hBegins : beginsWord word.toList = true) :
    (∀ c ∈ word.toList, c.isAlpha = true) ∧
      word.toList.getLast?.any Unicode.isAlphanumeric = true := by
  have hAll : ∀ word ∈ delimiters, beginsWord word.toList = true →
      (∀ c ∈ word.toList, c.isAlpha = true) ∧
        word.toList.getLast?.any Unicode.isAlphanumeric = true := by
    decide
  exact hAll word hWord hBegins

theorem beginsWord_append {front : List Char} (hFilled : front ≠ []) (rest : List Char) :
    beginsWord (front ++ rest) = beginsWord front := by
  obtain ⟨c, front, rfl⟩ := List.exists_cons_of_ne_nil hFilled
  rfl

/-- Behind a first token that begins with a letter no word goes on. -/
theorem isAlphanum_of_lexeme? {kind : Kind} {text rest : List Char} {c : Char}
    (hLexeme : lexeme? (text ++ c :: rest) = some ⟨kind, text, c :: rest⟩)
    (hWord : beginsWord text = true) : c.isAlphanum = false := by
  by_cases hKind : kind = .delimiter
  · subst hKind
    obtain ⟨word, hMem, hText⟩ := mem_delimiters_of_lexeme? hLexeme rfl
    dsimp only at hText
    have hSplits := splitsWord_of_lexeme? hLexeme
    rw [hText] at hWord hSplits
    rw [splitsWord, (isAlpha_of_delimiter hMem hWord).2, Bool.true_and, List.head?_cons,
      Option.any_some, Bool.or_eq_false_iff] at hSplits
    cases hAlphanum : c.isAlphanum with
    | false => rfl
    | true =>
        have hAscii := toNat_lt_of_isAlphanum hAlphanum
        rw [Unicode.isAlphanumeric, Unicode.Ranges.extend_of_ascii hAscii, hAlphanum] at hSplits
        cases hSplits.1
  · exact (isAlphanum_of_beginsWord hLexeme hKind hWord).2

section

variable {word rest : List Char}

/-- Whatever follows a word, it is a token, for an identifier would fit. -/
theorem exists_lexeme?_word (hWord : isWordText word = true) (rest : List Char) :
    ∃ lexeme, lexeme? (word ++ rest) = some lexeme := by
  by_contra hNone
  rw [← Option.ne_none_iff_exists', not_not, lexeme?, List.findSome?_eq_none_iff] at hNone
  obtain ⟨c, front, rfl, hAlpha⟩ := isWordText_cons hWord
  simp only [isWordText, Bool.and_eq_true, List.all_cons] at hWord
  obtain ⟨pattern, hPattern⟩ : ∃ pattern, Kind.identifier.pattern? = some pattern :=
    ⟨_, pattern?_identifier⟩
  have hLiteral : Kind.identifier ∈ literalOrder := by decide
  have hTrial : (⟨.identifier, pattern⟩ : Trial) ∈ trials :=
    mem_trials.mpr (.inr (.inl ⟨hLiteral, hPattern⟩))
  have hEnds : pattern.ends (c :: front ++ rest) = [] :=
    ends_eq_nil_of_lexeme?_eq_none hLiteral hPattern (hNone _ hTrial)
  have hMem : rest ∈ pattern.ends (c :: front ++ rest) :=
    (mem_ends_identifier hPattern).mpr ⟨c, front, rfl, hAlpha, hWord.2.2⟩
  rw [hEnds] at hMem
  cases hMem

/-- The first token at a word takes all of it: no shorter one is accepted where the word goes on. -/
theorem word_prefix_of_lexeme? (hWord : isWordText word = true) {lexeme : Lexeme}
    (hLexeme : lexeme? (word ++ rest) = some lexeme) : word <+: lexeme.text := by
  obtain ⟨kind, text, behind⟩ := lexeme
  obtain ⟨hSource, hFilled⟩ := lexeme?_text_append_rest hLexeme
  dsimp only at hSource hFilled ⊢
  rw [hSource] at hLexeme
  rcases List.append_eq_append_iff.mp hSource with ⟨more, hText, -⟩ | ⟨more, hCut, hBehind⟩
  · exact ⟨more, hText.symm⟩
  · cases more with
    | nil => rw [hCut, List.append_nil]
    | cons c more =>
        -- the token would end where the word goes on
        simp only [isWordText, Bool.and_eq_true, List.all_eq_true] at hWord
        rw [hCut, beginsWord_append hFilled] at hWord
        rw [hBehind, List.cons_append] at hLexeme
        have hOn : c.isAlphanum = true := hWord.2 c (by simp)
        rw [isAlphanum_of_lexeme? hLexeme hWord.1] at hOn
        cases hOn

/-- What a version takes behind a word that it begins with goes on with the word, or else with a
point. -/
theorem eq_nil_of_ends_version {extra behind : List Char} (hWord : isWordText word = true)
    (hEnds : behind ∈ versionPattern.ends (word ++ (extra ++ behind)))
    (hRest : continuesWord (extra ++ behind) = false)
    (hPoint : isVersionWord word = true → (extra ++ behind).head? ≠ some '.') : extra = [] := by
  obtain ⟨digits, more, hFilled, hSource, hDigits, hMore⟩ := mem_ends_version.mp hEnds
  obtain ⟨c, front, rfl, -⟩ := isWordText_cons hWord
  obtain ⟨rfl, hFront⟩ := List.cons.inj hSource
  simp only [isWordText, Bool.and_eq_true, List.all_cons] at hWord
  obtain ⟨inside, rfl, rfl⟩ :
      ∃ inside, front = digits ++ inside ∧ more = inside ++ (extra ++ behind) := by
    rcases List.append_eq_append_iff.mp hFront with ⟨beyond, hTaken, hLeft⟩ | hInside
    · cases beyond with
      | nil => exact ⟨[], by simpa using hTaken.symm, by simpa using hLeft.symm⟩
      | cons d beyond =>
          have hDigit : Unicode.isDecimalDigit d = true := hDigits d (by simp [hTaken])
          rw [hLeft, List.cons_append, continuesWord_of_isWord (isWord_of_isDecimalDigit hDigit)]
            at hRest
          cases hRest
    · exact hInside
  have hHead : (inside ++ (extra ++ behind)).head? ≠ some '.' := by
    cases inside with
    | nil =>
        refine hPoint ?_
        simpa [isVersionWord, hFilled] using hDigits
    | cons d inside =>
        rw [List.all_append, Bool.and_eq_true] at hWord
        have hFirst := head?_ne_point_of_isAlphanum hWord.2.2.2
        simpa using hFirst
  have hAll := congrArg List.length ((mem_ends_fractions hHead).mp hMore).1
  simp only [List.length_append] at hAll
  exact List.eq_nil_of_length_eq_zero (by omega)

theorem all_isAlphanum_of_ends_words (words : List String) {text behind : List Char}
    (hFilled : words ≠ []) (hAll : ∀ reserved ∈ words, ∀ c ∈ reserved.toList, c.isAlphanum = true)
    (hEnds : behind ∈ (cats [alts (words.map fun word => Pattern.text word.toList), wordEnd]).ends
      (text ++ behind)) : ∀ c ∈ text, c.isAlphanum = true := by
  obtain ⟨-, reserved, hMem, hText⟩ := (mem_ends_words hFilled).mp hEnds
  rw [List.append_cancel_right hText]
  exact hAll reserved hMem

/-- A token that begins with a letter holds nothing but letters and digits, if it is no version. -/
theorem all_isAlphanum_of_lexeme? {kind : Kind} {text behind : List Char}
    (hLexeme : lexeme? (text ++ behind) = some ⟨kind, text, behind⟩) (hVersion : kind ≠ .version)
    (hBegins : beginsWord text = true) : ∀ c ∈ text, c.isAlphanum = true := by
  by_cases hKind : kind = .delimiter
  · subst hKind
    obtain ⟨reserved, hMem, hText⟩ := mem_delimiters_of_lexeme? hLexeme rfl
    dsimp only at hText
    rw [hText] at hBegins ⊢
    exact fun c hChar => isAlphanum_of_isAlpha ((isAlpha_of_delimiter hMem hBegins).1 c hChar)
  · have hLetter := mem_letterKinds_of_lexeme? hLexeme hKind hBegins
    obtain ⟨pattern, hPattern, -, hHead⟩ := head?_ends_of_lexeme? hLexeme hKind
    have hEnds := List.mem_of_head? hHead
    simp only [letterKinds, List.mem_cons, List.not_mem_nil, or_false] at hLetter
    rcases hLetter with rfl | rfl | rfl | rfl
    · cases hPattern
      exact all_isAlphanum_of_ends_words booleanWords (by decide) (by decide) hEnds
    · obtain rfl := Option.some.inj (pattern?_pattern.symm.trans hPattern)
      rcases List.mem_append.mp hEnds with hEnds | hEnds
      · exact all_isAlphanum_of_ends_words wildcardWords (by decide) (by decide) hEnds
      · rw [ends_quotedPattern_of_beginsWord hBegins] at hEnds
        cases hEnds
    · exact absurd rfl hVersion
    · have hWord := isWordText_of_lexeme? hLexeme
      simp only [isWordText, Bool.and_eq_true, List.all_eq_true] at hWord
      exact hWord.2

/-- Where nothing goes on with it a word is the first token, and of its own kind. -/
theorem lexeme?_word (hWord : isWordText word = true) (hRest : continuesWord rest = false)
    (hPoint : isVersionWord word = true → rest.head? ≠ some '.') :
    lexeme? (word ++ rest) = some ⟨wordKind word, word, rest⟩ := by
  obtain ⟨⟨kind, text, behind⟩, hLexeme⟩ := exists_lexeme?_word hWord rest
  obtain ⟨extra, rfl⟩ := word_prefix_of_lexeme? hWord hLexeme
  obtain ⟨hSource, -⟩ := lexeme?_text_append_rest hLexeme
  dsimp only at hSource
  rw [List.append_assoc] at hSource
  obtain rfl := List.append_cancel_left hSource
  have hFilled : word ≠ [] := by
    rintro rfl
    cases hWord
  have hBegins : beginsWord word = true := (Bool.and_eq_true_iff.mp hWord).1
  rw [← List.append_assoc] at hLexeme
  have hExtra : extra = [] := by
    by_cases hVersion : kind = .version
    · subst hVersion
      obtain ⟨pattern, hPattern, -, hHead⟩ := head?_ends_of_lexeme? hLexeme (by decide)
      have hSame : Kind.version.pattern? = some versionPattern := rfl
      obtain rfl := Option.some.inj (hSame.symm.trans hPattern)
      rw [List.append_assoc] at hHead
      exact eq_nil_of_ends_version hWord (List.mem_of_head? hHead) hRest hPoint
    · have hText := all_isAlphanum_of_lexeme? hLexeme hVersion
        ((beginsWord_append hFilled extra).trans hBegins)
      cases extra with
      | nil => rfl
      | cons d extra =>
          rw [List.cons_append, continuesWord_of_isAlphanum (hText d (by simp))] at hRest
          cases hRest
  subst hExtra
  rw [List.append_nil] at hLexeme
  have hAlone : Alone kind word := by
    by_cases hKind : kind = .delimiter
    · subst hKind
      obtain ⟨reserved, hMem, hText⟩ := mem_delimiters_of_lexeme? hLexeme rfl
      dsimp only at hText
      rw [hText]
      exact alone_delimiter hMem
    · exact alone_of_lexeme? hLexeme hKind fun _ => hRest
  have hKind : kind = wordKind word := by
    have hOwn := alone_word hWord
    rw [Alone, hAlone] at hOwn
    injection hOwn with hSame
    injection hSame
  rw [List.nil_append, hLexeme, hKind]

end

/-- The first lexeme is the first token, and stands at the start. -/
theorem head?_scan_of_lexeme? {source : String} {lexeme : Lexeme}
    (hLexeme : lexeme? source.toList = some lexeme) :
    (scan source).head? = some ⟨lexeme.kind, .start, String.ofList lexeme.text⟩ := by
  unfold scan
  generalize source.toList = text at hLexeme
  cases text with
  | nil =>
      rw [lexeme?_nil] at hLexeme
      cases hLexeme
  | cons c text => simp only [List.length_cons, scanFrom, hLexeme, List.head?_cons]

/-- A word is taken whole by the first token of a source that begins with it, so no reserved word is
split off its front. Where neither a word character nor, behind a version, a point follows, the word
is that token, of the kind that goes with it. -/
theorem scan_word {word : String} (hWord : isWordText word.toList = true) (rest : String) :
    (∃ token, (scan (word ++ rest)).head? = some token ∧ word.toList <+: token.text.toList) ∧
      (continuesWord rest.toList = false →
        (isVersionWord word.toList = true → rest.toList.head? ≠ some '.') →
          (scan (word ++ rest)).head? = some ⟨wordKind word.toList, .start, word⟩) := by
  constructor
  · obtain ⟨lexeme, hLexeme⟩ := exists_lexeme?_word hWord rest.toList
    have hPrefix := word_prefix_of_lexeme? hWord hLexeme
    rw [← String.toList_append] at hLexeme
    exact ⟨_, head?_scan_of_lexeme? hLexeme, by simpa using hPrefix⟩
  · intro hRest hPoint
    have hLexeme := lexeme?_word hWord hRest hPoint
    rw [← String.toList_append] at hLexeme
    simpa using head?_scan_of_lexeme? hLexeme

/-- A word that begins with a keyword, and a version in front of a comma. -/
theorem scan_word_notary :
    (scan ("notary" ++ "(x)")).head? = some ⟨.identifier, .start, "notary"⟩ ∧
      (scan ("v2" ++ ", v3")).head? = some ⟨.version, .start, "v2"⟩ := by
  have hLonger : isWordText "notary".toList = true := by decide
  have hVersion : isWordText "v2".toList = true := by decide
  have hKinds : wordKind "notary".toList = .identifier ∧ wordKind "v2".toList = .version := by
    decide
  rw [← hKinds.1, ← hKinds.2]
  exact ⟨(scan_word hLonger "(x)").2 (by decide) (by decide),
    (scan_word hVersion ", v3").2 (by decide) (by decide)⟩

end DocumentLanguage
