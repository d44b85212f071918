import DocumentLanguage.Proofs.Token.Layout

/-!
Words. A word by itself is one token, whose kind is settled by a few reserved words and by whether
it looks like a version.
-/
namespace DocumentLanguage

open Pattern

/-- Whether a text is a letter and perhaps letters and digits behind it, all of them ASCII. -/
def isWordText (word : List Char) : Bool :=
  beginsWord word && word.all Char.isAlphanum

/-- Whether a text is the mark of a version and digits behind it. -/
def isVersionWord : List Char → Bool
  | 'v' :: digits => !digits.isEmpty && digits.all Unicode.isDecimalDigit
  | _ => false

def booleanWords : List String := ["false", "true"]

def wildcardWords : List String := ["none", "any"]

def wordKind (word : List Char) : Kind :=
  if word ∈ keywords.map String.toList then .delimiter
  else if word ∈ booleanWords.map String.toList then .boolean
  else if word ∈ wildcardWords.map String.toList then .pattern
  else if isVersionWord word then .version
  else .identifier

/-- A word begins with a letter, and so it is not empty. -/
theorem isWordText_cons {word : List Char} (hWord : isWordText word = true) :
    ∃ c letters, word = c :: letters ∧ c.isAlpha = true := by
  simp only [isWordText, Bool.and_eq_true] at hWord
  cases word with
  | nil => cases hWord.1
  | cons c letters => exact ⟨c, letters, rfl, by simpa [beginsWord] using hWord.1⟩

/-- A match that ends at the end of a word takes all of a word. -/
theorem eq_nil_of_endsAtWord {pattern : Pattern} (hPattern : pattern.endsAtWord = true)
    {word rest : List Char} (hWord : isWordText word = true) (hRest : rest ∈ pattern.ends word) :
    rest = [] := by
  simp only [isWordText, Bool.and_eq_true, List.all_eq_true] at hWord
  cases rest with
  | nil => rfl
  | cons c rest =>
      have hEnds := isAlphanum_of_endsWord (endsWord_of_endsAtWord hPattern hRest)
      have hMem := (shrinks_ends pattern word _ hRest).mem List.mem_cons_self
      rw [hWord.2 c hMem] at hEnds
      cases hEnds

/-- A pattern that ends where a word does finds a word only whole or not at all, since a word has no
such end inside. -/
theorem head?_ends_of_endsAtWord {pattern : Pattern} (hPattern : pattern.endsAtWord = true)
    {word : List Char} (hWord : isWordText word = true) :
    (pattern.ends word).head? = if [] ∈ pattern.ends word then some [] else none := by
  cases hEnds : pattern.ends word with
  | nil => simp
  | cons rest rests =>
      have hMem : rest ∈ pattern.ends word := by simp [hEnds]
      obtain rfl := eq_nil_of_endsAtWord hPattern hWord hMem
      simp

/-- A pattern that ends where a word does finds nothing in a word that it does not take whole. -/
theorem ends_eq_nil_of_endsAtWord {pattern : Pattern} (hPattern : pattern.endsAtWord = true)
    {word : List Char} (hWord : isWordText word = true) (hNone : [] ∉ pattern.ends word) :
    pattern.ends word = [] := by
  refine List.head?_eq_none_iff.mp ?_
  rw [head?_ends_of_endsAtWord hPattern hWord, if_neg hNone]

theorem mem_ends_wordEnd {text rest : List Char} :
    rest ∈ wordEnd.ends text ↔ rest = text ∧ endsWord text = true := by
  cases text with
  | nil => simp [ends, endsWord]
  | cons c text => cases hWord : Unicode.isWord c <;> simp [ends, endsWord, hWord]

/-- What is left of one of several words with the end of a word behind it: the text begins with one
of them, and the word does not go on. -/
theorem mem_ends_words {words : List String} (hWords : words ≠ []) {text rest : List Char} :
    rest ∈ (cats [alts (words.map fun word => Pattern.text word.toList), wordEnd]).ends text ↔
      endsWord rest = true ∧ ∃ word ∈ words, text = word.toList ++ rest := by
  have hMap : words.map (fun word => Pattern.text word.toList) ≠ [] := by simpa using hWords
  have hEnd : (cats [wordEnd]).ends = wordEnd.ends := rfl
  rw [ends_cats_cons, ends_alts _ hMap, List.flatMap_map, hEnd]
  simp only [List.mem_flatMap, ends_text, mem_ends_wordEnd]
  constructor
  · rintro ⟨rest, ⟨word, hWord, hRest⟩, rfl, hEnds⟩
    split at hRest
    · rename_i hPrefix
      obtain ⟨more, rfl⟩ := hPrefix
      rw [List.drop_left] at hRest
      rw [List.mem_singleton.mp hRest] at hEnds ⊢
      exact ⟨hEnds, word, hWord, rfl⟩
    · cases hRest
  · rintro ⟨hEnds, word, hWord, rfl⟩
    exact ⟨rest, ⟨word, hWord, by simp⟩, rfl, hEnds⟩

/-- One of several words takes a whole text only if the text is that word. -/
theorem nil_mem_ends_words {words : List String} (hWords : words ≠ []) {word : List Char} :
    [] ∈ (cats [alts (words.map fun word => Pattern.text word.toList), wordEnd]).ends word ↔
      word ∈ words.map String.toList := by
  rw [mem_ends_words hWords, List.mem_map]
  simp [endsWord, eq_comm]

def versionPattern : Pattern := cats [char 'v', digits, star fraction, wordEnd]

/-- The digits of a pattern take one decimal digit or more, in any script, and they may stop before
any further one. -/
theorem mem_ends_digits {text rest : List Char} : rest ∈ digits.ends text ↔
    ∃ front, front ≠ [] ∧ text = front ++ rest ∧ ∀ c ∈ front, Unicode.isDecimalDigit c = true := by
  rw [digits, ends_plus]
  simp only [List.mem_flatMap, digit, mem_ends_star_one]
  constructor
  · rintro ⟨more, hFirst, front, rfl, hFront⟩
    cases text with
    | nil => cases hFirst
    | cons c text =>
        simp only [ends] at hFirst
        split at hFirst
        · rename_i hHolds
          rw [← List.mem_singleton.mp hFirst]
          exact ⟨c :: front, by simp, rfl, List.forall_mem_cons.mpr ⟨hHolds, hFront⟩⟩
        · cases hFirst
  · rintro ⟨front, hFilled, rfl, hFront⟩
    obtain ⟨c, front, rfl⟩ := List.exists_cons_of_ne_nil hFilled
    rw [List.forall_mem_cons] at hFront
    have hHolds : CharTest.digit.holds c = true := hFront.1
    exact ⟨front ++ rest, by simp [ends, hHolds], front, rfl, hFront.2⟩

/-- Where no point follows the digits of a version, the version ends. -/
theorem mem_ends_fractions {text rest : List Char} (hPoint : text.head? ≠ some '.') :
    rest ∈ (cats [star fraction, wordEnd]).ends text ↔ rest = text ∧ endsWord text = true := by
  have hFraction : fraction.ends text = [] := by
    cases text with
    | nil => rfl
    | cons c text =>
        refine ends_eq_nil_of_not_opens (not_opens_of_openers? (rfl : _ = some ['.']) ?_) rfl
        intro hMem
        rw [List.mem_singleton.mp hMem] at hPoint
        exact hPoint rfl
  have hEnd : (cats [wordEnd]).ends = wordEnd.ends := rfl
  rw [ends_cats_cons, ends_star rfl, hFraction, hEnd]
  simp only [List.flatMap_nil, List.nil_append, List.flatMap_cons, List.append_nil]
  exact mem_ends_wordEnd

/-- A version begins with its mark and one digit or more. What comes behind these is left to the
fractions and the end of the word. -/
theorem mem_ends_version {text rest : List Char} : rest ∈ versionPattern.ends text ↔
    ∃ front more, front ≠ [] ∧ text = 'v' :: (front ++ more) ∧
      (∀ c ∈ front, Unicode.isDecimalDigit c = true) ∧
        rest ∈ (cats [star fraction, wordEnd]).ends more := by
  have hMark : ∀ more, more ∈ (char 'v').ends text ↔ text = 'v' :: more := by
    intro more
    cases text with
    | nil => simp [char, ends]
    | cons c text =>
        by_cases hSame : c = 'v'
        · simp [char, ends, CharTest.holds, hSame, eq_comm]
        · simp [char, ends, CharTest.holds, hSame]
  rw [versionPattern, ends_cats_cons, List.mem_flatMap]
  simp only [hMark, ends_cats_cons digits, List.mem_flatMap, mem_ends_digits]
  constructor
  · rintro ⟨_, rfl, more, ⟨front, hFilled, rfl, hFront⟩, hRest⟩
    exact ⟨front, more, hFilled, rfl, hFront, hRest⟩
  · rintro ⟨front, more, hFilled, rfl, hFront, hRest⟩
    exact ⟨front ++ more, rfl, more, ⟨front, hFilled, rfl, hFront⟩, hRest⟩

/-- No point is in a text of letters and digits, so that no fraction begins in it. -/
theorem head?_ne_point_of_isAlphanum {text : List Char} (hText : text.all Char.isAlphanum = true) :
    text.head? ≠ some '.' := by
  cases text with
  | nil => simp
  | cons c text =>
      rw [List.head?_cons]
      rintro ⟨⟩
      cases hText

/-- A text of letters and digits is a version if it looks like one: with no point in it, it can have
no fraction. -/
theorem nil_mem_ends_version {word : List Char} (hWord : word.all Char.isAlphanum = true) :
    [] ∈ versionPattern.ends word ↔ isVersionWord word = true := by
  have hVersion : isVersionWord word = true ↔
      ∃ front, front ≠ [] ∧ word = 'v' :: front ∧ ∀ c ∈ front, Unicode.isDecimalDigit c = true := by
    unfold isVersionWord
    split <;> simp_all
  rw [mem_ends_version, hVersion]
  constructor
  · rintro ⟨front, more, hFilled, rfl, hFront, hNil⟩
    simp only [List.all_cons, List.all_append, Bool.and_eq_true] at hWord
    have hMore := ((mem_ends_fractions (head?_ne_point_of_isAlphanum hWord.2.2)).mp hNil).1
    exact ⟨front, hFilled, by rw [← hMore, List.append_nil], hFront⟩
  · rintro ⟨front, hFilled, rfl, hFront⟩
    exact ⟨front, [], hFilled, by rw [List.append_nil], hFront,
      (mem_ends_fractions (by simp)).mpr ⟨rfl, rfl⟩⟩

/-- No word that is not reserved is tried as a delimiter with success. -/
theorem lexeme?_keywords {word : List Char} (hWord : isWordText word = true)
    (hKeyword : word ∉ keywords.map String.toList) :
    (⟨.delimiter, anyWord (keywords ++ punctuation)⟩ : Trial).lexeme? word = none := by
  by_contra hSome
  obtain ⟨⟨kind, taken, rest⟩, hLexeme⟩ := Option.ne_none_iff_exists'.mp hSome
  obtain ⟨hHead, -, hText, hTaken, hSplits⟩ := Trial.lexeme?_eq_some.mp hLexeme
  dsimp only at hHead hText hTaken hSplits
  obtain ⟨reserved, hReserved, hSource⟩ :=
    (mem_ends_anyWord (by decide)).mp (List.mem_of_head? hHead)
  have hSame : taken = reserved.toList := List.append_cancel_right (hText.symm.trans hSource)
  obtain ⟨c, letters, rfl, hAlpha⟩ := isWordText_cons hWord
  simp only [isWordText, Bool.and_eq_true] at hWord
  have hAll : ∀ reserved ∈ keywords ++ punctuation, reserved.toList.head?.any Char.isAlpha = true →
      reserved ∈ keywords ∧ reserved.toList.getLast?.any Unicode.isAlphanumeric = true := by
    decide
  have hFirst : reserved.toList.head?.any Char.isAlpha = true := by
    rw [← hSame]
    cases taken with
    | nil => contradiction
    | cons d taken =>
        rw [← (List.cons.inj hText).1]
        exact hAlpha
  obtain ⟨hKey, hLast⟩ := hAll reserved hReserved hFirst
  cases rest with
  | nil =>
      refine hKeyword (List.mem_map.mpr ⟨reserved, hKey, ?_⟩)
      rw [hSource, List.append_nil]
  | cons d rest =>
      have hNext : d.isAlphanum = true :=
        List.all_eq_true.mp hWord.2 d (by rw [hSource]; simp)
      have hInside : Unicode.isAlphanumeric d = true := by
        rw [Unicode.isAlphanumeric, Unicode.Ranges.extend_of_ascii (toNat_lt_of_isAlphanum hNext)]
        exact hNext
      have hSplit : splitsWord taken (some d) = true := by
        simp [splitsWord, hSame, hLast, hInside]
      rw [List.head?_cons, hSplit] at hSplits
      cases hSplits rfl

/-- What the pattern of an identifier takes: a letter, and letters and digits behind it. -/
theorem mem_ends_identifier {pattern : Pattern} (hPattern : Kind.identifier.pattern? = some pattern)
    {text rest : List Char} : rest ∈ pattern.ends text ↔
      ∃ c front, text = c :: front ++ rest ∧ c.isAlpha = true ∧ front.all Char.isAlphanum = true := by
  obtain rfl := Option.some.inj (pattern?_identifier.symm.trans hPattern)
  have hStar : cats [star (oneOf (letters ++ [.range '0' '9']))] =
      star (one (.oneOf (letters ++ [.range '0' '9']))) := rfl
  rw [ends_cats_cons, hStar, List.mem_flatMap]
  simp only [mem_ends_star_one, holds_alphanumeric, List.all_eq_true]
  cases text with
  | nil => simp [oneOf, ends]
  | cons c text =>
      simp only [oneOf, ends, holds_letters]
      constructor
      · rintro ⟨more, hFirst, front, rfl, hFront⟩
        split at hFirst
        · rename_i hAlpha
          rw [← List.mem_singleton.mp hFirst]
          exact ⟨c, front, rfl, hAlpha, hFront⟩
        · cases hFirst
      · rintro ⟨d, front, hText, hAlpha, hFront⟩
        obtain ⟨rfl, rfl⟩ := List.cons.inj hText
        exact ⟨front ++ rest, by simp [hAlpha], front, rfl, hFront⟩

/-- The pattern of an identifier takes all of a word, as it is greedy and every character of the
word is allowed. -/
theorem head?_ends_identifier {word : List Char} (hWord : isWordText word = true)
    {pattern : Pattern} (hPattern : Kind.identifier.pattern? = some pattern) :
    (pattern.ends word).head? = some [] := by
  obtain rfl := Option.some.inj (pattern?_identifier.symm.trans hPattern)
  obtain ⟨c, text, rfl, hAlpha⟩ := isWordText_cons hWord
  simp only [isWordText, Bool.and_eq_true, List.all_cons, List.all_eq_true] at hWord
  have hFirst : (oneOf letters).ends (c :: text) = [text] := by
    simp only [oneOf, ends, holds_letters, hAlpha, if_true]
  have hStar : cats [star (oneOf (letters ++ [.range '0' '9']))] =
      star (one (.oneOf (letters ++ [.range '0' '9']))) := rfl
  have hHolds : ∀ d ∈ text, (CharTest.oneOf (letters ++ [.range '0' '9'])).holds d = true := by
    simpa only [holds_alphanumeric] using hWord.2.2
  rw [ends_cats_cons, hFirst, List.flatMap_cons, List.flatMap_nil, List.append_nil, hStar,
    head?_ends_star_one, List.dropWhile_eq_nil_iff.mpr hHolds]

/-- Of the literals only those for words match at a word, and each of these only where it takes all
of it. -/
theorem ends_word_eq_nil {word : List Char} (hWord : isWordText word = true) {kind : Kind}
    (hKind : kind ∈ literalOrder) (hIdentifier : kind ≠ .identifier)
    (hBoolean : kind = .boolean → word ∉ booleanWords.map String.toList)
    (hPatternWord : kind = .pattern → word ∉ wildcardWords.map String.toList)
    (hVersion : kind = .version → isVersionWord word = false) {pattern : Pattern}
    (hPattern : kind.pattern? = some pattern) : pattern.ends word = [] := by
  obtain ⟨c, letters, rfl, hAlpha⟩ := isWordText_cons hWord
  by_cases hLetter : kind ∈ letterKinds
  · simp only [letterKinds, List.mem_cons, List.not_mem_nil, or_false] at hLetter
    rcases hLetter with rfl | rfl | rfl | rfl
    · have hSame : Kind.boolean.pattern? =
          some (cats [alts (booleanWords.map fun word => Pattern.text word.toList), wordEnd]) := rfl
      obtain rfl := Option.some.inj (hSame.symm.trans hPattern)
      refine ends_eq_nil_of_endsAtWord rfl hWord ?_
      rw [nil_mem_ends_words (by decide)]
      exact hBoolean rfl
    · obtain rfl := Option.some.inj (pattern?_pattern.symm.trans hPattern)
      have hWords : patternWords.ends (c :: letters) = [] := by
        have hSame : patternWords =
            cats [alts (wildcardWords.map fun word => Pattern.text word.toList), wordEnd] := rfl
        rw [hSame]
        refine ends_eq_nil_of_endsAtWord rfl hWord ?_
        rw [nil_mem_ends_words (by decide)]
        exact hPatternWord rfl
      have hQuoted : (cats [quoted, char '?']).ends (c :: letters) = [] := by
        refine ends_eq_nil_of_not_opens (not_opens_of_openers? (rfl : _ = some ['"']) ?_) rfl
        intro hQuote
        rw [List.mem_singleton.mp hQuote] at hAlpha
        cases hAlpha
      exact List.append_eq_nil_iff.mpr ⟨hWords, hQuoted⟩
    · have hSame : Kind.version.pattern? = some versionPattern := rfl
      obtain rfl := Option.some.inj (hSame.symm.trans hPattern)
      refine ends_eq_nil_of_endsAtWord rfl hWord ?_
      simp only [isWordText, Bool.and_eq_true] at hWord
      rw [nil_mem_ends_version hWord.2, hVersion rfl]
      decide
    · exact absurd rfl hIdentifier
  · exact ends_eq_nil_of_all hKind hPattern (not_opens_letter hAlpha kind hKind hLetter)

/-- A word is a token of a kind whose pattern takes all of it, if no kind tried before does. -/
theorem alone_of_word {word : List Char} (hWord : isWordText word = true)
    (hKeyword : word ∉ keywords.map String.toList) {kind : Kind} (hKind : kind ∈ letterKinds)
    (hBoolean : kind ≠ .boolean → word ∉ booleanWords.map String.toList)
    (hPatternWord : kind ∉ [.boolean, .pattern] → word ∉ wildcardWords.map String.toList)
    (hVersion : kind = .identifier → isVersionWord word = false) {pattern : Pattern}
    (hPattern : kind.pattern? = some pattern) (hHead : (pattern.ends word).head? = some []) :
    Alone kind word := by
  have hFilled : word ≠ [] := by
    rintro rfl
    cases hWord
  have hAll : ∀ kind ∈ letterKinds, kind ∈ literalOrder ∧
      ∀ other ∈ literalOrder.takeWhile (· ≠ kind), other ∈ literalOrder ∧ other ≠ .identifier ∧
        (other = .boolean → kind ≠ .boolean) ∧ (other = .pattern → kind ∉ [.boolean, .pattern]) ∧
          (other = .version → kind = .identifier) := by
    decide
  obtain ⟨hLiteral, hBefore⟩ := hAll kind hKind
  refine lexeme?_of_literal hLiteral hPattern hHead (by simp) hFilled
    (lexeme?_keywords hWord hKeyword) ?_
  intro other hOther tried hTried
  obtain ⟨hOrder, hIdentifier, hFirst, hSecond, hThird⟩ := hBefore other hOther
  exact ends_word_eq_nil hWord hOrder hIdentifier (fun hEq => hBoolean (hFirst hEq))
    (fun hEq => hPatternWord (hSecond hEq)) (fun hEq => hVersion (hThird hEq)) hTried

/-- A word by itself is one token, of the kind that goes with it. -/
theorem alone_word {word : List Char} (hWord : isWordText word = true) :
    Alone (wordKind word) word := by
  have hWhole : ∀ pattern : Pattern, pattern.endsAtWord = true → [] ∈ pattern.ends word →
      (pattern.ends word).head? = some [] := by
    intro pattern hPattern hNil
    rw [head?_ends_of_endsAtWord hPattern hWord, if_pos hNil]
  unfold wordKind
  split_ifs with hKeyword hBoolean hWildcard hVersion
  · obtain ⟨reserved, hReserved, rfl⟩ := List.mem_map.mp hKeyword
    exact alone_delimiter (by simp [delimiters, hReserved])
  · refine alone_of_word hWord hKeyword (by decide) (fun hEq => absurd rfl hEq)
      (fun hNot => absurd (by decide) hNot) nofun rfl ?_
    exact hWhole (cats [alts (booleanWords.map fun word => Pattern.text word.toList), wordEnd]) rfl ((nil_mem_ends_words (by decide)).mpr hBoolean)
  · refine alone_of_word hWord hKeyword (by decide) (fun _ => hBoolean)
      (fun hNot => absurd (by decide) hNot) nofun pattern?_pattern ?_
    have hWords := hWhole (cats [alts (wildcardWords.map fun word => Pattern.text word.toList),
      wordEnd]) rfl ((nil_mem_ends_words (by decide)).mpr hWildcard)
    have hAlt : ∀ first second : Pattern, (alts [first, second]).ends word =
        first.ends word ++ second.ends word := fun _ _ => rfl
    rw [hAlt, List.head?_append]
    exact congrArg (Option.or · _) hWords
  · have hPattern : Kind.version.pattern? = some versionPattern := rfl
    refine alone_of_word hWord hKeyword (by decide) (fun _ => hBoolean) (fun _ => hWildcard) nofun
      hPattern (hWhole versionPattern rfl ((nil_mem_ends_version ?_).mpr hVersion))
    simp only [isWordText, Bool.and_eq_true] at hWord
    exact hWord.2
  · exact alone_of_word hWord hKeyword (by decide) (fun _ => hBoolean) (fun _ => hWildcard)
      (fun _ => by simpa using hVersion) pattern?_identifier
      (head?_ends_identifier hWord pattern?_identifier)

end DocumentLanguage
