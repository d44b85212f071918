import DocumentLanguage.Proofs.Token.Lossless
import DocumentLanguage.Proofs.Token.Word

/-!
Scanning tokens again. A token looks like its kind from end to end, and by itself it is the same
token, but for an identifier that would be some other word had no word character followed it.
-/
namespace DocumentLanguage

open Pattern

/-- A token's text by itself is one token, of the same kind and text. -/
def Token.Rescans (token : Token) : Prop :=
  ∃ lone, scan token.text = [lone] ∧ lone.kind = token.kind ∧ lone.text = token.text

/-- Whether an identifier is spelled like a word of another kind, and goes on with a word character
that no identifier may hold. -/
def Token.Truncated (token : Token) (next : Option Char) : Prop :=
  token.kind = .identifier ∧
    (token.text ∈ keywords ∨ token.text ∈ booleanWords ++ wildcardWords ∨
      isVersionWord token.text.toList = true) ∧
    ∃ c ∈ next, (Unicode.isAlphanumeric c = true ∨ c = '_' ∨ Unicode.isWord c = true) ∧
      c.isAlphanum = false

/-- A token rescans if its text by itself is one token of its kind. -/
theorem Token.rescans_iff_alone {token : Token} (hKind : token.kind ≠ .error) :
    token.Rescans ↔ Alone token.kind token.text.toList := by
  rw [Alone, ← soleKind?_eq_some hKind]
  constructor
  · rintro ⟨lone, hScan, hSame, hText⟩
    simp [soleKind?, hScan, hSame, hText]
  · intro hSole
    simp only [soleKind?] at hSole
    split at hSole
    · rename_i lone hScan
      split at hSole
      · rename_i hText
        exact ⟨lone, hScan, Option.some.inj hSole, hText⟩
      · cases hSole
    · cases hSole

/-- A token that is no error is the first one of the source from its place on. -/
theorem Scanned.lexeme?_at {source : List Char} {before after : List Token} {token : Token}
    (scanned : Scanned source (before ++ token :: after)) (hKind : token.kind ≠ .error) :
    ∃ rest, source = spelled before ++ (token.text.toList ++ rest) ∧
      lexeme? (token.text.toList ++ rest) = some ⟨token.kind, token.text.toList, rest⟩ := by
  induction before generalizing source with
  | nil =>
      cases scanned with
      | @token _ lexeme _ _ hLexeme hSame hText _ =>
          obtain ⟨hSource, -⟩ := lexeme?_text_append_rest hLexeme
          refine ⟨lexeme.rest, by rw [hText]; exact hSource, ?_⟩
          rw [hText, ← hSource, hLexeme, hSame]
      | error _ hError => exact absurd hError hKind
  | cons first before ih =>
      generalize hTokens : first :: before ++ token :: after = tokens at scanned
      cases scanned with
      | nil => cases hTokens
      | @token _ lexeme _ _ hLexeme hSame hText scanned =>
          obtain ⟨rfl, rfl⟩ := List.cons.inj hTokens
          obtain ⟨rest, hRest, hThis⟩ := ih scanned
          obtain ⟨hSource, -⟩ := lexeme?_text_append_rest hLexeme
          refine ⟨rest, ?_, hThis⟩
          rw [hSource, hRest, spelled_cons, hText, List.append_assoc]
      | error => simp at hTokens

/-- An identifier is a word: a letter and then letters and digits, all of them in ASCII. -/
theorem isWordText_of_lexeme? {text rest : List Char}
    (hLexeme : lexeme? (text ++ rest) = some ⟨.identifier, text, rest⟩) :
    isWordText text = true := by
  obtain ⟨pattern, hPattern, -, hHead⟩ := head?_ends_of_lexeme? hLexeme (by decide)
  obtain ⟨c, front, hText, hAlpha, hFront⟩ :=
    (mem_ends_identifier hPattern).mp (List.mem_of_head? hHead)
  rw [List.append_cancel_right hText]
  simp [isWordText, beginsWord, hAlpha, hFront, isAlphanum_of_isAlpha hAlpha]

/-- What a pattern takes where a word ends it takes of the text alone. -/
theorem head?_ends_alone {pattern : Pattern} (hProductive : pattern.productive = true)
    {text rest : List Char} (hHead : (pattern.ends (text ++ rest)).head? = some rest)
    (hEnds : endsWord rest = true) : (pattern.ends text).head? = some [] := by
  have hLocal := local_ends hProductive (.inr hEnds) text
  obtain ⟨others, hAll⟩ := List.head?_eq_some_iff.mp hHead
  have hFirst : (reaching rest (pattern.ends (text ++ rest))).head? = some rest := by
    simp [hAll, reaching]
  rw [hLocal, List.head?_map] at hFirst
  obtain ⟨last, hLast, hEmpty⟩ := Option.map_eq_some_iff.mp hFirst
  rw [hLast, List.append_left_eq_self.mp hEmpty]

/-- A truth value, a wildcard or a version is the same by itself. -/
theorem alone_of_letterKinds {kind : Kind} {text rest : List Char}
    (hLexeme : lexeme? (text ++ rest) = some ⟨kind, text, rest⟩)
    (hKind : kind ∈ [.boolean, .pattern, .version]) (hWord : beginsWord text = true) :
    Alone kind text := by
  obtain ⟨c, front, rfl⟩ : ∃ c front, text = c :: front := by
    cases text with
    | nil => cases hWord
    | cons c front => exact ⟨c, front, rfl⟩
  have hAlpha : c.isAlpha = true := by simpa [beginsWord] using hWord
  obtain ⟨pattern, hPattern, hLiteral, hHead⟩ := head?_ends_of_lexeme? hLexeme (by
    rintro rfl
    revert hKind
    decide)
  have hRest := List.mem_of_head? hHead
  have hWords : ∀ words : List String, words ≠ [] →
      (∀ word ∈ words, isWordText word.toList = true ∧ wordKind word.toList = kind) →
        rest ∈ (cats [alts (words.map fun word => Pattern.text word.toList), wordEnd]).ends
          (c :: front ++ rest) → Alone kind (c :: front) := by
    intro words hFilled hAll hRest
    obtain ⟨-, word, hMem, hText⟩ := (mem_ends_words hFilled).mp hRest
    rw [List.append_cancel_right hText, ← (hAll word hMem).2]
    exact alone_word (hAll word hMem).1
  simp only [List.mem_cons, List.not_mem_nil, or_false] at hKind
  rcases hKind with rfl | rfl | rfl
  · cases hPattern
    exact hWords booleanWords (by decide) (by decide) hRest
  · obtain rfl := Option.some.inj (pattern?_pattern.symm.trans hPattern)
    rcases List.mem_append.mp hRest with hRest | hRest
    · exact hWords wildcardWords (by decide) (by decide) hRest
    · rw [ends_quotedPattern_of_beginsWord hWord] at hRest
      cases hRest
  · have hSame : Kind.version.pattern? = some versionPattern := rfl
    obtain rfl := Option.some.inj (hSame.symm.trans hPattern)
    have hMark : c = 'v' := by
      have hOpens := @opens_of_mem_ends versionPattern c (front ++ [])
        (by rw [List.append_nil]; exact List.mem_of_head?
              (head?_ends_alone rfl hHead (endsWord_of_endsAtWord rfl hRest)))
      simpa [versionPattern, cats, char, opens, nullable, CharTest.holds] using hOpens
    subst hMark
    have hBefore : ∀ other ∈ literalOrder.takeWhile (· ≠ .version), other ∈ literalOrder ∧
        other.pattern?.all (fun pattern => !pattern.opens 'v') = true := by
      decide
    exact alone_of_head?_ends hLiteral hPattern
      (head?_ends_alone rfl hHead (endsWord_of_endsAtWord rfl hRest)) (by decide)
      fun other hOther tried hTried =>
        ends_eq_nil_of_all (hBefore other hOther).1 hTried (hBefore other hOther).2

/-- A token of a source is the same by itself unless it is an identifier and a word character that
is no letter and no digit of ASCII follows it. -/
theorem alone_or_identifier {kind : Kind} {text rest : List Char}
    (hLexeme : lexeme? (text ++ rest) = some ⟨kind, text, rest⟩) :
    Alone kind text ∨ kind = .identifier ∧ continuesWord rest = true ∧
      ∀ c ∈ rest.head?, c.isAlphanum = false := by
  by_cases hDelimiter : kind = .delimiter
  · subst hDelimiter
    obtain ⟨word, hWord, hText⟩ := mem_delimiters_of_lexeme? hLexeme rfl
    dsimp only at hText
    rw [hText]
    exact .inl (alone_delimiter hWord)
  by_cases hContinues : beginsWord text = true ∧ continuesWord rest = true
  · obtain ⟨hWord, hContinues⟩ := hContinues
    cases rest with
    | nil => cases hContinues
    | cons c rest =>
        obtain ⟨hLetter, hAlphanum⟩ := isAlphanum_of_beginsWord hLexeme hDelimiter hWord
        by_cases hIdentifier : kind = .identifier
        · exact .inr ⟨hIdentifier, hContinues, by simpa using hAlphanum⟩
        · refine .inl (alone_of_letterKinds hLexeme ?_ hWord)
          simpa [letterKinds, hIdentifier] using hLetter
  · refine .inl (alone_of_lexeme? hLexeme hDelimiter fun hWord => ?_)
    simpa [hWord] using hContinues

/-- The text of any literal is accepted for its kind, whatever it was followed by in its source. -/
theorem accepts_of_lexeme? {kind : Kind} {text : String} {rest : List Char}
    (hLexeme : lexeme? (text.toList ++ rest) = some ⟨kind, text.toList, rest⟩) :
    kind.accepts text = true := by
  rcases alone_or_identifier hLexeme with alone | ⟨rfl, -⟩
  · exact alone.accepts
  · have hHead := head?_ends_identifier (isWordText_of_lexeme? hLexeme) pattern?_identifier
    rw [Kind.accepts, pattern?_identifier, Option.any_some]
    exact List.any_eq_true.mpr ⟨[], List.mem_of_head? hHead, rfl⟩

/-- By itself a word is an identifier unless it is a word of another kind. -/
theorem wordKind_eq_identifier {word : String} :
    wordKind word.toList = .identifier ↔
      ¬(word ∈ keywords ∨ word ∈ booleanWords ++ wildcardWords ∨
        isVersionWord word.toList = true) := by
  have hMem : ∀ words : List String, word.toList ∈ words.map String.toList ↔ word ∈ words := by
    intro words
    rw [List.mem_map]
    exact ⟨fun ⟨other, hOther, hText⟩ => String.ext hText ▸ hOther, fun hWord => ⟨word, hWord, rfl⟩⟩
  simp only [wordKind, hMem, List.mem_append]
  split_ifs with hKeyword hBoolean hWildcard hVersion <;> simp_all

/-- Every token of a source that is no error looks like its kind, and scanning it again gives just
that token, except for the identifiers that are truncated words. -/
theorem accepts_and_rescans {source : String} {before after : List Token} {token : Token}
    (hScan : scan source = before ++ token :: after) (hKind : token.kind ≠ .error) :
    token.kind.accepts token.text = true ∧
      (¬ token.Rescans ↔
        token.Truncated (source.toList.drop (spelled (before ++ [token])).length).head?) := by
  have hScanned := scanned_scan source
  rw [hScan] at hScanned
  obtain ⟨rest, hSource, hLexeme⟩ := hScanned.lexeme?_at hKind
  have hNext : source.toList.drop (spelled (before ++ [token])).length = rest := by
    have hSpelled : spelled (before ++ [token]) = spelled before ++ token.text.toList := by
      simp [spelled]
    rw [hSource, hSpelled, ← List.append_assoc, List.drop_left]
  rw [hNext, Token.rescans_iff_alone hKind]
  refine ⟨accepts_of_lexeme? hLexeme, ?_⟩
  obtain ⟨kind, position, text⟩ := token
  dsimp only at hLexeme ⊢
  by_cases hIdentifier : kind = .identifier
  · subst hIdentifier
    have hAlone := alone_word (isWordText_of_lexeme? hLexeme)
    have hOwn : Alone .identifier text.toList ↔ wordKind text.toList = .identifier := by
      constructor
      · intro alone
        rw [Alone, hAlone] at alone
        injection alone with hSame
        injection hSame
      · intro hSame
        rwa [hSame] at hAlone
    rw [hOwn, wordKind_eq_identifier, not_not]
    constructor
    · intro hWord
      refine ⟨rfl, hWord, ?_⟩
      rcases alone_or_identifier hLexeme with alone | ⟨-, hContinues, hAlphanum⟩
      · exact absurd hWord (wordKind_eq_identifier.mp (hOwn.mp alone))
      · obtain ⟨c, hHead, hAfter⟩ := (Option.any_eq_true _ _).mp hContinues
        simp only [Bool.or_eq_true, decide_eq_true_eq] at hAfter
        refine ⟨c, hHead, ?_, hAlphanum c hHead⟩
        rcases hAfter with (hInside | hAlphanumeric) | hLine
        · exact .inr (.inr hInside)
        · exact .inl hAlphanumeric
        · exact .inr (.inl hLine)
    · exact fun hTruncated => hTruncated.2.1
  · constructor
    · intro hNot
      rcases alone_or_identifier hLexeme with alone | ⟨hSame, -⟩
      · exact absurd alone hNot
      · exact absurd hSame hIdentifier
    · exact fun hTruncated => absurd hTruncated.1 hIdentifier

/-- A reserved word with an underscore behind it is scanned as an identifier. It is accepted as one,
and what is behind it tells whether it rescans. -/
theorem accepts_and_rescans_let :
    scan "let_" = [] ++ ⟨.identifier, .start, "let"⟩ :: [⟨.error, ⟨1, 4⟩, "_"⟩] ∧
      (⟨.identifier, .start, "let"⟩ : Token).kind ≠ .error ∧
        Kind.identifier.accepts "let" = true ∧
          (¬ (⟨.identifier, .start, "let"⟩ : Token).Rescans ↔
            (⟨.identifier, .start, "let"⟩ : Token).Truncated (some '_')) := by
  have hScan : scan "let_" = [] ++ ⟨.identifier, .start, "let"⟩ :: [⟨.error, ⟨1, 4⟩, "_"⟩] := by
    decide
  have hKind : (⟨.identifier, .start, "let"⟩ : Token).kind ≠ .error := by decide
  exact ⟨hScan, hKind, accepts_and_rescans hScan hKind⟩

end DocumentLanguage
