import DocumentLanguage.Proofs.Token.Trial

/-!
Scanning without positions: which kinds and texts the tokens of a source have, and when a text
is one token by itself.
-/
namespace DocumentLanguage

/-- Tokens have the kinds and the texts that a source is scanned into. -/
inductive Scanned : List Char → List Token → Prop
  | nil : Scanned [] []
  | token {source : List Char} {lexeme : Lexeme} {token : Token} {tokens : List Token}
      (hLexeme : lexeme? source = some lexeme) (hKind : token.kind = lexeme.kind)
      (hText : token.text.toList = lexeme.text) (scanned : Scanned lexeme.rest tokens) :
      Scanned source (token :: tokens)
  | error {c : Char} {source : List Char} {token : Token}
      (hNone : lexeme? (c :: source) = none) (hKind : token.kind = .error)
      (hText : token.text.toList = [c]) : Scanned (c :: source) [token]

theorem lexeme?_nil : lexeme? [] = none := by
  cases hLexeme : lexeme? [] with
  | none => rfl
  | some lexeme =>
      obtain ⟨hText, hTaken⟩ := lexeme?_text_append_rest hLexeme
      exact absurd (List.append_eq_nil_iff.mp hText.symm).1 hTaken

/-- Scanning a source within a bound that covers it gives its tokens. -/
theorem scanned_scanFrom (bound : Nat) (position : Position) (source : List Char)
    (hBound : source.length ≤ bound) : Scanned source (scanFrom bound position source) := by
  induction bound generalizing position source with
  | zero =>
      obtain rfl := List.eq_nil_of_length_eq_zero (Nat.le_zero.mp hBound)
      exact .nil
  | succ bound ih =>
      cases source with
      | nil => exact .nil
      | cons c source =>
          simp only [scanFrom]
          cases hLexeme : lexeme? (c :: source) with
          | none => exact .error hLexeme rfl (by simp)
          | some lexeme =>
              obtain ⟨hText, hTaken⟩ := lexeme?_text_append_rest hLexeme
              have hLengths := congrArg List.length hText
              have hPositive := List.length_pos_iff.mpr hTaken
              simp only [List.length_append] at hLengths
              exact .token hLexeme rfl (by simp) (ih _ _ (by omega))

/-- The tokens of a source are what it is scanned into. -/
theorem scanned_scan (source : String) : Scanned source.toList (scan source) :=
  scanned_scanFrom _ _ _ (Nat.le_refl _)

/-- The first token of a scanned source is the first lexeme. -/
theorem Scanned.of_lexeme {source : List Char} {tokens : List Token} {lexeme : Lexeme}
    (scanned : Scanned source tokens) (hLexeme : lexeme? source = some lexeme) :
    ∃ token rest, tokens = token :: rest ∧ token.kind = lexeme.kind ∧
      token.text.toList = lexeme.text ∧ Scanned lexeme.rest rest := by
  cases scanned with
  | nil =>
      rw [lexeme?_nil] at hLexeme
      cases hLexeme
  | token hFirst hKind hText scanned =>
      rw [hLexeme] at hFirst
      cases hFirst
      exact ⟨_, _, rfl, hKind, hText, scanned⟩
  | error hNone hKind hText =>
      rw [hLexeme] at hNone
      cases hNone

theorem Scanned.of_nil {tokens : List Token} (scanned : Scanned [] tokens) : tokens = [] := by
  cases scanned with
  | nil => rfl
  | token hLexeme =>
      rw [lexeme?_nil] at hLexeme
      cases hLexeme

/-- No trial is for errors. An error is only what is left where every trial fails. -/
theorem kind_ne_error_of_lexeme? {source : List Char} {lexeme : Lexeme}
    (hLexeme : lexeme? source = some lexeme) : lexeme.kind ≠ .error := by
  obtain ⟨before, trial, after, hTrials, hTrial, -⟩ := lexeme?_eq_some_iff.mp hLexeme
  have hKinds : ∀ trial ∈ trials, trial.kind ≠ .error := by decide
  rw [(Trial.lexeme?_eq_some.mp hTrial).2.1]
  exact hKinds trial (by simp [hTrials])

/-- A text is one token by itself when its first lexeme takes all of it. -/
theorem soleKind?_eq_some {text : String} {kind : Kind} (hKind : kind ≠ .error) :
    soleKind? text = some kind ↔ lexeme? text.toList = some ⟨kind, text.toList, []⟩ := by
  have hScanned := scanned_scan text
  constructor
  · intro hSole
    simp only [soleKind?] at hSole
    split at hSole
    · rename_i token hScan
      rw [hScan] at hScanned
      split at hSole
      · rename_i hText
        cases hSole
        generalize hSource : text.toList = source at hScanned
        cases hScanned with
        | token hLexeme hToken hTaken scanned =>
            rename_i lexeme
            obtain ⟨hParts, -⟩ := lexeme?_text_append_rest hLexeme
            rw [← hTaken, hText, hSource] at hParts
            have hRest : lexeme.rest = [] := by simpa using hParts
            rw [hLexeme]
            obtain ⟨kind, taken, rest⟩ := lexeme
            simp only at hToken hTaken hRest
            simp [hToken, ← hTaken, hText, hSource, hRest]
        | error hNone hError hTaken => exact absurd hError hKind
      · cases hSole
    · cases hSole
  · intro hLexeme
    obtain ⟨token, rest, hScan, hToken, hText, hRest⟩ := hScanned.of_lexeme hLexeme
    rw [hRest.of_nil] at hScan
    have hSame : token.text = text := String.ext hText
    simp [soleKind?, hScan, hSame, hToken]

end DocumentLanguage
