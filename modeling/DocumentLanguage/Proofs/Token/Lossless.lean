import DocumentLanguage.Proofs.Token.Scanned

/-!
Scanning loses nothing. The texts of the tokens are the source itself, up to a character that
begins no token, and every token is where counting the lines of the source before it puts it.
-/
namespace DocumentLanguage

def spelled (tokens : List Token) : List Char :=
  tokens.flatMap (·.text.toList)

@[simp] theorem spelled_nil : spelled [] = [] := rfl

@[simp] theorem spelled_cons (token : Token) (tokens : List Token) :
    spelled (token :: tokens) = token.text.toList ++ spelled tokens := rfl

/-- Where a scanner stands once it has moved over the texts of tokens. -/
def Position.behind (position : Position) (tokens : List Token) : Position :=
  tokens.foldl (fun position token => position.after token.text.toList) position

theorem Position.behind_eq (position : Position) (tokens : List Token) :
    position.behind tokens = position.after (spelled tokens) := by
  induction tokens generalizing position with
  | nil => rfl
  | cons token tokens ih =>
      rw [spelled_cons, Position.after_append, ← ih]
      rfl

/-- Following a text moves on by its lines; the last of them says the column. -/
theorem Position.after_eq (position : Position) (text line : List Char) (lines : List (List Char))
    (hLines : Text.splitLines text = line :: lines) :
    position.after text =
      match lines.getLast? with
      | none => ⟨position.line, position.column + line.length⟩
      | some last => ⟨position.line + lines.length, last.length + 1⟩ := by
  induction text generalizing position line lines with
  | nil =>
      cases hLines
      rfl
  | cons c text ih =>
      simp only [Text.splitLines] at hLines
      split at hLines
      · rename_i hNone
        exact absurd hNone (Text.splitLines_ne_nil text)
      · rename_i next rest hRest
        rw [Position.after_cons, ih _ _ _ hRest]
        by_cases hFeed : c = '\n'
        · rw [if_pos hFeed] at hLines
          cases hLines
          cases hLast : rest.getLast? with
          | none =>
              rw [List.getLast?_eq_none_iff.mp hLast]
              simp [Position.next, hFeed, Nat.add_comm]
          | some last =>
              have hMore : (next :: rest).getLast? = some last := by
                rw [List.getLast?_cons, hLast]
                rfl
              rw [hMore]
              simp [Position.next, hFeed, Nat.add_comm, Nat.add_left_comm]
        · rw [if_neg hFeed] at hLines
          cases hLines
          cases lines.getLast? with
          | none => simp [Position.next, hFeed, Nat.add_comm, Nat.add_left_comm]
          | some last => simp [Position.next, hFeed]

/-- Following a source from its start leads to its end, character by character. -/
theorem Position.after_start (source : List Char) :
    Position.start.after source = Position.endOf (String.ofList source) := by
  obtain ⟨line, lines, hLines⟩ := List.exists_cons_of_ne_nil (Text.splitLines_ne_nil source)
  rw [Position.after_eq _ source line lines hLines]
  simp only [Position.endOf, String.toList_ofList, hLines, List.getLast?_cons]
  cases hLast : lines.getLast? with
  | none =>
      rw [List.getLast?_eq_none_iff.mp hLast]
      simp [Position.start, Nat.add_comm]
  | some last => simp [Position.start, Nat.add_comm]

/-- Every token is where the texts of those before it lead. -/
theorem position_of_scanFrom (bound : Nat) (position : Position) (source : List Char)
    {before after : List Token} {token : Token}
    (hTokens : scanFrom bound position source = before ++ token :: after) :
    token.position = position.behind before := by
  induction bound generalizing position source before with
  | zero => simp [scanFrom] at hTokens
  | succ bound ih =>
      cases source with
      | nil => simp [scanFrom] at hTokens
      | cons c source =>
          simp only [scanFrom] at hTokens
          split at hTokens
          · cases before with
            | nil =>
                cases hTokens
                rfl
            | cons first before =>
                obtain ⟨rfl, hRest⟩ := List.cons.inj hTokens
                rw [ih _ _ hRest]
                simp [Position.behind]
          · cases before with
            | nil =>
                cases hTokens
                rfl
            | cons first before => simp at hTokens

/-- The tokens of a source say all of it, up to a character that begins no token. -/
theorem Scanned.lossless {source : List Char} {tokens : List Token}
    (scanned : Scanned source tokens) :
    ∃ read failed, tokens = read ++ failed ∧ (∀ token ∈ read, token.kind ≠ .error) ∧
      (failed = [] ∧ spelled read = source ∨
        ∃ token c rest, failed = [token] ∧ token.kind = .error ∧ token.text = String.ofList [c] ∧
          source = spelled read ++ c :: rest) := by
  induction scanned with
  | nil => exact ⟨[], [], rfl, nofun, .inl ⟨rfl, rfl⟩⟩
  | @token source lexeme token tokens hLexeme hKind hText _ ih =>
      obtain ⟨read, failed, rfl, hRead, hFailed⟩ := ih
      obtain ⟨hSource, -⟩ := lexeme?_text_append_rest hLexeme
      refine ⟨token :: read, failed, rfl, ?_, ?_⟩
      · rw [List.forall_mem_cons]
        exact ⟨by rw [hKind]; exact kind_ne_error_of_lexeme? hLexeme, hRead⟩
      · rw [spelled_cons, hText, hSource]
        rcases hFailed with ⟨hNone, hRest⟩ | ⟨last, c, rest, hLast, hError, hChar, hRest⟩
        · exact .inl ⟨hNone, by rw [hRest]⟩
        · exact .inr ⟨last, c, rest, hLast, hError, hChar, by rw [hRest, List.append_assoc]⟩
  | @error c source token hNone hKind hText =>
      refine ⟨[], [token], rfl, nofun, .inr ⟨token, c, source, rfl, hKind, ?_, rfl⟩⟩
      exact String.ext (by simpa using hText)

/-- The texts of the tokens are what the source begins with. -/
theorem Scanned.exists_spelled_append {source : List Char} {tokens : List Token}
    (scanned : Scanned source tokens) : ∃ rest, source = spelled tokens ++ rest := by
  induction scanned with
  | nil => exact ⟨[], rfl⟩
  | token hLexeme _ hText _ ih =>
      obtain ⟨rest, hRest⟩ := ih
      refine ⟨rest, ?_⟩
      rw [spelled_cons, hText, List.append_assoc, ← hRest]
      exact (lexeme?_text_append_rest hLexeme).1
  | @error c source _ _ _ hText => exact ⟨source, by rw [spelled_cons, hText]; rfl⟩

/-- No token has a character that its source has not. -/
theorem Scanned.subset {source : List Char} {tokens : List Token} (scanned : Scanned source tokens)
    {token : Token} (hToken : token ∈ tokens) : token.text.toList ⊆ source := by
  obtain ⟨rest, rfl⟩ := scanned.exists_spelled_append
  intro c hMem
  exact List.mem_append_left rest (List.mem_flatMap.mpr ⟨token, hToken, hMem⟩)

/-- No token is empty, an error at the end included. -/
theorem Scanned.ne_nil {source : List Char} {tokens : List Token}
    (scanned : Scanned source tokens) : ∀ token ∈ tokens, token.text.toList ≠ [] := by
  induction scanned with
  | nil => nofun
  | token hLexeme _ hText _ ih =>
      refine List.forall_mem_cons.mpr ⟨?_, ih⟩
      rw [hText]
      exact (lexeme?_text_append_rest hLexeme).2
  | error _ _ hText =>
      refine List.forall_mem_cons.mpr ⟨?_, nofun⟩
      rw [hText]
      exact List.cons_ne_nil _ _

/-- There are no more tokens than characters in what they spell, as none of them is empty. -/
theorem length_le_spelled {tokens : List Token} (hTexts : ∀ token ∈ tokens, token.text.toList ≠ []) :
    tokens.length ≤ (spelled tokens).length := by
  induction tokens with
  | nil => exact Nat.le_refl _
  | cons token tokens ih =>
      rw [List.forall_mem_cons] at hTexts
      have hPositive := List.length_pos_iff.mpr hTexts.1
      have hRest := ih hTexts.2
      simp only [spelled_cons, List.length_append, List.length_cons]
      omega

/-- Tokens account for a source. -/
structure Accounts (source : String) (tokens : List Token) : Prop where
  /-- There are no more tokens than characters. -/
  few : tokens.length ≤ source.toList.length
  filled : ∀ token ∈ tokens, token.text ≠ ""
  /-- Only the last token may be an error, which holds the one character that comes next. Without
  one the texts are the whole source. -/
  lossless : ∃ read failed, tokens = read ++ failed ∧ (∀ token ∈ read, token.kind ≠ .error) ∧
    (failed = [] ∧ spelled read = source.toList ∨
      ∃ token c rest, failed = [token] ∧ token.kind = .error ∧ token.text = String.ofList [c] ∧
        source.toList = spelled read ++ c :: rest)
  /-- A token is at the end of what is before it, and there the scanner stands when it comes to
  it. -/
  placed : ∀ before token after, tokens = before ++ token :: after →
    token.position = Position.endOf (String.ofList (spelled before)) ∧
      Position.start.behind before = token.position
  /-- Behind the last token of a whole source the scanner stands at the end of the source. -/
  ended : (∀ token ∈ tokens, token.kind ≠ .error) →
    Position.start.behind tokens = Position.endOf source

/-- The tokens that a source is scanned into account for it. -/
theorem accounts_scan (source : String) : Accounts source (scan source) := by
  have hScanned := scanned_scan source
  have hFilled := hScanned.ne_nil
  have hLossless := hScanned.lossless
  refine ⟨?_, ?_, hLossless, ?_, ?_⟩
  · obtain ⟨read, failed, hTokens, -, hFailed⟩ := hLossless
    rw [hTokens] at hFilled ⊢
    have hRead := length_le_spelled fun token hMem => hFilled token (List.mem_append_left _ hMem)
    rcases hFailed with ⟨rfl, hSource⟩ | ⟨token, c, rest, rfl, -, -, hSource⟩
    · rwa [List.append_nil, ← hSource]
    · rw [hSource]
      simp only [List.length_append, List.length_cons, List.length_nil]
      omega
  · intro token hToken hEmpty
    exact hFilled token hToken (by simp [hEmpty])
  · intro before token after hTokens
    have hPosition := position_of_scanFrom _ _ _ hTokens
    refine ⟨?_, hPosition.symm⟩
    rw [hPosition, Position.behind_eq, Position.after_start]
  · intro hErrors
    obtain ⟨read, failed, hTokens, -, hFailed⟩ := hLossless
    rcases hFailed with ⟨rfl, hSource⟩ | ⟨token, c, rest, rfl, hError, -⟩
    · rw [hTokens, List.append_nil, Position.behind_eq, hSource, Position.after_start,
        String.ofList_toList]
    · exact absurd hError (hErrors token (by simp [hTokens]))

/-- Positions count characters and lines, also inside a token that spans lines. -/
example : (scan "'A\nB' é").map (·.position) = [⟨1, 1⟩, ⟨2, 3⟩, ⟨2, 4⟩] := by decide

end DocumentLanguage
