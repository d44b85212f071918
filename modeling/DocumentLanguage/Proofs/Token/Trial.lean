import DocumentLanguage.Proofs.Pattern.Words
import DocumentLanguage.Token.Scan

/-!
What one trial yields does not depend on what follows a token, as long as its matches do not and
no word goes on.
-/
namespace DocumentLanguage

/-- The same lexeme with more of the source behind it. -/
def Lexeme.extend (lexeme : Lexeme) (ending : List Char) : Lexeme :=
  { lexeme with rest := lexeme.rest ++ ending }

namespace Trial

variable {trial : Trial} {text ending : List Char} {lexeme : Lexeme}

/-- A trial takes the first end that its pattern finds, unless nothing was taken or a word is split
by it. -/
theorem lexeme?_eq (trial : Trial) (text : List Char) :
    trial.lexeme? text =
      (trial.pattern.ends text).head?.bind fun rest =>
        let taken := text.take (text.length - rest.length)
        if taken.isEmpty || (trial.kind = .delimiter && splitsWord taken rest.head?) then none
        else some ⟨trial.kind, taken, rest⟩ := by
  simp only [Trial.lexeme?, Pattern.match?]
  cases (trial.pattern.ends text).head? <;> rfl

theorem lexeme?_eq_none_of_ends (hEnds : trial.pattern.ends text = []) :
    trial.lexeme? text = none := by
  rw [lexeme?_eq, hEnds]
  rfl

/-- What a trial yields, by what it prefers to leave over. -/
theorem lexeme?_eq_some :
    trial.lexeme? text = some lexeme ↔
      (trial.pattern.ends text).head? = some lexeme.rest ∧ lexeme.kind = trial.kind ∧
        text = lexeme.text ++ lexeme.rest ∧ lexeme.text ≠ [] ∧
          (trial.kind = .delimiter → splitsWord lexeme.text lexeme.rest.head? = false) := by
  rw [lexeme?_eq]
  constructor
  · intro hSome
    obtain ⟨rest, hRest, hLexeme⟩ := Option.bind_eq_some_iff.mp hSome
    dsimp only at hLexeme
    split at hLexeme
    · cases hLexeme
    · rename_i hTaken
      cases hLexeme
      have hSuffix := Pattern.shrinks_ends trial.pattern text rest (List.mem_of_head? hRest)
      obtain ⟨front, rfl⟩ := hSuffix
      have hFront : (front ++ rest).take ((front ++ rest).length - rest.length) = front := by
        simp
      rw [hFront] at hTaken ⊢
      simp only [Bool.or_eq_true, List.isEmpty_iff, Bool.and_eq_true, decide_eq_true_eq,
        not_or, not_and, Bool.not_eq_true] at hTaken
      exact ⟨hRest, rfl, rfl, hTaken.1, hTaken.2⟩
  · obtain ⟨kind, taken, rest⟩ := lexeme
    rintro ⟨hRest, rfl, rfl, hTaken, hSplits⟩
    rw [hRest, Option.bind_some]
    have hFront : (taken ++ rest).take ((taken ++ rest).length - rest.length) = taken := by simp
    simp only [hFront]
    rw [if_neg]
    simpa [hTaken] using hSplits

theorem splitsWord_none (delimiter : List Char) : splitsWord delimiter none = false := by
  simp [splitsWord]

/-- An ending does not change what a trial prefers at a text. -/
def Bounded (trial : Trial) (text ending : List Char) : Prop :=
  (trial.pattern.ends (text ++ ending)).head? = (trial.pattern.ends text).head?.map (· ++ ending)

/-- A trial that fails on a text alone fails before an ending. -/
theorem Bounded.eq_none (bounded : trial.Bounded text ending)
    (hNone : trial.lexeme? text = none) : trial.lexeme? (text ++ ending) = none := by
  by_contra hSome
  obtain ⟨⟨kind, taken, rest⟩, hLexeme⟩ := Option.ne_none_iff_exists'.mp hSome
  obtain ⟨hRest, hKind, hText, hTaken, hSplits⟩ := lexeme?_eq_some.mp hLexeme
  rw [bounded] at hRest
  obtain ⟨rest', hInside, rfl⟩ := Option.map_eq_some_iff.mp hRest
  simp only at hKind hText hTaken hSplits
  rw [← List.append_assoc] at hText
  obtain rfl := List.append_cancel_right hText
  have hAlone : trial.lexeme? (taken ++ rest') = some ⟨trial.kind, taken, rest'⟩ := by
    refine lexeme?_eq_some.mpr ⟨hInside, rfl, rfl, hTaken, ?_⟩
    intro hDelimiter
    cases rest' with
    | nil => exact splitsWord_none _
    | cons c rest' => exact hSplits hDelimiter
  rw [hNone] at hAlone
  cases hAlone

/-- What a trial yields on a text alone it yields before an ending, if no word goes on there. -/
theorem Bounded.eq_some (bounded : trial.Bounded text ending)
    (hSome : trial.lexeme? text = some lexeme)
    (hWord : trial.kind = .delimiter → lexeme.rest = [] →
      splitsWord lexeme.text ending.head? = false) :
    trial.lexeme? (text ++ ending) = some (lexeme.extend ending) := by
  obtain ⟨kind, taken, rest⟩ := lexeme
  obtain ⟨hRest, hKind, hText, hTaken, hSplits⟩ := lexeme?_eq_some.mp hSome
  simp only at hRest hKind hText hTaken hSplits hWord
  refine lexeme?_eq_some.mpr ⟨?_, hKind, ?_, hTaken, ?_⟩
  · rw [bounded, hRest]
    rfl
  · simp [Lexeme.extend, hText]
  · intro hDelimiter
    cases rest with
    | nil => exact hWord hDelimiter rfl
    | cons c rest => exact hSplits hDelimiter

end Trial

/-- Some trial decides the first token, and all those before it fail. -/
theorem lexeme?_eq_some_iff {source : List Char} {lexeme : Lexeme} :
    lexeme? source = some lexeme ↔
      ∃ before trial after, trials = before ++ trial :: after ∧
        trial.lexeme? source = some lexeme ∧ ∀ other ∈ before, other.lexeme? source = none := by
  rw [lexeme?, List.findSome?_eq_some_iff]

/-- A token and the rest make up the source, and the token is not empty. -/
theorem lexeme?_text_append_rest {source : List Char} {lexeme : Lexeme}
    (hLexeme : lexeme? source = some lexeme) :
    source = lexeme.text ++ lexeme.rest ∧ lexeme.text ≠ [] := by
  obtain ⟨before, trial, after, -, hTrial, -⟩ := lexeme?_eq_some_iff.mp hLexeme
  obtain ⟨-, -, hText, hTaken, -⟩ := Trial.lexeme?_eq_some.mp hTrial
  exact ⟨hText, hTaken⟩

end DocumentLanguage
