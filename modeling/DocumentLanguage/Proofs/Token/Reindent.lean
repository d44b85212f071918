import DocumentLanguage.Proofs.Token.Layout
import DocumentLanguage.Proofs.Token.Scanned

/-!
Tokens under another indentation. Indentation can be taken away and put back without loss, and a
text that is one token stays one token of its kind.
-/
namespace DocumentLanguage

open Pattern Text

/-- What is no token at all is a single character, and no line feed. -/
theorem not_mem_feed_of_error {text : String} (hSole : soleKind? text = some .error) :
    '\n' ∉ text.toList := by
  have hScanned := scanned_scan text
  unfold soleKind? at hSole
  split at hSole
  next token hScan =>
    rw [hScan] at hScanned
    split at hSole
    next hText =>
      have hKind : token.kind = .error := Option.some.inj hSole
      generalize hSource : text.toList = source at hScanned
      cases hScanned with
      | @token _ lexeme _ _ hLexeme hSame _ _ =>
          exact absurd (hSame.symm.trans hKind) (kind_ne_error_of_lexeme? hLexeme)
      | @error c source _ hNone _ hToken =>
          rw [hText, hSource] at hToken
          obtain ⟨-, rfl⟩ := List.cons.inj hToken
          rw [List.mem_singleton]
          rintro rfl
          have hFeed : (lexeme? ['\n']).isSome = true := by decide
          rw [hNone] at hFeed
          cases hFeed
    next => cases hSole
  next => cases hSole

/-- A token that is not the end of a line is one by itself however its lines are indented. -/
theorem soleKind?_relaid {text laid : String} {kind : Kind} (hSole : soleKind? text = some kind)
    (hKind : kind ≠ .newline) (relaid : Relaid text.toList laid.toList) :
    soleKind? laid = some kind := by
  have hLine : '\n' ∉ text.toList → soleKind? laid = some kind := fun hLine => by
    rw [String.ext (relaid.eq_of_not_mem hLine), hSole]
  by_cases hError : kind = .error
  · exact hLine (not_mem_feed_of_error (hError ▸ hSole))
  · have alone : Alone kind text.toList := (soleKind?_eq_some hError).mp hSole
    cases hLayout : kind.isLayout with
    | false => exact (soleKind?_eq_some hError).mpr (alone.relaid hLayout relaid)
    | true =>
        obtain rfl : kind = .space := by
          revert hLayout hKind
          cases kind <;> decide
        obtain ⟨-, pattern, hPattern, hEnds⟩ := alone.mem_ends (by decide)
        cases hPattern
        exact hLine (not_mem_of_stopsBefore (by decide) (by decide) hEnds)

/-- Indentation comes and goes without loss. Taken away, put back at any depth and taken away again
it leaves the same text, unless the last line is blank; it is taken away once and adds up. None of
this makes another token of a text that is one token, but of the end of a line. -/
theorem reindent_lossless (text : String) :
    (('\n' ∉ text.toList ∨ ∃ last ∈ (splitLines text.toList).getLast?, ∃ c ∈ last, c ≠ ' ') →
        ∀ depth, dedent (indent (dedent text) depth) = dedent text) ∧
      dedent (dedent text) = dedent text ∧
        (∀ inner outer, indent (indent text inner) outer = indent text (inner + outer)) ∧
          ∀ kind, soleKind? text = some kind → kind ≠ .newline →
            soleKind? (dedent text) = some kind ∧
              ∀ depth, soleKind? (indent (dedent text) depth) = some kind := by
  refine ⟨dedent_indent_dedent, dedent_dedent text, indent_indent text, fun kind hSole hKind => ?_⟩
  have hDedented : soleKind? (dedent text) = some kind :=
    soleKind?_relaid hSole hKind (relaid_dedent text)
  exact ⟨hDedented, fun depth => soleKind?_relaid hDedented hKind (relaid_indent (dedent text) depth)⟩

/-- A comment with a line that is indented less than the closing one. -/
theorem reindent_lossless_comment :
    dedent (indent (dedent "!>\n  short\n      <!") 2) = dedent "!>\n  short\n      <!" ∧
      soleKind? "!>\n  short\n      <!" = some .comment ∧
        soleKind? (indent (dedent "!>\n  short\n      <!") 2) = some .comment := by
  have hLossless := reindent_lossless "!>\n  short\n      <!"
  have hSole : soleKind? "!>\n  short\n      <!" = some .comment := by decide
  have hLast : (splitLines "!>\n  short\n      <!".toList).getLast? = some "      <!".toList := by
    decide
  have hFilled : '<' ∈ "      <!".toList := by decide
  exact ⟨hLossless.1 (.inr ⟨_, hLast, '<', hFilled, by decide⟩) 2, hSole,
    (hLossless.2.2.2 .comment hSole (by decide)).2 2⟩

end DocumentLanguage
