import DocumentLanguage.Proofs.Grammar.Derivation
import DocumentLanguage.Proofs.Parse.Document
import DocumentLanguage.Proofs.Parse.Sound
import Mathlib.Data.List.Forall2
import Mathlib.Data.List.TakeWhile

/-!
A document that is read is a derivation of its tokens. No token is lost, invented or put in
another place; only layout is passed over.
-/
namespace DocumentLanguage

/-- Some tokens without any space and without some of the newlines. -/
inductive Thinned : List Token → List Token → Prop
  | nil : Thinned [] []
  | drop {token : Token} {tokens kept : List Token}
      (hLayout : token.kind = .space ∨ token.kind = .newline) (thinned : Thinned tokens kept) :
      Thinned (token :: tokens) kept
  | keep {token : Token} {tokens kept : List Token} (hSpace : token.kind ≠ .space)
      (thinned : Thinned tokens kept) : Thinned (token :: tokens) (token :: kept)

theorem Kind.isLayout_iff {kind : Kind} :
    kind.isLayout = true ↔ kind = .space ∨ kind = .newline := by
  cases kind <;> simp [isLayout]

/-- Tokens of which only layout is left out say what terminals say. -/
theorem Along.thinned {terminals : List Terminal} {tokens rest : List Token}
    (along : Along Kind.isLayout terminals tokens rest)
    (hRest : ∀ token ∈ rest, token.kind.isLayout = true) :
    (∀ token ∈ tokens, token.kind ≠ .error) ∧
      ∃ kept, Thinned tokens kept ∧ List.Forall₂ Terminal.reads terminals kept := by
  induction along with
  | stop rest =>
      refine ⟨?_, [], ?_, .nil⟩
      · intro token hToken hError
        have hLayout := hRest token hToken
        rw [hError] at hLayout
        cases hLayout
      · induction rest with
        | nil => exact .nil
        | cons token rest ih =>
            simp only [List.mem_cons, forall_eq_or_imp] at hRest
            exact .drop (Kind.isLayout_iff.mp hRest.1) (ih hRest.2)
  | pass hPass _ ih =>
      obtain ⟨hErrors, kept, hThinned, hReads⟩ := ih hRest
      refine ⟨?_, kept, .drop (Kind.isLayout_iff.mp hPass) hThinned, hReads⟩
      simp only [List.mem_cons, forall_eq_or_imp]
      refine ⟨?_, hErrors⟩
      intro hError
      rw [hError] at hPass
      cases hPass
  | read hHere hSpace hError _ ih =>
      obtain ⟨hErrors, kept, hThinned, hReads⟩ := ih hRest
      exact ⟨List.forall_mem_cons.mpr ⟨hError, hErrors⟩, _, .keep hSpace hThinned,
        .cons hHere hReads⟩

/-- The tokens of a document, from end to end, say what its terminals say. -/
theorem along_of_parseTokens {tokens : List Token} {document : Document}
    (hParse : parseTokens tokens = .ok document) :
    document.Made ∧ ∃ rest, Along Kind.isLayout document.terminals tokens rest ∧
      ∀ token ∈ rest, token.kind.isLayout = true := by
  obtain ⟨commits, next, hFound, hRest⟩ := parseTokens_eq_ok.mp hParse
  obtain ⟨hAlong, hMade⟩ := sound_seekRule _ hFound
  exact ⟨hMade, next.rest, hAlong, List.dropWhile_eq_nil_iff.mp hRest⟩

/-- Tokens that make up a document hold no error. The document is a derivation by the catalog,
and its terminals are the tokens one for one: all of them but the spaces and some newlines, in
their order, literals and comments without their indentation and everything else as it is. -/
theorem derives_of_parseTokens {tokens : List Token} {document : Document}
    (hParse : parseTokens tokens = .ok document) :
    (∀ token ∈ tokens, token.kind ≠ .error) ∧ document.Derives document.terminals ∧
      ∃ kept, Thinned tokens kept ∧ List.Forall₂ Terminal.reads document.terminals kept := by
  obtain ⟨hMade, rest, hAlong, hRest⟩ := along_of_parseTokens hParse
  obtain ⟨hErrors, hKept⟩ := hAlong.thinned hRest
  exact ⟨hErrors, document.derives_terminals hMade, hKept⟩

/-- A range that is written over two lines, with a line end behind it, is derived with its newlines
left out. -/
theorem derives_of_parseTokens_range :
    let tokens : List Token :=
      [⟨.delimiter, .start, "["⟩, ⟨.number, .start, "1"⟩, ⟨.space, .start, " "⟩,
        ⟨.delimiter, .start, ".."⟩, ⟨.newline, .start, "\n"⟩, ⟨.number, .start, "2"⟩,
        ⟨.delimiter, .start, ")"⟩, ⟨.newline, .start, "\n"⟩]
    ∃ document, parseTokens tokens = .ok document ∧
      (∀ token ∈ tokens, token.kind ≠ .error) ∧ document.Derives document.terminals ∧
        ∃ kept, Thinned tokens kept ∧ List.Forall₂ Terminal.reads document.terminals kept := by
  intro tokens
  have hOk : (parseTokens tokens).isOk = true := by decide +kernel
  cases hParse : parseTokens tokens with
  | ok document => exact ⟨document, rfl, derives_of_parseTokens hParse⟩
  | error failure =>
      rw [hParse] at hOk
      cases hOk

end DocumentLanguage
