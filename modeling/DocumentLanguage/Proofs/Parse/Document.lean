import DocumentLanguage.Proofs.Parse.Release
import DocumentLanguage.Proofs.Token.Stream

/-!
Reading a whole document without a buffer. Only here may a rule that is not there have been read
in part, namely the comment before the component.
-/
namespace DocumentLanguage

open Cursor

theorem Cursor.at_start (tokens : List Token) :
    (Cursor.start tokens).At none ⟨tokens, 0⟩ :=
  ⟨by simp [start], by simp [start], rfl, rfl⟩

theorem Cursor.steady_start (tokens : List Token) : (Cursor.start tokens).Steady :=
  ⟨Nat.le_refl _, Nat.le_refl _, by simp [start], by simp [start]⟩

/-- The spot behind the comment before a component, if there is one. -/
def Spot.behindComment (spot : Spot) : Spot :=
  match spot.expectKind none .comment with
  | .found _ _ next => next
  | _ => spot

/-- A reading of some tokens outside all attempts does to a cursor what a reply says. One that
misses may have moved on to a spot. -/
def Opens {α : Type} (tokens : Array Token) (missed : Spot) :
    Reply α → Except Failure (Outcome α) → Cursor → Prop
  | .found value _ next, outcome, after =>
    outcome = .ok (some value, none) ∧ Rests tokens none next after
  | .absent, outcome, after => outcome = .ok (none, none) ∧ Rests tokens none missed after
  | .failed failure next, outcome, after =>
    outcome = .error failure ∧ Rests tokens none next after

/-- What a document opens with is kept or not without moving the reader, so that it ends where it
did. -/
theorem ends_keeping_opens {α β : Type} (keep : α → β) {reading : Reading (Outcome α)}
    {cursor : Cursor} {tokens : Array Token} {missed : Spot} {reply : Reply α}
    (ends : reading.Ends cursor (Opens tokens missed reply)) :
    (keeping keep reading).Ends cursor (Opens tokens missed (reply.map keep)) := by
  refine Reading.ends_bind ends ?_ ?_
  · intro value after hOpens
    cases reply with
    | found value commits next | absent | failed failure next =>
        obtain ⟨hValue, hRests⟩ := hOpens
        cases hValue
        try exact ⟨rfl, hRests⟩
  · intro failure after hOpens
    cases reply with
    | found value commits next | absent | failed failure next =>
        obtain ⟨hValue, hRests⟩ := hOpens
        cases hValue
        try exact ⟨rfl, hRests⟩

section

variable {tokens : Array Token} {read : RuleReader} {seek : Seeker}

/-- The component of a document is read where it is found, behind a comment if there was one. It is
the one rule that is not put back where it is missing. -/
theorem opens_component (reads : ReadsAs tokens read seek) (bound : Nat) {spot : Spot}
    {now : Cursor} (hTokens : now.tokens = tokens) (stands : now.At none spot)
    (steady : now.Steady) :
    (readParts read bound [.child "component" .component] ⟨none, none, false⟩).Ends now
      (Opens tokens spot (seekParts seek bound ⟨.document, .plain, none⟩
        [.child "component" .component] ⟨false, false⟩ spot)) := by
  refine ends_bind_answers
    (reads .component none none spot now (by decide) hTokens stands steady (live_none now)) ?_ ?_ ?_
  · intro tree commits next after hReply hStands hKeeps
    simp only [seekParts, hReply]
    exact ⟨rfl, hStands, hKeeps.steady, hKeeps.tokens.trans hTokens⟩
  · intro after hReply hStands hKeeps hPoints
    simp only [seekParts, hReply]
    exact ⟨rfl, hStands, hKeeps.steady, hKeeps.tokens.trans hTokens⟩
  · intro failure next after hReply hRests
    simp only [seekParts, hReply]
    exact ⟨rfl, hRests.since hTokens⟩

/-- What the form of a document reads is what is found of it. -/
theorem opens_form (reads : ReadsAs tokens read seek) (bound : Nat) {spot : Spot} {cursor : Cursor}
    (hTokens : cursor.tokens = tokens) (stands : cursor.At none spot) (steady : cursor.Steady) :
    (readForm read bound .document none Rule.document.form).Ends cursor
      (Opens tokens spot.behindComment
        (seekForm seek bound .document none spot Rule.document.form)) := by
  refine ends_keeping_opens _ ?_
  refine ends_bind_tells (Reading.exec_expect _ _ stands steady.offset_le) ?_ ?_ ?_
  · intro token commits ahead after hReply hMoves hStands
    simp only [seekParts, Spot.expectKind, Spot.behindComment, hReply]
    exact ends_keeping_opens _ (opens_component reads bound (hMoves.tokens.trans hTokens) hStands
      (steady.of_movesTo hMoves))
  · intro after hReply hMoves hStands
    simp only [seekParts, Spot.expectKind, Spot.behindComment, hReply]
    exact ends_keeping_opens _ (opens_component reads bound (hMoves.tokens.trans hTokens) hStands
      (steady.of_movesTo hMoves))
  · intro failure ahead after hReply hMoves hStands
    simp only [seekParts, Spot.expectKind, hReply]
    exact ⟨rfl, (hMoves.rests steady hStands).since hTokens⟩

end

/-- A document is read as it is found: its comment, if any, and then its component, of which a miss
leaves the reader behind the comment. -/
theorem opens_document (bound : Nat) {spot : Spot} {cursor : Cursor}
    (stands : cursor.At none spot) (steady : cursor.Steady) :
    (readRule (bound + 1) .document none).Ends cursor
      (Opens cursor.tokens spot.behindComment (seekRule (bound + 1) .document none spot)) :=
  ends_keeping_opens _ (opens_form (reads_readRule cursor.tokens bound) bound rfl stands steady)

/-- What is found where a document should be. -/
def seekDocument (bound : Nat) (spot : Spot) : Except Failure Document :=
  match seekRule bound .document none spot with
  | .found document _ next =>
    match next.behindLayout.rest with
    | [] => .ok document
    | token :: _ => if token.kind = .error then .error (.lexical token) else .error (.trailing token)
  | .absent => .error (spot.behindComment.failure .document)
  | .failed failure _ => .error failure

/-- Where a reader is left that has looked for a document. -/
def leftBehind (bound : Nat) (spot : Spot) : Spot :=
  match seekRule bound .document none spot with
  | .found _ _ next | .failed _ next => next
  | .absent => spot.behindComment

/-- One reading of a document gives whatever is found from where the reader stands, and leaves it
standing where that says. -/
theorem ends_readDocument {cursor : Cursor} {spot : Spot} (stands : cursor.At none spot)
    (steady : cursor.Steady) :
    readDocument.Ends cursor fun outcome after =>
      outcome = seekDocument (readingBudget cursor.tokens.size) spot ∧
        Rests cursor.tokens none (leftBehind (readingBudget cursor.tokens.size) spot) after := by
  obtain ⟨bound, hBound⟩ : ∃ bound, readingBudget cursor.tokens.size = bound + 1 :=
    ⟨32 * (cursor.tokens.size + 2) - 1, by simp only [readingBudget, nestingPerToken]; omega⟩
  have hOpens := opens_document bound stands steady
  rw [hBound]
  simp only [Reading.Ends] at hOpens
  simp only [Reading.Ends, readDocument, Reading.exec_bind, Reading.exec_get, hBound, seekDocument,
    leftBehind]
  rcases hRun : (readRule (bound + 1) .document none).exec cursor with ⟨outcome, after⟩
  rw [hRun] at hOpens
  have hReach : ∀ {reached : Nat} {next : Spot}, Rests cursor.tokens none next after →
      after.reached ≤ reached → Rests cursor.tokens none next { after with reached := reached } :=
    fun hRests hMore => ((MovesTo.reach hMore).rests hRests.steady hRests.stands.reach).since
      hRests.tokens
  cases hReply : seekRule (bound + 1) .document none spot with
  | found value commits next =>
      rw [hReply] at hOpens
      obtain ⟨hValue, hRests⟩ := hOpens
      cases hValue
      obtain ⟨reached, hMore, hPeek⟩ :=
        Reading.exec_peek hRests.stands hRests.steady.offset_le
      simp only [Reading.exec_bind, hPeek]
      cases next.behindLayout.rest with
      | nil => exact ⟨rfl, hReach hRests hMore⟩
      | cons token rest =>
          by_cases hError : token.kind = .error <;> simpa [hError] using hReach hRests hMore
  | absent =>
      rw [hReply] at hOpens
      obtain ⟨hValue, hRests⟩ := hOpens
      cases hValue
      obtain ⟨reached, hMore, hFail⟩ :=
        Reading.exec_failIn (α := Document) hRests.stands hRests.steady.offset_le .document
      simp only [hFail]
      exact ⟨trivial, hReach hRests hMore⟩
  | failed failure next =>
      rw [hReply] at hOpens
      obtain ⟨hValue, hRests⟩ := hOpens
      cases hValue
      exact ⟨rfl, hRests⟩

/-- Tokens make up whatever document is found at their start. The reader with its buffer and its
save-points does not show in the result. -/
theorem parseTokens_eq (tokens : List Token) :
    parseTokens tokens = seekDocument (readingBudget tokens.length) ⟨tokens, 0⟩ :=
  (ends_readDocument (at_start tokens) (steady_start tokens)).1

/-- Tokens make up a document exactly when one is found at their start and nothing but layout is
left behind it. -/
theorem parseTokens_eq_ok {tokens : List Token} {document : Document} :
    parseTokens tokens = .ok document ↔
      ∃ commits next,
        seekRule (readingBudget tokens.length) .document none ⟨tokens, 0⟩ =
          .found document commits next ∧ next.behindLayout.rest = [] := by
  rw [parseTokens_eq, seekDocument]
  cases seekRule (readingBudget tokens.length) .document none ⟨tokens, 0⟩ with
  | found value commits next =>
      simp only [Reply.found.injEq]
      cases hRest : next.behindLayout.rest with
      | nil =>
          simp only [Except.ok.injEq]
          constructor
          · rintro rfl
            exact ⟨commits, next, ⟨rfl, rfl, rfl⟩, hRest⟩
          · rintro ⟨_, _, ⟨rfl, -, -⟩, -⟩
            rfl
      | cons token rest =>
          constructor
          · intro hOk
            by_cases hError : token.kind = .error <;> simp [hError] at hOk
          · rintro ⟨_, _, ⟨-, -, rfl⟩, hEmpty⟩
            rw [hRest] at hEmpty
            cases hEmpty
  | absent => simp
  | failed failure next => simp

/-- However a source is turned into tokens, its document is that of its tokens. -/
theorem parseWith_eq (options : ParserOptions) (source : String) :
    parseWith options source = parseTokens (scan (Text.expandTabs source)) := by
  rw [parseWith, ParserOptions.tokens]
  split
  · rw [TokenStream.tokens_eq_scan]
  · rfl

/-- How a source is scanned makes no difference: tabs become spaces, the scanner gives its tokens,
and these are read. -/
theorem parse_eq (source : String) : parse source = parseTokens (scan (Text.expandTabs source)) :=
  parseWith_eq {} source

end DocumentLanguage
