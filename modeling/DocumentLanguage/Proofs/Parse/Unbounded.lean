import DocumentLanguage.Proofs.Parse.PutBack

/-!
A buffer without bound. However often documents are read, a reader that lets go of tokens gives what
one gives that keeps them all. In every state that it comes to it stands among the tokens that it
holds, and so do all places that it may still turn back to.
-/
namespace DocumentLanguage

namespace Cursor

/-- A reader before its first token that lets go of none. -/
def unbounded (tokens : List Token) : Cursor :=
  { start tokens with releases := false }

def behind : Nat → Cursor → Cursor
  | 0, cursor => cursor
  | calls + 1, cursor => behind calls cursor.parseDocument.2

/-- What so many readings of a document give, one after another. -/
def outcomes : Nat → Cursor → List (Except Failure Document)
  | 0, _ => []
  | calls + 1, cursor => cursor.parseDocument.1 :: outcomes calls cursor.parseDocument.2

/-- What comes of readings depends only on where the reader stands. -/
theorem outcomes_eq (calls : Nat) {tokens : Array Token} {spot : Spot} {first second : Cursor}
    (left : Rests tokens none spot first) (right : Rests tokens none spot second) :
    first.outcomes calls = second.outcomes calls := by
  induction calls generalizing spot first second with
  | zero => rfl
  | succ calls ih =>
      obtain ⟨hFirst, hLeft⟩ := ends_readDocument left.stands left.steady
      obtain ⟨hSecond, hRight⟩ := ends_readDocument right.stands right.steady
      rw [left.tokens] at hFirst hLeft
      rw [right.tokens] at hSecond hRight
      exact congrArg₂ List.cons (hFirst.trans hSecond.symm) (ih hLeft hRight)

/-- Behind any number of documents the reader still rests at some spot of the same tokens, however
the readings ended. -/
theorem exists_rests_behind (calls : Nat) {tokens : Array Token} {spot : Spot} {cursor : Cursor}
    (rests : Rests tokens none spot cursor) :
    ∃ spot, Rests tokens none spot (cursor.behind calls) := by
  induction calls generalizing spot cursor with
  | zero => exact ⟨spot, rests⟩
  | succ calls ih =>
      obtain ⟨-, hNext⟩ := ends_readDocument rests.stands rests.steady
      exact ih (hNext.since rests.tokens)

theorem rests_start (tokens : List Token) :
    Rests tokens.toArray none ⟨tokens, 0⟩ (start tokens) :=
  ⟨at_start tokens, steady_start tokens, rfl⟩

theorem rests_unbounded (tokens : List Token) :
    Rests tokens.toArray none ⟨tokens, 0⟩ (unbounded tokens) :=
  have rests := rests_start tokens
  ⟨⟨rests.stands.rest, rests.stands.within, rests.stands.nesting, rests.stands.line⟩,
    ⟨rests.steady.offset_le, rests.steady.taken, rests.steady.ordered, rests.steady.held⟩, rfl⟩

end Cursor

open Cursor

/-- The calls that one reading of a document comes to, from some state of the reader on. -/
inductive Visited (start : Cursor) : Nat → Call → Prop
  | document : Visited start (readingBudget start.tokens.size) ⟨.document, none, start⟩
  | inside {bound : Nat} {outer call : Call} (visited : Visited start (bound + 1) outer)
      (makes : outer.Makes (readRule bound) bound call) : Visited start bound call

/-- Every call that is visited is either that of the document or one that is made from a live
attempt at a spot of the tokens. -/
theorem Visited.sound {start : Cursor} {spot : Spot} (begins : start.At none spot)
    (steady : start.Steady) {bound : Nat} {call : Call} (visited : Visited start bound call) :
    call = ⟨.document, none, start⟩ ∨ call.Sound start.tokens := by
  induction visited with
  | document => exact .inl rfl
  | inside _ makes ih => exact .inr (makes.sound begins steady ih)

/-- Every answer leaves a reader that stands among the tokens it holds, a failure just as well as a
node. -/
theorem Answers.steady {α : Type} {owner : Option Attempt} {before after : Cursor} {line : Line}
    {spot : Spot} {reply : Reply α} {outcome : Except Failure (Outcome α)}
    (answers : Answers owner before line spot reply outcome after) : after.Steady := by
  cases reply with
  | found value commits next => exact answers.2.2.steady
  | absent => exact answers.2.2.1.steady
  | failed failure next => exact answers.2.steady

/-- Opening a document leaves a reader that stands among the tokens it holds. -/
theorem Opens.steady {α : Type} {tokens : Array Token} {missed : Spot} {after : Cursor}
    {reply : Reply α} {outcome : Except Failure (Outcome α)}
    (opens : Opens tokens missed reply outcome after) : after.Steady := by
  cases reply with
  | found value commits next | absent | failed failure next => exact opens.2.steady

/-- A reader stands among the tokens that it holds where a rule is asked for and where the answer
has come, and so does an attempt around that rule which may be turned back to. -/
theorem Visited.holds {start : Cursor} {spot : Spot} (begins : start.At none spot)
    (steady : start.Steady) {bound : Nat} {call : Call} (visited : Visited start bound call) :
    call.cursor.Steady ∧ ((readRule bound call.rule call.owner).exec call.cursor).2.Steady ∧
      ∀ attempt ∈ call.owner, attempt.committed = false →
        call.cursor.offset ≤ attempt.mark.position := by
  rcases visited.sound begins steady with rfl | sound
  · refine ⟨steady, ?_, nofun⟩
    cases bound with
    | zero => exact steady
    | succ bound => exact (opens_document bound begins steady).steady
  · obtain ⟨line, spot, stands⟩ := sound.stands
    have hReads := reads_readRule start.tokens bound call.rule call.owner line spot call.cursor
      sound.rule sound.tokens stands sound.steady sound.live
    refine ⟨sound.steady, hReads.steady, ?_⟩
    intro attempt hOwner hUncommitted
    have hPlace := List.mem_of_getElem? (sound.live attempt hOwner hUncommitted)
    exact (sound.steady.held _ hPlace).1

/-- However many documents are read one after another, letting go of tokens makes no difference to
what comes of it. Wherever a rule is asked for then, and wherever the answer has come, the reader
stands among the tokens that it holds, and so do the places that may be turned back to, in order,
and the attempt around the rule if that is one of them. -/
theorem outcomes_eq_unbounded (tokens : List Token) (calls : Nat) :
    (start tokens).outcomes calls = (unbounded tokens).outcomes calls ∧
      ∀ bound call, Visited ((start tokens).behind calls) bound call →
        call.cursor.Steady ∧ ((readRule bound call.rule call.owner).exec call.cursor).2.Steady ∧
          ∀ attempt ∈ call.owner, attempt.committed = false →
            call.cursor.offset ≤ attempt.mark.position := by
  refine ⟨Cursor.outcomes_eq calls (rests_start tokens) (rests_unbounded tokens), ?_⟩
  intro bound call visited
  obtain ⟨spot, rests⟩ := exists_rests_behind calls (rests_start tokens)
  exact visited.holds rests.stands rests.steady

end DocumentLanguage
