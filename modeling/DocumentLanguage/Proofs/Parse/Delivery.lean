import DocumentLanguage.Proofs.Parse.Pulled
import Mathlib.Logic.Relation

/-!
Scanning ahead under any schedule. Whatever order the scanner and its consumer move in, the consumer
gets the tokens of the source one after another, and it is told that there are no more only when it
has them all. So a document does not depend on how its source was scanned.
-/
namespace DocumentLanguage

namespace TokenStream

/-- Any number of moves of either side, in any order. -/
abbrev Moves : TokenStream → TokenStream → Prop := Relation.ReflTransGen Step

/-- A stream on which tokens are under way: those that were received come first, those that wait
come next, and those that are unsent come last. -/
structure Carries (capacity : Nat) (tokens : List Token) (stream : TokenStream) : Prop where
  bounded : stream.capacity = capacity
  room : stream.queue.length ≤ capacity
  received : stream.received <+: tokens
  whole : stream.hungUp = false → stream.pending = tokens
  dropped : stream.hungUp = true → stream.queue = []

namespace Carries

variable {capacity : Nat} {tokens : List Token} {stream next : TokenStream}

theorem start (capacity : Nat) (tokens : List Token) :
    Carries capacity tokens (start capacity tokens) where
  bounded := rfl
  room := Nat.zero_le _
  received := List.nil_prefix
  whole _ := by simp [pending, TokenStream.start]
  dropped := nofun

/-- A stream on which nobody has hung up carries tokens if they are what it has to give. -/
theorem of_pending (hCapacity : stream.capacity = capacity)
    (hRoom : stream.queue.length ≤ capacity) (hHungUp : stream.hungUp = false)
    (hPending : stream.pending = tokens) : Carries capacity tokens stream where
  bounded := hCapacity
  room := hRoom
  received := ⟨stream.queue ++ stream.unsent, by rw [← hPending, pending, List.append_assoc]⟩
  whole _ := hPending
  dropped hGone := by
    rw [hHungUp] at hGone
    cases hGone

/-- A token that is sent waits behind the others and takes no more room than there is; where nobody
waits for it, it is dropped with all others. -/
theorem send (carries : Carries capacity tokens stream) (hSend : stream.send? = some next) :
    Carries capacity tokens next := by
  obtain ⟨token, unsent, hUnsent, ⟨hGone, rfl⟩ | ⟨hHere, hRoom, rfl⟩⟩ := send?_cases hSend
  · refine ⟨carries.bounded, carries.room, carries.received, ?_, carries.dropped⟩
    intro hHere
    rw [hGone] at hHere
    cases hHere
  · have hPending := (of_send? hHere hSend).2.1
    refine of_pending carries.bounded ?_ hHere (hPending.trans (carries.whole hHere))
    rw [List.length_append, ← carries.bounded]
    exact hRoom

/-- The token that is received is the next one of the source, whether it waited in the queue or was
handed over directly. -/
theorem receive (carries : Carries capacity tokens stream)
    (hReceive : stream.receive? = some next) : Carries capacity tokens next := by
  have hPending := (of_receive? hReceive).2.1
  have hRoom := carries.room
  obtain ⟨hHere, token, rest, ⟨hQueue, rfl⟩ | ⟨-, -, -, rfl⟩⟩ := receive?_cases hReceive
  · refine of_pending carries.bounded ?_ hHere (hPending.trans (carries.whole hHere))
    rw [hQueue, List.length_cons] at hRoom
    exact Nat.le_of_succ_le hRoom
  · exact of_pending carries.bounded hRoom hHere (hPending.trans (carries.whole hHere))

theorem hangUp (carries : Carries capacity tokens stream) :
    Carries capacity tokens stream.hangUp where
  bounded := carries.bounded
  room := Nat.zero_le _
  received := carries.received
  whole := nofun
  dropped _ := rfl

/-- No move loses a token or puts one in another place. -/
theorem step (carries : Carries capacity tokens stream) (move : Step stream next) :
    Carries capacity tokens next := by
  cases move with
  | send hSend => exact carries.send hSend
  | receive hReceive => exact carries.receive hReceive
  | hangUp _ => exact carries.hangUp

/-- Tokens stay under way through any number of moves: none is lost, doubled or put in another place
while the consumer is there. -/
theorem moves (carries : Carries capacity tokens stream) {later : TokenStream}
    (moves : Moves stream later) : Carries capacity tokens later := by
  induction moves with
  | refl => exact carries
  | tail _ move ih => exact ih.step move

/-- The consumer is told of the end exactly when it has everything. -/
theorem ended_iff (carries : Carries capacity tokens stream) (hHungUp : stream.hungUp = false) :
    stream.ended = true ↔ stream.received = tokens := by
  rw [← carries.whole hHungUp, pending, List.append_assoc, List.self_eq_append_right]
  simp [ended]

end Carries

/-- Behind a hang-up only the scanner moves, and it only stops. -/
theorem Step.of_hungUp {stream next : TokenStream} (move : Step stream next)
    (hHungUp : stream.hungUp = true) :
    next.hungUp = true ∧ next.queue = stream.queue ∧ next.received = stream.received ∧
      next.unsent = [] := by
  cases move with
  | send hSend =>
      obtain ⟨token, unsent, -, ⟨-, rfl⟩ | ⟨hHere, -⟩⟩ := send?_cases hSend
      · exact ⟨hHungUp, rfl, rfl, rfl⟩
      · rw [hHungUp] at hHere
        cases hHere
  | receive hReceive =>
      obtain ⟨hHere, -⟩ := receive?_cases hReceive
      rw [hHungUp] at hHere
      cases hHere
  | hangUp hPresent =>
      rw [hHungUp] at hPresent
      cases hPresent

/-- Behind a hang-up no move hands a token over. Either nothing has moved since, or the scanner has
noticed and given up what it had left. -/
theorem Moves.of_hungUp {stream later : TokenStream} (moves : Moves stream later)
    (hHungUp : stream.hungUp = true) :
    later.hungUp = true ∧ later.queue = stream.queue ∧ later.received = stream.received ∧
      (later = stream ∨ later.unsent = []) := by
  induction moves with
  | refl => exact ⟨hHungUp, rfl, rfl, .inl rfl⟩
  | tail _ move ih =>
      obtain ⟨hGone, hQueue, hReceived, -⟩ := ih
      obtain ⟨hStill, hQueue', hReceived', hUnsent⟩ := move.of_hungUp hGone
      exact ⟨hStill, hQueue'.trans hQueue, hReceived'.trans hReceived, .inr hUnsent⟩

/-- As long as the consumer is there and does not have everything, one of the two can move. -/
theorem exists_move {stream : TokenStream} (hHungUp : stream.hungUp = false)
    (hEnded : stream.ended = false) :
    ∃ next, stream.send? = some next ∨ stream.receive? = some next := by
  cases hSend : stream.send? with
  | some next => exact ⟨next, .inl rfl⟩
  | none =>
      cases hReceive : stream.receive? with
      | some next => exact ⟨next, .inr rfl⟩
      | none =>
          have hLeft := received_of_stuck hHungUp hSend hReceive
          rw [pending, List.append_assoc, List.self_eq_append_right] at hLeft
          simp_all [ended]

end TokenStream

open TokenStream

/-- Scanning ahead under any schedule. The consumer has the first tokens of the source, and no more
wait than may. It is told of the end exactly when it has all of them, and until then one side can
move. Once it has gone nothing is handed over any more, and the scanner's next move is its last. A
document read from what the consumer got in the end is the one that the source holds, whatever the
options are. So is one read from as much as a reader of the whole source takes in, and a consumer
that has this much may go away without losing anything. -/
theorem delivers_of_moves {capacity : Nat} {source : String} {stream : TokenStream}
    (moves : Moves (start capacity (scan source)) stream) :
    stream.received <+: scan source ∧ stream.queue.length ≤ capacity ∧
      (stream.hungUp = false →
        (stream.ended = true ↔ stream.received = scan source) ∧
        (stream.ended = false →
          ∃ next, stream.send? = some next ∨ stream.receive? = some next)) ∧
      (stream.hungUp = true → ∀ later, Moves stream later →
        later.queue = [] ∧ later.received = stream.received ∧
          (later = stream ∨ later.unsent = [])) ∧
      ∀ text options, (Text.expandTabs text = source → stream.hungUp = false →
        stream.ended = true → parseTokens stream.received = parseWith options text) ∧
        (Text.expandTabs text = source →
          (Cursor.start (scan source)).parseDocument.2.reached ≤ stream.received.length →
          parseTokens stream.received = parseWith options text) ∧
        ∀ others, parseWith options text = parseWith others text := by
  have hCarries := (Carries.start capacity (scan source)).moves moves
  refine ⟨hCarries.received, hCarries.room, ?_, ?_, ?_⟩
  · intro hHungUp
    exact ⟨hCarries.ended_iff hHungUp, exists_move hHungUp⟩
  · intro hHungUp later hLater
    obtain ⟨-, hQueue, hReceived, hUnsent⟩ := hLater.of_hungUp hHungUp
    exact ⟨hQueue.trans (hCarries.dropped hHungUp), hReceived, hUnsent⟩
  · intro text options
    refine ⟨?_, ?_, ?_⟩
    · intro hSource hHungUp hEnded
      rw [(hCarries.ended_iff hHungUp).mp hEnded, parseWith_eq, hSource]
    · intro hSource hReached
      rw [List.prefix_iff_eq_take.mp hCarries.received, parseTokens_take_of_reached hReached,
        parseWith_eq, hSource]
    · intro others
      rw [parseWith_eq, parseWith_eq]

/-- A consumer that takes one token of three with no room to wait, and goes away: the scanner stops
at its next move. -/
theorem delivers_of_moves_rendezvous :
    let tokens := scan "[1]"
    let gone : TokenStream := ⟨0, tokens.tail, [], tokens.take 1, true⟩
    Moves (start 0 tokens) gone ∧ gone.received <+: tokens ∧
      ∀ later, Moves gone later → later.received = gone.received := by
  intro tokens gone
  have hMoves : Moves (start 0 tokens) gone := by
    have hReceive : Step (start 0 tokens) { gone with hungUp := false } :=
      .receive (by decide)
    exact (Relation.ReflTransGen.single hReceive).tail (.hangUp rfl)
  obtain ⟨hReceived, -, -, hGone, -⟩ := delivers_of_moves hMoves
  exact ⟨hMoves, hReceived, fun later hLater => (hGone rfl later hLater).2.1⟩

end DocumentLanguage
