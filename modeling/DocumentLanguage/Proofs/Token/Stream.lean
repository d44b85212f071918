import DocumentLanguage.Token.Stream

/-!
What the consumer of a stream gets in the end: every token that was scanned, in order, whatever the
capacity of the queue.
-/
namespace DocumentLanguage.TokenStream

/-- What the consumer has or can still get. -/
def pending (stream : TokenStream) : List Token :=
  stream.received ++ stream.queue ++ stream.unsent

/-- How many moves are left at most: a waiting token needs one, an unsent one two. -/
def movesLeft (stream : TokenStream) : Nat :=
  2 * stream.unsent.length + stream.queue.length

/-- All that the scanner can do: it stops if the consumer has gone, and else puts a token where
there is room for it. -/
theorem send?_cases {stream next : TokenStream} (hSend : stream.send? = some next) :
    ∃ token unsent, stream.unsent = token :: unsent ∧
      ((stream.hungUp = true ∧ next = { stream with unsent := [] }) ∨
        (stream.hungUp = false ∧ stream.queue.length < stream.capacity ∧
          next = { stream with unsent := unsent, queue := stream.queue ++ [token] })) := by
  cases hUnsent : stream.unsent with
  | nil => simp [send?, hUnsent] at hSend
  | cons token unsent =>
      refine ⟨token, unsent, rfl, ?_⟩
      simp only [send?, hUnsent] at hSend
      split at hSend
      · rename_i hHungUp
        exact .inl ⟨hHungUp, (Option.some.inj hSend).symm⟩
      · rename_i hHungUp
        split at hSend
        · rename_i hRoom
          exact .inr ⟨by simpa using hHungUp, hRoom, (Option.some.inj hSend).symm⟩
        · cases hSend

/-- All that the consumer can do: it takes the token that has waited longest, or the scanner's next
one where none may wait. -/
theorem receive?_cases {stream next : TokenStream} (hReceive : stream.receive? = some next) :
    stream.hungUp = false ∧ ∃ token rest,
      (stream.queue = token :: rest ∧
        next = { stream with queue := rest, received := stream.received ++ [token] }) ∨
      (stream.queue = [] ∧ stream.capacity = 0 ∧ stream.unsent = token :: rest ∧
        next = { stream with unsent := rest, received := stream.received ++ [token] }) := by
  simp only [receive?] at hReceive
  split at hReceive
  · cases hReceive
  · rename_i hHungUp
    refine ⟨by simpa using hHungUp, ?_⟩
    split at hReceive
    · rename_i token queue hQueue
      exact ⟨token, queue, .inl ⟨hQueue, (Option.some.inj hReceive).symm⟩⟩
    · rename_i hQueue
      split at hReceive
      · rename_i token unsent hCapacity hUnsent
        exact ⟨token, unsent, .inr ⟨hQueue, hCapacity, hUnsent, (Option.some.inj hReceive).symm⟩⟩
      · cases hReceive

/-- Sending changes neither whether the consumer is there nor what is still to come, and there are
fewer moves left. -/
theorem of_send? {stream next : TokenStream} (hHungUp : stream.hungUp = false)
    (hSend : stream.send? = some next) :
    next.hungUp = false ∧ next.pending = stream.pending ∧ next.movesLeft < stream.movesLeft := by
  obtain ⟨token, unsent, hUnsent, ⟨hGone, -⟩ | ⟨-, -, rfl⟩⟩ := send?_cases hSend
  · rw [hHungUp] at hGone
    cases hGone
  · refine ⟨hHungUp, by simp [pending, hUnsent], ?_⟩
    simp only [movesLeft, hUnsent, List.length_append, List.length_cons, List.length_nil]
    omega

/-- Receiving changes neither whether the consumer is there nor the tokens as a whole, and there are
fewer moves left. -/
theorem of_receive? {stream next : TokenStream} (hReceive : stream.receive? = some next) :
    next.hungUp = false ∧ next.pending = stream.pending ∧ next.movesLeft < stream.movesLeft := by
  obtain ⟨hHungUp, token, rest, ⟨hQueue, rfl⟩ | ⟨hQueue, -, hUnsent, rfl⟩⟩ :=
    receive?_cases hReceive
  · refine ⟨hHungUp, by simp [pending, hQueue], ?_⟩
    simp only [movesLeft, hQueue, List.length_cons]
    omega
  · refine ⟨hHungUp, by simp [pending, hQueue, hUnsent], ?_⟩
    simp only [movesLeft, hUnsent, List.length_cons]
    omega

/-- Where neither side can move nothing is left to get, so that a stream never comes to a standstill
before its end. -/
theorem received_of_stuck {stream : TokenStream} (hHungUp : stream.hungUp = false)
    (hSend : stream.send? = none) (hReceive : stream.receive? = none) :
    stream.received = stream.pending := by
  obtain ⟨capacity, unsent, queue, received, hungUp⟩ := stream
  dsimp only at hHungUp
  subst hHungUp
  cases queue with
  | cons token queue => cases hReceive
  | nil =>
      cases unsent with
      | nil => simp [pending]
      | cons token unsent =>
          cases capacity with
          | zero => cases hReceive
          | succ capacity => simp [send?] at hSend

/-- Draining a stream gets all that was still to come, whatever the capacity of its queue is. -/
theorem drain_eq_pending {bound : Nat} {stream : TokenStream} (hHungUp : stream.hungUp = false)
    (hBound : stream.movesLeft ≤ bound) : drain bound stream = stream.pending := by
  induction bound generalizing stream with
  | zero =>
      have hUnsent : stream.unsent = [] := by
        refine List.eq_nil_of_length_eq_zero ?_
        simp only [movesLeft] at hBound
        omega
      have hQueue : stream.queue = [] := by
        refine List.eq_nil_of_length_eq_zero ?_
        simp only [movesLeft] at hBound
        omega
      simp [drain, pending, hUnsent, hQueue]
  | succ bound ih =>
      simp only [drain]
      split
      · rename_i next hSend
        obtain ⟨hNext, hPending, hLess⟩ := of_send? hHungUp hSend
        rw [ih hNext (by omega), hPending]
      · rename_i hSend
        split
        · rename_i next hReceive
          obtain ⟨hNext, hPending, hLess⟩ := of_receive? hReceive
          rw [ih hNext (by omega), hPending]
        · rename_i hReceive
          exact received_of_stuck hHungUp hSend hReceive

/-- A queue hands over exactly the tokens of the source, in their order. -/
theorem tokens_eq_scan (capacity : Nat) (source : String) : tokens capacity source = scan source := by
  have hBound : (start capacity (scan source)).movesLeft ≤ 2 * (scan source).length := by
    simp [movesLeft, start]
  rw [tokens, drain_eq_pending rfl hBound]
  simp [pending, start]

end DocumentLanguage.TokenStream
