import DocumentLanguage.Proofs.Parse.Spot

/-!
Where a cursor stands. The reads that look for one token find what is found from the spot where
the cursor stands, and they only ever move it on.
-/
namespace DocumentLanguage

/-- What a step of a reader does to a cursor. -/
def Reading.exec {α : Type} (reading : Reading α) (cursor : Cursor) : Except Failure α × Cursor :=
  reading.run.run cursor

namespace Reading

variable {α β : Type}

@[simp] theorem exec_pure (value : α) (cursor : Cursor) :
    (pure value : Reading α).exec cursor = (.ok value, cursor) := rfl

/-- One step and then another: the second is made from where the first one leaves the reader, and
not at all if the first one fails. The state outlasts the failure. -/
theorem exec_bind (reading : Reading α) (next : α → Reading β) (cursor : Cursor) :
    (reading >>= next).exec cursor =
      match reading.exec cursor with
      | (.ok value, after) => (next value).exec after
      | (.error failure, after) => (.error failure, after) := by
  simp only [exec, ExceptT.run_bind, StateT.run_bind]
  rcases reading.run.run cursor with ⟨outcome, after⟩
  cases outcome <;> rfl

/-- Where one reading and then another goes well, both do, with some place in between. -/
theorem of_exec_bind_ok {reading : Reading α} {next : α → Reading β} {cursor after : Cursor}
    {value : β} (hRun : (reading >>= next).exec cursor = (.ok value, after)) :
    ∃ first between, reading.exec cursor = (.ok first, between) ∧
      (next first).exec between = (.ok value, after) := by
  rw [exec_bind] at hRun
  rcases hFirst : reading.exec cursor with ⟨outcome, between⟩
  rw [hFirst] at hRun
  cases outcome with
  | ok first => exact ⟨first, between, rfl, hRun⟩
  | error failure => cases hRun

theorem exec_map (f : α → β) (reading : Reading α) (cursor : Cursor) :
    (f <$> reading).exec cursor =
      match reading.exec cursor with
      | (.ok value, after) => (.ok (f value), after)
      | (.error failure, after) => (.error failure, after) := by
  simp only [exec, ExceptT.run_map, StateT.run_map]
  rcases reading.run.run cursor with ⟨outcome, after⟩
  cases outcome <;> rfl

/-- A failure is handled where it happened, not where the reading began, so that what was taken in
stays taken in. -/
theorem exec_tryCatch (reading : Reading α) (handler : Failure → Reading α) (cursor : Cursor) :
    (tryCatch reading handler).exec cursor =
      match reading.exec cursor with
      | (.ok value, after) => (.ok value, after)
      | (.error failure, after) => (handler failure).exec after := by
  simp only [exec, tryCatch, tryCatchThe, MonadExceptOf.tryCatch, ExceptT.tryCatch,
    ExceptT.run_mk, StateT.run_bind]
  rcases hRun : reading.run.run cursor with ⟨outcome, after⟩
  rw [show StateT.run reading cursor = (outcome, after) from hRun]
  cases outcome <;> rfl

@[simp] theorem exec_throw (failure : Failure) (cursor : Cursor) :
    (throw failure : Reading α).exec cursor = (.error failure, cursor) := rfl

@[simp] theorem exec_get (cursor : Cursor) :
    (get : Reading Cursor).exec cursor = (.ok cursor, cursor) := rfl

@[simp] theorem exec_modify (f : Cursor → Cursor) (cursor : Cursor) :
    (modify f : Reading Unit).exec cursor = (.ok (), f cursor) := rfl

@[simp] theorem exec_modifyGet (f : Cursor → α × Cursor) (cursor : Cursor) :
    (modifyGet f : Reading α).exec cursor = (.ok (f cursor).1, (f cursor).2) := rfl

theorem exec_withinLine (reading : Reading α) (cursor : Cursor) :
    (withinLine reading).exec cursor =
      ((reading.exec { cursor with line := some cursor.nesting }).1,
        { (reading.exec { cursor with line := some cursor.nesting }).2 with line := cursor.line }) := by
  simp only [withinLine, exec_bind, exec_get, exec_modify, exec_tryCatch]
  rcases reading.exec { cursor with line := some cursor.nesting } with ⟨outcome, after⟩
  cases outcome <;> rfl

end Reading

namespace Cursor

/-- A cursor stands at a spot, on a statement line. -/
structure At (cursor : Cursor) (line : Line) (spot : Spot) : Prop where
  rest : cursor.tokens.toList.drop cursor.position = spot.rest
  within : cursor.position ≤ cursor.tokens.size
  nesting : cursor.nesting = spot.nesting
  line : cursor.line = line

/-- The reader stands among the tokens that it holds, and so does every place that may be turned
back to, the oldest first. -/
structure Steady (cursor : Cursor) : Prop where
  offset_le : cursor.offset ≤ cursor.position
  taken : cursor.position ≤ cursor.reached
  ordered : cursor.savePoints.Pairwise (· ≤ ·)
  held : ∀ mark ∈ cursor.savePoints, cursor.offset ≤ mark ∧ mark ≤ cursor.position

/-- The reader has only moved on: nothing was let go of, and no save-point came or went. -/
structure MovesTo (before after : Cursor) : Prop where
  tokens : after.tokens = before.tokens
  offset : after.offset = before.offset
  savePoints : after.savePoints = before.savePoints
  position : before.position ≤ after.position
  reached : before.reached ≤ after.reached
  /-- It has moved past no token that was not taken in. -/
  taken : before.position ≤ before.reached → after.position ≤ after.reached

theorem MovesTo.refl (cursor : Cursor) : cursor.MovesTo cursor :=
  ⟨rfl, rfl, rfl, Nat.le_refl _, Nat.le_refl _, id⟩

theorem MovesTo.trans {first second third : Cursor} (left : first.MovesTo second)
    (right : second.MovesTo third) : first.MovesTo third :=
  ⟨right.tokens.trans left.tokens, right.offset.trans left.offset,
    right.savePoints.trans left.savePoints, Nat.le_trans left.position right.position,
    Nat.le_trans left.reached right.reached, right.taken ∘ left.taken⟩

/-- Taking more tokens in moves a reader nowhere, and nothing is lost by it. -/
theorem MovesTo.reach {cursor : Cursor} {reached : Nat} (hMore : cursor.reached ≤ reached) :
    cursor.MovesTo { cursor with reached := reached } :=
  ⟨rfl, rfl, rfl, Nat.le_refl _, hMore, fun hTaken => Nat.le_trans hTaken hMore⟩

/-- Moving past a token that was taken in keeps the reader among the tokens that it holds. -/
theorem MovesTo.pass {cursor after : Cursor} (hTokens : after.tokens = cursor.tokens)
    (hOffset : after.offset = cursor.offset) (hPoints : after.savePoints = cursor.savePoints)
    (hPosition : after.position = cursor.position + 1) (hReached : after.reached = cursor.reached)
    (hTaken : cursor.position < cursor.reached) : cursor.MovesTo after :=
  ⟨hTokens, hOffset, hPoints, by omega, by omega, fun _ => by omega⟩

/-- A reader that only moves on still stands among the tokens that it holds, and so do the places
behind it. -/
theorem Steady.of_movesTo {before after : Cursor} (steady : before.Steady)
    (moves : before.MovesTo after) : after.Steady := by
  refine ⟨?_, moves.taken steady.taken, ?_, ?_⟩
  · rw [moves.offset]
    exact Nat.le_trans steady.offset_le moves.position
  · rw [moves.savePoints]
    exact steady.ordered
  · intro mark hMark
    rw [moves.savePoints] at hMark
    rw [moves.offset]
    exact ⟨(steady.held mark hMark).1, Nat.le_trans (steady.held mark hMark).2 moves.position⟩

/-- A cursor that has only moved on and is then turned back has not moved. -/
theorem MovesTo.reset {before after : Cursor} (moves : before.MovesTo after) :
    before.MovesTo (after.reset before.mark) :=
  ⟨moves.tokens, moves.offset, moves.savePoints, Nat.le_refl _, moves.reached,
    fun hTaken => Nat.le_trans hTaken moves.reached⟩

/-- Some save-points may have come, but the first ones are as they were. -/
structure Keeps (count : Nat) (before after : Cursor) : Prop where
  tokens : after.tokens = before.tokens
  steady : after.Steady
  enough : count ≤ after.savePoints.length
  same : after.savePoints.take count = before.savePoints.take count

theorem MovesTo.keeps {before after : Cursor} (moves : before.MovesTo after)
    (steady : before.Steady) : Keeps before.savePoints.length before after :=
  ⟨moves.tokens, steady.of_movesTo moves, by simp [moves.savePoints], by rw [moves.savePoints]⟩

/-- Where the first places are as they were, so are any fewer of them. -/
theorem Keeps.of_le {count fewer : Nat} {before after : Cursor} (keeps : Keeps count before after)
    (hLe : fewer ≤ count) : Keeps fewer before after := by
  refine ⟨keeps.tokens, keeps.steady, Nat.le_trans hLe keeps.enough, ?_⟩
  have hSame := congrArg (List.take fewer) keeps.same
  simpa [List.take_take, Nat.min_eq_left hLe] using hSame

theorem Keeps.trans {count : Nat} {first second third : Cursor} (left : Keeps count first second)
    (right : Keeps count second third) : Keeps count first third :=
  ⟨right.tokens.trans left.tokens, right.steady, right.enough, right.same.trans left.same⟩

end Cursor

namespace Cursor

variable {cursor : Cursor} {line : Line} {spot : Spot}

theorem At.head? (stands : cursor.At line spot) :
    cursor.tokens[cursor.position]? = spot.rest.head? := by
  rw [← stands.rest, List.head?_drop, Array.getElem?_toList]

theorem At.lt {token : Token} {rest : List Token} {nesting : Nat}
    (stands : cursor.At line ⟨token :: rest, nesting⟩) : cursor.position < cursor.tokens.size := by
  have hHead := stands.head?
  simp only [List.head?_cons] at hHead
  exact (Array.getElem?_eq_some_iff.mp hHead).1

/-- Taking tokens in changes nothing about where the reader stands, and so nothing about what it
finds there. -/
theorem At.reach {reached : Nat} (stands : cursor.At line spot) :
    ({ cursor with reached := reached } : Cursor).At line spot :=
  ⟨stands.rest, stands.within, stands.nesting, stands.line⟩

theorem At.advance {after : Cursor} {token : Token} {rest : List Token} {nesting deeper : Nat}
    (stands : cursor.At line ⟨token :: rest, nesting⟩) (hTokens : after.tokens = cursor.tokens)
    (hPosition : after.position = cursor.position + 1) (hNesting : after.nesting = deeper)
    (hLine : after.line = cursor.line) : after.At line ⟨rest, deeper⟩ := by
  refine ⟨?_, by rw [hPosition, hTokens]; exact stands.lt, hNesting, hLine.trans stands.line⟩
  have hRest := congrArg List.tail stands.rest
  simpa [hTokens, hPosition, List.tail_drop] using hRest

/-- The loops of a reader run once more than there are tokens ahead, so that they also come to see
the end. -/
theorem At.ahead (stands : cursor.At line spot) : spot.rest.length < cursor.ahead := by
  have hRest := congrArg List.length stands.rest
  have hWithin := stands.within
  simp only [List.length_drop, Array.length_toList] at hRest
  simp only [Cursor.ahead]
  omega

end Cursor

/-- An outcome and the cursor behind it are what a reply says. -/
def Reply.Tells {α : Type} (line : Line) (spot : Spot) :
    Reply α → Except Failure (Option α) → Cursor → Prop
  | found value _ next, outcome, after => outcome = .ok (some value) ∧ after.At line next
  | absent, outcome, after => outcome = .ok none ∧ after.At line spot
  | failed failure next, outcome, after => outcome = .error failure ∧ after.At line next

namespace Reading

open Cursor

variable {cursor : Cursor} {line : Line} {spot : Spot}

/-- A token that was not let go of is found by its index, and by then it has been taken in. Behind
the last token there is none to be found. -/
theorem exec_tokenAt {index : Nat} (hKept : cursor.offset ≤ index) :
    ∃ reached, cursor.reached ≤ reached ∧ (index < cursor.tokens.size → index < reached) ∧
      (tokenAt index).exec cursor =
        (.ok cursor.tokens[index]?, { cursor with reached := reached }) := by
  refine ⟨max cursor.reached (min (index + 1) cursor.tokens.size), Nat.le_max_left _ _, ?_, ?_⟩
  · intro hIndex
    omega
  · simp [tokenAt, look, Nat.not_lt.mpr hKept]

/-- The first token from a place on that is not layout. -/
theorem exec_significantFrom (hOffset : cursor.offset ≤ cursor.position) (bound passed : Nat)
    (rest : List Token) (hRest : cursor.tokens.toList.drop (cursor.position + passed) = rest)
    (hBound : rest.length < bound) :
    ∃ reached, cursor.reached ≤ reached ∧
      (significantFrom bound (cursor.position + passed)).exec cursor =
      (match rest.dropWhile (·.kind.isLayout) with
        | [] => .ok none
        | token :: _ => if token.kind = .error then .error (.lexical token) else .ok (some token),
        { cursor with reached := reached }) := by
  induction bound generalizing passed rest cursor with
  | zero => omega
  | succ bound ih =>
      have hHead : cursor.tokens[cursor.position + passed]? = rest.head? := by
        rw [← hRest, List.head?_drop, Array.getElem?_toList]
      obtain ⟨reached, hMore, -, hLook⟩ :=
        exec_tokenAt (Nat.le_add_right_of_le hOffset (k := passed))
      simp only [significantFrom, exec_bind, hLook, hHead]
      cases rest with
      | nil => exact ⟨_, hMore, rfl⟩
      | cons token rest =>
          simp only [List.head?_cons]
          by_cases hLayout : token.kind.isLayout = true
          · have hTail : cursor.tokens.toList.drop (cursor.position + (passed + 1)) = rest := by
              have hRest := congrArg List.tail hRest
              simpa [List.tail_drop, Nat.add_assoc] using hRest
            have hHeld : ({ cursor with reached := reached } : Cursor).offset ≤
                ({ cursor with reached := reached } : Cursor).position := hOffset
            obtain ⟨later, hLater, hRun⟩ :=
              ih hHeld (passed + 1) rest hTail (by simpa using hBound)
            refine ⟨later, Nat.le_trans hMore hLater, ?_⟩
            simpa [hLayout, List.dropWhile_cons, Nat.add_assoc] using hRun
          · refine ⟨reached, hMore, ?_⟩
            simp only [List.dropWhile_cons, if_neg hLayout]
            by_cases hError : token.kind = .error <;> simp [hError]

/-- The next token behind any layout is told without reading it. A lexical error there fails the
reading instead. -/
theorem exec_peek (stands : cursor.At line spot) (hOffset : cursor.offset ≤ cursor.position) :
    ∃ reached, cursor.reached ≤ reached ∧ peek.exec cursor =
      (match spot.behindLayout.rest with
        | [] => .ok none
        | token :: _ => if token.kind = .error then .error (.lexical token) else .ok (some token),
        { cursor with reached := reached }) := by
  simp only [peek, exec_bind, exec_get]
  exact exec_significantFrom hOffset cursor.ahead 0 spot.rest stands.rest stands.ahead

/-- Failing in a rule leaves the reader where it is. It tells of the token behind any layout, and of
a lexical error first. -/
theorem exec_failIn {α : Type} (stands : cursor.At line spot)
    (hOffset : cursor.offset ≤ cursor.position) (rule : Rule) :
    ∃ reached, cursor.reached ≤ reached ∧ (failIn rule : Reading α).exec cursor =
      (.error (spot.failure rule), { cursor with reached := reached }) := by
  obtain ⟨reached, hMore, hPeek⟩ := exec_peek stands hOffset
  refine ⟨reached, hMore, ?_⟩
  simp only [failIn, exec_bind, hPeek, Spot.failure]
  cases spot.behindLayout.rest with
  | nil => rfl
  | cons token _ => by_cases hError : token.kind = .error <;> simp [hError]

/-- The next token is read past what a read goes over: the spaces, and the newlines as well where
they do not end the line. -/
theorem exec_nextWithin (overLines : Bool) (bound : Nat) {rest : List Token} {nesting : Nat}
    (stands : cursor.At line ⟨rest, nesting⟩) (hOffset : cursor.offset ≤ cursor.position)
    (hBound : rest.length < bound) :
    ∃ outcome after, (nextWithin overLines bound).exec cursor = (outcome, after) ∧
      cursor.MovesTo after ∧
      match Spot.visible line overLines ⟨rest, nesting⟩ with
      | [] => outcome = .ok none ∧ after.line = line
      | token :: rest =>
        if token.kind = .error then
          outcome = .error (.lexical token) ∧ after.At line ⟨token :: rest, nesting⟩
        else
          outcome = .ok (some token) ∧ after.At line ⟨rest, nestingAfter token nesting⟩ := by
  induction bound generalizing cursor rest with
  | zero => omega
  | succ bound ih =>
      have hNesting : cursor.nesting = nesting := stands.nesting
      obtain ⟨reached, hMore, hTaken, hLook⟩ := exec_tokenAt hOffset
      simp only [nextWithin, exec_bind, exec_get, hLook, stands.head?, Spot.visible]
      have hHere : cursor.MovesTo { cursor with reached := reached } := .reach hMore
      cases rest with
      | nil => exact ⟨_, _, rfl, hHere, rfl, stands.line⟩
      | cons token rest =>
          have hPass : (decide (token.kind = .space) ||
              (decide (token.kind = .newline) && overLines && !cursor.lineBound)) =
              Spot.passes line overLines ⟨token :: rest, nesting⟩ token := by
            simp [Spot.passes, Cursor.lineBound, stands.line, stands.nesting]
          simp only [List.head?_cons, hPass, List.dropWhile_cons]
          by_cases hPasses : Spot.passes line overLines ⟨token :: rest, nesting⟩ token = true
          · simp only [if_pos hPasses, exec_bind, exec_modify]
            have hNext : (Cursor.advance { cursor with reached := reached }).At line
                ⟨rest, nesting⟩ := stands.advance rfl rfl hNesting rfl
            obtain ⟨outcome, after, hRun, hMoves, hAfter⟩ :=
              ih hNext (Nat.le_succ_of_le hOffset) (by simpa using hBound)
            have hPass : MovesTo { cursor with reached := reached }
                (Cursor.advance { cursor with reached := reached }) :=
              .pass rfl rfl rfl rfl rfl (hTaken stands.lt)
            exact ⟨outcome, after, hRun, hHere.trans (hPass.trans hMoves), hAfter⟩
          · simp only [if_neg hPasses]
            by_cases hError : token.kind = .error
            · simp only [if_pos hError]
              exact ⟨_, _, rfl, hHere, rfl, stands.reach⟩
            · simp only [if_neg hError, exec_bind, exec_modify]
              have hPass : MovesTo { cursor with reached := reached }
                  (Cursor.consume { cursor with reached := reached } token) :=
                .pass rfl rfl rfl rfl rfl (hTaken stands.lt)
              refine ⟨_, _, rfl, hHere.trans hPass, rfl, ?_⟩
              exact stands.advance rfl rfl (congrArg (nestingAfter token) hNesting) rfl

/-- A reader that looks for a token finds what is found from its spot, and where it is missing it
stands there again. -/
theorem exec_expect (overLines : Bool) (test : Token → Bool) (stands : cursor.At line spot)
    (hOffset : cursor.offset ≤ cursor.position) :
    ∃ outcome after, (expect overLines test).exec cursor = (outcome, after) ∧
      cursor.MovesTo after ∧ (spot.expect line overLines test).Tells line spot outcome after := by
  obtain ⟨rest, nesting⟩ := spot
  obtain ⟨outcome, after, hRun, hMoves, hNext⟩ :=
    exec_nextWithin overLines cursor.ahead stands hOffset stands.ahead
  have hBack : after.line = line → (after.reset cursor.mark).At line ⟨rest, nesting⟩ := by
    intro hLine
    exact ⟨by simpa [reset, mark, hMoves.tokens] using stands.rest,
      by simpa [reset, mark, hMoves.tokens] using stands.within, stands.nesting, hLine⟩
  simp only [expect, next, exec_bind, exec_get, hRun, Spot.expect]
  cases hVisible : Spot.visible line overLines ⟨rest, nesting⟩ with
  | nil =>
      simp only [hVisible] at hNext
      obtain ⟨rfl, hLine⟩ := hNext
      exact ⟨_, _, rfl, hMoves.reset, rfl, hBack hLine⟩
  | cons token tail =>
      simp only [hVisible] at hNext
      by_cases hError : token.kind = .error
      · simp only [if_pos hError] at hNext ⊢
        obtain ⟨rfl, hAfter⟩ := hNext
        exact ⟨_, _, rfl, hMoves, rfl, hAfter⟩
      · simp only [if_neg hError] at hNext ⊢
        obtain ⟨rfl, hAfter⟩ := hNext
        by_cases hTest : test token = true
        · simp only [if_pos hTest]
          exact ⟨_, _, rfl, hMoves, rfl, hAfter⟩
        · simp only [if_neg hTest]
          exact ⟨_, _, rfl, hMoves.reset, rfl, hBack hAfter.line⟩

theorem exec_skipLayoutWithin (bound : Nat) {rest : List Token} {nesting : Nat}
    (stands : cursor.At line ⟨rest, nesting⟩) (hOffset : cursor.offset ≤ cursor.position)
    (hBound : rest.length < bound) :
    ∃ after, (skipLayoutWithin bound).exec cursor = (.ok (), after) ∧ cursor.MovesTo after ∧
      after.At line ⟨rest.dropWhile (·.kind.isLayout), nesting⟩ := by
  induction bound generalizing cursor rest with
  | zero => omega
  | succ bound ih =>
      obtain ⟨reached, hMore, hTaken, hLook⟩ := exec_tokenAt hOffset
      simp only [skipLayoutWithin, exec_bind, exec_get, hLook, stands.head?]
      have hHere : cursor.MovesTo { cursor with reached := reached } := .reach hMore
      cases rest with
      | nil => exact ⟨_, rfl, hHere, stands.reach⟩
      | cons token rest =>
          simp only [List.head?_cons, List.dropWhile_cons]
          by_cases hLayout : token.kind.isLayout = true
          · simp only [if_pos hLayout, exec_bind, exec_modify]
            have hNext : (Cursor.advance { cursor with reached := reached }).At line
                ⟨rest, nesting⟩ := stands.advance rfl rfl stands.nesting rfl
            obtain ⟨after, hRun, hMoves, hAfter⟩ :=
              ih hNext (Nat.le_succ_of_le hOffset) (by simpa using hBound)
            have hPass : MovesTo { cursor with reached := reached }
                (Cursor.advance { cursor with reached := reached }) :=
              .pass rfl rfl rfl rfl rfl (hTaken stands.lt)
            exact ⟨after, hRun, hHere.trans (hPass.trans hMoves), hAfter⟩
          · simp only [if_neg hLayout]
            exact ⟨_, rfl, hHere, stands.reach⟩

/-- Passing over layout takes a reader to the spot behind it, past newlines that would end a
statement line elsewhere. -/
theorem exec_skipLayout (stands : cursor.At line spot)
    (hOffset : cursor.offset ≤ cursor.position) :
    ∃ after, skipLayout.exec cursor = (.ok (), after) ∧ cursor.MovesTo after ∧
      after.At line spot.behindLayout := by
  simp only [skipLayout, exec_bind, exec_get]
  exact exec_skipLayoutWithin cursor.ahead stands hOffset stands.ahead

end Reading

end DocumentLanguage
