import DocumentLanguage.Proofs.Parse.Compared
import DocumentLanguage.Proofs.Parse.Larger

/-!
Tokens that are never asked for. A reader that has taken in only the first tokens of a source when
it is done has not learned that there are others: it gives the same, and stands the same, where the
source ends behind those tokens. So whoever hands it tokens one by one may keep the others back.
-/
namespace DocumentLanguage

open Cursor

/-- A budget that is enough may be any larger one, and neither what is read nor where the reader
stops depends on it. -/
theorem exec_documentWithin_of_le {bound more : Nat} (hMore : bound ≤ more) {cursor : Cursor}
    (hEnough : ((documentWithin bound).exec cursor).1 ≠ .error .exhausted) :
    (documentWithin more).exec cursor = (documentWithin bound).exec cursor :=
  (extendsTo_readRule hMore .document none).bind (fun _ => .refl _) cursor hEnough

/-- The second reader has only the first so many tokens. The two are compared where there are more
and the first reader has taken in none of these. -/
def Comparison.firstOnly (count : Nat) : Comparison where
  change tokens := tokens.take count
  covers cursor := count < cursor.tokens.size ∧ cursor.reached ≤ count
  covers_of_onward onward covers :=
    ⟨onward.tokens ▸ covers.1, Nat.le_trans onward.reached covers.2⟩

namespace Comparison

variable {count : Nat} {cursor : Cursor}

/-- A token that is looked at is taken in, and so the second reader has it too. -/
theorem image_look {index : Nat} (hCovers : (firstOnly count).covers (cursor.look index).2) :
    ((firstOnly count).image cursor).look index =
      ((cursor.look index).1, (firstOnly count).image (cursor.look index).2) := by
  by_cases hGone : index < cursor.offset
  · simp [look, image, hGone]
  · obtain ⟨hMore, hReached⟩ := hCovers
    simp only [look, hGone, if_false] at hMore hReached
    have hIndex : index < count := by omega
    have hBound : min (index + 1) (min count cursor.tokens.size) =
        min (index + 1) cursor.tokens.size := by omega
    have hToken : (cursor.tokens.take count)[index]? = cursor.tokens[index]? := by
      simp [Array.getElem?_extract]
      omega
    simp [look, image, firstOnly, hGone, hToken, hBound]

/-- A token that was taken in is the same for both readers. It is one of the first so many by the
time the first reader has it. -/
theorem same_tokenAt (index : Nat) :
    (firstOnly count).Same (Reading.tokenAt index) (Reading.tokenAt index) := by
  intro cursor
  refine ⟨cursor.onward_look index, fun hCovers => ?_⟩
  simp only [Reading.tokenAt, Reading.exec_modifyGet] at hCovers ⊢
  rw [image_look hCovers]

/-- Beyond its tokens the second reader need not look: the first one goes too far there or finds
that the token is gone. -/
theorem sameAt_beyond {α : Type} {index : Nat} {next : Option Token → Reading α} {value : α}
    (hIndex : count < index) (hNone : next none = pure value)
    (onward : ∀ token, (next (some token)).Onward) :
    (firstOnly count).SameAt cursor (Reading.tokenAt index >>= next) (pure value) := by
  have hRun : (Reading.tokenAt index >>= next).exec cursor =
      (next (cursor.look index).1).exec (cursor.look index).2 := by
    simp only [Reading.exec_bind, Reading.tokenAt, Reading.exec_modifyGet]
  have hOnward : ∀ token, (next token).Onward := by
    rintro (_ | token)
    · exact hNone ▸ Reading.onward_pure value
    · exact onward token
  refine ⟨(Reading.onward_tokenAt index).bind hOnward cursor, fun hCovers => ?_⟩
  rw [hRun] at hCovers ⊢
  obtain ⟨hMore, hReached⟩ := (firstOnly count).covers_of_onward (hOnward _ _) hCovers
  by_cases hGone : index < cursor.offset
  · simp [look, hGone, hNone]
  · simp only [look, hGone, if_false] at hMore hReached
    omega

theorem position_passed (cursor : Cursor) (index : Nat) :
    (cursor.look index).2.advance.position = cursor.position + 1 := by
  unfold look
  split <;> rfl

/-- Both readers find the same next token. The second one's loop has fewer rounds, but it still has
more than its tokens need. -/
theorem same_significantFrom {bound fewer : Nat} {index : Nat} (hFewer : fewer ≤ bound)
    (hEnough : count < index + fewer) :
    (firstOnly count).Same (Reading.significantFrom bound index)
      (Reading.significantFrom fewer index) := by
  induction bound generalizing fewer index with
  | zero =>
    obtain rfl : fewer = 0 := by omega
    exact same_pure none
  | succ bound ih =>
    cases fewer with
    | zero =>
      refine fun cursor => sameAt_beyond (by omega) rfl fun token => ?_
      dsimp only
      split_ifs
      · exact Reading.onward_significantFrom bound _
      · exact Reading.onward_throw _
      · exact Reading.onward_pure _
    | succ fewer =>
      refine (same_tokenAt index).bind fun token => ?_
      cases token with
      | none => exact same_pure none
      | some token =>
        dsimp only
        split_ifs
        · exact ih (by omega) (by omega)
        · exact same_throw _
        · exact same_pure _

/-- Both readers read the same next token, with a round for every token that either of them has. -/
theorem sameAt_nextWithin (overLines : Bool) {bound fewer : Nat} (hFewer : fewer ≤ bound)
    (hEnough : count < cursor.position + fewer) :
    (firstOnly count).SameAt cursor (Reading.nextWithin overLines bound)
      (Reading.nextWithin overLines fewer) := by
  induction bound generalizing fewer cursor with
  | zero =>
    obtain rfl : fewer = 0 := by omega
    exact same_pure none cursor
  | succ bound ih =>
    cases fewer with
    | zero =>
      refine SameAt.of_get (sameAt_beyond (by omega) rfl fun token => ?_)
      dsimp only
      split_ifs
      · exact (Reading.onward_modify onward_advance).bind fun _ =>
          Reading.onward_nextWithin overLines bound
      · exact Reading.onward_throw _
      · exact (Reading.onward_modify (onward_consume token)).bind fun _ => Reading.onward_pure _
    | succ fewer =>
      refine SameAt.get_bind ((same_tokenAt cursor.position cursor).bind fun token after hLook => ?_)
      obtain rfl : (cursor.look cursor.position).2 = after := congrArg Prod.snd hLook
      cases token with
      | none => exact same_pure none _
      | some token =>
        have hLine : ((firstOnly count).image cursor).lineBound = cursor.lineBound := rfl
        simp only [hLine]
        split_ifs
        · refine (same_modify onward_advance (fun _ => rfl) _).bind fun _ behind hAdvance => ?_
          obtain rfl : (cursor.look cursor.position).2.advance = behind := congrArg Prod.snd hAdvance
          refine ih (by omega) ?_
          rw [position_passed]
          omega
        · exact same_throw _ _
        · exact (same_modify (onward_consume token) (fun _ => rfl)).bind (fun _ => same_pure _) _

/-- Both readers pass over the same layout, and neither loop stops for want of rounds. -/
theorem sameAt_skipLayoutWithin {bound fewer : Nat} (hFewer : fewer ≤ bound)
    (hEnough : count < cursor.position + fewer) :
    (firstOnly count).SameAt cursor (Reading.skipLayoutWithin bound)
      (Reading.skipLayoutWithin fewer) := by
  induction bound generalizing fewer cursor with
  | zero =>
    obtain rfl : fewer = 0 := by omega
    exact same_pure () cursor
  | succ bound ih =>
    cases fewer with
    | zero =>
      refine SameAt.of_get (sameAt_beyond (by omega) rfl fun token => ?_)
      dsimp only
      split_ifs
      · exact (Reading.onward_modify onward_advance).bind fun _ =>
          Reading.onward_skipLayoutWithin bound
      · exact Reading.onward_pure ()
    | succ fewer =>
      refine SameAt.get_bind ((same_tokenAt cursor.position cursor).bind fun token after hLook => ?_)
      obtain rfl : (cursor.look cursor.position).2 = after := congrArg Prod.snd hLook
      cases token with
      | none => exact same_pure () _
      | some token =>
        dsimp only
        split_ifs
        · refine (same_modify onward_advance (fun _ => rfl) _).bind fun _ behind hAdvance => ?_
          obtain rfl : (cursor.look cursor.position).2.advance = behind := congrArg Prod.snd hAdvance
          refine ih (by omega) ?_
          rw [position_passed]
          omega
        · exact same_pure () _

/-- A loop that each reader runs as often as its own tokens ahead allow does the same to both if it
does so for all bounds that are enough for the tokens that they share. -/
theorem same_ahead {α : Type} {loop : Cursor → Nat → Reading α}
    (hOnward : ∀ cursor bound, (loop cursor bound).Onward)
    (hLoop : ∀ {cursor : Cursor} {bound fewer : Nat}, fewer ≤ bound → count < cursor.position + fewer →
      (firstOnly count).SameAt cursor (loop cursor bound)
        (loop ((firstOnly count).image cursor) fewer)) :
    (firstOnly count).Same (do let cursor ← get; loop cursor cursor.ahead)
      (do let cursor ← get; loop cursor cursor.ahead) := by
  intro cursor
  refine SameAt.get_bind (.of_covers (hOnward _ _) fun hCovers => ?_)
  have hMore := hCovers.1
  have hAhead : ((firstOnly count).image cursor).ahead = count + 1 - cursor.position := by
    simp [ahead, image, firstOnly, Nat.min_eq_left (Nat.le_of_lt hMore)]
  rw [hAhead]
  refine hLoop ?_ (by omega)
  unfold ahead
  omega

/-- Both readers find the same wherever they look for a token, as long as the first one takes in no
more tokens than the second one has. -/
theorem alike_firstOnly (count : Nat) : (firstOnly count).Alike where
  expect overLines test := by
    intro cursor
    have hNext : (firstOnly count).Same (Reading.next overLines) (Reading.next overLines) :=
      same_ahead (fun _ => Reading.onward_nextWithin overLines) (sameAt_nextWithin overLines)
    have hBack : (firstOnly count).Same
        (do modify (·.reset cursor.mark); pure none : Reading (Option Token))
        (do modify (·.reset cursor.mark); pure none) :=
      (same_modify (onward_reset cursor.mark) fun _ => rfl).bind fun _ => same_pure none
    refine SameAt.get_bind (hNext.bind (fun token => ?_) cursor)
    cases token with
    | none => exact hBack
    | some token =>
      dsimp only
      split_ifs
      · exact same_pure _
      · exact hBack
  peek := same_ahead (fun cursor bound => Reading.onward_significantFrom bound cursor.position)
    fun hFewer hEnough => same_significantFrom hFewer hEnough _
  skipLayout := same_ahead (fun _ => Reading.onward_skipLayoutWithin) sameAt_skipLayoutWithin

end Comparison

open Comparison

theorem parseDocument_start (tokens : List Token) :
    (start tokens).parseDocument =
      (documentWithin (readingBudget tokens.length)).exec (start tokens) :=
  parseDocument_eq (start tokens)

/-- A document is read from the tokens that are taken in: where the others are missing, the same is
read from the rest, and the reader ends up in the same place. -/
theorem parseDocument_take_of_reached {tokens : List Token} {count : Nat}
    (hReached : (start tokens).parseDocument.2.reached ≤ count) :
    (start (tokens.take count)).parseDocument =
      ((start tokens).parseDocument.1, (firstOnly count).image (start tokens).parseDocument.2) := by
  have hTokens : (start tokens).parseDocument.2.tokens = tokens.toArray :=
    (onward_parseDocument (start tokens)).tokens
  rcases Nat.lt_or_ge count tokens.length with hMore | hAll
  · have hLess : readingBudget (tokens.take count).length ≤ readingBudget tokens.length := by
      unfold readingBudget
      exact Nat.mul_le_mul_left _ (Nat.add_le_add_right (List.length_take_le' _ _) _)
    have hEnough := parseTokens_ne_exhausted (tokens.take count)
    rw [parseTokens, parseDocument_start] at hEnough
    rw [parseDocument_start] at hReached hTokens
    have hSame := (same_documentWithin (alike_firstOnly count) (readingBudget tokens.length)
      (start tokens)).same ⟨hTokens ▸ hMore, hReached⟩
    have hImage : (firstOnly count).image (start tokens) = start (tokens.take count) := by
      simp [image, firstOnly, start]
    rw [hImage] at hSame
    rw [parseDocument_start, parseDocument_start, ← exec_documentWithin_of_le hLess hEnough]
    exact hSame
  · have hImage : (firstOnly count).image (start tokens).parseDocument.2 =
        (start tokens).parseDocument.2 := by
      have hWhole : tokens.toArray.take count = tokens.toArray := by
        rw [List.take_toArray, List.take_of_length_le hAll]
      simp only [image, firstOnly, hTokens, hWhole]
      rw [← hTokens]
    rw [List.take_of_length_le hAll, hImage]

/-- Whoever reads a document and stops has read what the whole source holds, even if the tokens
behind those that were taken in never come. -/
theorem parseTokens_take_of_reached {tokens : List Token} {count : Nat}
    (hReached : (start tokens).parseDocument.2.reached ≤ count) :
    parseTokens (tokens.take count) = parseTokens tokens := by
  rw [parseTokens, parseDocument_take_of_reached hReached]
  rfl

end DocumentLanguage
