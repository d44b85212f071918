import DocumentLanguage.Proofs.Grammar.Nested
import DocumentLanguage.Proofs.Parse.Cursor
import DocumentLanguage.Proofs.Parse.Step

/-!
The buffer of a reader cannot be noticed. A reader that lets go of tokens, keeps save-points and
turns back finds at every rule what is found from the spot where it stands, and where a rule is
not there it stands again where it stood.
-/
namespace DocumentLanguage

namespace Reading

variable {α β : Type}

/-- What is true of the outcome of a reading and of the cursor behind it. -/
def Ends (reading : Reading α) (cursor : Cursor) (post : Except Failure α → Cursor → Prop) :
    Prop :=
  post (reading.exec cursor).1 (reading.exec cursor).2

/-- Whatever is true of how a reading ends is a way in which it ends. -/
theorem ends_of_exec {reading : Reading α} {cursor after : Cursor} {outcome : Except Failure α}
    {post : Except Failure α → Cursor → Prop} (hRun : reading.exec cursor = (outcome, after))
    (hPost : post outcome after) : reading.Ends cursor post := by
  rw [Ends, hRun]
  exact hPost

/-- Two readings end as the second one does from wherever the first one left the reader, or as the
first one does if it failed. -/
theorem ends_bind {reading : Reading α} {next : α → Reading β} {cursor : Cursor}
    {between : Except Failure α → Cursor → Prop} {post : Except Failure β → Cursor → Prop}
    (ends : reading.Ends cursor between)
    (hOk : ∀ value after, between (.ok value) after → (next value).Ends after post)
    (hError : ∀ failure after, between (.error failure) after → post (.error failure) after) :
    (reading >>= next).Ends cursor post := by
  simp only [Ends, exec_bind] at ends ⊢
  rcases hRun : reading.exec cursor with ⟨outcome, after⟩
  rw [hRun] at ends
  cases outcome with
  | ok value => exact hOk value after ends
  | error failure => exact hError failure after ends

@[simp] theorem ends_pure {value : α} {cursor : Cursor}
    {post : Except Failure α → Cursor → Prop} :
    (pure value : Reading α).Ends cursor post ↔ post (.ok value) cursor := Iff.rfl

end Reading

/-- The attempt at the rule around a reading, once that may have committed it. -/
def Attempt.join (commits : Bool) (attempt : Attempt) : Attempt :=
  { attempt with committed := attempt.committed || commits }

@[simp] theorem Attempt.join_false (attempt : Attempt) : attempt.join false = attempt := by
  simp [Attempt.join]

@[simp] theorem Attempt.map_join_false (owner : Option Attempt) :
    owner.map (Attempt.join false) = owner := by
  cases owner <;> simp

@[simp] theorem Attempt.join_join (first second : Bool) (attempt : Attempt) :
    (attempt.join first).join second = attempt.join (first || second) := by
  simp [Attempt.join, Bool.or_assoc]

namespace Cursor

/-- How many of the save-points must outlast a reading. If that commits the attempt around it,
those from the attempt's own one on are dropped. -/
def floor (owner : Option Attempt) (commits : Bool) (cursor : Cursor) : Nat :=
  match owner with
  | some attempt =>
    if commits && !attempt.committed then attempt.savePoint else cursor.savePoints.length
  | none => cursor.savePoints.length

@[simp] theorem floor_none (commits : Bool) (cursor : Cursor) :
    cursor.floor none commits = cursor.savePoints.length := rfl

@[simp] theorem floor_false (owner : Option Attempt) (cursor : Cursor) :
    cursor.floor owner false = cursor.savePoints.length := by
  cases owner <;> simp [floor]

/-- An attempt that has not committed has its place among those that may be turned back to. -/
def Live (owner : Option Attempt) (cursor : Cursor) : Prop :=
  ∀ attempt ∈ owner, attempt.committed = false →
    cursor.savePoints[attempt.savePoint]? = some attempt.mark.position

theorem live_none (cursor : Cursor) : cursor.Live none := by
  simp [Live]

/-- The save-point of an attempt that has not committed is among those that are kept. -/
theorem Live.savePoint_lt {owner : Option Attempt} {cursor : Cursor} (live : cursor.Live owner)
    {attempt : Attempt} (hOwner : attempt ∈ owner) (hUncommitted : attempt.committed = false) :
    attempt.savePoint < cursor.savePoints.length :=
  (List.getElem?_eq_some_iff.mp (live attempt hOwner hUncommitted)).1

/-- What a commitment leaves is no more than what was there, as the save-points of live attempts are
among them. -/
theorem Live.floor_le {owner : Option Attempt} {cursor : Cursor} (live : cursor.Live owner)
    (commits : Bool) : cursor.floor owner commits ≤ cursor.savePoints.length := by
  cases owner with
  | none => exact Nat.le_refl _
  | some attempt =>
      simp only [floor]
      split
      · rename_i hCommits
        simp only [Bool.and_eq_true, Bool.not_eq_true'] at hCommits
        exact Nat.le_of_lt (live.savePoint_lt rfl hCommits.2)
      · exact Nat.le_refl _

/-- Dropping save-points and letting go of tokens leaves the reader where it is. -/
theorem At.drop {cursor : Cursor} {line : Line} {spot : Spot} (stands : cursor.At line spot)
    (index : Nat) : ((cursor.dropSavePoints index).release).At line spot := by
  unfold release
  split <;> exact ⟨stands.rest, stands.within, stands.nesting, stands.line⟩

/-- Dropping save-points keeps a reader among the tokens it holds, since the oldest one that is left
is not older. -/
theorem Steady.drop {cursor : Cursor} (steady : cursor.Steady) (index : Nat) :
    (cursor.dropSavePoints index).Steady := by
  refine ⟨steady.offset_le, steady.taken, steady.ordered.sublist (List.take_sublist _ _), ?_⟩
  intro mark hMark
  exact steady.held mark (List.mem_of_mem_take hMark)

/-- Only tokens are let go of that nothing turns back to. -/
theorem Steady.release {cursor : Cursor} (steady : cursor.Steady) : cursor.release.Steady := by
  have hFloor : ∀ mark, (mark = cursor.position ∨ mark ∈ cursor.savePoints) →
      cursor.savePoints.head?.getD cursor.position ≤ mark := by
    intro mark hMark
    cases hPoints : cursor.savePoints with
    | nil =>
        rw [hPoints] at hMark
        rcases hMark with rfl | hMark
        · exact Nat.le_refl _
        · cases hMark
    | cons oldest points =>
        have hOldest := (steady.held oldest (by simp [hPoints])).2
        have hOrdered := steady.ordered
        rw [hPoints] at hMark hOrdered
        simp only [List.head?_cons, Option.getD_some]
        rcases hMark with rfl | hMark
        · exact hOldest
        · rcases List.mem_cons.mp hMark with rfl | hMark
          · exact Nat.le_refl _
          · exact (List.pairwise_cons.mp hOrdered).1 mark hMark
  unfold Cursor.release
  split
  · have hOffset : ∀ mark, cursor.offset ≤ mark →
        (mark = cursor.position ∨ mark ∈ cursor.savePoints) →
        max cursor.offset (min (cursor.savePoints.head?.getD cursor.position) cursor.reached) ≤
          mark := by
      intro mark hLe hMark
      exact Nat.max_le.mpr ⟨hLe, Nat.le_trans (Nat.min_le_left _ _) (hFloor mark hMark)⟩
    refine ⟨hOffset _ steady.offset_le (.inl rfl), steady.taken, steady.ordered, ?_⟩
    intro mark hMark
    exact ⟨hOffset mark (steady.held mark hMark).1 (.inr hMark), (steady.held mark hMark).2⟩
  · exact steady

@[simp] theorem release_tokens (cursor : Cursor) : cursor.release.tokens = cursor.tokens := by
  unfold release
  split <;> rfl

@[simp] theorem release_savePoints (cursor : Cursor) :
    cursor.release.savePoints = cursor.savePoints := by
  unfold release
  split <;> rfl

/-- The first places stay where only later ones are dropped and only tokens before the oldest place
are let go of. -/
theorem Keeps.drop {count index : Nat} {before after : Cursor} (keeps : Keeps count before after)
    (hCount : count ≤ index) :
    Keeps count before ((after.dropSavePoints index).release) := by
  have hEnough := keeps.enough
  refine ⟨(release_tokens _).trans keeps.tokens, (keeps.steady.drop index).release, ?_, ?_⟩
  · simp only [dropSavePoints, release_savePoints, List.length_take]
    omega
  · simpa [dropSavePoints, List.take_take, Nat.min_eq_left hCount] using keeps.same

/-- Where a reader is left when reading fails: it stands at a spot and could go on from there. -/
structure Rests (tokens : Array Token) (line : Line) (spot : Spot) (cursor : Cursor) : Prop where
  stands : cursor.At line spot
  steady : cursor.Steady
  tokens : cursor.tokens = tokens

theorem Rests.since {tokens : Array Token} {line : Line} {spot : Spot} {before after : Cursor}
    (rests : Rests before.tokens line spot after) (hTokens : before.tokens = tokens) :
    Rests tokens line spot after :=
  ⟨rests.stands, rests.steady, rests.tokens.trans hTokens⟩

/-- A reader that only moved on rests at the spot where it stands. -/
theorem MovesTo.rests {before after : Cursor} {line : Line} {spot : Spot}
    (moves : before.MovesTo after) (steady : before.Steady) (stands : after.At line spot) :
    Rests before.tokens line spot after :=
  ⟨stands, steady.of_movesTo moves, moves.tokens⟩

end Cursor

open Cursor

/-- A reading inside an attempt does to a cursor what a reply says. -/
def Answers {α : Type} (owner : Option Attempt) (before : Cursor) (line : Line) (spot : Spot) :
    Reply α → Except Failure (Outcome α) → Cursor → Prop
  | .found value commits next, outcome, after =>
    outcome = .ok (some value, owner.map (Attempt.join commits)) ∧ after.At line next ∧
      Keeps (before.floor owner commits) before after
  | .absent, outcome, after =>
    outcome = .ok (none, owner) ∧ after.At line spot ∧
      Keeps before.savePoints.length before after ∧ after.savePoints = before.savePoints
  | .failed failure next, outcome, after =>
    outcome = .error failure ∧ Rests before.tokens line next after

/-- What readings of some tokens inside an attempt at any rule but a document's do. -/
def ReadsAs (tokens : Array Token) (read : RuleReader) (seek : Seeker) : Prop :=
  ∀ (rule : Rule) (owner : Option Attempt) (line : Line) (spot : Spot) (cursor : Cursor),
    rule ≠ .document → cursor.tokens = tokens → cursor.At line spot → cursor.Steady →
      cursor.Live owner →
        (read rule owner).Ends cursor (Answers owner cursor line spot (seek rule line spot))

/-- Going on after a reading inside an attempt, by what its reply was. -/
theorem ends_bind_answers {α β : Type} {reading : Reading (Outcome α)}
    {next : Outcome α → Reading β} {owner : Option Attempt} {entry cursor : Cursor} {line : Line}
    {spot : Spot} {reply : Reply α} {post : Except Failure β → Cursor → Prop}
    (ends : reading.Ends cursor (Answers owner entry line spot reply))
    (hFound : ∀ value commits ahead after, reply = .found value commits ahead →
      after.At line ahead → Keeps (entry.floor owner commits) entry after →
        (next (some value, owner.map (Attempt.join commits))).Ends after post)
    (hAbsent : ∀ after, reply = .absent → after.At line spot →
      Keeps entry.savePoints.length entry after → after.savePoints = entry.savePoints →
        (next (none, owner)).Ends after post)
    (hFailed : ∀ failure ahead after, reply = .failed failure ahead →
      Rests entry.tokens line ahead after → post (.error failure) after) :
    (reading >>= next).Ends cursor post := by
  refine Reading.ends_bind ends ?_ ?_
  · intro value after hAnswers
    cases hReply : reply with
    | found value commits ahead =>
        rw [hReply] at hAnswers
        obtain ⟨hValue, hStands, hKeeps⟩ := hAnswers
        cases hValue
        exact hFound value commits ahead after hReply hStands hKeeps
    | absent =>
        rw [hReply] at hAnswers
        obtain ⟨hValue, hStands, hKeeps, hPoints⟩ := hAnswers
        cases hValue
        exact hAbsent after hReply hStands hKeeps hPoints
    | failed failure ahead =>
        rw [hReply] at hAnswers
        cases hAnswers.1
  · intro failure after hAnswers
    cases hReply : reply with
    | found value commits ahead =>
        rw [hReply] at hAnswers
        cases hAnswers.1
    | absent =>
        rw [hReply] at hAnswers
        cases hAnswers.1
    | failed failure ahead =>
        rw [hReply] at hAnswers
        obtain ⟨hValue, hStands⟩ := hAnswers
        cases hValue
        exact hFailed failure ahead after hReply hStands

/-- A reading that cannot miss does to a cursor what a reply says. -/
def Repeats {α : Type} (before : Cursor) (line : Line) :
    Reply α → Except Failure α → Cursor → Prop
  | .found value _ next, outcome, after =>
    outcome = .ok value ∧ after.At line next ∧ Keeps before.savePoints.length before after
  | .absent, _, _ => False
  | .failed failure next, outcome, after =>
    outcome = .error failure ∧ Rests before.tokens line next after

/-- Going on after a reading that cannot miss, by what its reply was. -/
theorem ends_bind_repeats {α β : Type} {reading : Reading α} {next : α → Reading β}
    {entry cursor : Cursor} {line : Line} {reply : Reply α}
    {post : Except Failure β → Cursor → Prop}
    (ends : reading.Ends cursor (Repeats entry line reply))
    (hFound : ∀ value commits ahead after, reply = .found value commits ahead →
      after.At line ahead → Keeps entry.savePoints.length entry after →
        (next value).Ends after post)
    (hFailed : ∀ failure ahead after, reply = .failed failure ahead →
      Rests entry.tokens line ahead after → post (.error failure) after) :
    (reading >>= next).Ends cursor post := by
  refine Reading.ends_bind ends ?_ ?_
  · intro value after hRepeats
    cases hReply : reply with
    | found value commits ahead =>
        rw [hReply] at hRepeats
        obtain ⟨hValue, hStands, hKeeps⟩ := hRepeats
        cases hValue
        exact hFound value commits ahead after hReply hStands hKeeps
    | absent =>
        rw [hReply] at hRepeats
        exact hRepeats.elim
    | failed failure ahead =>
        rw [hReply] at hRepeats
        cases hRepeats.1
  · intro failure after hRepeats
    cases hReply : reply with
    | found value commits ahead =>
        rw [hReply] at hRepeats
        cases hRepeats.1
    | absent =>
        rw [hReply] at hRepeats
        exact hRepeats.elim
    | failed failure ahead =>
        rw [hReply] at hRepeats
        obtain ⟨hValue, hStands⟩ := hRepeats
        cases hValue
        exact hFailed failure ahead after hReply hStands

/-- What is kept of a value does not change how its reading ends. -/
theorem ends_keeping {α β : Type} (keep : α → β) {reading : Reading (Outcome α)}
    {owner : Option Attempt} {entry cursor : Cursor} {line : Line} {spot : Spot} {reply : Reply α}
    (ends : reading.Ends cursor (Answers owner entry line spot reply)) :
    (keeping keep reading).Ends cursor (Answers owner entry line spot (reply.map keep)) := by
  refine ends_bind_answers ends ?_ ?_ ?_
  · rintro value commits ahead after rfl hStands hKeeps
    exact ⟨rfl, hStands, hKeeps⟩
  · rintro after rfl hStands hKeeps hPoints
    exact ⟨rfl, hStands, hKeeps, hPoints⟩
  · rintro failure ahead after rfl hStands
    exact ⟨rfl, hStands⟩

/-- How far the parts of a sequence have been read, from where its reading began. An attempt that
has not committed keeps its place as a save-point. -/
structure Holds (setting : Setting) (owner : Option Attempt) (entry now : Cursor)
    (progress : Progress) (stage : Stage) : Prop where
  isBody : stage.isBody = setting.standing.isBody
  own : stage.own =
    if setting.standing.isAttempt then
      some ⟨setting.rule, entry.mark, entry.savePoints.length, progress.own⟩
    else none
  outer : stage.owner = owner.map (Attempt.join progress.owner)
  keeps : Keeps (entry.floor owner progress.owner) entry now
  saved : setting.standing.isAttempt = true → progress.own = false →
    progress.owner = false ∧ now.savePoints[entry.savePoints.length]? = some entry.position

namespace Holds

variable {setting : Setting} {owner : Option Attempt} {entry now after : Cursor}
  {progress : Progress} {stage : Stage}

/-- A sequence still holds what it held when its reader moves on and keeps its places. -/
theorem extend (holds : Holds setting owner entry now progress stage)
    (keeps : Keeps now.savePoints.length now after) :
    Holds setting owner entry after progress stage := by
  refine ⟨holds.isBody, holds.own, holds.outer, ?_, ?_⟩
  · exact holds.keeps.trans (keeps.of_le holds.keeps.enough)
  · intro hAttempt hOwn
    obtain ⟨hOwner, hSaved⟩ := holds.saved hAttempt hOwn
    refine ⟨hOwner, ?_⟩
    have hSame : after.savePoints.take now.savePoints.length = now.savePoints := by
      simpa using keeps.same
    have hLt := (List.getElem?_eq_some_iff.mp hSaved).1
    rw [← hSaved, ← hSame, List.getElem?_take_of_lt hLt]

theorem moves (holds : Holds setting owner entry now progress stage) (hMoves : now.MovesTo after) :
    Holds setting owner entry after progress stage :=
  holds.extend (hMoves.keeps holds.keeps.steady)

theorem live (holds : Holds setting owner entry now progress stage) : now.Live stage.own := by
  intro attempt hAttempt hUncommitted
  rw [holds.own] at hAttempt
  split at hAttempt
  · rename_i hStanding
    cases hAttempt
    exact (holds.saved hStanding hUncommitted).2
  · cases hAttempt

/-- The place of the attempt around a sequence outlasts what is read of that. -/
theorem live_outer (holds : Holds setting owner entry now progress stage) (live : entry.Live owner) :
    now.Live stage.owner := by
  intro attempt hAttempt hUncommitted
  rw [holds.outer] at hAttempt
  obtain ⟨outer, hOwner, rfl⟩ := Option.map_eq_some_iff.mp hAttempt
  simp only [Attempt.join, Bool.or_eq_false_iff] at hUncommitted
  have hPlace := live outer hOwner hUncommitted.1
  have hSame := holds.keeps.same
  simp only [hUncommitted.2, floor_false, List.take_length] at hSame
  rw [← hSame, List.getElem?_take] at hPlace
  split at hPlace
  · exact hPlace
  · cases hPlace

/-- A child is read inside the attempt at the sequence, and may commit that. -/
theorem child (holds : Holds setting owner entry now progress stage) {commits : Bool}
    (keeps : Keeps (now.floor stage.own commits) now after) :
    Holds setting owner entry after ⟨progress.own || commits, progress.owner⟩
      { stage with own := stage.own.map (Attempt.join commits) } := by
  have hOwn := holds.own
  cases hAttempt : setting.standing.isAttempt with
  | false =>
      rw [if_neg (by simp [hAttempt])] at hOwn
      rw [hOwn] at keeps
      refine ⟨holds.isBody, by simp [hAttempt, hOwn], holds.outer, ?_, by simp [hAttempt]⟩
      exact holds.keeps.trans (keeps.of_le holds.keeps.enough)
  | true =>
      rw [if_pos hAttempt] at hOwn
      have hJoined : stage.own.map (Attempt.join commits) =
          some ⟨setting.rule, entry.mark, entry.savePoints.length, progress.own || commits⟩ := by
        simp [hOwn, Attempt.join]
      by_cases hNew : progress.own = false ∧ commits = true
      · -- Nothing was committed before, so all save-points of the entry have outlasted this.
        obtain ⟨hUncommitted, rfl⟩ := hNew
        obtain ⟨hOwner, hSaved⟩ := holds.saved hAttempt hUncommitted
        have hFloor : now.floor stage.own true = entry.savePoints.length := by
          simp [hOwn, floor, hUncommitted]
        rw [hFloor] at keeps
        refine ⟨holds.isBody, by rw [hJoined, if_pos hAttempt], holds.outer, ?_, by simp⟩
        have hKeeps := holds.keeps
        simp only [hOwner, floor_false] at hKeeps ⊢
        exact hKeeps.trans keeps
      · have hFloor : now.floor stage.own commits = now.savePoints.length := by
          rw [not_and'] at hNew
          cases commits with
          | false => simp
          | true => simp [hOwn, floor, hNew rfl]
        rw [hFloor] at keeps
        have hExtended := holds.extend keeps
        refine ⟨holds.isBody, by rw [hJoined, if_pos hAttempt], holds.outer, hExtended.keeps, ?_⟩
        intro _ hUncommitted
        simp only [Bool.or_eq_false_iff] at hUncommitted
        exact hExtended.saved hAttempt hUncommitted.1

end Holds

/-- Committing an attempt drops the places from its own one on, unless it has committed before, and
the reader stays where it is. -/
theorem ends_commit {attempt : Attempt} {cursor : Cursor} :
    attempt.commit.Ends cursor fun outcome after =>
      outcome = .ok (attempt.join true) ∧
        after = if attempt.committed then cursor
          else (cursor.dropSavePoints attempt.savePoint).release := by
  unfold Attempt.commit
  cases hCommitted : attempt.committed with
  | true =>
      refine Reading.ends_of_exec rfl ⟨?_, rfl⟩
      simp [Attempt.join, ← hCommitted]
  | false =>
      refine Reading.ends_of_exec rfl ⟨?_, rfl⟩
      simp [Attempt.join]

/-- Committing the attempt around a rule, if there is one, leaves the reader at its spot and keeps
the places before that attempt. -/
theorem ends_commitSome {owner : Option Attempt} {cursor : Cursor} {line : Line} {spot : Spot}
    (stands : cursor.At line spot) (steady : cursor.Steady) (live : cursor.Live owner) :
    (commitSome owner).Ends cursor fun outcome after =>
      outcome = .ok (owner.map (Attempt.join true)) ∧ after.At line spot ∧
        Keeps (cursor.floor owner true) cursor after := by
  cases owner with
  | none => exact ⟨rfl, stands, (MovesTo.refl cursor).keeps steady⟩
  | some attempt =>
      refine Reading.ends_bind ends_commit ?_ ?_
      · rintro value after ⟨hValue, rfl⟩
        cases hValue
        cases hCommitted : attempt.committed with
        | true =>
            rw [if_pos rfl]
            refine Reading.ends_pure.mpr ⟨rfl, stands, ?_⟩
            simpa [floor, hCommitted] using (MovesTo.refl cursor).keeps steady
        | false =>
            rw [if_neg Bool.false_ne_true]
            refine Reading.ends_pure.mpr ⟨rfl, stands.drop _, ?_⟩
            have hLe := Nat.le_of_lt (live.savePoint_lt rfl hCommitted)
            have hKeeps := ((MovesTo.refl cursor).keeps steady).of_le hLe
            simpa [floor, hCommitted] using hKeeps.drop (Nat.le_refl _)
      · rintro failure after ⟨hValue, _⟩
        cases hValue

namespace Holds

variable {setting : Setting} {owner : Option Attempt} {entry now : Cursor}
  {progress : Progress} {stage : Stage} {spot start : Spot}

/-- Where a sequence commits, its own attempt is committed first and then, if it passes this on, the
one around it. The reader stays where it is throughout. -/
theorem commit (holds : Holds setting owner entry now progress stage)
    (stands : now.At setting.line spot) (live : entry.Live owner) :
    stage.commit.Ends now fun outcome after => ∃ stage', outcome = .ok stage' ∧
      Holds setting owner entry after (setting.commit progress) stage' ∧
        after.At setting.line spot := by
  refine Reading.ends_bind (ends_commitSome stands holds.keeps.steady holds.live) ?_ ?_
  · rintro own after ⟨hValue, hStands, hKeeps⟩
    cases hValue
    have hChild := holds.child hKeeps
    simp only [Bool.or_true] at hChild
    cases hBody : setting.standing.isBody with
    | false =>
        rw [if_neg (by rw [holds.isBody, hBody]; simp)]
        refine ⟨_, rfl, ?_, hStands⟩
        simpa [Setting.commit, hBody] using hChild
    | true =>
        rw [if_pos (by rw [holds.isBody, hBody])]
        have hEnough := hChild.keeps.enough
        have hLiveOwner : after.Live stage.owner := hChild.live_outer live
        refine Reading.ends_bind (ends_commitSome hStands hChild.keeps.steady hLiveOwner) ?_ ?_
        · rintro outer last ⟨hValue, hStands, hKeeps⟩
          cases hValue
          refine ⟨_, rfl, ?_, hStands⟩
          have hOuter : stage.owner.map (Attempt.join true) = owner.map (Attempt.join true) := by
            simp [holds.outer, Function.comp_def]
          refine ⟨holds.isBody, by simpa [Setting.commit] using hChild.own, ?_, ?_, ?_⟩
          · simpa [Setting.commit, hBody] using hOuter
          · -- The attempt around this one drops its save-point now, unless it had before.
            have hFloor : entry.floor owner true ≤ after.floor stage.owner true := by
              rw [holds.outer]
              cases owner with
              | none => exact hEnough
              | some attempt =>
                  cases hFlag : progress.owner with
                  | false =>
                      have hEnough : entry.savePoints.length ≤ after.savePoints.length := by
                        simpa [hFlag] using hEnough
                      simp only [floor, Option.map_some, Attempt.join]
                      cases hCommitted : attempt.committed <;> simp [hEnough]
                  | true =>
                      simpa [floor, Attempt.join, hFlag] using hEnough
            have hBefore : Keeps (entry.floor owner true) entry after := by
              have hLe : entry.floor owner true ≤ entry.floor owner progress.owner := by
                cases hFlag : progress.owner with
                | false => simpa using live.floor_le true
                | true => exact Nat.le_refl _
              exact hChild.keeps.of_le hLe
            simpa [Setting.commit, hBody] using hBefore.trans (hKeeps.of_le hFloor)
          · simp [Setting.commit]
        · rintro failure last ⟨hValue, _⟩
          cases hValue
  · rintro failure after ⟨hValue, _⟩
    cases hValue

/-- Giving up answers for the whole sequence. One that is no attempt must still be where its
reading began. -/
theorem giveUp {α : Type} (holds : Holds setting owner entry now progress stage)
    (stands : now.At setting.line spot) (begins : entry.At setting.line start)
    (steady : entry.Steady) (hFresh : setting.standing.isAttempt = true ∨
      (progress.owner = false ∧ spot = start ∧ now.savePoints = entry.savePoints)) :
    (stage.giveUp (α := α)).Ends now
      (Answers owner entry setting.line start (setting.giveUp progress spot)) := by
  have hOwn := holds.own
  have hSteady := holds.keeps.steady
  have hOuter := holds.outer
  unfold Stage.giveUp Stage.abandon Setting.giveUp Spot.giveUp
  cases hAttempt : setting.standing.isAttempt with
  | false =>
      obtain ⟨hFlag, rfl, hPoints⟩ := hFresh.resolve_left (by simp [hAttempt])
      have hKeeps := holds.keeps
      simp only [hFlag, floor_false, Attempt.map_join_false] at hKeeps hOuter
      rw [if_neg (by simp [hAttempt])] at hOwn
      rw [hOwn]
      exact Reading.ends_pure.mpr ⟨by simp [hOuter], stands, hKeeps, hPoints⟩
  | true =>
      rw [if_pos hAttempt] at hOwn
      rw [hOwn]
      cases hProgress : progress.own with
      | true =>
          obtain ⟨reached, hMore, hRun⟩ :=
            Reading.exec_failIn (α := Unit) stands hSteady.offset_le setting.rule
          simp only [Attempt.abandon, if_pos, Bool.and_self]
          exact Reading.ends_of_exec (by rw [Reading.exec_bind, hRun])
            ⟨rfl, stands.reach, hSteady.of_movesTo (.reach hMore), holds.keeps.tokens⟩
      | false =>
          obtain ⟨hFlag, hSaved⟩ := holds.saved hAttempt hProgress
          have hKeeps := holds.keeps
          simp only [hFlag, floor_false, Attempt.map_join_false] at hKeeps hOuter
          have hPoints : now.savePoints.take entry.savePoints.length = entry.savePoints := by
            simpa using hKeeps.same
          have hMark := hSteady.held _ (List.mem_of_getElem? hSaved)
          refine Reading.ends_of_exec rfl ?_
          refine ⟨by rw [hOuter], ⟨?_, ?_, begins.nesting, stands.line⟩, ?_, ?_⟩
          · simpa [dropSavePoints, reset, Cursor.mark, hKeeps.tokens] using begins.rest
          · simpa [dropSavePoints, reset, Cursor.mark, hKeeps.tokens] using begins.within
          · refine ⟨hKeeps.tokens, ⟨hMark.1, Nat.le_trans hMark.2 hSteady.taken, ?_, ?_⟩, ?_, ?_⟩
            · exact hSteady.ordered.sublist (List.take_sublist _ _)
            · intro mark hHeld
              simp only [dropSavePoints, reset, hPoints] at hHeld
              refine ⟨?_, (steady.held mark hHeld).2⟩
              rw [← hPoints] at hHeld
              exact (hSteady.held mark (List.mem_of_mem_take hHeld)).1
            · simp [dropSavePoints, reset, hPoints]
            · simp [dropSavePoints, reset, hPoints]
          · simp [dropSavePoints, reset, hPoints]

end Holds

/-- Going on after looking for one token, by what the reply was. -/
theorem ends_bind_tells {α β : Type} {reading : Reading (Option α)} {next : Option α → Reading β}
    {now : Cursor} {line : Line} {spot : Spot} {reply : Reply α}
    {post : Except Failure β → Cursor → Prop}
    (hTells : ∃ outcome after, reading.exec now = (outcome, after) ∧ now.MovesTo after ∧
      reply.Tells line spot outcome after)
    (hFound : ∀ value commits ahead after, reply = .found value commits ahead →
      now.MovesTo after → after.At line ahead → (next (some value)).Ends after post)
    (hAbsent : ∀ after, reply = .absent → now.MovesTo after → after.At line spot →
      (next none).Ends after post)
    (hFailed : ∀ failure ahead after, reply = .failed failure ahead → now.MovesTo after →
      after.At line ahead → post (.error failure) after) :
    (reading >>= next).Ends now post := by
  obtain ⟨outcome, after, hRun, hMoves, hReply⟩ := hTells
  simp only [Reading.Ends, Reading.exec_bind, hRun]
  cases reply with
  | found value commits ahead =>
      obtain ⟨rfl, hStands⟩ := hReply
      exact hFound value commits ahead after rfl hMoves hStands
  | absent =>
      obtain ⟨rfl, hStands⟩ := hReply
      exact hAbsent after rfl hMoves hStands
  | failed failure ahead =>
      obtain ⟨rfl, hStands⟩ := hReply
      exact hFailed failure ahead after rfl hMoves hStands

/-- What is done as one statement line leaves the line around it as it was. -/
theorem Cursor.At.reline {cursor : Cursor} {line outer : Line} {spot : Spot}
    (stands : cursor.At line spot) :
    ({ cursor with line := outer } : Cursor).At outer spot :=
  ⟨stands.rest, stands.within, stands.nesting, rfl⟩

/-- Whether a reader stands among the tokens it holds does not depend on the statement line. -/
theorem Cursor.Steady.reline {cursor : Cursor} {outer : Line} (steady : cursor.Steady) :
    ({ cursor with line := outer } : Cursor).Steady :=
  ⟨steady.offset_le, steady.taken, steady.ordered, steady.held⟩

theorem Cursor.Keeps.reline {count : Nat} {before after : Cursor} {inner outer : Line}
    (keeps : Keeps count { before with line := inner } after) :
    Keeps count before { after with line := outer } :=
  ⟨keeps.tokens, keeps.steady.reline, keeps.enough, keeps.same⟩

theorem Cursor.Rests.reline {tokens : Array Token} {cursor : Cursor} {inner outer : Line}
    {spot : Spot} (rests : Rests tokens inner spot cursor) :
    Rests tokens outer spot { cursor with line := outer } :=
  ⟨rests.stands.reline, rests.steady.reline, rests.tokens⟩

/-- A statement line is read from where the reader stands, at the nesting that it has there, and
afterwards the line around it is in force again. -/
theorem ends_withinLine {α : Type} {reading : Reading (Outcome α)} {now : Cursor} {line : Line}
    {spot : Spot} {reply : Reply α} (hLine : now.line = line)
    (ends : reading.Ends { now with line := some now.nesting }
      (Answers none { now with line := some now.nesting } (some now.nesting) spot reply)) :
    (Reading.withinLine reading).Ends now (Answers none now line spot reply) := by
  subst hLine
  rw [Reading.Ends, Reading.exec_withinLine]
  rw [Reading.Ends] at ends
  cases reply with
  | found value commits next =>
      obtain ⟨hValue, hStands, hKeeps⟩ := ends
      exact ⟨hValue, hStands.reline, hKeeps.reline⟩
  | absent =>
      obtain ⟨hValue, hStands, hKeeps, hPoints⟩ := ends
      exact ⟨hValue, hStands.reline, hKeeps.reline, hPoints⟩
  | failed failure next =>
      obtain ⟨hValue, hStands⟩ := ends
      exact ⟨hValue, hStands.reline⟩

/-- Whether a part can only be there, be left out, or fail for good. -/
def Part.sure : Part → Bool
  | .optionalToken _ _ | .optional _ _ | .many _ _ | .commit => true
  | _ => false

/-- Whether a part that is not there leaves the reader where it was. -/
def Part.still : Part → Bool
  | .line _ _ => false
  | _ => true

/-- Whether a form can be put back: it holds no document, and a sequence that is no attempt can
only be given up at its first part. -/
def Form.putsBack : Form → Bool
  | .literal _ => true
  | .oneOf rules => !rules.contains .document
  | .sequence standing parts =>
    parts.all (·.rule? != Option.some .document) &&
      (standing.isAttempt || parts.all Part.still && parts.tail.all Part.sure)

theorem Rule.putsBack {rule : Rule} (hRule : rule ≠ .document) : rule.form.putsBack = true := by
  cases rule <;> first | contradiction | decide

section

variable {tokens : Array Token} {read : RuleReader} {seek : Seeker}

/-- Alternatives are read as they are looked for: each missing one puts the reader back, so that the
next one starts from the same spot. -/
theorem ends_readFirst (reads : ReadsAs tokens read seek) {owner : Option Attempt} {line : Line}
    {spot : Spot} {cursor : Cursor} (live : cursor.Live owner) (hTokens : cursor.tokens = tokens)
    (rules : List Rule) (hRules : .document ∉ rules) {now : Cursor} (stands : now.At line spot)
    (keeps : Keeps cursor.savePoints.length cursor now)
    (hPoints : now.savePoints = cursor.savePoints) :
    (readFirst read owner rules).Ends now
      (Answers owner cursor line spot (seekFirst seek line spot rules)) := by
  induction rules generalizing now with
  | nil => exact ⟨rfl, stands, keeps, hPoints⟩
  | cons rule rules ih =>
      have hRule : rule ≠ .document := fun hEq => hRules (by simp [hEq])
      have hRest : .document ∉ rules := fun hMem => hRules (List.mem_cons_of_mem _ hMem)
      have hLive : now.Live owner := by
        intro attempt hOwner hUncommitted
        rw [hPoints]
        exact live attempt hOwner hUncommitted
      have hFloor : ∀ commits, now.floor owner commits = cursor.floor owner commits := by
        intro commits
        simp only [floor, hPoints]
      have hFirst := reads rule owner line spot now hRule (keeps.tokens.trans hTokens) stands
        keeps.steady hLive
      unfold readFirst seekFirst
      refine ends_bind_answers hFirst ?_ ?_ ?_
      · intro tree commits ahead after hReply hStands hKeeps
        rw [hReply]
        rw [hFloor] at hKeeps
        exact ⟨rfl, hStands, (keeps.of_le (live.floor_le commits)).trans hKeeps⟩
      · intro after hReply hStands hKeeps hSame
        rw [hReply]
        rw [hPoints] at hKeeps hSame
        refine ends_bind_answers (ih hRest hStands (keeps.trans hKeeps) hSame) ?_ ?_ ?_
        · rintro ⟨chosen, allowed, tree⟩ commits ahead last hLater hLast hKept
          rw [hLater]
          exact ⟨rfl, hLast, hKept⟩
        · intro last hLater hLast hKept hPoints
          rw [hLater]
          exact ⟨rfl, hLast, hKept, hPoints⟩
        · intro failure ahead last hLater hLast
          rw [hLater]
          exact ⟨rfl, hLast⟩
      · intro failure ahead after hReply hRests
        rw [hReply]
        exact ⟨rfl, hRests.since keeps.tokens⟩

/-- Reading a rule as often as it is there says nothing about the rule around it. -/
theorem ends_readMany (reads : ReadsAs tokens read seek) {line : Line} {rule : Rule}
    (hRule : rule ≠ .document) (bound : Nat) {spot : Spot} {now : Cursor}
    (hTokens : now.tokens = tokens) (stands : now.At line spot) (steady : now.Steady) :
    (readMany read rule bound).Ends now
      (Repeats now line (seekMany seek line rule bound spot)) := by
  induction bound generalizing spot now with
  | zero => exact ⟨rfl, stands, steady, rfl⟩
  | succ bound ih =>
      unfold readMany seekMany
      refine ends_bind_answers
        (reads rule none line spot now hRule hTokens stands steady (live_none now)) ?_ ?_ ?_
      · intro tree commits ahead after hReply hStands hKeeps
        simp only [hReply]
        refine ends_bind_repeats (ih (hKeeps.tokens.trans hTokens) hStands hKeeps.steady) ?_ ?_
        · intro trees commits next last hMany hLast hKept
          simp only [hMany]
          exact ⟨rfl, hLast, hKeeps.trans (hKept.of_le hKeeps.enough)⟩
        · intro failure next last hMany hRests
          simp only [hMany]
          exact ⟨rfl, hRests.since hKeeps.tokens⟩
      · intro after hReply hStands hKeeps hPoints
        simp only [hReply]
        exact ⟨rfl, hStands, hKeeps⟩
      · intro failure ahead after hReply hStands
        simp only [hReply]
        exact ⟨rfl, hStands⟩

/-- What reading a part does to a cursor, by what is found of the part. -/
def PartReads (setting : Setting) (owner : Option Attempt) (entry now : Cursor) (progress : Progress)
    (spot : Spot) (part : Part) (reply : Reply (part.Kept × Progress)) :
    Except Failure (Option part.Kept × Stage) → Cursor → Prop
  | .ok (some kept, stage), after => ∃ progress' ahead,
    reply = .found (kept, progress') false ahead ∧
      Holds setting owner entry after progress' stage ∧ after.At setting.line ahead
  | .ok (none, stage), after => ∃ ahead, reply = setting.giveUp progress ahead ∧
    part.sure = false ∧ Holds setting owner entry after progress stage ∧
      after.At setting.line ahead ∧ after.savePoints = now.savePoints ∧
        (part.still = true → ahead = spot)
  | .error failure, after => ∃ ahead, reply = .failed failure ahead ∧
    Rests entry.tokens setting.line ahead after

section

variable {setting : Setting} {owner : Option Attempt} {entry now : Cursor} {progress : Progress}
  {stage : Stage} {spot : Spot}

/-- What a sequence does behind a commitment is done by a sequence that has committed, from the same
spot. -/
theorem Holds.ends_bind_commit {β : Type} {next : Stage → Reading β}
    {post : Except Failure β → Cursor → Prop}
    (holds : Holds setting owner entry now progress stage) (stands : now.At setting.line spot)
    (live : entry.Live owner)
    (hNext : ∀ stage' after, Holds setting owner entry after (setting.commit progress) stage' →
      after.At setting.line spot → (next stage').Ends after post) :
    (stage.commit >>= next).Ends now post := by
  refine Reading.ends_bind (holds.commit stands live) ?_ ?_
  · rintro _ after ⟨stage', hValue, hHolds, hStands⟩
    cases hValue
    exact hNext _ after hHolds hStands
  · rintro failure after ⟨_, hValue, _⟩
    cases hValue

section Behind

variable {count : Nat} {part : Part} {α : Type} {begun : Cursor} {here : Spot} {reply : Reply α}
  {there : α → Bool → Spot → Reply (part.Kept × Progress)} {missing : Reply (part.Kept × Progress)}

/-- A part that looks for a token goes on in one of two ways: behind the token, or where it is
missing from the same spot as before. -/
theorem Cursor.Keeps.ends_bind_expect (keeps : Keeps count entry now)
    {reading : Reading (Option α)} {next : Option α → Reading (Option part.Kept × Stage)}
    (hTells : ∃ outcome after, reading.exec now = (outcome, after) ∧ now.MovesTo after ∧
      reply.Tells setting.line here outcome after)
    (hThere : ∀ value commits ahead after, now.MovesTo after → after.At setting.line ahead →
      (next (some value)).Ends after
        (PartReads setting owner entry begun progress spot part (there value commits ahead)))
    (hMissing : ∀ after, now.MovesTo after → after.At setting.line here →
      (next none).Ends after (PartReads setting owner entry begun progress spot part missing)) :
    (reading >>= next).Ends now
      (PartReads setting owner entry begun progress spot part (reply.either there missing)) := by
  refine ends_bind_tells hTells ?_ ?_ ?_
  · rintro value commits ahead after rfl
    exact hThere value commits ahead after
  · rintro after rfl
    exact hMissing after
  · rintro failure ahead after rfl hMoves hStands
    exact ⟨ahead, rfl, (hMoves.rests keeps.steady hStands).since keeps.tokens⟩

/-- A part that reads a rule goes on in one of two ways: behind the node, or where it is missing
with the reader put back. -/
theorem Cursor.Keeps.ends_bind_rule (keeps : Keeps count entry now)
    {attempt : Option Attempt} {reading : Reading (Outcome α)}
    {next : Outcome α → Reading (Option part.Kept × Stage)}
    (hReads : reading.Ends now (Answers attempt now setting.line here reply))
    (hThere : ∀ value commits ahead after, after.At setting.line ahead →
      Keeps (now.floor attempt commits) now after →
        (next (some value, attempt.map (Attempt.join commits))).Ends after
          (PartReads setting owner entry begun progress spot part (there value commits ahead)))
    (hMissing : ∀ after, after.At setting.line here → Keeps now.savePoints.length now after →
      after.savePoints = now.savePoints →
        (next (none, attempt)).Ends after
          (PartReads setting owner entry begun progress spot part missing)) :
    (reading >>= next).Ends now
      (PartReads setting owner entry begun progress spot part (reply.either there missing)) := by
  refine ends_bind_answers hReads ?_ ?_ ?_
  · rintro value commits ahead after rfl
    exact hThere value commits ahead after
  · rintro after rfl
    exact hMissing after
  · rintro failure ahead after rfl hRests
    exact ⟨ahead, rfl, hRests.since keeps.tokens⟩

/-- What a part does behind reading a rule as often as it is there. -/
theorem Cursor.Keeps.ends_bind_many (keeps : Keeps count entry now)
    {reading : Reading α} {next : α → Reading (Option part.Kept × Stage)}
    (hReads : reading.Ends now (Repeats now setting.line reply))
    (hThere : ∀ value commits ahead after, after.At setting.line ahead →
      Keeps now.savePoints.length now after →
        (next value).Ends after
          (PartReads setting owner entry begun progress spot part (there value commits ahead))) :
    (reading >>= next).Ends now
      (PartReads setting owner entry begun progress spot part (reply.either there missing)) := by
  refine ends_bind_repeats hReads ?_ ?_
  · rintro value commits ahead after rfl
    exact hThere value commits ahead after
  · rintro failure ahead after rfl hRests
    exact ⟨ahead, rfl, hRests.since keeps.tokens⟩

end Behind

/-- What a part that commits the sequence does once it is there. -/
theorem Holds.ends_commit {begun : Cursor} {before : Progress} {start : Spot}
    (holds : Holds setting owner entry now progress stage) (stands : now.At setting.line spot)
    (live : entry.Live owner) (part : Part) (kept : part.Kept) :
    (do return (some kept, ← stage.commit) : Reading (Option part.Kept × Stage)).Ends now
      (PartReads setting owner entry begun before start part
        (.found (kept, setting.commit progress) false spot)) := by
  refine holds.ends_bind_commit stands live ?_
  intro stage' last hHolds hLast
  exact ⟨_, spot, rfl, hHolds, hLast⟩

/-- A keyword commits the sequence as soon as it is there. -/
theorem Holds.ends_keyword (bound : Nat) (live : entry.Live owner)
    (holds : Holds setting owner entry now progress stage) (stands : now.At setting.line spot)
    (text : String) :
    (readPart read bound stage (.keyword text)).Ends now
      (PartReads setting owner entry now progress spot (.keyword text)
        (seekPart seek bound setting progress spot (.keyword text))) := by
  refine holds.keeps.ends_bind_expect
    (Reading.exec_expect _ _ stands holds.keeps.steady.offset_le) ?_ ?_
  · intro token commits ahead after hMoves hStands
    exact (holds.moves hMoves).ends_commit hStands live (.keyword text) ()
  · intro after hMoves hStands
    exact ⟨spot, rfl, rfl, holds.moves hMoves, hStands, hMoves.savePoints, fun _ => rfl⟩

/-- A child on a line of its own is read behind the layout ahead and on a line that begins there.
Where it is missing the reader stays behind the layout, which may hold a newline. -/
theorem Holds.ends_line (reads : ReadsAs tokens read seek) (bound : Nat)
    (hTokens : entry.tokens = tokens) (holds : Holds setting owner entry now progress stage)
    (stands : now.At setting.line spot) (label : String) {rule : Rule} (hRule : rule ≠ .document) :
    (readPart read bound stage (.line label rule)).Ends now
      (PartReads setting owner entry now progress spot (.line label rule)
        (seekPart seek bound setting progress spot (.line label rule))) := by
  have hHere : now.tokens = tokens := holds.keeps.tokens.trans hTokens
  obtain ⟨behind, hRun, hMoves, hBehind⟩ :=
    Reading.exec_skipLayout stands holds.keeps.steady.offset_le
  have hHolds := holds.moves hMoves
  have hReads := ends_withinLine hBehind.line
    (reads rule none _ _ _ hRule (hMoves.tokens.trans hHere) hBehind.reline
      hHolds.keeps.steady.reline (live_none _))
  have hNesting : behind.nesting = spot.nesting := hBehind.nesting
  rw [hNesting] at hReads
  have hSkip : Reading.skipLayout.Ends now fun outcome after => outcome = .ok () ∧ after = behind :=
    Reading.ends_of_exec hRun ⟨rfl, rfl⟩
  refine Reading.ends_bind hSkip ?_ ?_
  · rintro _ _ ⟨_, rfl⟩
    refine hHolds.keeps.ends_bind_rule hReads ?_ ?_
    · intro tree commits ahead after hStands hKeeps
      exact ⟨progress, ahead, rfl, hHolds.extend hKeeps, hStands⟩
    · intro after hStands hKeeps hPoints
      exact ⟨_, rfl, rfl, hHolds.extend hKeeps, hStands, hPoints.trans hMoves.savePoints,
        fun hStill => by cases hStill⟩
  · rintro failure after ⟨hValue, _⟩
    cases hValue

/-- An optional child commits the sequence where it is there, and where it is not the sequence goes
on from the same place. -/
theorem Holds.ends_optional (reads : ReadsAs tokens read seek) (bound : Nat)
    (hTokens : entry.tokens = tokens) (live : entry.Live owner)
    (holds : Holds setting owner entry now progress stage) (stands : now.At setting.line spot)
    (label : String) {rule : Rule} (hRule : rule ≠ .document) :
    (readPart read bound stage (.optional label rule)).Ends now
      (PartReads setting owner entry now progress spot (.optional label rule)
        (seekPart seek bound setting progress spot (.optional label rule))) := by
  refine holds.keeps.ends_bind_rule (reads rule none _ _ _ hRule (holds.keeps.tokens.trans hTokens)
    stands holds.keeps.steady (live_none now)) ?_ ?_
  · intro tree commits ahead after hStands hKeeps
    exact (holds.extend hKeeps).ends_commit hStands live (.optional label rule) (some tree)
  · intro after hStands hKeeps hPoints
    exact ⟨progress, spot, rfl, holds.extend hKeeps, hStands⟩

/-- The first of several children commits the sequence, and the others are read after that. -/
theorem Holds.ends_some (reads : ReadsAs tokens read seek) (bound : Nat)
    (hTokens : entry.tokens = tokens) (live : entry.Live owner)
    (holds : Holds setting owner entry now progress stage) (stands : now.At setting.line spot)
    (label : String) {rule : Rule} (hRule : rule ≠ .document) :
    (readPart read bound stage (.some label rule)).Ends now
      (PartReads setting owner entry now progress spot (.some label rule)
        (seekPart seek bound setting progress spot (.some label rule))) := by
  refine holds.keeps.ends_bind_rule (reads rule none _ _ _ hRule (holds.keeps.tokens.trans hTokens)
    stands holds.keeps.steady (live_none now)) ?_ ?_
  · intro tree commits ahead after hStands hKeeps
    refine (holds.extend hKeeps).ends_bind_commit hStands live ?_
    intro stage' last hHolds hLast
    refine hHolds.keeps.ends_bind_many (ends_readMany reads hRule bound
      (hHolds.keeps.tokens.trans hTokens) hLast hHolds.keeps.steady) ?_
    intro trees commits next behind hBehind hKept
    exact ⟨_, next, rfl, hHolds.extend hKept, hBehind⟩
  · intro after hStands hKeeps hPoints
    exact ⟨spot, rfl, rfl, holds.extend hKeeps, hStands, hPoints, fun _ => rfl⟩

/-- Reading a part does to the reader what looking for the part says. -/
theorem ends_readPart (reads : ReadsAs tokens read seek) (bound : Nat)
    (hTokens : entry.tokens = tokens) (live : entry.Live owner)
    (holds : Holds setting owner entry now progress stage) (stands : now.At setting.line spot)
    (part : Part) (hPart : part.rule? ≠ some .document) :
    (readPart read bound stage part).Ends now
      (PartReads setting owner entry now progress spot part
        (seekPart seek bound setting progress spot part)) := by
  have hNow : now.Steady := holds.keeps.steady
  have hHere : now.tokens = tokens := holds.keeps.tokens.trans hTokens
  have hRule : ∀ {rule : Rule}, part.rule? = some rule → rule ≠ .document := by
    rintro _ hEq rfl
    exact hPart hEq
  cases part with
  | delimiter text | newline | choice label choice | token label kind =>
      refine holds.keeps.ends_bind_expect (Reading.exec_expect _ _ stands hNow.offset_le) ?_ ?_
      · intro token commits ahead after hMoves hStands
        exact ⟨progress, ahead, rfl, holds.moves hMoves, hStands⟩
      · intro after hMoves hStands
        exact ⟨spot, rfl, rfl, holds.moves hMoves, hStands, hMoves.savePoints, fun _ => rfl⟩
  | keyword text => exact holds.ends_keyword bound live stands text
  | optionalToken label kind =>
      refine holds.keeps.ends_bind_expect (Reading.exec_expect _ _ stands hNow.offset_le) ?_ ?_
      · intro token commits ahead after hMoves hStands
        exact ⟨progress, ahead, rfl, holds.moves hMoves, hStands⟩
      · intro after hMoves hStands
        exact ⟨progress, spot, rfl, holds.moves hMoves, hStands⟩
  | child label rule =>
      refine holds.keeps.ends_bind_rule
        (reads rule _ _ _ _ (hRule rfl) hHere stands hNow holds.live) ?_ ?_
      · intro tree commits ahead after hStands hKeeps
        exact ⟨_, ahead, rfl, holds.child hKeeps, hStands⟩
      · intro after hStands hKeeps hPoints
        exact ⟨spot, rfl, rfl, holds.extend hKeeps, hStands, hPoints, fun _ => rfl⟩
  | line label rule => exact holds.ends_line reads bound hTokens stands label (hRule rfl)
  | optional label rule => exact holds.ends_optional reads bound hTokens live stands label (hRule rfl)
  | many label rule =>
      refine holds.keeps.ends_bind_many (ends_readMany reads (hRule rfl) bound hHere stands hNow) ?_
      intro trees commits ahead after hStands hKeeps
      exact ⟨progress, ahead, rfl, holds.extend hKeeps, hStands⟩
  | some label rule => exact holds.ends_some reads bound hTokens live stands label (hRule rfl)
  | commit => exact holds.ends_commit stands live .commit ()

end

/-- The parts of a sequence. One that is no attempt has come no further than its first part where
something can be missing. -/
theorem ends_readParts (reads : ReadsAs tokens read seek) (bound : Nat) {setting : Setting}
    {owner : Option Attempt} {entry : Cursor} {start : Spot} (hTokens : entry.tokens = tokens)
    (begins : entry.At setting.line start) (steady : entry.Steady) (live : entry.Live owner)
    (parts : List Part)
    (hParts : parts.all (·.rule? != some .document) = true) {now : Cursor} {progress : Progress}
    {stage : Stage} {spot : Spot} (holds : Holds setting owner entry now progress stage)
    (stands : now.At setting.line spot)
    (hSure : setting.standing.isAttempt = true ∨ parts.all Part.sure = true ∨
      (parts.all Part.still = true ∧ parts.tail.all Part.sure = true ∧ progress.owner = false ∧
        spot = start ∧ now.savePoints = entry.savePoints)) :
    (readParts read bound parts stage).Ends now
      (Answers owner entry setting.line start (seekParts seek bound setting parts progress spot)) := by
  induction parts generalizing now progress stage spot with
  | nil => exact ⟨by rw [← holds.outer]; rfl, stands, holds.keeps⟩
  | cons part parts ih =>
      simp only [List.all_cons, Bool.and_eq_true, bne_iff_ne, ne_eq] at hParts
      obtain ⟨hPart, hParts⟩ := hParts
      rw [readParts_cons, seekParts_cons]
      refine Reading.ends_bind (ends_readPart reads bound hTokens live holds stands part hPart) ?_ ?_
      · rintro ⟨kept, stage'⟩ after hReads
        cases kept with
        | some kept =>
            obtain ⟨progress', ahead, hReply, hHolds, hStands⟩ := hReads
            have hRest : setting.standing.isAttempt = true ∨ parts.all Part.sure = true := by
              rcases hSure with hAttempt | hAll | ⟨-, hTail, -⟩
              · exact .inl hAttempt
              · simp only [List.all_cons, Bool.and_eq_true] at hAll
                exact .inr hAll.2
              · exact .inr hTail
            rw [hReply, Reply.either_found]
            exact ends_keeping _ (ih hParts hHolds hStands (hRest.imp_right .inl))
        | none =>
            obtain ⟨ahead, hReply, hUnsure, hHolds, hStands, hPoints, hAhead⟩ := hReads
            rw [hReply, Setting.either_giveUp]
            refine hHolds.giveUp hStands begins steady ?_
            rcases hSure with hAttempt | hAll | ⟨hStill, -, hFlag, rfl, hSame⟩
            · exact .inl hAttempt
            · simp [hUnsure] at hAll
            · simp only [List.all_cons, Bool.and_eq_true] at hStill
              exact .inr ⟨hFlag, hAhead hStill.1, hPoints.trans hSame⟩
      · rintro failure after ⟨ahead, hReply, hRests⟩
        rw [hReply]
        exact ⟨rfl, hRests⟩

/-- An attempt begins where the reader stands. It adds one place to those that are kept, and that is
its own. -/
theorem Holds.begin {setting : Setting} {owner : Option Attempt} {cursor : Cursor}
    (steady : cursor.Steady) (hAttempt : setting.standing.isAttempt = true) :
    Holds setting owner cursor cursor.save ⟨false, false⟩
      ⟨some ⟨setting.rule, cursor.mark, cursor.savePoints.length, false⟩, owner,
        setting.standing.isBody⟩ := by
  have hKeeps : Keeps cursor.savePoints.length cursor cursor.save := by
    refine ⟨rfl, ⟨steady.offset_le, steady.taken, ?_, ?_⟩, by simp [save], by simp [save]⟩
    · refine List.pairwise_append.mpr ⟨steady.ordered, by simp, ?_⟩
      intro mark hMark last hLast
      rw [List.mem_singleton.mp hLast]
      exact (steady.held mark hMark).2
    · intro mark hMark
      rcases List.mem_append.mp hMark with hMark | hMark
      · exact steady.held mark hMark
      · rw [List.mem_singleton.mp hMark]
        exact ⟨steady.offset_le, Nat.le_refl _⟩
  exact ⟨rfl, by rw [if_pos hAttempt], by simp, by simpa using hKeeps,
    fun _ _ => ⟨rfl, by simp [save]⟩⟩

/-- A sequence that is no attempt adds no place of its own to those that are kept. -/
theorem Holds.plain {setting : Setting} {owner : Option Attempt} {cursor : Cursor}
    (steady : cursor.Steady) (hAttempt : setting.standing.isAttempt = false) :
    Holds setting owner cursor cursor ⟨false, false⟩ ⟨none, owner, setting.standing.isBody⟩ :=
  ⟨rfl, by simp [hAttempt], by simp, by simpa using (MovesTo.refl cursor).keeps steady,
    by simp [hAttempt]⟩

/-- A sequence is read as an attempt with a place of its own or else as a part of the attempt around
it. -/
theorem exec_readForm_sequence (bound : Nat) (rule : Rule) (owner : Option Attempt)
    (standing : Standing) (parts : List Part) (cursor : Cursor) :
    (readForm read bound rule owner (.sequence standing parts)).exec cursor =
      if standing.isAttempt then
        (keeping .sequence (readParts read bound parts
          ⟨some ⟨rule, cursor.mark, cursor.savePoints.length, false⟩, owner,
            standing.isBody⟩)).exec cursor.save
      else
        (keeping .sequence (readParts read bound parts ⟨none, owner, standing.isBody⟩)).exec
          cursor := by
  cases hAttempt : standing.isAttempt <;> simp only [readForm, hAttempt] <;> rfl

/-- What a rule holds is read as it is looked for, if the rules inside it are. An attempt that is
missing goes back to its place and drops it. -/
theorem ends_readForm (reads : ReadsAs tokens read seek) (bound : Nat) (rule : Rule)
    {owner : Option Attempt} {line : Line} {spot : Spot} {cursor : Cursor} (form : Form)
    (hForm : form.putsBack = true) (hTokens : cursor.tokens = tokens)
    (stands : cursor.At line spot) (steady : cursor.Steady) (live : cursor.Live owner) :
    (readForm read bound rule owner form).Ends cursor
      (Answers owner cursor line spot (seekForm seek bound rule line spot form)) := by
  cases form with
  | literal kinds =>
      unfold readForm seekForm
      refine ends_bind_tells (Reading.exec_expect _ _ stands steady.offset_le) ?_ ?_ ?_
      · intro token commits ahead after hReply hMoves hStands
        have hCommits : commits = false := by
          simp only [Spot.expect] at hReply
          split at hReply
          · cases hReply
          · split at hReply
            · cases hReply
            · split at hReply <;> cases hReply
              rfl
        simp only [Spot.expectKinds, hReply, hCommits]
        exact ⟨by simp, hStands, by simpa using hMoves.keeps steady⟩
      · intro after hReply hMoves hStands
        simp only [Spot.expectKinds, hReply]
        exact ⟨by simp, hStands, hMoves.keeps steady, hMoves.savePoints⟩
      · intro failure ahead after hReply hMoves hStands
        simp only [Spot.expectKinds, hReply]
        exact ⟨rfl, hMoves.rests steady hStands⟩
  | oneOf rules =>
      simp only [Form.putsBack, Bool.not_eq_true'] at hForm
      have hRules : .document ∉ rules := by simpa using hForm
      exact ends_readFirst reads live hTokens rules hRules stands
        ((MovesTo.refl cursor).keeps steady) rfl
  | sequence standing parts =>
      simp only [Form.putsBack, Bool.and_eq_true, Bool.or_eq_true] at hForm
      obtain ⟨hParts, hSure⟩ := hForm
      rw [Reading.Ends, exec_readForm_sequence]
      cases hAttempt : standing.isAttempt with
      | true =>
          simp only [if_pos]
          have hBegun : cursor.save.At line spot :=
            ⟨stands.rest, stands.within, stands.nesting, stands.line⟩
          exact ends_keeping _ (ends_readParts reads bound hTokens stands steady live parts
            hParts
            (Holds.begin steady hAttempt) hBegun (.inl hAttempt))
      | false =>
          simp only [if_neg Bool.false_ne_true]
          obtain ⟨hStill, hTail⟩ := hSure.resolve_left (by simp [hAttempt])
          exact ends_keeping _ (ends_readParts reads bound hTokens stands steady live parts
            hParts
            (Holds.plain steady hAttempt) stands (.inr (.inr ⟨hStill, hTail, rfl, rfl, rfl⟩)))

end

/-- What is read at a rule is what is found at it. -/
theorem reads_readRule (tokens : Array Token) (bound : Nat) :
    ReadsAs tokens (readRule bound) (seekRule bound) := by
  induction bound with
  | zero =>
      intro rule owner line spot cursor _ _ stands steady _
      exact ⟨rfl, stands, steady, rfl⟩
  | succ bound ih =>
      intro rule owner line spot cursor hRule hTokens stands steady live
      exact ends_keeping _
        (ends_readForm ih bound rule rule.form (Rule.putsBack hRule) hTokens stands steady live)

end DocumentLanguage
