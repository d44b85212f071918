import DocumentLanguage.Proofs.Parse.Compared
import DocumentLanguage.Proofs.Parse.Remains
import DocumentLanguage.Proofs.Parse.Unbounded

/-!
The buffer right after a commitment. A reader that commits keeps the places of the attempts that
were begun before the one that commits, and no others, and its buffer begins at the oldest of them.
Some of these attempts may be over without having committed, and so a document that is read leaves
places behind that nothing turns back to.
-/
namespace DocumentLanguage

open Cursor Comparison Reading

/-- A reader that lets go of tokens makes no call as one that does not. -/
theorem Call.Makes.releases {bound : Nat} {outer call : Call}
    (makes : outer.Makes (readRule bound) bound call) (hOuter : outer.cursor.releases = true) :
    call.cursor.releases = true := by
  by_contra hCall
  obtain ⟨failure, hDiffer⟩ := makes
  have hCalls : ∀ rule owner, releasing.Same (readRule bound rule owner)
      ((readRule bound).failingAt call failure rule owner) := by
    intro rule owner cursor
    have hOnward := Reading.onward_readRule bound rule owner cursor
    refine ⟨hOnward, fun hReleases => RuleReader.exec_failingAt ?_⟩
    rintro rfl
    exact hCall (releasing.covers_of_onward hOnward hReleases)
  have hForm := same_readForm hCalls alike_releasing bound outer.rule outer.owner outer.rule.form
    outer.cursor
  exact hDiffer (congrArg Prod.fst (hForm.same (hForm.onward.releases.trans hOuter)))

/-- Every call that reading a document comes to is made by a reader that lets go of tokens, if the
first one does. -/
theorem Visited.releases {start : Cursor} (hStart : start.releases = true) {bound : Nat} {call : Call}
    (visited : Visited start bound call) : call.cursor.releases = true := by
  induction visited with
  | document => exact hStart
  | inside _ makes ih => exact makes.releases ih

theorem releases_behind (calls : Nat) {cursor : Cursor} (hReleases : cursor.releases = true) :
    (cursor.behind calls).releases = true := by
  induction calls generalizing cursor with
  | zero => exact hReleases
  | succ calls ih => exact ih (cursor.onward_parseDocument.releases.trans hReleases)

/-- A sequence that is being read: the parts of it that are left, and the reader before them. -/
inductive Underway (start : Cursor) (bound : Nat) (call : Call) :
    List Part → Stage → Cursor → Prop
  | begun {standing : Standing} {parts : List Part} (visited : Visited start (bound + 1) call)
      (hForm : call.rule.form = .sequence standing parts) :
      Underway start bound call parts
        ⟨if standing.isAttempt then
            some ⟨call.rule, call.cursor.mark, call.cursor.savePoints.length, false⟩
          else none, call.owner, standing.isBody⟩
        (if standing.isAttempt then call.cursor.save else call.cursor)
  | next {part : Part} {parts : List Part} {stage stage' : Stage} {now after : Cursor}
      {kept : part.Kept} (underway : Underway start bound call (part :: parts) stage now)
      (hRun : (readPart (readRule bound) bound stage part).exec now =
        (.ok (some kept, stage'), after)) :
      Underway start bound call parts stage' after

/-- A part that is being read commits the sequence here. -/
inductive Part.Commits (read : RuleReader) (now : Cursor) : Part → Cursor → Prop
  | keyword {text : String} {token : Token} {here : Cursor}
      (hRun : (expectOneOf [text]).exec now = (.ok (Option.some token), here)) :
      Commits read now (.keyword text) here
  | optional {label : String} {rule : Rule} {tree : Tree rule} {owner : Option Attempt}
      {here : Cursor} (hRun : (read rule none).exec now = (.ok (Option.some tree, owner), here)) :
      Commits read now (.optional label rule) here
  | some {label : String} {rule : Rule} {tree : Tree rule} {owner : Option Attempt}
      {here : Cursor} (hRun : (read rule none).exec now = (.ok (Option.some tree, owner), here)) :
      Commits read now (.some label rule) here
  | commit : Commits read now .commit now

/-- An attempt commits for the first time while a document is read, which takes the reader from one
state to another. -/
inductive CommitsAt (start : Cursor) (attempt : Attempt) (before after : Cursor) : Prop
  | own {bound : Nat} {call : Call} {part : Part} {parts : List Part} {stage : Stage} {now : Cursor}
      (underway : Underway start bound call (part :: parts) stage now)
      (commits : part.Commits (readRule bound) now before) (hOwn : attempt ∈ stage.own)
      (hOpen : attempt.committed = false) (hAfter : (attempt.commit.exec before).2 = after) :
      CommitsAt start attempt before after
  | outer {bound : Nat} {call : Call} {part : Part} {parts : List Part} {stage : Stage}
      {now here : Cursor} (underway : Underway start bound call (part :: parts) stage now)
      (commits : part.Commits (readRule bound) now here) (hBody : stage.isBody = true)
      (hBefore : ((commitSome stage.own).exec here).2 = before) (hOwner : attempt ∈ stage.owner)
      (hOpen : attempt.committed = false) (hAfter : (attempt.commit.exec before).2 = after) :
      CommitsAt start attempt before after

/-- Where a sequence has been read in part, nothing is lost that may be turned back to. -/
structure Underway.Sound (start : Cursor) (call : Call) (parts : List Part) (stage : Stage)
    (now : Cursor) : Prop where
  parts : parts.all (·.rule? != some .document) = true
  live : call.cursor.Live call.owner
  tokens : call.cursor.tokens = start.tokens
  releases : now.releases = true
  reading : ∃ setting progress spot,
    Holds setting call.owner call.cursor now progress stage ∧ now.At setting.line spot

section

variable {start : Cursor} {spot : Spot} {bound : Nat} {call : Call}

/-- Nothing is lost where a sequence begins: an attempt that is begun here adds its own place to
those that were there, and a sequence that is none adds nothing. -/
theorem Underway.sound_begun (begins : start.At none spot) (steady : start.Steady)
    (hStart : start.releases = true) {standing : Standing} {parts : List Part}
    (visited : Visited start (bound + 1) call) (hForm : call.rule.form = .sequence standing parts) :
    Underway.Sound start call parts
      ⟨if standing.isAttempt then
          some ⟨call.rule, call.cursor.mark, call.cursor.savePoints.length, false⟩
        else none, call.owner, standing.isBody⟩
      (if standing.isAttempt then call.cursor.save else call.cursor) := by
  have hParts := call.rule.holdsNoDocument
  rw [hForm] at hParts
  obtain ⟨line, here, hStands, hSteady, hLive, hTokens⟩ :
      ∃ line here, call.cursor.At line here ∧ call.cursor.Steady ∧ call.cursor.Live call.owner ∧
        call.cursor.tokens = start.tokens := by
    rcases visited.sound begins steady with rfl | sound
    · exact ⟨none, spot, begins, steady, live_none start, rfl⟩
    · obtain ⟨line, here, hStands⟩ := sound.stands
      exact ⟨line, here, hStands, sound.steady, sound.live, sound.tokens⟩
  have hReleases := visited.releases hStart
  refine ⟨hParts, hLive, hTokens, by split_ifs <;> exact hReleases,
    ⟨call.rule, standing, line⟩, ⟨false, false⟩, here, ?_⟩
  cases hAttempt : standing.isAttempt with
  | true =>
      exact ⟨Holds.begin hSteady hAttempt,
        ⟨hStands.rest, hStands.within, hStands.nesting, hStands.line⟩⟩
  | false => exact ⟨Holds.plain hSteady hAttempt, hStands⟩

/-- Nothing is lost anywhere in a sequence. Each part that is read leaves the reader where looking
for it says, and what came before it stays. -/
theorem Underway.sound (begins : start.At none spot) (steady : start.Steady)
    (hStart : start.releases = true) {parts : List Part} {stage : Stage} {now : Cursor}
    (underway : Underway start bound call parts stage now) :
    Underway.Sound start call parts stage now := by
  induction underway with
  | begun visited hForm => exact sound_begun begins steady hStart visited hForm
  | @next part parts stage stage' now after kept _ hRun ih =>
      have hParts := ih.parts
      simp only [List.all_cons, Bool.and_eq_true, bne_iff_ne, ne_eq] at hParts
      obtain ⟨setting, progress, here, holds, stands⟩ := ih.reading
      have hEnds := ends_readPart (reads_readRule start.tokens bound) bound ih.tokens ih.live holds
        stands part hParts.1
      have hReleases := (Reading.onward_readPart bound stage part now).releases.trans ih.releases
      rw [Reading.Ends, hRun] at hEnds
      rw [hRun] at hReleases
      obtain ⟨progress', ahead, -, hHolds, hStands⟩ := hEnds
      exact ⟨hParts.2, ih.live, ih.tokens, hReleases, setting, progress', ahead, hHolds, hStands⟩

/-- What a sequence may turn back to is still there when one of its parts commits it: the token or
the child that does so has only moved the reader on. -/
theorem Underway.Sound.of_commits {part : Part} {parts : List Part} {stage : Stage}
    {now here : Cursor} (sound : Underway.Sound start call (part :: parts) stage now)
    (commits : part.Commits (readRule bound) now here) :
    Underway.Sound start call (part :: parts) stage here := by
  have hParts := sound.parts
  simp only [List.all_cons, Bool.and_eq_true, bne_iff_ne, ne_eq] at hParts
  obtain ⟨setting, progress, ahead, holds, stands⟩ := sound.reading
  have hSteady := holds.keeps.steady
  have hHere : now.tokens = start.tokens := holds.keeps.tokens.trans sound.tokens
  have hFound : ∀ {rule : Rule} {tree : Tree rule} {owner : Option Attempt}, rule ≠ .document →
      (readRule bound rule none).exec now = (.ok (some tree, owner), here) →
        Underway.Sound start call (part :: parts) stage here := by
    intro rule tree owner hRule hRun
    have hReleases := (Reading.onward_readRule bound rule none now).releases.trans sound.releases
    rw [hRun] at hReleases
    obtain ⟨_, next, hStands, hKeeps⟩ := (reads_readRule start.tokens bound).of_found hRule hHere
      stands hSteady (live_none now) hRun
    exact ⟨sound.parts, sound.live, sound.tokens, hReleases, setting, progress, next,
      holds.extend hKeeps, hStands⟩
  cases commits with
  | commit => exact sound
  | optional hRun | some hRun => exact hFound (fun hEq => hParts.1 (congrArg some hEq)) hRun
  | @keyword text token _ hRun =>
      obtain ⟨_, _, hExpect, hMoves, hTells⟩ := exec_expect true
        (fun token => token.kind = .delimiter && [text].contains token.text) stands hSteady.offset_le
      have hReleases := (onward_expect true
        (fun token => token.kind = .delimiter && [text].contains token.text) now).releases.trans
          sound.releases
      rw [expectOneOf, hExpect] at hRun
      rw [hExpect] at hReleases
      cases hRun
      generalize ahead.expect setting.line true
        (fun token => token.kind = .delimiter && [text].contains token.text) = reply at hTells
      cases reply with
      | found value _ next =>
          exact ⟨sound.parts, sound.live, sound.tokens, hReleases, setting, progress, next,
            holds.moves hMoves, hTells.2⟩
      | absent => cases hTells.1
      | failed failure next => cases hTells.1

end

/-- The buffer of a reader that lets go of tokens begins at the oldest place that may be turned back
to, or else where it stands. -/
theorem Cursor.Steady.offset_release {cursor : Cursor} (steady : cursor.Steady)
    (hReleases : cursor.releases = true) :
    cursor.release.offset = cursor.savePoints.head?.getD cursor.position := by
  have hFloor : cursor.offset ≤ cursor.savePoints.head?.getD cursor.position ∧
      cursor.savePoints.head?.getD cursor.position ≤ cursor.reached := by
    cases hPoints : cursor.savePoints with
    | nil => exact ⟨steady.offset_le, steady.taken⟩
    | cons oldest points =>
        have hHeld := steady.held oldest (by simp [hPoints])
        exact ⟨hHeld.1, Nat.le_trans hHeld.2 steady.taken⟩
  rw [Cursor.release, if_pos hReleases]
  dsimp only
  omega

/-- What an attempt that commits does to a reader in which nothing was lost: the places begun before
it stay and all others go, and so do the tokens before the oldest one. -/
structure Settles (attempt : Attempt) (before after : Cursor) : Prop where
  older : ∃ newer, before.savePoints = after.savePoints ++ attempt.mark.position :: newer
  count : after.savePoints.length = attempt.savePoint
  position : after.position = before.position
  offset : after.offset = after.savePoints.head?.getD after.position

/-- Committing an attempt cuts the places off where the attempt began, and lets go of all tokens
before the oldest one left. -/
theorem settles_of_commit {attempt : Attempt} {before after : Cursor} (steady : before.Steady)
    (hReleases : before.releases = true) (hOpen : attempt.committed = false)
    (hPlace : before.savePoints[attempt.savePoint]? = some attempt.mark.position)
    (hAfter : (attempt.commit.exec before).2 = after) : Settles attempt before after := by
  obtain ⟨-, hCommit⟩ := @ends_commit attempt before
  rw [hAfter, hOpen, if_neg Bool.false_ne_true] at hCommit
  subst hCommit
  obtain ⟨hLess, hMark⟩ := List.getElem?_eq_some_iff.mp hPlace
  have hPoints : ((before.dropSavePoints attempt.savePoint).release).savePoints =
      before.savePoints.take attempt.savePoint := release_savePoints _
  have hPosition : ((before.dropSavePoints attempt.savePoint).release).position =
      before.position := by
    unfold release
    split <;> rfl
  refine ⟨⟨before.savePoints.drop (attempt.savePoint + 1), ?_⟩, ?_, hPosition, ?_⟩
  · rw [hPoints, ← hMark, List.getElem_cons_drop, List.take_append_drop]
  · rw [hPoints, List.length_take, Nat.min_eq_left (Nat.le_of_lt hLess)]
  · rw [(steady.drop attempt.savePoint).offset_release hReleases, hPoints, hPosition]
    rfl

/-- Every attempt that commits while a document is read settles so. -/
theorem CommitsAt.settles {start : Cursor} {spot : Spot} (begins : start.At none spot)
    (steady : start.Steady) (hStart : start.releases = true) {attempt : Attempt}
    {before after : Cursor} (commits : CommitsAt start attempt before after) :
    Settles attempt before after := by
  cases commits with
  | own underway commits hOwn hOpen hAfter =>
      have sound := (underway.sound begins steady hStart).of_commits commits
      obtain ⟨setting, progress, here, holds, -⟩ := sound.reading
      exact settles_of_commit holds.keeps.steady sound.releases hOpen
        (holds.live attempt hOwn hOpen) hAfter
  | @outer _ _ _ _ stage _ here underway commits hBody hBefore hOwner hOpen hAfter =>
      have sound := (underway.sound begins steady hStart).of_commits commits
      obtain ⟨setting, progress, ahead, holds, stands⟩ := sound.reading
      have hReleases := (Reading.onward_commitSome stage.own here).releases.trans sound.releases
      rw [hBefore] at hReleases
      have hOwn := ends_commitSome stands holds.keeps.steady holds.live
      rw [Reading.Ends, hBefore] at hOwn
      have hChild := holds.child hOwn.2.2
      exact settles_of_commit hChild.keeps.steady hReleases hOpen
        (hChild.live_outer sound.live attempt hOwner hOpen) hAfter

/-- However many documents were read before: whatever attempt commits while the next one is read
keeps the places of the attempts begun before it and no others, and the buffer begins at the oldest
of them, or where the reader stands. A document that is read leaves behind as many places as its
attempts that ended well and were never committed, nor any around them. -/
theorem savePoints_of_parseDocument (tokens : List Token) (calls : Nat) :
    (∀ attempt before after, CommitsAt ((start tokens).behind calls) attempt before after →
      Settles attempt before after) ∧
    ∀ document after, ((start tokens).behind calls).parseDocument = (.ok document, after) →
      after.savePoints.length =
        ((start tokens).behind calls).savePoints.length + document.remains.all := by
  obtain ⟨spot, rests⟩ := exists_rests_behind calls (rests_start tokens)
  have hReleases : ((start tokens).behind calls).releases = true := releases_behind calls rfl
  exact ⟨fun _ _ _ commits => commits.settles rests.stands rests.steady hReleases,
    fun _ _ hRun => length_readDocument rests.stands rests.steady hRun⟩

/-- A list drops its own place where it commits, and the value behind a comma leaves its place. -/
theorem savePoints_of_parseDocument_list :
    let tokens : List Token :=
      [⟨.delimiter, .start, "["⟩, ⟨.number, .start, "1"⟩, ⟨.delimiter, .start, ","⟩,
       ⟨.number, .start, "2"⟩, ⟨.delimiter, .start, "]"⟩]
    let entry : Cursor := { Cursor.start tokens with reached := 3 }
    let before : Cursor := { entry.save with position := 1, nesting := 1 }
    let list : Attempt := ⟨.list, entry.mark, 0, false⟩
    Settles list before (list.commit.exec before).2 ∧
      ∃ document after, (Cursor.start tokens).parseDocument = (.ok document, after) ∧
        after.savePoints = [2] ∧ document.remains.all = 1 := by
  intro tokens entry before list
  let first : Cursor := { Cursor.start tokens with reached := 1 }
  have visited : Visited (Cursor.start tokens) 220 ⟨.list, none, entry⟩ :=
    have root : Visited (Cursor.start tokens) 224 ⟨.document, none, Cursor.start tokens⟩ :=
      .document
    have component : Visited (Cursor.start tokens) 223 ⟨.component, none, first⟩ :=
      root.inside (Call.makes_of_isOk (by decide +kernel) (by decide +kernel))
    have entity : Visited (Cursor.start tokens) 222 ⟨.entity, none, first⟩ :=
      component.inside (Call.makes_of_isOk (by decide +kernel) (by decide +kernel))
    have collection : Visited (Cursor.start tokens) 221 ⟨.collection, none, first⟩ :=
      entity.inside (Call.makes_of_isOk (by decide +kernel) (by decide +kernel))
    collection.inside (Call.makes_of_isOk (by decide +kernel) (by decide +kernel))
  have underway : Underway (Cursor.start tokens) 219 ⟨.list, none, entry⟩
      [.commit, .child "values" .values, .delimiter "]"] ⟨some list, none, false⟩ before :=
    (Underway.begun visited rfl).next rfl
  have commits : CommitsAt (Cursor.start tokens) list before (list.commit.exec before).2 :=
    .own underway .commit rfl rfl rfl
  have hMain := savePoints_of_parseDocument tokens 0
  have hOk : (Cursor.start tokens).parseDocument.1.isOk = true := by decide +kernel
  have hPoints : (Cursor.start tokens).parseDocument.2.savePoints = [2] := by decide +kernel
  rcases hRun : (Cursor.start tokens).parseDocument with ⟨outcome, after⟩
  rw [hRun] at hOk hPoints
  cases outcome with
  | error failure => cases hOk
  | ok document =>
      have hRemains : after.savePoints.length = 0 + document.remains.all :=
        hMain.2 document after hRun
      rw [hPoints, Nat.zero_add] at hRemains
      exact ⟨hMain.1 list before _ commits, document, after, rfl, hPoints, hRemains.symm⟩

/-- A range never commits, so its place is still there when the document has been read, and all
tokens are still held. -/
theorem range_keeps_savePoint :
    let read := (Cursor.start (scan "[1..2]")).parseDocument
    read.1.isOk = true ∧ read.2.savePoints = [0] ∧ read.2.offset = 0 ∧ read.2.position = 5 := by
  decide +kernel

/-- Behind a commitment too a place may be kept that nothing turns back to. When the parameters
commit, the range before them has been read and nothing is underway that could still be given up,
and yet its place stays, and with it every token from the first on. -/
theorem commit_keeps_savePoint :
    let tokens : List Token :=
      [⟨.delimiter, .start, "["⟩, ⟨.number, .start, "1"⟩, ⟨.delimiter, .start, ".."⟩,
       ⟨.number, .start, "2"⟩, ⟨.delimiter, .start, "]"⟩, ⟨.delimiter, .start, "("⟩,
       ⟨.delimiter, .start, ":"⟩, ⟨.delimiter, .start, ")"⟩]
    let first : Cursor := { Cursor.start tokens with reached := 1 }
    ∃ range ended attempt before after,
      Visited (Cursor.start tokens) 316 ⟨.range, none, first⟩ ∧
      (readRule 316 .range none).exec first = (.ok (some range, none), ended) ∧
      CommitsAt (Cursor.start tokens) attempt before after ∧
      attempt.rule = .parameters ∧ attempt.mark = ended.mark ∧
      after.savePoints = [0] ∧ after.offset = 0 ∧ after.position = 7 := by
  intro tokens first
  let entry : Cursor := { first with reached := 5, position := 5, savePoints := [0] }
  let parameters : Attempt := ⟨.parameters, entry.mark, 1, false⟩
  let opened : Cursor := { entry.save with reached := 6, position := 6, nesting := 1 }
  let before : Cursor := { opened with reached := 7, position := 7 }
  have component : Visited (Cursor.start tokens) 319 ⟨.component, none, first⟩ :=
    Visited.document.inside (Call.makes_of_isOk (by decide +kernel) (by decide +kernel))
  have hRange : Visited (Cursor.start tokens) 316 ⟨.range, none, first⟩ :=
    have entity : Visited (Cursor.start tokens) 318 ⟨.entity, none, first⟩ :=
      component.inside (Call.makes_of_isOk (by decide +kernel) (by decide +kernel))
    have collection : Visited (Cursor.start tokens) 317 ⟨.collection, none, first⟩ :=
      entity.inside (Call.makes_of_isOk (by decide +kernel) (by decide +kernel))
    collection.inside (Call.makes_of_isOk (by decide +kernel) (by decide +kernel))
  have hBody : Visited (Cursor.start tokens) 316
      ⟨.noAssociations, some parameters, { opened with reached := 7 }⟩ :=
    have list : Visited (Cursor.start tokens) 318 ⟨.parameters, none, entry⟩ :=
      component.inside (Call.makes_of_isOk (by decide +kernel) (by decide +kernel))
    have associations : Visited (Cursor.start tokens) 317 ⟨.associations, some parameters, opened⟩ :=
      list.inside (Call.makes_of_isOk (by decide +kernel) (by decide +kernel))
    associations.inside (Call.makes_of_isOk (by decide +kernel) (by decide +kernel))
  have underway : Underway (Cursor.start tokens) 315
      ⟨.noAssociations, some parameters, { opened with reached := 7 }⟩ [.commit]
      ⟨none, some parameters, true⟩ before :=
    (Underway.begun hBody rfl).next rfl
  have commits : CommitsAt (Cursor.start tokens) parameters before (parameters.commit.exec before).2 :=
    .outer underway .commit rfl rfl rfl rfl rfl
  have hFound : ((readRule 316 .range none).exec first).1.toOption.any
      (fun outcome => outcome.1.isSome && outcome.2.isNone) = true := by decide +kernel
  have hEnded : ((readRule 316 .range none).exec first).2.mark = entry.mark := by decide +kernel
  rcases hRun : (readRule 316 .range none).exec first with ⟨_ | ⟨_ | range, _ | owner⟩, ended⟩ <;>
    rw [hRun] at hFound hEnded
  case ok.some.none =>
    exact ⟨range, ended, parameters, before, _, hRange, rfl, commits, rfl, hEnded.symm, rfl, rfl, rfl⟩
  all_goals cases hFound
end DocumentLanguage
