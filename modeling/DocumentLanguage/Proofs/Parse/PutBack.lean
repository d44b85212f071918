import DocumentLanguage.Proofs.Parse.Document
import DocumentLanguage.Proofs.Parse.Step
import Mathlib.Tactic.ByContra

/-!
Putting back. Wherever a rule is asked for while tokens are read, it either is there, or reading
ends, or the reader stands where it stood and nothing is lost. Behind its point of no return a rule
is never just not there.
-/
namespace DocumentLanguage

open Cursor

/-- A rule that is asked for, inside an attempt or outside all, and the reader at that moment. -/
structure Call where
  rule : Rule
  owner : Option Attempt
  cursor : Cursor
deriving DecidableEq

/-- A reader that fails where a call is made. -/
def RuleReader.failingAt (read : RuleReader) (call : Call) (failure : Failure) : RuleReader :=
  fun rule owner => do
    if (⟨rule, owner, ← get⟩ : Call) = call then throw failure else read rule owner

/-- Every call but the one that is made to fail is read as before. -/
theorem RuleReader.exec_failingAt {read : RuleReader} {call : Call} {failure : Failure} {rule : Rule}
    {owner : Option Attempt} {cursor : Cursor} (hOther : (⟨rule, owner, cursor⟩ : Call) ≠ call) :
    (read.failingAt call failure rule owner).exec cursor = (read rule owner).exec cursor := by
  simp only [failingAt, Reading.exec_bind, Reading.exec_get, if_neg hOther]

/-- What a rule holds is read by making a call: it matters whether that fails. No reading makes up
for a failure, so a call that is made with any reply at all does matter. -/
def Call.Makes (read : RuleReader) (bound : Nat) (outer call : Call) : Prop :=
  ∃ failure,
    ((readForm (read.failingAt call failure) bound outer.rule outer.owner outer.rule.form).exec
      outer.cursor).1 ≠
    ((readForm read bound outer.rule outer.owner outer.rule.form).exec outer.cursor).1

/-- The calls that reading tokens comes to, each with the budget that is left for it. -/
inductive Reached (tokens : List Token) : Nat → Call → Prop
  | document : Reached tokens (readingBudget tokens.length) ⟨.document, none, Cursor.start tokens⟩
  | inside {bound : Nat} {outer call : Call} (reached : Reached tokens (bound + 1) outer)
      (makes : outer.Makes (readRule bound) bound call) : Reached tokens bound call

/-- A call where nothing that may be turned back to is lost. -/
structure Call.Sound (tokens : Array Token) (call : Call) : Prop where
  rule : call.rule ≠ .document
  tokens : call.cursor.tokens = tokens
  stands : ∃ line spot, call.cursor.At line spot
  steady : call.cursor.Steady
  live : call.cursor.Live call.owner

/-- What fails at a call that is not sound is read as before. -/
theorem ReadsAs.failingAt {tokens : Array Token} {read : RuleReader} {seek : Seeker}
    (reads : ReadsAs tokens read seek) {call : Call} (hCall : ¬ call.Sound tokens)
    (failure : Failure) : ReadsAs tokens (read.failingAt call failure) seek := by
  intro rule owner line spot cursor hRule hTokens stands steady live
  have hOther : (⟨rule, owner, cursor⟩ : Call) ≠ call := by
    rintro rfl
    exact hCall ⟨hRule, hTokens, ⟨line, spot, stands⟩, steady, live⟩
  rw [Reading.Ends, RuleReader.exec_failingAt hOther]
  exact reads rule owner line spot cursor hRule hTokens stands steady live

/-- What a call answers depends on where it was made and on nothing else, so that two answers of one
reply agree. -/
theorem Answers.outcome_eq {α : Type} {owner : Option Attempt} {before after after' : Cursor}
    {line : Line} {spot : Spot} {reply : Reply α} {outcome outcome' : Except Failure (Outcome α)}
    (first : Answers owner before line spot reply outcome after)
    (second : Answers owner before line spot reply outcome' after') : outcome = outcome' := by
  cases reply with
  | found value commits next => exact first.1.trans second.1.symm
  | absent => exact first.1.trans second.1.symm
  | failed failure next => exact first.1.trans second.1.symm

/-- What a document opens with is determined by the reply, even though the reader is not put back
where it is missing. -/
theorem Opens.outcome_eq {α : Type} {tokens : Array Token} {missed : Spot}
    {after after' : Cursor} {reply : Reply α} {outcome outcome' : Except Failure (Outcome α)}
    (first : Opens tokens missed reply outcome after)
    (second : Opens tokens missed reply outcome' after') : outcome = outcome' := by
  cases reply with
  | found value commits next => exact first.1.trans second.1.symm
  | absent => exact first.1.trans second.1.symm
  | failed failure next => exact first.1.trans second.1.symm

/-- A call is sound if it is made for a document, outside all attempts and with nothing lost, or
by a call that is sound. -/
theorem Call.Makes.sound {start : Cursor} {spot : Spot} (begins : start.At none spot)
    (steady : start.Steady) {bound : Nat} {outer call : Call}
    (makes : outer.Makes (readRule bound) bound call)
    (sound : outer = ⟨.document, none, start⟩ ∨ outer.Sound start.tokens) :
    call.Sound start.tokens := by
  by_contra hCall
  obtain ⟨failure, hDiffer⟩ := makes
  have hReads := reads_readRule start.tokens bound
  have hFails := hReads.failingAt hCall failure
  rcases sound with rfl | sound
  · exact hDiffer (Opens.outcome_eq (opens_form hFails bound rfl begins steady)
      (opens_form hReads bound rfl begins steady))
  · obtain ⟨line, spot, stands⟩ := sound.stands
    have hForm := Rule.putsBack sound.rule
    exact hDiffer (Answers.outcome_eq
      (ends_readForm hFails bound _ _ hForm sound.tokens stands sound.steady sound.live)
      (ends_readForm hReads bound _ _ hForm sound.tokens stands sound.steady sound.live))

/-- Every call that is made, but the one for the document, is sound. -/
theorem Reached.sound {tokens : List Token} {bound : Nat} {call : Call}
    (reached : Reached tokens bound call) :
    call = ⟨.document, none, Cursor.start tokens⟩ ∨ call.Sound tokens.toArray := by
  induction reached with
  | document => exact .inl rfl
  | inside _ makes ih => exact .inr (makes.sound (at_start tokens) (steady_start tokens) ih)

section

variable {α β : Type}

/-- A reading that does no more to the attempt around it than to commit it. -/
def Reading.Joins (reading : Reading (Outcome α)) (owner : Option Attempt) : Prop :=
  ∀ cursor value owner' after, reading.exec cursor = (.ok (value, owner'), after) →
    ∃ commits, owner' = owner.map (Attempt.join commits)

/-- A reading that never says that something is not there. -/
def Reading.NeverMisses (reading : Reading (Outcome α)) : Prop :=
  ∀ cursor owner after, reading.exec cursor ≠ (.ok (none, owner), after)

theorem Reading.joins_pure (value : Option α) (owner : Option Attempt) :
    (pure (value, owner) : Reading (Outcome α)).Joins owner := by
  intro cursor value' owner' after hRun
  cases hRun
  exact ⟨false, by simp⟩

/-- A reading that joins an attempt after a further commitment joins the attempt as it was before
that one. -/
theorem Reading.joins_of_commits {reading : Reading (Outcome α)} {owner : Option Attempt}
    {commits : Bool} (joins : reading.Joins (owner.map (Attempt.join commits))) :
    reading.Joins owner := by
  intro cursor value owner' after hRun
  obtain ⟨more, rfl⟩ := joins cursor value owner' after hRun
  exact ⟨commits || more, by simp [Function.comp_def]⟩

/-- A reading passes its attempt on if the last of its steps does, since only this one tells of an
attempt. -/
theorem Reading.joins_bind {reading : Reading β} {next : β → Reading (Outcome α)}
    {owner : Option Attempt}
    (hNext : ∀ cursor value after, reading.exec cursor = (.ok value, after) →
      (next value).Joins owner) : (reading >>= next).Joins owner := by
  intro cursor value owner' after hRun
  obtain ⟨middle, between, hFirst, hLast⟩ := Reading.of_exec_bind_ok hRun
  exact hNext cursor middle between hFirst between value owner' after hLast

/-- A reading never misses if its last step never does, whatever comes before. -/
theorem Reading.neverMisses_bind {reading : Reading β} {next : β → Reading (Outcome α)}
    (hNext : ∀ cursor value after, reading.exec cursor = (.ok value, after) →
      (next value).NeverMisses) : (reading >>= next).NeverMisses := by
  intro cursor owner after hRun
  obtain ⟨middle, between, hFirst, hLast⟩ := Reading.of_exec_bind_ok hRun
  exact hNext cursor middle between hFirst between owner after hLast

theorem joins_keeping (keep : α → β) {reading : Reading (Outcome α)} {owner : Option Attempt}
    (joins : reading.Joins owner) : (keeping keep reading).Joins owner := by
  refine Reading.joins_bind ?_
  rintro cursor ⟨value, owner'⟩ after hRun
  obtain ⟨commits, rfl⟩ := joins cursor value owner' after hRun
  intro now value' owner'' last hLast
  cases hLast
  exact ⟨commits, rfl⟩

theorem neverMisses_keeping (keep : α → β) {reading : Reading (Outcome α)}
    (never : reading.NeverMisses) : (keeping keep reading).NeverMisses := by
  refine Reading.neverMisses_bind ?_
  rintro cursor ⟨value, owner'⟩ after hRun now owner'' last hLast
  cases value with
  | none => exact never cursor owner' after hRun
  | some value => cases hLast

end

theorem joins_giveUp {α : Type} (stage : Stage) : (stage.giveUp (α := α)).Joins stage.owner :=
  Reading.joins_bind fun _ _ _ _ => Reading.joins_pure none stage.owner

/-- Committing changes the attempts of a stage by no more than that. -/
theorem exec_commitSome_ok {owner owner' : Option Attempt} {cursor after : Cursor}
    (hRun : (commitSome owner).exec cursor = (.ok owner', after)) :
    owner' = owner.map (Attempt.join true) := by
  cases owner with
  | none =>
      cases hRun
      rfl
  | some attempt =>
      obtain ⟨hCommit, -⟩ := @ends_commit attempt cursor
      rw [commitSome, Reading.exec_map] at hRun
      rcases hFirst : attempt.commit.exec cursor with ⟨outcome, last⟩
      rw [hFirst] at hRun hCommit
      cases hCommit
      cases hRun
      rfl

/-- A stage becomes another where no more is done to its attempts than to commit them. -/
structure Stage.Becomes (stage stage' : Stage) : Prop where
  own : ∃ commits, stage'.own = stage.own.map (Attempt.join commits)
  owner : ∃ commits, stage'.owner = stage.owner.map (Attempt.join commits)

namespace Stage.Becomes

variable {stage stage' : Stage} {cursor after : Cursor}

theorem refl (stage : Stage) : stage.Becomes stage :=
  ⟨⟨false, by simp⟩, ⟨false, by simp⟩⟩

/-- Where a sequence commits, its own attempt and the one around it may have committed since, and
nothing else about it changes. -/
theorem of_commit (hRun : stage.commit.exec cursor = (.ok stage', after)) :
    stage.Becomes stage' := by
  obtain ⟨own, between, hOwn, hRun⟩ := Reading.of_exec_bind_ok hRun
  cases hBody : stage.isBody with
  | false =>
      simp only [hBody, Bool.false_eq_true, if_false] at hRun
      cases hRun
      exact ⟨⟨true, exec_commitSome_ok hOwn⟩, ⟨false, by simp⟩⟩
  | true =>
      simp only [hBody, if_true] at hRun
      obtain ⟨owner, last, hOwner, hRun⟩ := Reading.of_exec_bind_ok hRun
      cases hRun
      exact ⟨⟨true, exec_commitSome_ok hOwn⟩, ⟨true, exec_commitSome_ok hOwner⟩⟩

/-- Reading a part leaves the attempts of a sequence as they are or commits them. None is exchanged
for another one. -/
theorem of_readPart {read : RuleReader} (joins : ∀ rule owner, (read rule owner).Joins owner)
    {bound : Nat} {part : Part} {kept : Option part.Kept}
    (hRun : (readPart read bound stage part).exec cursor = (.ok (kept, stage'), after)) :
    stage.Becomes stage' := by
  cases part <;> obtain ⟨first, between, hFirst, hRun⟩ := Reading.of_exec_bind_ok hRun
  case delimiter | newline | choice | token | optionalToken | many =>
      cases hRun
      exact refl stage
  case keyword =>
      cases first with
      | none =>
          cases hRun
          exact refl stage
      | some token =>
          obtain ⟨committed, last, hCommit, hRun⟩ := Reading.of_exec_bind_ok hRun
          cases hRun
          exact of_commit hCommit
  case child =>
      obtain ⟨tree, own⟩ := first
      cases hRun
      exact ⟨joins _ _ _ _ _ _ hFirst, ⟨false, by simp⟩⟩
  case line =>
      obtain ⟨⟨tree, own⟩, last, -, hRun⟩ := Reading.of_exec_bind_ok hRun
      cases hRun
      exact refl stage
  case optional =>
      obtain ⟨tree, own⟩ := first
      cases tree with
      | none =>
          cases hRun
          exact refl stage
      | some tree =>
          obtain ⟨committed, last, hCommit, hRun⟩ := Reading.of_exec_bind_ok hRun
          cases hRun
          exact of_commit hCommit
  case some =>
      obtain ⟨tree, own⟩ := first
      cases tree with
      | none =>
          cases hRun
          exact refl stage
      | some tree =>
          obtain ⟨committed, last, hCommit, hRun⟩ := Reading.of_exec_bind_ok hRun
          obtain ⟨trees, behind, -, hRun⟩ := Reading.of_exec_bind_ok hRun
          cases hRun
          exact of_commit hCommit
  case commit =>
      cases hRun
      exact of_commit hFirst

end Stage.Becomes

/-- Whether the attempt at a sequence has committed. -/
def Stage.Committed (stage : Stage) : Prop :=
  ∃ attempt ∈ stage.own, attempt.committed = true

/-- An attempt that has committed is never given up as absent, because then giving up is a failure.
-/
theorem neverMisses_giveUp {α : Type} {stage : Stage} (committed : stage.Committed) :
    (stage.giveUp (α := α)).NeverMisses := by
  obtain ⟨attempt, hOwn, hCommitted⟩ := committed
  intro cursor owner after hRun
  rw [Option.mem_def] at hOwn
  simp only [Stage.giveUp, Stage.abandon, hOwn, Attempt.abandon, hCommitted, if_true,
    Reading.failIn, Reading.exec_bind] at hRun
  split at hRun
  · rename_i hFail
    split at hFail <;> cases hFail
  · cases hRun

theorem Stage.Committed.becomes {stage stage' : Stage} (committed : stage.Committed)
    (becomes : stage.Becomes stage') : stage'.Committed := by
  obtain ⟨attempt, hAttempt, hCommitted⟩ := committed
  obtain ⟨commits, hOwn⟩ := becomes.own
  rw [Option.mem_def] at hAttempt
  exact ⟨attempt.join commits, by simp [hOwn, hAttempt], by simp [Attempt.join, hCommitted]⟩

section

variable {read : RuleReader}

/-- Trying alternatives joins the attempt around them with what the one that is found committed. -/
theorem joins_readFirst (joins : ∀ rule owner, (read rule owner).Joins owner)
    (owner : Option Attempt) (rules : List Rule) : (readFirst read owner rules).Joins owner := by
  induction rules generalizing owner with
  | nil => exact Reading.joins_pure none owner
  | cons rule rules ih =>
      unfold readFirst
      refine Reading.joins_bind ?_
      rintro cursor ⟨value, owner'⟩ after hRun
      obtain ⟨commits, rfl⟩ := joins rule owner cursor value owner' after hRun
      refine @Reading.joins_of_commits _ _ _ commits ?_
      cases value with
      | some tree => exact Reading.joins_pure _ _
      | none =>
          refine Reading.joins_bind ?_
          rintro now ⟨content, owner''⟩ last hLast
          obtain ⟨more, rfl⟩ := ih _ now content owner'' last hLast
          refine @Reading.joins_of_commits _ _ _ more ?_
          cases content with
          | some content =>
              cases content
              exact Reading.joins_pure _ _
          | none => exact Reading.joins_pure _ _

/-- The parts of a sequence do no more to the attempt around it than to commit it. -/
theorem joins_readParts (joins : ∀ rule owner, (read rule owner).Joins owner) (bound : Nat)
    (parts : List Part) (stage : Stage) : (readParts read bound parts stage).Joins stage.owner := by
  induction parts generalizing stage with
  | nil => exact Reading.joins_pure _ _
  | cons part parts ih =>
      rw [readParts_cons]
      refine Reading.joins_bind ?_
      rintro cursor ⟨kept, stage'⟩ after hRun
      obtain ⟨commits, hOwner⟩ := (Stage.Becomes.of_readPart joins hRun).owner
      refine @Reading.joins_of_commits _ _ _ commits ?_
      rw [← hOwner]
      cases kept with
      | some kept => exact joins_keeping _ (ih stage')
      | none => exact joins_giveUp stage'

/-- Reading what a rule holds joins the attempt around it, whether it is a literal, an alternative
or a sequence. -/
theorem joins_readForm (joins : ∀ rule owner, (read rule owner).Joins owner) (bound : Nat)
    (rule : Rule) (owner : Option Attempt) (form : Form) :
    (readForm read bound rule owner form).Joins owner := by
  cases form with
  | literal kinds =>
      exact Reading.joins_bind fun _ _ _ _ => Reading.joins_pure _ owner
  | oneOf rules => exact joins_readFirst joins owner rules
  | sequence standing parts =>
      cases hAttempt : standing.isAttempt <;>
        simp only [readForm, hAttempt, Bool.false_eq_true, if_true, if_false] <;>
        exact Reading.joins_bind fun _ own _ _ =>
          joins_keeping _ (joins_readParts joins bound parts ⟨own, owner, standing.isBody⟩)

/-- Once the attempt at a sequence has committed, what is left of it is read or reading ends. -/
theorem neverMisses_readParts (joins : ∀ rule owner, (read rule owner).Joins owner) (bound : Nat)
    (parts : List Part) (stage : Stage) (committed : stage.Committed) :
    (readParts read bound parts stage).NeverMisses := by
  induction parts generalizing stage with
  | nil =>
      intro cursor owner after hRun
      cases hRun
  | cons part parts ih =>
      rw [readParts_cons]
      refine Reading.neverMisses_bind ?_
      rintro cursor ⟨kept, stage'⟩ after hRun
      have hCommitted := committed.becomes (.of_readPart joins hRun)
      cases kept with
      | some kept => exact neverMisses_keeping _ (ih stage' hCommitted)
      | none => exact neverMisses_giveUp hCommitted

end

theorem joins_readRule (bound : Nat) (rule : Rule) (owner : Option Attempt) :
    (readRule bound rule owner).Joins owner := by
  induction bound generalizing rule owner with
  | zero =>
      intro cursor value owner' after hRun
      cases hRun
  | succ bound ih => exact joins_keeping _ (joins_readForm ih bound rule owner rule.form)

/-- Where a rule is not there the reader is as it was. -/
structure PutBack (tokens : List Token) (before after : Cursor) : Prop where
  position : after.position = before.position
  nesting : after.nesting = before.nesting
  line : after.line = before.line
  savePoints : after.savePoints = before.savePoints
  /-- Everything ahead can still be read. -/
  readable : ∀ index, before.position ≤ index → (after.look index).1 = tokens[index]?

/-- A reader at the same spot on the same line stands at the same token. -/
theorem position_eq {before after : Cursor} {line : Line} {spot : Spot}
    (hTokens : after.tokens = before.tokens) (begins : before.At line spot)
    (ends : after.At line spot) : after.position = before.position := by
  have hBefore := congrArg List.length begins.rest
  have hAfter := congrArg List.length ends.rest
  have hWithinBefore := begins.within
  have hWithinAfter := ends.within
  rw [hTokens] at hAfter hWithinAfter
  simp only [List.length_drop, Array.length_toList] at hBefore hAfter
  omega

/-- Whatever rule but the document is asked for while tokens are read: where it is not there the
reader is put back, and the attempt around it is as it was. Whichever of its parts are left once
its own attempt has committed, it is not given up any more. -/
theorem putBack_of_reached {tokens : List Token} {bound : Nat} {call : Call}
    (reached : Reached tokens bound call) (hRule : call.rule ≠ .document) :
    (∀ owner after,
      (readRule bound call.rule call.owner).exec call.cursor = (.ok (none, owner), after) →
        PutBack tokens call.cursor after ∧ owner = call.owner) ∧
    ∀ standing parts, call.rule.form = .sequence standing parts → ∀ left, left <:+ parts →
      ∀ budget, ∀ stage : Stage, stage.Committed →
        (readParts (readRule budget) budget left stage).NeverMisses := by
  refine ⟨?_, fun _ _ _ left _ budget stage committed =>
    neverMisses_readParts (joins_readRule budget) budget left stage committed⟩
  intro owner after hRun
  rcases reached.sound with rfl | sound
  · exact absurd rfl hRule
  obtain ⟨line, spot, stands⟩ := sound.stands
  have hReads := reads_readRule tokens.toArray bound call.rule call.owner line spot call.cursor
    hRule sound.tokens stands sound.steady sound.live
  rw [Reading.Ends, hRun] at hReads
  cases hReply : seekRule bound call.rule line spot with
  | found value commits next =>
      rw [hReply] at hReads
      cases hReads.1
  | failed failure next =>
      rw [hReply] at hReads
      cases hReads.1
  | absent =>
      rw [hReply] at hReads
      obtain ⟨hValue, hStands, hKeeps, hPoints⟩ := hReads
      cases hValue
      dsimp only at hStands hKeeps hPoints
      have hPosition := position_eq hKeeps.tokens stands hStands
      refine ⟨⟨hPosition, hStands.nesting.trans stands.nesting.symm,
        hStands.line.trans stands.line.symm, hPoints, ?_⟩, rfl⟩
      intro index hAhead
      have hOffset := hKeeps.steady.offset_le
      have hKept : ¬ index < after.offset := by omega
      simp [look, hKept, hKeeps.tokens, sound.tokens]

/-- A call is made where failing there ends a reading that else goes well. -/
theorem Call.makes_of_isOk {read : RuleReader} {bound : Nat} {outer call : Call}
    (hOk : ((readForm read bound outer.rule outer.owner outer.rule.form).exec
      outer.cursor).1.isOk = true)
    (hFails : ((readForm (read.failingAt call .exhausted) bound outer.rule outer.owner
      outer.rule.form).exec outer.cursor).1.isOk = false) : outer.Makes read bound call := by
  refine ⟨.exhausted, fun hSame => ?_⟩
  rw [hSame, hOk] at hFails
  cases hFails

/-- A list of one number is not a range, which shows only behind its number. -/
theorem putBack_of_reached_range :
    let tokens : List Token :=
      [⟨.delimiter, .start, "["⟩, ⟨.number, .start, "1"⟩, ⟨.delimiter, .start, "]"⟩]
    let before : Cursor := { Cursor.start tokens with reached := 1 }
    ∃ after, (readRule 156 .range none).exec before = (.ok (none, none), after) ∧
      PutBack tokens before after := by
  intro tokens before
  have reached : Reached tokens 156 ⟨.range, none, before⟩ :=
    have root : Reached tokens 160 ⟨.document, none, Cursor.start tokens⟩ := .document
    have component : Reached tokens 159 ⟨.component, none, before⟩ :=
      root.inside (Call.makes_of_isOk (by decide +kernel) (by decide +kernel))
    have entity : Reached tokens 158 ⟨.entity, none, before⟩ :=
      component.inside (Call.makes_of_isOk (by decide +kernel) (by decide +kernel))
    have collection : Reached tokens 157 ⟨.collection, none, before⟩ :=
      entity.inside (Call.makes_of_isOk (by decide +kernel) (by decide +kernel))
    collection.inside (Call.makes_of_isOk (by decide +kernel) (by decide +kernel))
  have hRun : (readRule 156 .range none).exec before =
      (.ok (none, none), { before with reached := 3 }) := by
    rfl
  exact ⟨_, hRun, ((putBack_of_reached reached (by decide)).1 none _ hRun).1⟩

end DocumentLanguage
