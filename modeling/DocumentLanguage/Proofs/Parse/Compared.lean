import DocumentLanguage.Parse.Document
import DocumentLanguage.Proofs.Parse.Cursor
import DocumentLanguage.Proofs.Parse.Step
import Mathlib.Tactic.SplitIfs

/-!
Two readers side by side. The second one has other tokens than the first, but wherever the first one
looks for a token the second one finds the same. Then they do the same on all their way through a
rule. What is compared is told only of readers that have come no further than they were meant to,
since a reader may look at tokens that the other one does not have.
-/
namespace DocumentLanguage

namespace Cursor

/-- What a reader becomes whatever it reads: it has the same tokens, it has taken in no fewer of
them, and it lets go of them if it did. -/
structure Onward (before after : Cursor) : Prop where
  tokens : after.tokens = before.tokens
  releases : after.releases = before.releases
  reached : before.reached ≤ after.reached

namespace Onward

theorem refl (cursor : Cursor) : cursor.Onward cursor :=
  ⟨rfl, rfl, Nat.le_refl _⟩

theorem trans {first second third : Cursor} (left : first.Onward second)
    (right : second.Onward third) : first.Onward third :=
  ⟨right.tokens.trans left.tokens, right.releases.trans left.releases,
    Nat.le_trans left.reached right.reached⟩

end Onward

theorem onward_look (cursor : Cursor) (index : Nat) : cursor.Onward (cursor.look index).2 := by
  unfold look
  split
  · exact .refl cursor
  · exact ⟨rfl, rfl, Nat.le_max_left _ _⟩

theorem onward_release (cursor : Cursor) : cursor.Onward cursor.release := by
  unfold release
  split <;> exact ⟨rfl, rfl, Nat.le_refl _⟩

theorem onward_advance (cursor : Cursor) : cursor.Onward cursor.advance :=
  ⟨rfl, rfl, Nat.le_refl _⟩

theorem onward_consume (token : Token) (cursor : Cursor) : cursor.Onward (cursor.consume token) :=
  ⟨rfl, rfl, Nat.le_refl _⟩

theorem onward_reset (mark : Mark) (cursor : Cursor) : cursor.Onward (cursor.reset mark) :=
  ⟨rfl, rfl, Nat.le_refl _⟩

theorem onward_dropSavePoints (index : Nat) (cursor : Cursor) :
    cursor.Onward (cursor.dropSavePoints index) :=
  ⟨rfl, rfl, Nat.le_refl _⟩

end Cursor

namespace Reading

variable {α β : Type}

/-- A reading takes every reader onward. -/
def Onward (reading : Reading α) : Prop :=
  ∀ cursor : Cursor, cursor.Onward (reading.exec cursor).2

theorem onward_pure (value : α) : (pure value : Reading α).Onward :=
  Cursor.Onward.refl

theorem onward_throw (failure : Failure) : (throw failure : Reading α).Onward :=
  Cursor.Onward.refl

theorem onward_get : (get : Reading Cursor).Onward :=
  Cursor.Onward.refl

/-- One step of a reader and then another take it onward if each does, also where the first one
fails and the second is never made. -/
theorem Onward.bind {reading : Reading α} {next : α → Reading β} (first : reading.Onward)
    (behind : ∀ value, (next value).Onward) : (reading >>= next).Onward := by
  intro cursor
  have hFirst := first cursor
  rw [exec_bind]
  rcases hRun : reading.exec cursor with ⟨outcome, after⟩
  rw [hRun] at hFirst
  cases outcome with
  | ok value => exact hFirst.trans (behind value after)
  | error failure => exact hFirst

theorem onward_tokenAt (index : Nat) : (tokenAt index).Onward :=
  fun cursor => cursor.onward_look index

theorem onward_modify {change : Cursor → Cursor}
    (hChange : ∀ cursor : Cursor, cursor.Onward (change cursor)) : (modify change : Reading Unit).Onward :=
  hChange

theorem onward_significantFrom (bound index : Nat) : (significantFrom bound index).Onward := by
  induction bound generalizing index with
  | zero => exact onward_pure none
  | succ bound ih =>
    refine (onward_tokenAt index).bind fun token => ?_
    cases token with
    | none => exact onward_pure none
    | some token =>
      dsimp only
      split_ifs
      · exact ih (index + 1)
      · exact onward_throw _
      · exact onward_pure _

theorem onward_peek : peek.Onward :=
  onward_get.bind fun cursor => onward_significantFrom cursor.ahead cursor.position

theorem onward_nextWithin (overLines : Bool) (bound : Nat) : (nextWithin overLines bound).Onward := by
  induction bound with
  | zero => exact onward_pure none
  | succ bound ih =>
    refine onward_get.bind fun cursor => (onward_tokenAt _).bind fun token => ?_
    cases token with
    | none => exact onward_pure none
    | some token =>
      dsimp only
      split_ifs
      · exact (onward_modify Cursor.onward_advance).bind fun _ => ih
      · exact onward_throw _
      · exact (onward_modify (Cursor.onward_consume token)).bind fun _ => onward_pure _

/-- Looking for a token takes tokens in and may move the reader back to where it stood, but it
changes neither the tokens nor how they are let go of. -/
theorem onward_expect (overLines : Bool) (test : Token → Bool) : (expect overLines test).Onward := by
  refine onward_get.bind fun cursor => ?_
  refine (onward_get.bind fun cursor => onward_nextWithin overLines cursor.ahead).bind fun token => ?_
  have hBack : (do modify (·.reset cursor.mark); pure none : Reading (Option Token)).Onward :=
    (onward_modify (Cursor.onward_reset cursor.mark)).bind fun _ => onward_pure none
  cases token with
  | none => exact hBack
  | some token =>
    dsimp only
    split_ifs
    · exact onward_pure _
    · exact hBack

theorem onward_skipLayoutWithin (bound : Nat) : (skipLayoutWithin bound).Onward := by
  induction bound with
  | zero => exact onward_pure ()
  | succ bound ih =>
    refine onward_get.bind fun cursor => (onward_tokenAt _).bind fun token => ?_
    cases token with
    | none => exact onward_pure ()
    | some token =>
      dsimp only
      split_ifs
      · exact (onward_modify Cursor.onward_advance).bind fun _ => ih
      · exact onward_pure ()

theorem onward_skipLayout : skipLayout.Onward :=
  onward_get.bind fun cursor => onward_skipLayoutWithin cursor.ahead

end Reading

/-- A way to compare two readers: how the tokens of the second come from those of the first, and how
far the first one may have come for the two to be compared. -/
structure Comparison where
  change : Array Token → Array Token
  covers : Cursor → Prop
  covers_of_onward : ∀ {before after : Cursor}, before.Onward after → covers after → covers before

namespace Comparison

/-- The second reader, wherever the first one stands. -/
def image (comparison : Comparison) (cursor : Cursor) : Cursor :=
  { cursor with tokens := comparison.change cursor.tokens }

/-- Two readings do the same here to the two readers, unless the first reader comes too far. -/
structure SameAt (comparison : Comparison) {α : Type} (cursor : Cursor) (first second : Reading α) :
    Prop where
  onward : cursor.Onward (first.exec cursor).2
  same : comparison.covers (first.exec cursor).2 →
    second.exec (comparison.image cursor) =
      ((first.exec cursor).1, comparison.image (first.exec cursor).2)

/-- Two readings do the same to the two readers wherever these stand. -/
def Same (comparison : Comparison) {α : Type} (first second : Reading α) : Prop :=
  ∀ cursor, comparison.SameAt cursor first second

variable {comparison : Comparison} {α β : Type} {cursor : Cursor}

theorem same_pure (value : α) : comparison.Same (pure value) (pure value) :=
  fun cursor => ⟨.refl cursor, fun _ => rfl⟩

theorem same_throw (failure : Failure) :
    comparison.Same (throw failure : Reading α) (throw failure) :=
  fun cursor => ⟨.refl cursor, fun _ => rfl⟩

/-- A change that gives the same answer in both readers, and goes the same way in both, is the same
for both. -/
theorem same_modifyGet {change : Cursor → α × Cursor}
    (hChange : ∀ cursor : Cursor, cursor.Onward (change cursor).2)
    (hImage : ∀ cursor, change (comparison.image cursor) =
      ((change cursor).1, comparison.image (change cursor).2)) :
    comparison.Same (modifyGet change) (modifyGet change) := by
  intro cursor
  refine ⟨hChange cursor, fun _ => ?_⟩
  rw [Reading.exec_modifyGet, hImage]
  rfl

/-- A change that goes the same way in both readers is the same for both, with no answer to be
compared. -/
theorem same_modify {change : Cursor → Cursor}
    (hChange : ∀ cursor : Cursor, cursor.Onward (change cursor))
    (hImage : ∀ cursor, change (comparison.image cursor) = comparison.image (change cursor)) :
    comparison.Same (modify change) (modify change) :=
  same_modifyGet hChange fun cursor => congrArg (Prod.mk ()) (hImage cursor)

/-- What comes behind is compared only where the first reading leaves the first reader. -/
theorem SameAt.bind {first second : Reading α} {next following : α → Reading β}
    (here : comparison.SameAt cursor first second)
    (behind : ∀ value after, first.exec cursor = (.ok value, after) →
      comparison.SameAt after (next value) (following value)) :
    comparison.SameAt cursor (first >>= next) (second >>= following) := by
  obtain ⟨hOnward, hSame⟩ := here
  rcases hRun : first.exec cursor with ⟨outcome, after⟩
  rw [hRun] at hOnward hSame
  cases outcome with
  | ok value =>
    obtain ⟨hBehind, hThere⟩ := behind value after hRun
    constructor
    · rw [Reading.exec_bind, hRun]
      exact hOnward.trans hBehind
    · rw [Reading.exec_bind, Reading.exec_bind, hRun]
      intro hCovers
      rw [hSame (comparison.covers_of_onward hBehind hCovers)]
      exact hThere hCovers
  | error failure =>
    constructor
    · rw [Reading.exec_bind, hRun]
      exact hOnward
    · rw [Reading.exec_bind, Reading.exec_bind, hRun]
      intro hCovers
      rw [hSame hCovers]

theorem Same.bind {first second : Reading α} {next following : α → Reading β}
    (same : comparison.Same first second)
    (behind : ∀ value, comparison.Same (next value) (following value)) :
    comparison.Same (first >>= next) (second >>= following) :=
  fun cursor => (same cursor).bind fun value after _ => behind value after

theorem SameAt.of_get {next : Cursor → Reading α} {second : Reading α}
    (here : comparison.SameAt cursor (next cursor) second) :
    comparison.SameAt cursor (get >>= next) second := by
  constructor <;> rw [Reading.exec_bind]
  · exact here.onward
  · exact here.same

/-- A reading that asks where it stands is compared at that place only. The two readers get
different answers there, since their tokens differ. -/
theorem SameAt.get_bind {next following : Cursor → Reading α}
    (here : comparison.SameAt cursor (next cursor) (following (comparison.image cursor))) :
    comparison.SameAt cursor (get >>= next) (get >>= following) := by
  refine .of_get ⟨here.onward, ?_⟩
  rw [Reading.exec_bind]
  exact here.same

/-- Readings are compared only where the first reader has not come too far already. -/
theorem SameAt.of_covers {first second : Reading α} (onward : first.Onward)
    (here : comparison.covers cursor → comparison.SameAt cursor first second) :
    comparison.SameAt cursor first second :=
  ⟨onward cursor, fun hCovers =>
    (here (comparison.covers_of_onward (onward cursor) hCovers)).same hCovers⟩

theorem Same.keeping {first second : Reading (Outcome α)} (same : comparison.Same first second)
    (keep : α → β) : comparison.Same (keeping keep first) (DocumentLanguage.keeping keep second) :=
  same.bind fun _ => same_pure _

/-- A statement line is read alike, since where it begins is not among the things in which the
readers differ. -/
theorem Same.withinLine {first second : Reading α} (same : comparison.Same first second) :
    comparison.Same (Reading.withinLine first) (Reading.withinLine second) := by
  intro cursor
  obtain ⟨hOnward, hSame⟩ := same { cursor with line := some cursor.nesting }
  constructor
  · rw [Reading.exec_withinLine]
    exact ⟨hOnward.tokens, hOnward.releases, hOnward.reached⟩
  · rw [Reading.exec_withinLine, Reading.exec_withinLine]
    intro hCovers
    have hBack : (first.exec { cursor with line := some cursor.nesting }).2.Onward
        { (first.exec { cursor with line := some cursor.nesting }).2 with line := cursor.line } :=
      ⟨rfl, rfl, Nat.le_refl _⟩
    have hImage : { comparison.image cursor with line := some (comparison.image cursor).nesting } =
        comparison.image { cursor with line := some cursor.nesting } := rfl
    rw [hImage, hSame (comparison.covers_of_onward hBack hCovers)]
    rfl

/-- The two readers find the same wherever they look for a token. -/
structure Alike (comparison : Comparison) : Prop where
  expect : ∀ overLines test,
    comparison.Same (Reading.expect overLines test) (Reading.expect overLines test)
  peek : comparison.Same Reading.peek Reading.peek
  skipLayout : comparison.Same Reading.skipLayout Reading.skipLayout

theorem image_release (cursor : Cursor) :
    (comparison.image cursor).release = comparison.image cursor.release := by
  cases hReleases : cursor.releases <;> simp [Cursor.release, image, hReleases]

/-- Committing an attempt is the same for both readers: which places are dropped and how much is let
go of does not depend on the tokens. -/
theorem same_commit (attempt : Attempt) : comparison.Same attempt.commit attempt.commit := by
  unfold Attempt.commit
  split_ifs
  · exact same_pure attempt
  · refine Same.bind (same_modify (fun cursor => ?_) fun cursor => ?_) fun _ => same_pure _
    · exact (cursor.onward_dropSavePoints _).trans (Cursor.onward_release _)
    · exact image_release (cursor.dropSavePoints attempt.savePoint)

theorem same_commitSome (owner : Option Attempt) :
    comparison.Same (commitSome owner) (commitSome owner) := by
  cases owner with
  | none => exact same_pure none
  | some attempt =>
    rw [commitSome, map_eq_pure_bind]
    exact (same_commit attempt).bind fun _ => same_pure _

theorem same_stageCommit (stage : Stage) : comparison.Same stage.commit stage.commit := by
  refine (same_commitSome stage.own).bind fun own => ?_
  dsimp only
  split_ifs
  · exact (same_commitSome stage.owner).bind fun _ => same_pure _
  · exact (same_pure stage.owner).bind fun _ => same_pure _

section

variable (alike : comparison.Alike)

include alike

theorem same_failIn (rule : Rule) :
    comparison.Same (Reading.failIn rule : Reading α) (Reading.failIn rule) :=
  alike.peek.bind fun token => same_throw (.incomplete rule token)

theorem same_giveUp (stage : Stage) :
    comparison.Same (stage.giveUp : Reading (Outcome α)) stage.giveUp := by
  refine Same.bind ?_ fun _ => same_pure _
  unfold Stage.abandon
  split
  · unfold Attempt.abandon
    split_ifs
    · exact same_failIn alike _
    · exact same_modify (fun _ => ⟨rfl, rfl, Nat.le_refl _⟩) fun _ => rfl
  · exact same_pure ()

end

section

variable {read other : RuleReader}
  (same : ∀ rule owner, comparison.Same (read rule owner) (other rule owner))

include same

/-- Alternatives are tried alike, one after another. Each one that is missing leaves both readers
where they were. -/
theorem same_readFirst (owner : Option Attempt) (rules : List Rule) :
    comparison.Same (readFirst read owner rules) (readFirst other owner rules) := by
  induction rules generalizing owner with
  | nil => exact same_pure _
  | cons rule rules ih =>
    refine (same rule owner).bind fun outcome => ?_
    obtain ⟨tree, owner⟩ := outcome
    cases tree with
    | some tree => exact same_pure _
    | none =>
      refine (ih owner).bind fun outcome => ?_
      obtain ⟨content, owner⟩ := outcome
      cases content with
      | none => exact same_pure _
      | some content =>
        cases content
        exact same_pure _

theorem same_readMany (rule : Rule) (bound : Nat) :
    comparison.Same (readMany read rule bound) (readMany other rule bound) := by
  induction bound with
  | zero => exact same_throw _
  | succ bound ih =>
    refine (same rule none).bind fun outcome => ?_
    obtain ⟨tree, owner⟩ := outcome
    cases tree with
    | none => exact same_pure _
    | some tree => exact ih.bind fun _ => same_pure _

variable (alike : comparison.Alike)

include alike

/-- A part is read alike whatever it is: its tokens by looking for them, its children by the readers
that are compared, and a commitment changes both in the same way. -/
theorem same_readPart (bound : Nat) (stage : Stage) (part : Part) :
    comparison.Same (readPart read bound stage part) (readPart other bound stage part) := by
  have hCommit : ∀ {kept : Option part.Kept},
      comparison.Same (do return (kept, ← stage.commit)) (do return (kept, ← stage.commit)) :=
    (same_stageCommit stage).bind fun _ => same_pure _
  cases part with
  | keyword text =>
    refine (alike.expect _ _).bind fun token => ?_
    cases token with
    | none => exact same_pure _
    | some token => exact hCommit
  | delimiter text | newline | choice label choice | token label kind | optionalToken label kind =>
    exact (alike.expect _ _).bind fun _ => same_pure _
  | child label rule => exact (same rule stage.own).bind fun _ => same_pure _
  | line label rule =>
    exact alike.skipLayout.bind fun _ => (same rule none).withinLine.bind fun _ => same_pure _
  | optional label rule =>
    refine (same rule none).bind fun outcome => ?_
    obtain ⟨tree, owner⟩ := outcome
    cases tree with
    | none => exact same_pure _
    | some tree => exact hCommit
  | many label rule => exact (same_readMany same rule bound).bind fun _ => same_pure _
  | some label rule =>
    refine (same rule none).bind fun outcome => ?_
    obtain ⟨tree, owner⟩ := outcome
    cases tree with
    | none => exact same_pure _
    | some tree =>
      exact (same_stageCommit stage).bind fun _ =>
        (same_readMany same rule bound).bind fun _ => same_pure _
  | commit => exact hCommit

/-- The parts of a sequence are read alike, as each leaves both readers at the same place, and
giving up takes both back. -/
theorem same_readParts (bound : Nat) (parts : List Part) (stage : Stage) :
    comparison.Same (readParts read bound parts stage) (readParts other bound parts stage) := by
  induction parts generalizing stage with
  | nil => exact same_pure _
  | cons part parts ih =>
    rw [readParts_cons, readParts_cons]
    refine (same_readPart same alike bound stage part).bind fun outcome => ?_
    obtain ⟨kept, stage⟩ := outcome
    cases kept with
    | some kept => exact (ih stage).keeping _
    | none => exact same_giveUp alike stage

theorem same_readForm (bound : Nat) (rule : Rule) (owner : Option Attempt) (form : Form) :
    comparison.Same (readForm read bound rule owner form) (readForm other bound rule owner form) := by
  cases form with
  | literal kinds => exact (alike.expect _ _).bind fun _ => same_pure _
  | oneOf rules => exact same_readFirst same owner rules
  | sequence standing parts =>
    have hParts := same_readParts same alike bound parts
    cases hAttempt : standing.isAttempt with
    | true =>
      simp only [readForm, hAttempt, if_true]
      refine Same.bind ?_ fun own => (hParts ⟨own, owner, standing.isBody⟩).keeping _
      rw [map_eq_pure_bind]
      exact (same_modifyGet (fun _ => ⟨rfl, rfl, Nat.le_refl _⟩) fun _ => rfl).bind fun _ =>
        same_pure _
    | false =>
      simp only [readForm, hAttempt, Bool.false_eq_true, if_false]
      exact (same_pure none).bind fun own => (hParts ⟨own, owner, standing.isBody⟩).keeping _

end

/-- Where the two readers find the same tokens they read the same rules, whatever the budget is. -/
theorem same_readRule (alike : comparison.Alike) (bound : Nat) (rule : Rule) (owner : Option Attempt) :
    comparison.Same (readRule bound rule owner) (readRule bound rule owner) := by
  induction bound generalizing rule owner with
  | zero => exact same_throw _
  | succ bound ih => exact (same_readForm ih alike bound rule owner rule.form).keeping _

end Comparison

/-- One document, read with a given budget, and nothing behind it but layout. -/
def documentWithin (budget : Nat) : Reading Document := do
  match ← readRule budget .document none with
  | (none, _) => Reading.failIn .document
  | (some document, _) =>
    match ← Reading.peek with
    | some token => throw (.trailing token)
    | none => pure document

theorem readDocument_eq :
    readDocument = (do documentWithin (readingBudget (← get).tokens.size)) :=
  rfl

/-- Reading a document is reading it with the budget that its tokens call for. The budget is told
apart so that readers with other tokens can be compared under one budget. -/
theorem Cursor.parseDocument_eq (cursor : Cursor) :
    cursor.parseDocument = (documentWithin (readingBudget cursor.tokens.size)).exec cursor := by
  change readDocument.exec cursor = _
  rw [readDocument_eq, Reading.exec_bind]
  rfl

/-- A whole document is read alike under one budget, and so is the layout behind it. -/
theorem Comparison.same_documentWithin {comparison : Comparison} (alike : comparison.Alike)
    (budget : Nat) : comparison.Same (documentWithin budget) (documentWithin budget) := by
  refine (same_readRule alike budget .document none).bind fun outcome => ?_
  obtain ⟨document, owner⟩ := outcome
  cases document with
  | none => exact same_failIn alike .document
  | some document =>
    refine alike.peek.bind fun token => ?_
    cases token with
    | none => exact same_pure document
    | some token => exact same_throw (.trailing token)

/-! ### Readers that let go of tokens -/

/-- Two readers that have the same tokens and let go of them are one and the same reader. -/
def Comparison.releasing : Comparison where
  change tokens := tokens
  covers cursor := cursor.releases = true
  covers_of_onward onward hReleases := onward.releases ▸ hReleases

theorem Comparison.same_of_onward {α : Type} {reading : Reading α} (onward : reading.Onward) :
    releasing.Same reading reading :=
  fun cursor => ⟨onward cursor, fun _ => rfl⟩

theorem Comparison.alike_releasing : releasing.Alike where
  expect overLines test := same_of_onward (Reading.onward_expect overLines test)
  peek := same_of_onward Reading.onward_peek
  skipLayout := same_of_onward Reading.onward_skipLayout

namespace Reading

theorem onward_commitSome (owner : Option Attempt) : (commitSome owner).Onward :=
  fun cursor => (@Comparison.same_commitSome .releasing owner cursor).onward

/-- Whatever rule is read, the reader has the same tokens afterwards and lets go of them if it did
before. -/
theorem onward_readRule (bound : Nat) (rule : Rule) (owner : Option Attempt) :
    (readRule bound rule owner).Onward :=
  fun cursor => (Comparison.same_readRule Comparison.alike_releasing bound rule owner cursor).onward

theorem onward_readPart (bound : Nat) (stage : Stage) (part : Part) :
    (readPart (readRule bound) bound stage part).Onward :=
  fun cursor => (Comparison.same_readPart (fun rule owner => Comparison.same_of_onward
    (onward_readRule bound rule owner)) Comparison.alike_releasing bound stage part cursor).onward

end Reading

/-- Nothing that a reader does makes it let go of tokens or cease to, and it has the same tokens. -/
theorem Cursor.onward_parseDocument (cursor : Cursor) : cursor.Onward cursor.parseDocument.2 := by
  rw [parseDocument_eq]
  exact (Comparison.same_documentWithin Comparison.alike_releasing _ cursor).onward

end DocumentLanguage
