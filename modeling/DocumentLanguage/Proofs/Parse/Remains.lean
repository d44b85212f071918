import DocumentLanguage.Proofs.Parse.PutBack

/-!
What attempts leave behind. An attempt that ends well and has not committed keeps its place among
those that may be turned back to, although nothing turns back to it any more, until an attempt
that was begun before it commits. How many such places there are can be told from the tree.
-/
namespace DocumentLanguage

open Cursor

/-- How many places the attempts at a node leave behind. -/
structure Remains where
  /-- All of them. -/
  all : Nat
  /-- Those left since the rule around the node was committed by it, if it was. -/
  since : Option Nat
deriving DecidableEq, Repr

/-- How far reading the parts of a sequence has come. -/
structure Course where
  remains : Remains
  committed : Bool
deriving DecidableEq, Repr

/-- The places that several nodes leave behind. -/
def totalOf (inner : List Remains) : Nat :=
  inner.foldr (fun remains total => remains.all + total) 0

namespace Course

def begin (standing : Standing) : Course :=
  ⟨⟨if standing.isAttempt then 1 else 0, none⟩, false⟩

def add (count : Nat) (course : Course) : Course :=
  { course with
    remains := ⟨course.remains.all + count, course.remains.since.map (· + count)⟩ }

/-- The first time that a sequence commits it drops its own place and all behind that. -/
def commit (standing : Standing) (course : Course) : Course :=
  ⟨⟨if standing.isAttempt && !course.committed then 0 else course.remains.all,
    if standing.isBody then some (course.remains.since.getD 0) else course.remains.since⟩, true⟩

/-- A child may commit the sequence that it is read in. -/
def child (standing : Standing) (course : Course) (inner : Remains) : Course :=
  match inner.since with
  | some count =>
    if standing.isAttempt && !course.committed then ⟨⟨count, course.remains.since⟩, true⟩
    else course.add inner.all
  | none => course.add inner.all

end Course

/-- What reading a part adds, by what its nodes leave behind. -/
def Part.pass (standing : Standing) (course : Course) : Part → List Remains → Course
  | .keyword _, _ | .commit, _ => course.commit standing
  | .child _ _, inner => inner.foldl (Course.child standing) course
  | .line _ _, inner | .many _ _, inner => course.add (totalOf inner)
  | .optional _ _, [] => course
  | .optional _ _, inner => (course.add (totalOf inner)).commit standing
  | .some _ _, [] => course
  | .some _ _, first :: more =>
    ((course.add first.all).commit standing).add (totalOf more)
  | _, _ => course

/-- How far a sequence has come behind some of its parts. -/
def Course.past (standing : Standing) : List Part → List (List Remains) → Course → Course
  | [], _, course => course
  | part :: parts, inner, course =>
    match part.fixed?, inner with
    | some _, inner => past standing parts inner (part.pass standing course [])
    | none, here :: inner => past standing parts inner (part.pass standing course here)
    | none, [] => past standing parts [] course

mutual

/-- What a node leaves behind. -/
def Tree.remains : {rule : Rule} → Tree rule → Remains
  | _, .mk content => content.remains

def Content.remains : {form : Form} → Content form → Remains
  | _, .literal _ _ => ⟨0, none⟩
  | _, .oneOf _ _ tree => tree.remains
  | _, @Content.sequence standing parts fields =>
    (Course.past standing parts fields.remains (.begin standing)).remains

def Fields.remains : {fields : List Field} → Fields fields → List (List Remains)
  | _, .nil => []
  | _, .text _ rest | _, .optionalText _ rest | _, .absent rest => [] :: rest.remains
  | _, .child tree rest | _, .present tree rest => [tree.remains] :: rest.remains
  | _, .many trees rest => trees.remains :: rest.remains

/-- What nodes of one rule leave behind, one after another. -/
def Trees.remains : {rule : Rule} → Trees rule → List Remains
  | _, .nil => []
  | _, .cons tree trees => tree.remains :: trees.remains

end

def Part.inner : (part : Part) → part.Kept → List Remains
  | child _ _, tree | line _ _, tree | optional _ _, Option.some tree => [tree.remains]
  | many _ _, trees | some _ _, trees => trees.remains
  | _, _ => []

/-- The course of a sequence passes its first part and then goes on with the others. -/
theorem Course.past_keep (standing : Standing) (course : Course) {parts : List Part} (part : Part)
    (kept : part.Kept) (fields : Fields (fieldsOf parts)) :
    past standing (part :: parts) (part.keep kept fields).remains course =
      past standing parts fields.remains (part.pass standing course (part.inner kept)) := by
  cases part with
  | optional => cases kept <;> rfl
  | _ => rfl

/-- How many save-points there are behind a node if there were so many before it. One that has
committed the rule around it leaves only those that were there before that rule. -/
def Remains.count (remains : Remains) (owner : Option Attempt) (before : Nat) : Nat :=
  match owner, remains.since with
  | some attempt, some since =>
    if attempt.committed then before + remains.all else attempt.savePoint + since
  | _, _ => before + remains.all

/-- Where nothing was committed every place that was left is added to those from before. -/
theorem Remains.count_of_since_none {remains : Remains} (hSince : remains.since = none)
    (owner : Option Attempt) (before : Nat) : remains.count owner before = before + remains.all := by
  unfold count
  rw [hSince]
  cases owner <;> rfl

/-- With no attempt around it a rule adds the places that it left, as there is none to be dropped.
-/
theorem Remains.count_none (remains : Remains) (before : Nat) :
    remains.count none before = before + remains.all := rfl

@[simp] theorem Course.count_add (owner : Option Attempt) (before count : Nat) (course : Course) :
    (course.add count).remains.count owner before = course.remains.count owner before + count := by
  cases owner with
  | none => simp [Remains.count, add, Nat.add_assoc]
  | some attempt =>
      cases hSince : course.remains.since with
      | none => simp [Remains.count, add, hSince, Nat.add_assoc]
      | some since =>
          simp only [Remains.count, add, hSince, Option.map_some]
          split <;> rw [Nat.add_assoc]

/-- A node that was read leaves so many save-points, and commits the attempt around it if it says
so. -/
structure Leaves (owner : Option Attempt) (before after : Cursor) (owner' : Option Attempt)
    (remains : Remains) : Prop where
  length : after.savePoints.length = remains.count owner before.savePoints.length
  outer : owner' = owner.map (Attempt.join remains.since.isSome)

/-- Whatever rule but a document's is read leaves what its node tells. -/
def LeavesAs (tokens : Array Token) (read : RuleReader) : Prop :=
  ∀ (rule : Rule) (owner : Option Attempt) (line : Line) (spot : Spot) (cursor : Cursor),
    rule ≠ .document → cursor.tokens = tokens → cursor.At line spot → cursor.Steady →
      cursor.Live owner → ∀ tree owner' after,
        (read rule owner).exec cursor = (.ok (some tree, owner'), after) →
          Leaves owner cursor after owner' tree.remains

section

variable {tokens : Array Token} {read : RuleReader} {seek : Seeker} {rule : Rule}
  {owner owner' : Option Attempt} {line : Line} {spot : Spot} {cursor after : Cursor}

/-- Where a rule is not there nothing has changed: the reader stands where it stood, with the same
attempt around it and the same places. -/
theorem ReadsAs.of_missed (reads : ReadsAs tokens read seek) (hRule : rule ≠ .document)
    (hTokens : cursor.tokens = tokens) (stands : cursor.At line spot) (steady : cursor.Steady)
    (live : cursor.Live owner) (hRun : (read rule owner).exec cursor = (.ok (none, owner'), after)) :
    owner' = owner ∧ after.At line spot ∧ Keeps cursor.savePoints.length cursor after ∧
      after.savePoints = cursor.savePoints := by
  have hReads := reads rule owner line spot cursor hRule hTokens stands steady live
  rw [Reading.Ends, hRun] at hReads
  cases hReply : seek rule line spot with
  | found value commits next =>
      rw [hReply] at hReads
      cases hReads.1
  | failed failure next =>
      rw [hReply] at hReads
      cases hReads.1
  | absent =>
      rw [hReply] at hReads
      obtain ⟨hValue, hRest⟩ := hReads
      cases hValue
      exact ⟨rfl, hRest⟩

/-- Where a rule is there the reader has come on, and could go on. -/
theorem ReadsAs.of_found (reads : ReadsAs tokens read seek) (hRule : rule ≠ .document)
    (hTokens : cursor.tokens = tokens) (stands : cursor.At line spot) (steady : cursor.Steady)
    (live : cursor.Live owner) {tree : Tree rule}
    (hRun : (read rule owner).exec cursor = (.ok (some tree, owner'), after)) :
    ∃ commits next, after.At line next ∧ Keeps (cursor.floor owner commits) cursor after := by
  have hReads := reads rule owner line spot cursor hRule hTokens stands steady live
  rw [Reading.Ends, hRun] at hReads
  cases hReply : seek rule line spot with
  | found value commits next =>
      rw [hReply] at hReads
      exact ⟨commits, next, hReads.2⟩
  | failed failure next =>
      rw [hReply] at hReads
      cases hReads.1
  | absent =>
      rw [hReply] at hReads
      cases hReads.1

/-- A value that is kept under a constructor comes from a reading of what the constructor holds. -/
theorem of_exec_keeping_ok {α β : Type} {keep : α → β} {reading : Reading (Outcome α)} {value : β}
    (hRun : (keeping keep reading).exec cursor = (.ok (some value, owner'), after)) :
    ∃ first, reading.exec cursor = (.ok (some first, owner'), after) ∧ value = keep first := by
  obtain ⟨⟨first, owner⟩, between, hFirst, hRest⟩ := Reading.of_exec_bind_ok hRun
  cases first with
  | none => cases hRest
  | some first =>
      cases hRest
      exact ⟨first, hFirst, rfl⟩

/-- Looking for a token leaves all places as they are, whether it is found or not. -/
theorem savePoints_of_expect {overLines : Bool} {test : Token → Bool} (stands : cursor.At line spot)
    (steady : cursor.Steady) {found : Option Token}
    (hRun : (Reading.expect overLines test).exec cursor = (.ok found, after)) :
    after.savePoints = cursor.savePoints := by
  obtain ⟨outcome, reached, hExpect, hMoves, -⟩ :=
    Reading.exec_expect overLines test stands steady.offset_le
  rw [hRun] at hExpect
  cases hExpect
  exact hMoves.savePoints

/-- A statement line that was read leaves what its node tells. -/
theorem LeavesAs.withinLine (leaves : LeavesAs tokens read) (hRule : rule ≠ .document)
    (hTokens : cursor.tokens = tokens) (stands : cursor.At line spot) (steady : cursor.Steady)
    {tree : Tree rule}
    (hRun : (Reading.withinLine (read rule none)).exec cursor = (.ok (some tree, owner'), after)) :
    Leaves none cursor after owner' tree.remains := by
  rw [Reading.exec_withinLine] at hRun
  rcases hInner : (read rule none).exec { cursor with line := some cursor.nesting } with
    ⟨outcome, inner⟩
  rw [hInner] at hRun
  cases hRun
  have hLeaves := leaves rule none _ _ { cursor with line := some cursor.nesting } hRule hTokens
    stands.reline steady.reline (live_none _) tree _ _ hInner
  exact ⟨hLeaves.length, hLeaves.outer⟩

/-- The first of several rules that is there leaves what its node tells. -/
theorem leaves_readFirst (reads : ReadsAs tokens read seek) (leaves : LeavesAs tokens read)
    (rules : List Rule) (hRules : .document ∉ rules) (hTokens : cursor.tokens = tokens)
    (stands : cursor.At line spot) (steady : cursor.Steady) (live : cursor.Live owner)
    {content : Content (.oneOf rules)}
    (hRun : (readFirst read owner rules).exec cursor = (.ok (some content, owner'), after)) :
    Leaves owner cursor after owner' content.remains := by
  induction rules generalizing cursor with
  | nil => cases hRun
  | cons rule rules ih =>
      have hRule : rule ≠ .document := fun hEq => hRules (by simp [hEq])
      obtain ⟨⟨tree, first⟩, between, hFirst, hRest⟩ := Reading.of_exec_bind_ok hRun
      cases tree with
      | some tree =>
          cases hRest
          exact leaves rule owner line spot cursor hRule hTokens stands steady live tree _ _ hFirst
      | none =>
          obtain ⟨rfl, hStands, hKeeps, hPoints⟩ :=
            reads.of_missed hRule hTokens stands steady live hFirst
          have hLive : between.Live first := fun attempt hAttempt hUncommitted => by
            rw [hPoints]
            exact live attempt hAttempt hUncommitted
          obtain ⟨⟨others, last⟩, behind, hOthers, hLast⟩ := Reading.of_exec_bind_ok hRest
          cases others with
          | none => cases hLast
          | some others =>
              obtain ⟨chosen, allowed, tree⟩ := others
              cases hLast
              have hLeaves := ih (fun hMem => hRules (List.mem_cons_of_mem _ hMem))
                (hKeeps.tokens.trans hTokens) hStands hKeeps.steady hLive hOthers
              exact ⟨by rw [hLeaves.length, hPoints]; rfl, hLeaves.outer⟩

/-- A rule that is read as often as it is there leaves what all its nodes tell. -/
theorem length_readMany (reads : ReadsAs tokens read seek) (leaves : LeavesAs tokens read)
    (hRule : rule ≠ .document) (bound : Nat) (hTokens : cursor.tokens = tokens)
    (stands : cursor.At line spot) (steady : cursor.Steady) {trees : Trees rule}
    (hRun : (readMany read rule bound).exec cursor = (.ok trees, after)) :
    after.savePoints.length = cursor.savePoints.length + totalOf trees.remains := by
  induction bound generalizing cursor spot trees with
  | zero => cases hRun
  | succ bound ih =>
      obtain ⟨⟨tree, own⟩, between, hFirst, hRest⟩ := Reading.of_exec_bind_ok hRun
      cases tree with
      | none =>
          cases hRest
          obtain ⟨-, -, -, hPoints⟩ :=
            reads.of_missed hRule hTokens stands steady (live_none cursor) hFirst
          rw [hPoints]
          rfl
      | some tree =>
          obtain ⟨more, last, hMore, hLast⟩ := Reading.of_exec_bind_ok hRest
          cases hLast
          obtain ⟨commits, next, hStands, hKeeps⟩ :=
            reads.of_found hRule hTokens stands steady (live_none cursor) hFirst
          have hTree := (leaves rule none line spot cursor hRule hTokens stands steady
            (live_none cursor) tree _ _ hFirst).length
          rw [ih (hKeeps.tokens.trans hTokens) hStands hKeeps.steady hMore, hTree,
            Remains.count_none, Nat.add_assoc]
          rfl

end

/-- Committing an attempt that has not committed drops its place and all behind it. -/
theorem length_commitSome {owner owner' : Option Attempt} {cursor after : Cursor}
    (hPlace : ∀ attempt ∈ owner, attempt.committed = false →
      attempt.savePoint ≤ cursor.savePoints.length)
    (hRun : (commitSome owner).exec cursor = (.ok owner', after)) :
    owner' = owner.map (Attempt.join true) ∧ after.savePoints.length = cursor.floor owner true := by
  refine ⟨exec_commitSome_ok hRun, ?_⟩
  cases owner with
  | none =>
      cases hRun
      rfl
  | some attempt =>
      obtain ⟨-, hAfter⟩ := @ends_commit attempt cursor
      rw [commitSome, Reading.exec_map] at hRun
      rcases hCommit : attempt.commit.exec cursor with ⟨outcome, last⟩
      rw [hCommit] at hRun hAfter
      cases outcome with
      | error failure => cases hRun
      | ok value =>
          cases hRun
          have hAfter : after = _ := hAfter
          rw [hAfter]
          cases hOpen : attempt.committed with
          | true => simp [floor, hOpen]
          | false =>
              have hLength := Nat.min_eq_left (hPlace attempt rfl hOpen)
              simpa [floor, hOpen, dropSavePoints] using hLength

/-- How a sequence stands that has been read in part: what its attempts are, and how many
save-points there are. -/
structure Counts (setting : Setting) (owner : Option Attempt) (entry now : Cursor)
    (course : Course) (stage : Stage) : Prop where
  isBody : stage.isBody = setting.standing.isBody
  own : stage.own =
    if setting.standing.isAttempt then
      some ⟨setting.rule, entry.mark, entry.savePoints.length, course.committed⟩
    else none
  outer : stage.owner = owner.map (Attempt.join course.remains.since.isSome)
  length : now.savePoints.length = course.remains.count owner entry.savePoints.length
  /-- The rule around it is committed only together with it. -/
  inside : setting.standing.isAttempt = true → course.committed = false →
    course.remains.since = none

namespace Counts

variable {setting : Setting} {owner : Option Attempt} {entry now after : Cursor} {course : Course}
  {stage stage' : Stage}

/-- The places that a node left are counted in when the sequence comes past it. -/
theorem add (counts : Counts setting owner entry now course stage) {count : Nat}
    (hLength : after.savePoints.length = now.savePoints.length + count) :
    Counts setting owner entry after (course.add count) stage := by
  refine ⟨counts.isBody, counts.own, ?_, ?_, fun hAttempt hOpen => ?_⟩
  · rw [counts.outer, Course.add, Option.isSome_map]
  · rw [hLength, counts.length, Course.count_add]
  · rw [Course.add, counts.inside hAttempt hOpen]
    rfl

/-- A reader that moves on without a change of places leaves the count of a sequence as it is. -/
theorem moves (counts : Counts setting owner entry now course stage)
    (hPoints : after.savePoints = now.savePoints) :
    Counts setting owner entry after course stage :=
  ⟨counts.isBody, counts.own, counts.outer, by rw [hPoints, counts.length], counts.inside⟩

/-- A child is read in the attempt at the sequence and may commit that. -/
theorem child (counts : Counts setting owner entry now course stage) {own : Option Attempt}
    {inner : Remains} (leaves : Leaves stage.own now after own inner) :
    Counts setting owner entry after (course.child setting.standing inner)
      { stage with own := own } := by
  have hOwn := counts.own
  have hAll : inner.count stage.own now.savePoints.length = now.savePoints.length + inner.all →
      own = stage.own → Counts setting owner entry after (course.add inner.all)
        { stage with own := own } := by
    rintro hCount rfl
    exact counts.add (leaves.length.trans hCount)
  unfold Course.child
  cases hSince : inner.since with
  | none =>
      refine hAll (Remains.count_of_since_none hSince _ _) ?_
      rw [leaves.outer, hSince, Option.isSome_none, Attempt.map_join_false]
  | some since =>
      cases hAttempt : setting.standing.isAttempt with
      | false =>
          rw [if_neg (by simp [hAttempt])] at hOwn
          refine hAll ?_ (by rw [leaves.outer, hOwn]; rfl)
          rw [hOwn, Remains.count_none]
      | true =>
          rw [if_pos hAttempt] at hOwn
          cases hOpen : course.committed with
          | true =>
              rw [hOpen] at hOwn
              refine hAll ?_ (by rw [leaves.outer, hOwn]; rfl)
              simp only [Remains.count, hOwn, hSince, if_pos]
          | false =>
              have hNone := counts.inside hAttempt hOpen
              simp only [Bool.true_and, Bool.not_false, if_pos]
              refine ⟨counts.isBody, ?_, counts.outer, ?_, fun _ hNot => by cases hNot⟩
              · rw [leaves.outer, hOwn, hSince, hOpen, if_pos hAttempt]
                rfl
              · have hCount : inner.count stage.own now.savePoints.length =
                    entry.savePoints.length + since := by
                  simp only [Remains.count, hOwn, hSince, hOpen, Bool.false_eq_true, if_false]
                rw [leaves.length, hCount]
                exact (@Remains.count_of_since_none ⟨since, _⟩ hNone _ _).symm

/-- The attempt of the sequence itself commits before the rule around it does. All places that were
left since it began are then dropped with its own. -/
theorem commitOwn (counts : Counts setting owner entry now course stage) {own : Option Attempt}
    (hRun : (commitSome stage.own).exec now = (.ok own, after)) :
    Counts setting owner entry after
      ⟨⟨if setting.standing.isAttempt && !course.committed then 0 else course.remains.all,
        course.remains.since⟩, true⟩ { stage with own := own } := by
  have hOwn := counts.own
  cases hAttempt : setting.standing.isAttempt with
  | false =>
      rw [if_neg (by simp [hAttempt])] at hOwn
      rw [hOwn] at hRun
      cases hRun
      exact ⟨counts.isBody, by simp [hAttempt], counts.outer, by simpa using counts.length,
        by simp [hAttempt]⟩
  | true =>
      rw [if_pos hAttempt] at hOwn
      have hPlace : ∀ attempt ∈ stage.own, attempt.committed = false →
          attempt.savePoint ≤ now.savePoints.length := by
        rintro attempt hMem hOpen
        rw [hOwn] at hMem
        cases hMem
        rw [counts.length, Remains.count_of_since_none (counts.inside hAttempt hOpen)]
        exact Nat.le_add_right _ _
      obtain ⟨rfl, hLength⟩ := length_commitSome hPlace hRun
      refine ⟨counts.isBody, by simp [hAttempt, hOwn, Attempt.join], counts.outer, ?_, by simp⟩
      rw [hLength, hOwn]
      cases hOpen : course.committed with
      | true => simpa [floor] using counts.length
      | false =>
          have hNone := counts.inside hAttempt hOpen
          exact (@Remains.count_of_since_none ⟨0, _⟩ hNone _ _).symm

/-- The place of the rule around a sequence is still there if that can be turned back. -/
theorem place (counts : Counts setting owner entry now course stage) (live : entry.Live owner) :
    ∀ attempt ∈ stage.owner, attempt.committed = false →
      attempt.savePoint ≤ now.savePoints.length := by
  intro attempt hMem hOpen
  rw [counts.outer] at hMem
  obtain ⟨outer, hOwner, rfl⟩ := Option.map_eq_some_iff.mp hMem
  simp only [Attempt.join, Bool.or_eq_false_iff, Option.isSome_eq_false_iff,
    Option.isNone_iff_eq_none] at hOpen
  have hLess := live.savePoint_lt hOwner hOpen.1
  have hLength := counts.length
  rw [Remains.count_of_since_none hOpen.2] at hLength
  dsimp only [Attempt.join]
  omega

/-- How many save-points outlast a commitment of the rule around a sequence: all of them if that rule
had committed before, and otherwise those from before it and those left since the commitment. -/
theorem floor_owner (counts : Counts setting owner entry now course stage) :
    now.floor stage.owner true =
      (Remains.mk course.remains.all (some (course.remains.since.getD 0))).count owner
        entry.savePoints.length := by
  rw [counts.outer]
  cases owner with
  | none => exact counts.length
  | some attempt =>
      have hLength := counts.length
      cases hSince : course.remains.since with
      | none =>
          cases hOpen : attempt.committed with
          | true => simpa [floor, Attempt.join, Remains.count, hSince, hOpen] using hLength
          | false => simp [floor, Attempt.join, Remains.count, hOpen]
      | some since =>
          cases hOpen : attempt.committed with
          | true => simpa [floor, Attempt.join, Remains.count, hSince, hOpen] using hLength
          | false => simpa [floor, Attempt.join, Remains.count, hSince, hOpen] using hLength

/-- Where a sequence commits it drops its own place and all behind it, and where the rule around it
is committed with it, that does too. -/
theorem commit (counts : Counts setting owner entry now course stage) (live : entry.Live owner)
    (hRun : stage.commit.exec now = (.ok stage', after)) :
    Counts setting owner entry after (course.commit setting.standing) stage' := by
  obtain ⟨own, between, hOwn, hRest⟩ := Reading.of_exec_bind_ok hRun
  have hCounts := counts.commitOwn hOwn
  unfold Course.commit
  rw [counts.isBody] at hRest
  cases hBody : setting.standing.isBody with
  | false =>
      rw [hBody] at hRest
      cases hRest
      have hStage : stage.isBody = false := counts.isBody.trans hBody
      simpa [hStage] using hCounts
  | true =>
      rw [hBody] at hRest
      obtain ⟨outer, last, hOuter, hLast⟩ := Reading.of_exec_bind_ok hRest
      cases hLast
      have hStage : stage.isBody = true := counts.isBody.trans hBody
      obtain ⟨rfl, hLength⟩ := length_commitSome (hCounts.place live) hOuter
      refine ⟨hStage.symm.trans counts.isBody, hCounts.own, ?_, ?_, by simp⟩
      · rw [counts.outer, Option.map_map]
        simp [Function.comp_def]
      · rw [hLength, hCounts.floor_owner]
        rfl

end Counts

section

variable {tokens : Array Token} {read : RuleReader} {seek : Seeker} {setting : Setting}
  {owner owner' : Option Attempt} {entry now after : Cursor} {progress : Progress} {course : Course}
  {stage stage' : Stage} {spot : Spot}

/-- A child on a line of its own leaves what its node tells, and the layout before it leaves
nothing. -/
theorem Counts.line (leaves : LeavesAs tokens read) (bound : Nat) (hTokens : now.tokens = tokens)
    (steady : now.Steady) (stands : now.At setting.line spot)
    (counts : Counts setting owner entry now course stage) (label : String) {rule : Rule}
    (hRule : rule ≠ .document) {kept : (Part.line label rule).Kept}
    (hRun : (readPart read bound stage (.line label rule)).exec now =
      (.ok (some kept, stage'), after)) :
    Counts setting owner entry after
      ((Part.line label rule).pass setting.standing course ((Part.line label rule).inner kept))
      stage' := by
  obtain ⟨_, behind, hSkip, hRest⟩ := Reading.of_exec_bind_ok hRun
  obtain ⟨⟨tree, own⟩, last, hRead, hLast⟩ := Reading.of_exec_bind_ok hRest
  cases hLast
  obtain ⟨_, hLayout, hMoves, hBehind⟩ := Reading.exec_skipLayout stands steady.offset_le
  rw [hSkip] at hLayout
  cases hLayout
  refine counts.add ?_
  rw [← hMoves.savePoints]
  exact (leaves.withinLine hRule (hMoves.tokens.trans hTokens) hBehind
    (steady.of_movesTo hMoves) hRead).length

/-- An optional child that is there commits the sequence, which drops what the child left; one that
is not leaves nothing. -/
theorem Counts.optional (reads : ReadsAs tokens read seek) (leaves : LeavesAs tokens read)
    (bound : Nat) (hTokens : now.tokens = tokens) (steady : now.Steady)
    (stands : now.At setting.line spot) (live : entry.Live owner)
    (counts : Counts setting owner entry now course stage) (label : String) {rule : Rule}
    (hRule : rule ≠ .document) {kept : (Part.optional label rule).Kept}
    (hRun : (readPart read bound stage (.optional label rule)).exec now =
      (.ok (some kept, stage'), after)) :
    Counts setting owner entry after
      ((Part.optional label rule).pass setting.standing course
        ((Part.optional label rule).inner kept)) stage' := by
  obtain ⟨⟨tree, own⟩, between, hRead, hRest⟩ := Reading.of_exec_bind_ok hRun
  cases tree with
  | none =>
      cases hRest
      exact counts.moves (reads.of_missed hRule hTokens stands steady (live_none now) hRead).2.2.2
  | some tree =>
      obtain ⟨committed, last, hCommit, hLast⟩ := Reading.of_exec_bind_ok hRest
      cases hLast
      have hLeaves := leaves rule none setting.line spot now hRule hTokens stands steady
        (live_none now) tree _ _ hRead
      exact (counts.add hLeaves.length).commit live hCommit

/-- The first of several children commits the sequence, and what the others leave stays behind that.
-/
theorem Counts.oneOrMore (reads : ReadsAs tokens read seek) (leaves : LeavesAs tokens read) (bound : Nat)
    (hTokens : entry.tokens = tokens) (live : entry.Live owner)
    (holds : Holds setting owner entry now progress stage) (stands : now.At setting.line spot)
    (counts : Counts setting owner entry now course stage) (label : String) {rule : Rule}
    (hRule : rule ≠ .document) {kept : (Part.some label rule).Kept}
    (hRun : (readPart read bound stage (.some label rule)).exec now =
      (.ok (some kept, stage'), after)) :
    Counts setting owner entry after
      ((Part.some label rule).pass setting.standing course ((Part.some label rule).inner kept))
      stage' := by
  have hSteady : now.Steady := holds.keeps.steady
  have hHere : now.tokens = tokens := holds.keeps.tokens.trans hTokens
  have hNone := live_none now
  obtain ⟨⟨tree, own⟩, between, hRead, hRest⟩ := Reading.of_exec_bind_ok hRun
  cases tree with
  | none => cases hRest
  | some tree =>
      obtain ⟨committed, last, hCommit, hRest⟩ := Reading.of_exec_bind_ok hRest
      obtain ⟨trees, behind, hMany, hLast⟩ := Reading.of_exec_bind_ok hRest
      cases hLast
      have hLeaves := leaves rule none setting.line spot now hRule hHere stands hSteady hNone
        tree _ _ hRead
      obtain ⟨commits, next, hStands, hKeeps⟩ :=
        reads.of_found hRule hHere stands hSteady hNone hRead
      have hEnds := (holds.extend hKeeps).commit hStands live
      rw [Reading.Ends, hCommit] at hEnds
      obtain ⟨_, -, hHolds, hBehind⟩ := hEnds
      have hMore := length_readMany reads leaves hRule bound
        (hHolds.keeps.tokens.trans hTokens) hBehind hHolds.keeps.steady hMany
      exact ((counts.add hLeaves.length).commit live hCommit).add hMore

/-- A part adds to the course of a sequence what its nodes leave, and it drops what a commitment in
it drops. -/
theorem Counts.part (reads : ReadsAs tokens read seek) (leaves : LeavesAs tokens read) (bound : Nat)
    (hTokens : entry.tokens = tokens) (live : entry.Live owner)
    (holds : Holds setting owner entry now progress stage) (stands : now.At setting.line spot)
    (counts : Counts setting owner entry now course stage) (part : Part)
    (hPart : part.rule? ≠ some .document) {kept : part.Kept}
    (hRun : (readPart read bound stage part).exec now = (.ok (some kept, stage'), after)) :
    Counts setting owner entry after (part.pass setting.standing course (part.inner kept))
      stage' := by
  have hSteady : now.Steady := holds.keeps.steady
  have hHere : now.tokens = tokens := holds.keeps.tokens.trans hTokens
  have hRule : ∀ {rule : Rule}, part.rule? = some rule → rule ≠ .document := by
    rintro _ hEq rfl
    exact hPart hEq
  cases part with
  | delimiter text | newline | choice label choice | token label kind =>
      obtain ⟨token, between, hExpect, hRest⟩ := Reading.of_exec_bind_ok hRun
      have hPoints := savePoints_of_expect stands hSteady hExpect
      cases token with
      | none => cases hRest
      | some token =>
          cases hRest
          exact counts.moves hPoints
  | optionalToken label kind =>
      obtain ⟨token, between, hExpect, hRest⟩ := Reading.of_exec_bind_ok hRun
      cases hRest
      exact counts.moves (savePoints_of_expect stands hSteady hExpect)
  | keyword text =>
      obtain ⟨token, between, hExpect, hRest⟩ := Reading.of_exec_bind_ok hRun
      have hMoved := counts.moves (savePoints_of_expect stands hSteady hExpect)
      cases token with
      | none => cases hRest
      | some token =>
          obtain ⟨committed, last, hCommit, hLast⟩ := Reading.of_exec_bind_ok hRest
          cases hLast
          exact hMoved.commit live hCommit
  | child label rule =>
      obtain ⟨⟨tree, own⟩, between, hRead, hRest⟩ := Reading.of_exec_bind_ok hRun
      cases hRest
      exact counts.child (leaves rule stage.own setting.line spot now (hRule rfl) hHere stands
        hSteady holds.live kept _ _ hRead)
  | line label rule => exact counts.line leaves bound hHere hSteady stands label (hRule rfl) hRun
  | optional label rule =>
      exact counts.optional reads leaves bound hHere hSteady stands live label (hRule rfl) hRun
  | many label rule =>
      obtain ⟨trees, between, hRead, hRest⟩ := Reading.of_exec_bind_ok hRun
      cases hRest
      exact counts.add (length_readMany reads leaves (hRule rfl) bound hHere stands hSteady hRead)
  | some label rule =>
      exact counts.oneOrMore reads leaves bound hTokens live holds stands label (hRule rfl) hRun
  | commit =>
      obtain ⟨committed, between, hCommit, hRest⟩ := Reading.of_exec_bind_ok hRun
      cases hRest
      exact counts.commit live hCommit

/-- The parts of a sequence leave, one after another, what their nodes tell, and each goes on from
the count the others left. -/
theorem leaves_readParts (reads : ReadsAs tokens read seek) (leaves : LeavesAs tokens read)
    (bound : Nat) (hTokens : entry.tokens = tokens) (live : entry.Live owner) (parts : List Part)
    (hParts : parts.all (·.rule? != some .document) = true)
    (holds : Holds setting owner entry now progress stage) (stands : now.At setting.line spot)
    (counts : Counts setting owner entry now course stage) {fields : Fields (fieldsOf parts)}
    (hRun : (readParts read bound parts stage).exec now = (.ok (some fields, owner'), after)) :
    Leaves owner entry after owner'
      (Course.past setting.standing parts fields.remains course).remains := by
  induction parts generalizing now progress course stage spot with
  | nil =>
      cases hRun
      exact ⟨counts.length, counts.outer⟩
  | cons part parts ih =>
      simp only [List.all_cons, Bool.and_eq_true, bne_iff_ne, ne_eq] at hParts
      obtain ⟨hPart, hParts⟩ := hParts
      rw [readParts_cons] at hRun
      obtain ⟨⟨kept, stage'⟩, between, hRead, hRest⟩ := Reading.of_exec_bind_ok hRun
      cases kept with
      | none =>
          obtain ⟨_, last, -, hLast⟩ := Reading.of_exec_bind_ok hRest
          cases hLast
      | some kept =>
          obtain ⟨others, hOthers, rfl⟩ := of_exec_keeping_ok hRest
          have hEnds := ends_readPart reads bound hTokens live holds stands part hPart
          rw [Reading.Ends, hRead] at hEnds
          obtain ⟨progress', ahead, -, hHolds, hStands⟩ := hEnds
          rw [Course.past_keep]
          exact ih hParts hHolds hStands
            (counts.part reads leaves bound hTokens live holds stands part hPart hRead) hOthers

end

section

variable {tokens : Array Token} {read : RuleReader} {seek : Seeker} {owner owner' : Option Attempt}
  {cursor after : Cursor} {line : Line} {spot : Spot}

/-- An attempt has one place to begin with, its own. A sequence that is no attempt begins with none.
-/
theorem Counts.begin (setting : Setting) (owner : Option Attempt) (cursor : Cursor) :
    Counts setting owner cursor (if setting.standing.isAttempt then cursor.save else cursor)
      (.begin setting.standing)
      ⟨if setting.standing.isAttempt then
          some ⟨setting.rule, cursor.mark, cursor.savePoints.length, false⟩
        else none, owner, setting.standing.isBody⟩ := by
  refine ⟨rfl, rfl, by simp [Course.begin], ?_, fun _ _ => rfl⟩
  rw [Remains.count_of_since_none rfl]
  cases hAttempt : setting.standing.isAttempt <;> simp [Course.begin, hAttempt, save]

def Form.holdsNoDocument : Form → Bool
  | .literal _ => true
  | .oneOf rules => !rules.contains .document
  | .sequence _ parts => parts.all (·.rule? != some .document)

theorem Rule.holdsNoDocument (rule : Rule) : rule.form.holdsNoDocument = true := by
  cases rule <;> decide

/-- A node of any form leaves as many places as its fields tell: an alternative those of its child,
and a sequence what its course comes to. -/
theorem leaves_readForm (reads : ReadsAs tokens read seek) (leaves : LeavesAs tokens read)
    (bound : Nat) (rule : Rule) (form : Form) (hForm : form.holdsNoDocument = true)
    (hTokens : cursor.tokens = tokens) (stands : cursor.At line spot) (steady : cursor.Steady)
    (live : cursor.Live owner) {content : Content form}
    (hRun : (readForm read bound rule owner form).exec cursor = (.ok (some content, owner'), after)) :
    Leaves owner cursor after owner' content.remains := by
  cases form with
  | literal kinds =>
      obtain ⟨token, between, hExpect, hRest⟩ := Reading.of_exec_bind_ok hRun
      have hPoints := savePoints_of_expect stands steady hExpect
      cases token with
      | none => cases hRest
      | some token =>
          cases hRest
          refine ⟨?_, by simp [Content.remains]⟩
          rw [hPoints]
          exact (@Remains.count_of_since_none ⟨0, none⟩ rfl owner _).symm
  | oneOf rules =>
      refine leaves_readFirst reads leaves rules ?_ hTokens stands steady live hRun
      simpa [Form.holdsNoDocument] using hForm
  | sequence standing parts =>
      rw [exec_readForm_sequence] at hRun
      have hCounts := Counts.begin ⟨rule, standing, line⟩ owner cursor
      cases hAttempt : standing.isAttempt with
      | true =>
          rw [if_pos hAttempt] at hRun
          obtain ⟨fields, hParts, rfl⟩ := of_exec_keeping_ok hRun
          have hBegun : cursor.save.At line spot :=
            ⟨stands.rest, stands.within, stands.nesting, stands.line⟩
          simp only [hAttempt, if_pos] at hCounts
          exact leaves_readParts reads leaves bound hTokens live parts hForm
            (Holds.begin steady hAttempt) hBegun hCounts hParts
      | false =>
          rw [if_neg (by simp [hAttempt])] at hRun
          obtain ⟨fields, hParts, rfl⟩ := of_exec_keeping_ok hRun
          simp only [hAttempt, Bool.false_eq_true, if_false] at hCounts
          exact leaves_readParts reads leaves bound hTokens live parts hForm
            (Holds.plain steady hAttempt) stands hCounts hParts

end

/-- Whatever rule is read leaves as many places behind as can be told from its node alone. -/
theorem leaves_readRule (tokens : Array Token) (bound : Nat) :
    LeavesAs tokens (readRule bound) := by
  induction bound with
  | zero =>
      intro rule owner line spot cursor _ _ _ _ _ tree owner' after hRun
      cases hRun
  | succ bound ih =>
      intro rule owner line spot cursor _ hTokens stands steady live tree owner' after hRun
      obtain ⟨content, hForm, rfl⟩ := of_exec_keeping_ok hRun
      exact leaves_readForm (reads_readRule tokens bound) ih bound rule rule.form
        rule.holdsNoDocument hTokens stands steady live hForm

/-- A document that is read leaves as many save-points as its tree tells, besides those that were
there before. -/
theorem length_readDocument {cursor after : Cursor} {spot : Spot} (stands : cursor.At none spot)
    (steady : cursor.Steady) {document : Document}
    (hRun : cursor.parseDocument = (.ok document, after)) :
    after.savePoints.length = cursor.savePoints.length + document.remains.all := by
  obtain ⟨_, _, hGet, hRest⟩ := Reading.of_exec_bind_ok hRun
  cases hGet
  obtain ⟨⟨tree, own⟩, behind, hRead, hRest⟩ := Reading.of_exec_bind_ok hRest
  obtain ⟨bound, hBound⟩ : ∃ bound, readingBudget cursor.tokens.size = bound + 1 :=
    ⟨32 * (cursor.tokens.size + 2) - 1, by simp only [readingBudget, nestingPerToken]; omega⟩
  rw [hBound] at hRead
  have hOpens := opens_document bound stands steady
  rw [Reading.Ends, hRead] at hOpens
  cases tree with
  | none =>
      obtain ⟨_, _, -, hLast⟩ := Reading.of_exec_bind_ok hRest
      cases hLast
  | some tree =>
      obtain ⟨content, hForm, rfl⟩ := of_exec_keeping_ok hRead
      have hLeaves := leaves_readForm (reads_readRule cursor.tokens bound)
        (leaves_readRule cursor.tokens bound) bound .document Rule.document.form
        (Rule.holdsNoDocument .document) rfl stands steady (live_none cursor) hForm
      obtain ⟨next, hRests⟩ : ∃ next, Rests cursor.tokens none next behind := by
        cases hReply : seekRule (bound + 1) .document none spot with
        | found value commits next =>
            rw [hReply] at hOpens
            exact ⟨next, hOpens.2⟩
        | absent =>
            rw [hReply] at hOpens
            cases hOpens.1
        | failed failure next =>
            rw [hReply] at hOpens
            cases hOpens.1
      obtain ⟨reached, -, hPeek⟩ := Reading.exec_peek hRests.stands hRests.steady.offset_le
      obtain ⟨token, last, hLook, hLast⟩ := Reading.of_exec_bind_ok hRest
      rw [hLook] at hPeek
      obtain rfl : last = { behind with reached := reached } := congrArg Prod.snd hPeek
      cases token with
      | some token => cases hLast
      | none =>
          cases hLast
          exact hLeaves.length

end DocumentLanguage
