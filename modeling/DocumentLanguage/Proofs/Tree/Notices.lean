import DocumentLanguage.Proofs.Tree.Children
import DocumentLanguage.Tree.Event

/-!
What a processor is told along a walk. Every walk of a node is one list of notices, whoever gets
them: that the node is entered, the notices of its fields with a slot between each two, and that it
is left. So to walk a node is to go through its notices up to the first that fails.
-/
namespace DocumentLanguage

/-- What one hook of a processor is told. -/
inductive Notice
  | enter (node : Node) (index size : Nat)
  | slot (node : Node) (place : Nat)
  | leave (node : Node) (index size : Nat)
  | token (kind : Kind) (text : String)

section

variable {σ ε : Type}

namespace Processor

def answer (processor : Processor σ ε) : Notice → Hook σ ε Unit
  | .enter node index size => processor.enter node index size
  | .slot node place => processor.slot node place
  | .leave node index size => processor.leave node index size
  | .token kind text => processor.token kind text

def ofAnswer (answer : Notice → Hook σ ε Unit) : Processor σ ε where
  enter node index size := answer (.enter node index size)
  slot node place := answer (.slot node place)
  leave node index size := answer (.leave node index size)
  token kind text := answer (.token kind text)

@[simp] theorem answer_ofAnswer (answer : Notice → Hook σ ε Unit) (notice : Notice) :
    (ofAnswer answer).answer notice = answer notice := by
  cases notice <;> rfl

/-- Give a processor notices one after another, up to the first that fails. -/
def follow (processor : Processor σ ε) : List Notice → Hook σ ε Unit
  | [] => pure ()
  | notice :: notices => do
    processor.answer notice
    processor.follow notices

/-- A processor that follows two lists of notices follows the one and then the other, and it does
not come to the second if it fails in the first. -/
theorem follow_append (processor : Processor σ ε) (first second : List Notice) :
    processor.follow (first ++ second) =
      (do processor.follow first; processor.follow second) := by
  induction first with
  | nil => exact (pure_bind () fun _ => processor.follow second).symm
  | cons notice first ih => simp only [List.cons_append, follow, ih, bind_assoc]

/-- A processor that first takes down each notice it gets. -/
def logged (processor : Processor σ ε) : Processor (List Notice × σ) ε :=
  .ofAnswer fun notice => ExceptT.mk fun (log, state) =>
    let (outcome, next) := (processor.answer notice).run.run state
    (outcome, log ++ [notice], next)

end Processor

/-- The notices that a processor gets along a walk. -/
def Tree.heard {rule : Rule} (tree : Tree rule) (processor : Processor σ ε) (state : σ)
    (index size : Nat) : List Notice :=
  (tree.process processor.logged ([], state) index size).2.1

end

/-- The notices of a whole walk, as a processor gets them that does nothing and never fails. -/
def Tree.notices {rule : Rule} (tree : Tree rule) (index size : Nat) : List Notice :=
  tree.heard ({} : Processor Unit Empty) () index size

/-! ### The notices of a node from those of its fields -/

/-- What a node keeps, field by field in the order of declaration. The kind and the text of a
literal are one field, and so is the alternative that was chosen. -/
def Content.kept : {form : Form} → Content form → List Stored
  | _, .literal kind text => [.text kind text]
  | _, .oneOf rule _ tree => [.child ⟨rule, tree⟩]
  | _, .sequence fields => fields.stored

/-- The notices along what is kept in one field. The items of a repeated field count from zero;
any other node stands alone. -/
def Stored.notices : Stored → List Notice
  | text kind kept => [.token kind kept]
  | optionalText kind kept => kept.toList.map (.token kind)
  | child node => node.tree.notices 0 1
  | optional none => []
  | optional (some node) => node.tree.notices 0 1
  | many nodes =>
    nodes.zipIdx.flatMap fun (node, index) => node.tree.notices index nodes.length

/-- The slot before the field at an index. There is none before the first field. -/
def slotBefore (node : Node) : Nat → List Notice
  | 0 => []
  | index + 1 => [.slot node (index + 1)]

/-- The notices of fields from an index on, each field behind its slot. -/
def slotted (node : Node) : Nat → List (List Notice) → List Notice
  | _, [] => []
  | index, field :: fields => slotBefore node index ++ field ++ slotted node (index + 1) fields

/-- A part of a walk that gives every processor the same notices and does nothing else. -/
def Makes (part : (σ ε : Type) → Processor σ ε → Hook σ ε Unit) (notices : List Notice) : Prop :=
  ∀ (σ ε : Type) (processor : Processor σ ε), part σ ε processor = processor.follow notices

section

variable {first second : (σ ε : Type) → Processor σ ε → Hook σ ε Unit} {front back : List Notice}

theorem makes_pure : Makes (fun _ _ _ => pure ()) [] :=
  fun _ _ _ => rfl

/-- A walk that answers a single notice makes this notice and no other. -/
theorem makes_answer (notice : Notice) :
    Makes (fun _ _ processor => processor.answer notice) [notice] :=
  fun _ _ processor => (bind_pure (processor.answer notice)).symm

/-- A walk in two halves makes the notices of the first half followed by those of the second. -/
theorem Makes.bind (hFirst : Makes first front) (hSecond : Makes second back) :
    Makes (fun σ ε processor => do first σ ε processor; second σ ε processor) (front ++ back) := by
  intro σ ε processor
  simp only [hFirst σ ε processor, hSecond σ ε processor, processor.follow_append]

theorem Makes.congr (makes : Makes first front) (hSame : front = back) : Makes first back :=
  hSame ▸ makes

/-- The slot before a field is told to every processor, unless the field is the first. -/
theorem makes_before (node : Node) (index : Nat) :
    Makes (fun _ _ processor => processor.before node index) (slotBefore node index) := by
  cases index with
  | zero => exact makes_pure
  | succ index => exact makes_answer (.slot node (index + 1))

end

namespace Processor

variable {σ ε : Type}

/-- Following a list of notices is answering the first and, unless that fails, following the others
from the state it left. -/
theorem run_follow_cons (processor : Processor σ ε) (notice : Notice) (notices : List Notice)
    (state : σ) :
    (processor.follow (notice :: notices)).run.run state =
      match (processor.answer notice).run.run state with
      | (.ok _, next) => (processor.follow notices).run.run next
      | (.error fault, next) => (.error fault, next) := by
  simp only [follow, ExceptT.run_bind, StateT.run_bind]
  generalize (processor.answer notice).run.run state = answered
  obtain ⟨outcome, next⟩ := answered
  cases outcome <;> rfl

/-- A processor that logs does what it did before, and it has noted down the notice besides. -/
theorem run_answer_logged (processor : Processor σ ε) (notice : Notice) (log : List Notice)
    (state : σ) :
    (processor.logged.answer notice).run.run (log, state) =
      (((processor.answer notice).run.run state).1, log ++ [notice],
        ((processor.answer notice).run.run state).2) := by
  rw [logged, answer_ofAnswer]
  rfl

end Processor

/-- What comes of giving a processor notices: those that it gets, and how that ends. -/
inductive Processor.Takes {σ ε : Type} (processor : Processor σ ε) (state : σ)
    (notices : List Notice) : List Notice → Except ε Unit × σ → Prop
  /-- It fails on none and gets them all. -/
  | all {last : σ} (hRun : (processor.follow notices).run.run state = (.ok (), last)) :
      processor.Takes state notices notices (.ok (), last)
  /-- It fails on one, the first to do so. That is the last it gets, and its error is the outcome. -/
  | fault (index : Nat) {notice : Notice} {fault : ε} {middle last : σ}
      (hNotice : notices[index]? = some notice)
      (hBefore : (processor.follow (notices.take index)).run.run state = (.ok (), middle))
      (hFault : (processor.answer notice).run.run middle = (.error fault, last)) :
      processor.Takes state notices (notices.take (index + 1)) (.error fault, last)

section

variable {σ ε : Type} {processor : Processor σ ε} {notice : Notice} {notices heard : List Notice}
  {state next : σ} {outcome : Except ε Unit × σ}

/-- Behind a notice that does not fail the others are given as if they were alone. -/
theorem Processor.Takes.cons (hAnswer : (processor.answer notice).run.run state = (.ok (), next))
    (takes : processor.Takes next notices heard outcome) :
    processor.Takes state (notice :: notices) (notice :: heard) outcome := by
  cases takes with
  | all hRun => exact .all (by rw [Processor.run_follow_cons, hAnswer]; exact hRun)
  | fault index hNotice hBefore hFault =>
      refine .fault (index + 1) hNotice ?_ hFault
      rw [List.take_succ_cons, Processor.run_follow_cons, hAnswer]
      exact hBefore

end

/-- Taking notices down changes nothing else, and takes down those that a processor gets. -/
theorem Processor.takes_follow {σ ε : Type} (processor : Processor σ ε) (notices log : List Notice)
    (state : σ) :
    ∃ heard, processor.Takes state notices heard ((processor.follow notices).run.run state) ∧
      (processor.logged.follow notices).run.run (log, state) =
        (((processor.follow notices).run.run state).1, log ++ heard,
          ((processor.follow notices).run.run state).2) := by
  induction notices generalizing log state with
  | nil => exact ⟨[], .all rfl, by simp; rfl⟩
  | cons notice notices ih =>
      simp only [Processor.run_follow_cons, Processor.run_answer_logged]
      cases hAnswer : (processor.answer notice).run.run state with
      | mk outcome next =>
          cases outcome with
          | error fault => exact ⟨[notice], .fault 0 rfl rfl hAnswer, rfl⟩
          | ok value =>
              obtain ⟨heard, hTakes, hRun⟩ := ih (log ++ [notice]) next
              exact ⟨notice :: heard, hTakes.cons hAnswer, by simp [hRun]⟩

theorem Makes.walk_eq {rule : Rule} {tree : Tree rule} {index size : Nat} {notices : List Notice}
    (makes : Makes (fun _ _ processor => tree.walk processor index size) notices) {σ ε : Type}
    (processor : Processor σ ε) : tree.walk processor index size = processor.follow notices :=
  makes σ ε processor

/-- What a walk gives to every processor alike are its notices. To see this it is enough to let one
take them down. -/
theorem Makes.notices_eq {rule : Rule} {tree : Tree rule} {index size : Nat} {notices : List Notice}
    (makes : Makes (fun _ _ processor => tree.walk processor index size) notices) :
    tree.notices index size = notices := by
  have hIdle : ∀ notices, (({} : Processor Unit Empty).follow notices).run.run () = (.ok (), ()) := by
    intro notices
    induction notices with
    | nil => rfl
    | cons notice notices ih =>
        rw [Processor.run_follow_cons]
        cases notice <;> exact ih
  obtain ⟨heard, hTakes, hRun⟩ := Processor.takes_follow ({} : Processor Unit Empty) notices [] ()
  rw [hIdle] at hTakes hRun
  rw [Tree.notices, Tree.heard, Tree.process, makes.walk_eq, hRun]
  cases hTakes
  exact List.nil_append notices

mutual

/-- The notices of a node are those of its fields with the slots between them, in the frame of
entering and leaving it. -/
theorem Tree.makes_notices {rule : Rule} : (tree : Tree rule) → (index size : Nat) →
    Makes (fun _ _ processor => tree.walk processor index size) (tree.notices index size) ∧
      tree.notices index size = .enter ⟨rule, tree⟩ index size ::
        (slotted ⟨rule, tree⟩ 0 (tree.content.kept.map Stored.notices) ++
          [.leave ⟨rule, tree⟩ index size])
  | .mk content, index, size => by
      have hMakes := (makes_answer (.enter ⟨rule, .mk content⟩ index size)).bind
        ((content.makes_notices ⟨rule, .mk content⟩).bind
          (makes_answer (.leave ⟨rule, .mk content⟩ index size)))
      have hNotices := @Makes.notices_eq rule (.mk content) index size _ hMakes
      exact ⟨hNotices ▸ hMakes, hNotices⟩

/-- The content of a node makes the notices of what it keeps, with a slot between each two. -/
theorem Content.makes_notices : {form : Form} → (content : Content form) → (node : Node) →
    Makes (fun _ _ processor => content.walk processor node)
      (slotted node 0 (content.kept.map Stored.notices))
  | _, .literal kind text, _ => makes_answer (.token kind text)
  | _, .oneOf _ _ tree, _ => (tree.makes_notices 0 1).1.congr (List.append_nil _).symm
  | _, .sequence fields, node => fields.makes_notices node 0

/-- The fields of a node make their notices one after another, each behind the slot with its index.
-/
theorem Fields.makes_notices : {fields : List Field} → (kept : Fields fields) → (node : Node) →
    (index : Nat) → Makes (fun _ _ processor => kept.walk processor node index)
      (slotted node index (kept.stored.map Stored.notices))
  | _, .nil, _, _ => makes_pure
  | _, @Fields.text _ kind _ text rest, node, index =>
      ((makes_before node index).bind ((makes_answer (.token kind text)).bind
        (rest.makes_notices node (index + 1)))).congr (List.append_assoc ..).symm
  | _, .optionalText none rest, node, index =>
      ((makes_before node index).bind (makes_pure.bind
        (rest.makes_notices node (index + 1)))).congr (List.append_assoc ..).symm
  | _, @Fields.optionalText _ kind _ (some text) rest, node, index =>
      ((makes_before node index).bind ((makes_answer (.token kind text)).bind
        (rest.makes_notices node (index + 1)))).congr (List.append_assoc ..).symm
  | _, .child tree rest, node, index =>
      ((makes_before node index).bind ((tree.makes_notices 0 1).1.bind
        (rest.makes_notices node (index + 1)))).congr (List.append_assoc ..).symm
  | _, .absent rest, node, index =>
      ((makes_before node index).bind (rest.makes_notices node (index + 1))).congr (by
        simp [Fields.stored, Stored.notices, slotted])
  | _, .present tree rest, node, index =>
      ((makes_before node index).bind ((tree.makes_notices 0 1).1.bind
        (rest.makes_notices node (index + 1)))).congr (List.append_assoc ..).symm
  | _, .many trees rest, node, index =>
      ((makes_before node index).bind ((trees.makes_notices 0 trees.length).bind
        (rest.makes_notices node (index + 1)))).congr (by
        simp [Fields.stored, Stored.notices, slotted])

/-- A run of trees makes the notices of each tree, with its place among them. -/
theorem Trees.makes_notices {rule : Rule} : (trees : Trees rule) → (index size : Nat) →
    Makes (fun _ _ processor => trees.walk processor index size)
      ((trees.asNodes.zipIdx index).flatMap fun (node, index) => node.tree.notices index size)
  | .nil, _, _ => makes_pure
  | .cons tree trees, index, size =>
      (tree.makes_notices index size).1.bind (trees.makes_notices (index + 1) size)

end

/-- Along a walk a processor gets the notices of the node, up to the first that it fails on. -/
theorem Tree.takes_heard {σ ε : Type} {rule : Rule} (tree : Tree rule) (processor : Processor σ ε)
    (state : σ) (index size : Nat) :
    processor.Takes state (tree.notices index size) (tree.heard processor state index size)
      (tree.process processor state index size) := by
  have hMakes := (tree.makes_notices index size).1
  obtain ⟨heard, hTakes, hRun⟩ := processor.takes_follow (tree.notices index size) [] state
  have hHeard : tree.heard processor state index size = heard := by
    rw [Tree.heard, Tree.process, hMakes.walk_eq, hRun]
    exact List.nil_append heard
  rw [hHeard, Tree.process, hMakes.walk_eq]
  exact hTakes

/-- A processor that cannot fail gets all the notices of a walk, whatever its state is. -/
theorem Tree.heard_eq_notices {σ : Type} {rule : Rule} (tree : Tree rule)
    (processor : Processor σ Empty) (state : σ) (index size : Nat) :
    tree.heard processor state index size = tree.notices index size := by
  have hTakes := tree.takes_heard processor state index size
  generalize tree.process processor state index size = outcome at hTakes
  generalize tree.heard processor state index size = heard at hTakes ⊢
  cases hTakes with
  | all => rfl
  | @fault _ _ fault => exact fault.elim

/-! ### Records -/

def Notice.event : Notice → Event
  | enter node index size => .enter node.rule index size
  | slot node place => .slot node.rule place
  | leave node index size => .leave node.rule index size
  | token kind text => .token kind text

namespace Event

theorem answer_recorder (capacity : Option Nat) (notice : Notice) :
    (recorder capacity).answer notice = record capacity notice.event := by
  cases notice <;> rfl

/-- A record takes an event down as long as there is room for it, and otherwise it fails with that
event. -/
theorem run_record (capacity : Option Nat) (event : Event) (taken : List Event) :
    (record capacity event).run.run taken =
      if capacity.all (taken.length < ·) then (.ok (), event :: taken)
      else (.error event, taken) := by
  have hGet : (record capacity event).run.run taken =
      (if capacity.all (taken.length < ·) then set (event :: taken) else throw event :
        Hook (List Event) Event Unit).run.run taken := rfl
  rw [hGet]
  split <;> rfl

/-- A record without a limit takes down every event, the last one on top. -/
theorem run_follow_recorder_none (notices : List Notice) (taken : List Event) :
    ((recorder none).follow notices).run.run taken =
      (.ok (), (notices.map Notice.event).reverse ++ taken) := by
  induction notices generalizing taken with
  | nil => rfl
  | cons notice notices ih =>
      rw [Processor.run_follow_cons, answer_recorder, run_record, Option.all_none, if_pos rfl]
      simp [ih]

/-- A record takes down events as long as there is room, and stops at the next. -/
theorem run_follow_recorder_some (capacity : Nat) (notices : List Notice) (taken : List Event)
    (hRoom : taken.length ≤ capacity) :
    ((recorder (some capacity)).follow notices).run.run taken =
      (((notices.map Notice.event)[capacity - taken.length]?).elim (.ok ()) .error,
        ((notices.map Notice.event).take (capacity - taken.length)).reverse ++ taken) := by
  induction notices generalizing taken with
  | nil => simp [Processor.follow]; rfl
  | cons notice notices ih =>
      rw [Processor.run_follow_cons, answer_recorder, run_record]
      by_cases hFull : taken.length < capacity
      · have hLeft : capacity - taken.length = (capacity - (taken.length + 1)) + 1 := by omega
        simp [hFull, ih (notice.event :: taken) hFull, hLeft]
      · have hLeft : capacity - taken.length = 0 := by omega
        simp [hFull, hLeft]

end Event

/-- A record without a limit holds the events of the whole walk. -/
theorem Tree.record_none {rule : Rule} (tree : Tree rule) (index size : Nat) :
    tree.record index size none = ⟨(tree.notices index size).map Notice.event, none⟩ := by
  rw [Tree.record, Tree.process, (tree.makes_notices index size).1.walk_eq,
    Event.run_follow_recorder_none]
  simp

/-- A record with a limit holds the first events of the whole walk, and the one behind them is what
it stops at. -/
theorem Tree.record_some {rule : Rule} (tree : Tree rule) (index size capacity : Nat) :
    tree.record index size (some capacity) =
      ⟨((tree.notices index size).map Notice.event).take capacity,
        ((tree.notices index size).map Notice.event)[capacity]?⟩ := by
  rw [Tree.record, Tree.process, (tree.makes_notices index size).1.walk_eq,
    Event.run_follow_recorder_some capacity _ [] (Nat.zero_le _)]
  simp only [List.length_nil, Nat.sub_zero, List.append_nil]
  cases ((tree.notices index size).map Notice.event)[capacity]? <;> simp

end DocumentLanguage
