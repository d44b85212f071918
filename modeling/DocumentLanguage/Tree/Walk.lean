import DocumentLanguage.Tree.Basic

/-!
Walks over a tree. A processor is told when a node is entered and left, of the places between
its fields, and of every token; it can stop the walk at any of these.
-/
namespace DocumentLanguage

/-- What a processor does with a state `σ`; a hook that throws ends the walk. -/
abbrev Hook (σ ε : Type) := ExceptT ε (StateM σ)

/-- Behind a hook that ends well the next one goes on from the state it leaves. -/
theorem Hook.run_bind {σ ε : Type} {first second : Hook σ ε Unit} {state next : σ}
    (hFirst : first.run.run state = (.ok (), next)) :
    (do first; second).run.run state = second.run.run next := by
  have hBind : (do first; second).run.run state =
      (match first.run.run state with
        | (.ok _, next) => second.run.run next
        | (.error failure, next) => (.error failure, next)) := by
    simp only [ExceptT.run_bind, StateT.run_bind]
    generalize first.run.run state = outcome
    obtain ⟨outcome, next⟩ := outcome
    cases outcome <;> rfl
  rw [hBind, hFirst]

/-- What is done along a walk. -/
structure Processor (σ ε : Type) where
  /-- A node is entered, at an index among so many siblings. -/
  enter : Node → Nat → Nat → Hook σ ε Unit := fun _ _ _ => pure ()
  /-- A place between two fields of a node is passed; places count from one. -/
  slot : Node → Nat → Hook σ ε Unit := fun _ _ => pure ()
  /-- A node is left. -/
  leave : Node → Nat → Nat → Hook σ ε Unit := fun _ _ _ => pure ()
  /-- A token is met. -/
  token : Kind → String → Hook σ ε Unit := fun _ _ => pure ()

/-- The place before the field at an index. There is none before the first field. -/
def Processor.before {σ ε : Type} (processor : Processor σ ε) (node : Node) :
    Nat → Hook σ ε Unit
  | 0 => pure ()
  | index + 1 => processor.slot node (index + 1)

mutual

/-- Walk a node that stands at an index among so many siblings. -/
def Tree.walk {σ ε : Type} (processor : Processor σ ε) :
    {rule : Rule} → Tree rule → Nat → Nat → Hook σ ε Unit
  | rule, .mk content, index, size => do
    let node : Node := ⟨rule, .mk content⟩
    processor.enter node index size
    content.walk processor node
    processor.leave node index size

def Content.walk {σ ε : Type} (processor : Processor σ ε) :
    {form : Form} → Content form → Node → Hook σ ε Unit
  | _, .literal kind text, _ => processor.token kind text
  | _, .oneOf _ _ tree, _ => tree.walk processor 0 1
  | _, .sequence fields, node => fields.walk processor node 0

/-- Walk the fields of a node from an index on. -/
def Fields.walk {σ ε : Type} (processor : Processor σ ε) :
    {fields : List Field} → Fields fields → Node → Nat → Hook σ ε Unit
  | _, .nil, _, _ => pure ()
  | _, @Fields.text _ kind _ text rest, node, index => do
    processor.before node index
    processor.token kind text
    rest.walk processor node (index + 1)
  | _, @Fields.optionalText _ kind _ text rest, node, index => do
    processor.before node index
    match text with
    | some text => processor.token kind text
    | none => pure ()
    rest.walk processor node (index + 1)
  | _, .child tree rest, node, index => do
    processor.before node index
    tree.walk processor 0 1
    rest.walk processor node (index + 1)
  | _, .absent rest, node, index => do
    processor.before node index
    rest.walk processor node (index + 1)
  | _, .present tree rest, node, index => do
    processor.before node index
    tree.walk processor 0 1
    rest.walk processor node (index + 1)
  | _, .many trees rest, node, index => do
    processor.before node index
    trees.walk processor 0 trees.length
    rest.walk processor node (index + 1)

/-- Walk nodes of which the first stands at an index among so many. -/
def Trees.walk {σ ε : Type} (processor : Processor σ ε) :
    {rule : Rule} → Trees rule → Nat → Nat → Hook σ ε Unit
  | _, .nil, _, _ => pure ()
  | _, .cons tree trees, index, size => do
    tree.walk processor index size
    trees.walk processor (index + 1) size

end

/-- What a walk ends with: an error if some hook threw one, and the state. -/
def Tree.process {σ ε : Type} {rule : Rule} (tree : Tree rule) (processor : Processor σ ε)
    (state : σ) (index size : Nat) : Except ε Unit × σ :=
  (tree.walk processor index size).run.run state

end DocumentLanguage
