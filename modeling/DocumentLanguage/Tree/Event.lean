import DocumentLanguage.Tree.Walk

/-! What happens along a walk, recorded. -/
namespace DocumentLanguage

/-- One hook of a walk. -/
inductive Event
  | enter (rule : Rule) (index size : Nat)
  | slot (rule : Rule) (place : Nat)
  | leave (rule : Rule) (index size : Nat)
  | token (kind : Kind) (text : String)
deriving DecidableEq, Repr

namespace Event

/-- Take an event down, the latest first, unless the record is full. -/
def record (capacity : Option Nat) (event : Event) : Hook (List Event) Event Unit := do
  let events ← get
  if capacity.all (events.length < ·) then set (event :: events) else throw event

/-- Takes down every event, and stops at the first for which there is no room. -/
def recorder (capacity : Option Nat) : Processor (List Event) Event where
  enter node index size := record capacity (.enter node.rule index size)
  slot node place := record capacity (.slot node.rule place)
  leave node index size := record capacity (.leave node.rule index size)
  token kind text := record capacity (.token kind text)

end Event

/-- A record of a walk: the events taken down, and the one that found no room. -/
structure Record where
  events : List Event
  stopped : Option Event
deriving DecidableEq, Repr

def Tree.record {rule : Rule} (tree : Tree rule) (index size : Nat)
    (capacity : Option Nat := none) : Record :=
  match tree.process (Event.recorder capacity) [] index size with
  | (.ok _, events) => ⟨events.reverse, none⟩
  | (.error event, events) => ⟨events.reverse, some event⟩

end DocumentLanguage
