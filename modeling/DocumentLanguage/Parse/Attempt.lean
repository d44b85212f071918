import DocumentLanguage.Parse.Cursor

/-!
Attempts at a rule. An attempt remembers where it began. Until it commits it can be given up,
which turns the reader back; afterwards giving up is a failure.
-/
namespace DocumentLanguage

/-- One attempt at a rule. -/
structure Attempt where
  rule : Rule
  mark : Mark
  /-- How many save-points there were before this attempt's own. -/
  savePoint : Nat
  committed : Bool
deriving DecidableEq, Repr

namespace Cursor

/-- A cursor that may be turned back to where it stands. -/
def save (cursor : Cursor) : Cursor :=
  { cursor with savePoints := cursor.savePoints ++ [cursor.position] }

/-- A cursor without the save-points from an index on. -/
def dropSavePoints (cursor : Cursor) (index : Nat) : Cursor :=
  { cursor with savePoints := cursor.savePoints.take index }

end Cursor

namespace Attempt

def begin (rule : Rule) : Reading Attempt :=
  modifyGet fun cursor =>
    (⟨rule, cursor.mark, cursor.savePoints.length, false⟩, cursor.save)

/-- Commit: neither this attempt nor a finished one begun after it is turned back to any
more. -/
def commit (attempt : Attempt) : Reading Attempt := do
  if attempt.committed then pure attempt
  else
    modify fun cursor => (cursor.dropSavePoints attempt.savePoint).release
    pure { attempt with committed := true }

/-- Give up: turn back, or fail if that is no longer possible. -/
def abandon (attempt : Attempt) : Reading Unit :=
  if attempt.committed then Reading.failIn attempt.rule
  else modify fun cursor => (cursor.dropSavePoints attempt.savePoint).reset attempt.mark

end Attempt

end DocumentLanguage
