import DocumentLanguage.Json.Value

/-!
Tables in the making. A table is opened once: by its header, or by the points in the keys of one
section. What a longer header implies may still get a header of its own.
-/
namespace DocumentLanguage.Toml

/-- How a table came to be. -/
inductive Origin
  | header
  /-- As the table around one with a header. -/
  | implied
  /-- By points in keys. -/
  | dotted
deriving DecidableEq, Repr

/-- What a key stands for. -/
inductive Entry
  | value (value : Json)
  | table (origin : Origin) (entries : List (String × Entry))
  /-- Tables under one header that is repeated; only the last one is open. -/
  | tables (closed : List Json) (entries : List (String × Entry))

abbrev Entries := List (String × Entry)

mutual

def Entry.toValue : Entry → Json
  | .value value => value
  | .table _ entries => .object (membersOf entries)
  | .tables closed entries =>
    .array (.ofList (closed ++ [.object (membersOf entries)]))

def membersOf : List (String × Entry) → Json.Members
  | [] => .nil
  | (key, entry) :: entries => .cons key entry.toValue (membersOf entries)

end

namespace Entries

/-- Put another entry in the place of the one with a key. -/
def replace (key : String) (entry : Entry) (entries : Entries) : Entries :=
  entries.map fun (key', entry') => if key' = key then (key, entry) else (key', entry')

/-- Change the table at the end of a path, given its origin. Tables on the way that are missing
come to be with an origin of their own; points in keys may not lead into a table that has a
header. -/
def change (missing : Origin) (use : Origin → Entries → Option Entries) :
    List String → Origin → Entries → Option Entries
  | [], origin, entries => use origin entries
  | key :: path, _, entries =>
    match entries.lookup key with
    | none => do
      let inner ← change missing use path missing []
      pure (entries ++ [(key, .table missing inner)])
    | some (.table origin inner) =>
      if missing = .dotted ∧ origin = .header then none
      else do
        let inner ← change missing use path origin inner
        pure (entries.replace key (.table origin inner))
    | some (.tables closed inner) => do
      let inner ← change missing use path .header inner
      pure (entries.replace key (.tables closed inner))
    | some (.value _) => none

/-- Add a value under a key with points, given its last part. A key is used once, and points
lead only into tables that came to be by points. -/
def assign? (path : List String) (key : String) (value : Json) (entries : Entries) :
    Option Entries :=
  let add (origin : Origin) (entries : Entries) : Option Entries :=
    if (origin = .dotted) = path.isEmpty ∨ (entries.lookup key).isSome then none
    else some (entries ++ [(key, .value value)])
  entries.change .dotted add path .header

def openTable? (path : List String) (key : String) (entries : Entries) : Option Entries :=
  let add (_ : Origin) (entries : Entries) : Option Entries :=
    match entries.lookup key with
    | none => some (entries ++ [(key, .table .header [])])
    | some (.table .implied inner) => some (entries.replace key (.table .header inner))
    | some _ => none
  entries.change .implied add path .header

/-- Open the next of several tables under one header, given its last part. -/
def openNext? (path : List String) (key : String) (entries : Entries) : Option Entries :=
  let add (_ : Origin) (entries : Entries) : Option Entries :=
    match entries.lookup key with
    | none => some (entries ++ [(key, .tables [] [])])
    | some (.tables closed inner) =>
      some (entries.replace key (.tables (closed ++ [.object (membersOf inner)]) []))
    | some _ => none
  entries.change .implied add path .header

end Entries

end DocumentLanguage.Toml
