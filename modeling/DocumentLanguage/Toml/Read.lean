import DocumentLanguage.Toml.Number
import DocumentLanguage.Toml.Table
import DocumentLanguage.Toml.Time

/-! TOML documents as values. -/
namespace DocumentLanguage.Toml

def readWord : Read Json := fun text =>
  if text.take 4 = ['t', 'r', 'u', 'e'] then some (.bool true, text.drop 4)
  else if text.take 5 = ['f', 'a', 'l', 's', 'e'] then some (.bool false, text.drop 5)
  else none

def readAtom : Read Json := fun text =>
  match text with
  | [] => none
  | c :: _ =>
    if c = '"' ∨ c = '\'' then
      (readString text).map fun (text, rest) => (.string text, rest)
    else
      match readMoment text with
      | some (moment, rest) => some (.string moment, rest)
      | none => readWord text <|> readNumber text

mutual

/-- A value inside so many arrays and tables. The bound counts steps. -/
def readValue : Nat → Nat → Read Json
  | 0, _, _ => none
  | bound + 1, depth, text =>
    match text with
    | '[' :: rest =>
      if nestingLimit ≤ depth + 1 then none
      else do
        let (items, rest) ← readItems bound (depth + 1) rest
        pure (.array items, rest)
    | '{' :: rest =>
      if nestingLimit ≤ depth + 1 then none
      else match dropBlanks rest with
        | '}' :: rest => some (.object .nil, rest)
        | rest => do
          let (entries, rest) ← readPairs bound (depth + 1) [] rest
          pure (.object (membersOf entries), rest)
    | text => readAtom text

/-- The items of an array behind its bracket or behind a comma. -/
def readItems : Nat → Nat → Read Json.Items
  | 0, _, _ => none
  | bound + 1, depth, text =>
    match dropLines text.length.succ text with
    | ']' :: rest => some (.nil, rest)
    | text => do
      let (item, rest) ← readValue bound depth text
      match dropLines rest.length.succ rest with
      | ',' :: rest =>
        let (items, rest) ← readItems bound depth rest
        pure (.cons item items, rest)
      | ']' :: rest => pure (.cons item .nil, rest)
      | _ => none

/-- The pairs of a table in braces, with those that came before. -/
def readPairs : Nat → Nat → Entries → Read Entries
  | 0, _, _, _ => none
  | bound + 1, depth, entries, text => do
    let text := dropBlanks text
    let (parts, rest) ← readKey text
    let (_, rest) ← readMark '=' (dropBlanks rest)
    let (value, rest) ← readValue bound depth (dropBlanks rest)
    let entries ← entries.assign? parts.dropLast (parts.getLastD "") value
    match dropBlanks rest with
    | ',' :: rest => readPairs bound depth entries rest
    | '}' :: rest => pure (entries, rest)
    | _ => none

end

/-- A document in the making, and the path of the section that is open. -/
structure Draft where
  entries : Entries := []
  path : List String := []

def Draft.assign? (parts : List String) (value : Json) (draft : Draft) : Option Draft := do
  let add (_ : Origin) (entries : Entries) : Option Entries :=
    entries.assign? parts.dropLast (parts.getLastD "") value
  let entries ← draft.entries.change .implied add draft.path .header
  pure { draft with entries }

def Draft.open? (next : Bool) (parts : List String) (draft : Draft) : Option Draft := do
  let opened :=
    if next then draft.entries.openNext? parts.dropLast (parts.getLastD "")
    else draft.entries.openTable? parts.dropLast (parts.getLastD "")
  pure ⟨← opened, parts⟩

def readHeader (draft : Draft) (text : List Char) : Option (Draft × List Char) := do
  let (next, text) := match text with
    | '[' :: rest => (true, rest)
    | text => (false, text)
  let text := dropBlanks text
  let (parts, rest) ← readKey text
  let (_, rest) ← readMark ']' (dropBlanks rest)
  let rest ← if next then (readMark ']' rest).map Prod.snd else some rest
  pure (← draft.open? next parts, rest)

def readAssignment (draft : Draft) (text : List Char) : Option (Draft × List Char) := do
  let (parts, rest) ← readKey text
  let (_, rest) ← readMark '=' (dropBlanks rest)
  let rest := dropBlanks rest
  let (value, rest) ← readValue (2 * rest.length.succ) 0 rest
  pure (← draft.assign? parts value, rest)

/-- All lines of a document. The bound counts lines. -/
def readLinesOf : Nat → Draft → List Char → Option Draft
  | 0, _, _ => none
  | bound + 1, draft, text =>
    match dropLines text.length.succ text with
    | [] => some draft
    | c :: rest => do
      let (draft, rest) ← if c = '[' then readHeader draft rest
        else readAssignment draft (c :: rest)
      readLinesOf bound draft (← endLine? rest)

def read? (text : String) : Option Json.Members := do
  let chars := text.toList
  let draft ← readLinesOf chars.length.succ {} chars
  pure (membersOf draft.entries)

end DocumentLanguage.Toml
