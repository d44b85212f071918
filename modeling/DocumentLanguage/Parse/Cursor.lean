import DocumentLanguage.Parse.Failure

/-!
A cursor over tokens. Tokens are taken in only when they are first looked at, and let go of
once nothing can turn back to them. Every look goes through `tokenAt`, which knows only the
tokens in between.
-/
namespace DocumentLanguage

/-- The state of a reader. -/
structure Cursor where
  /-- All tokens there are. -/
  tokens : Array Token
  /-- How many tokens have been let go of. -/
  offset : Nat
  /-- How many tokens have been taken in. -/
  reached : Nat
  /-- The index of the next token to read. -/
  position : Nat
  /-- How many brackets are open. -/
  nesting : Nat
  /-- How many brackets were open where the current statement line began, if in one. -/
  line : Option Nat
  /-- The places that may still be turned back to, the oldest first. -/
  savePoints : List Nat
  /-- Whether tokens are let go of at all. A reader that keeps all of them has a buffer without
  bound. -/
  releases : Bool := true
deriving DecidableEq, Repr

/-- A step of a reader. The state survives a failure. -/
abbrev Reading := ExceptT Failure (StateM Cursor)

/-- A place to turn back to, with the number of brackets open there. -/
structure Mark where
  position : Nat
  nesting : Nat
deriving DecidableEq, Repr

namespace Cursor

def start (tokens : List Token) : Cursor :=
  { tokens := tokens.toArray, offset := 0, reached := 0, position := 0, nesting := 0, line := none,
    savePoints := [] }

def mark (cursor : Cursor) : Mark :=
  ⟨cursor.position, cursor.nesting⟩

def reset (cursor : Cursor) (mark : Mark) : Cursor :=
  { cursor with position := mark.position, nesting := mark.nesting }

/-- The token at an index, and the cursor having taken in all tokens up to it. A token that was
let go of is gone. -/
def look (cursor : Cursor) (index : Nat) : Option Token × Cursor :=
  if index < cursor.offset then (none, cursor)
  else
    (cursor.tokens[index]?,
      { cursor with reached := max cursor.reached (min (index + 1) cursor.tokens.size) })

/-- Let go of the tokens before the oldest place that may be turned back to. -/
def release (cursor : Cursor) : Cursor :=
  let floor := cursor.savePoints.head?.getD cursor.position
  if cursor.releases then { cursor with offset := max cursor.offset (min floor cursor.reached) }
  else cursor

/-- How many tokens lie ahead, counted so that a loop over them also sees their end. -/
def ahead (cursor : Cursor) : Nat :=
  cursor.tokens.size + 1 - cursor.position

/-- The brackets open behind a token. -/
def nestingAfter (token : Token) (nesting : Nat) : Nat :=
  if token.kind = .delimiter then
    if ["(", "[", "\x7b"].contains token.text then nesting + 1
    else if [")", "]", "\x7d"].contains token.text then nesting - 1
    else nesting
  else nesting

/-- Whether a newline here ends the current statement line. -/
def lineBound (cursor : Cursor) : Bool :=
  cursor.line = some cursor.nesting

def advance (cursor : Cursor) : Cursor :=
  { cursor with position := cursor.position + 1 }

def consume (cursor : Cursor) (token : Token) : Cursor :=
  { cursor.advance with nesting := nestingAfter token cursor.nesting }

end Cursor

namespace Reading

def tokenAt (index : Nat) : Reading (Option Token) :=
  modifyGet fun cursor => cursor.look index

/-- The first token from an index on that is not layout. -/
def significantFrom : Nat → Nat → Reading (Option Token)
  | 0, _ => pure none
  | bound + 1, index => do
    match ← tokenAt index with
    | none => pure none
    | some token =>
      if token.kind.isLayout then significantFrom bound (index + 1)
      else if token.kind = .error then throw (.lexical token)
      else pure (some token)

/-- The next token that is not layout; it stays unread. -/
def peek : Reading (Option Token) := do
  let cursor ← get
  significantFrom cursor.ahead cursor.position

/-- Read the next token, passing over spaces and, where `overLines` holds, over the newlines
that do not end the current statement line. -/
def nextWithin (overLines : Bool) : Nat → Reading (Option Token)
  | 0 => pure none
  | bound + 1 => do
    let cursor ← get
    match ← tokenAt cursor.position with
    | none => pure none
    | some token =>
      if token.kind = .space ||
          (token.kind = .newline && overLines && !cursor.lineBound) then
        modify Cursor.advance
        nextWithin overLines bound
      else if token.kind = .error then throw (.lexical token)
      else
        modify (·.consume token)
        pure (some token)

def next (overLines : Bool) : Reading (Option Token) := do
  nextWithin overLines (← get).ahead

def skipLayoutWithin : Nat → Reading Unit
  | 0 => pure ()
  | bound + 1 => do
    match ← tokenAt (← get).position with
    | none => pure ()
    | some token =>
      if token.kind.isLayout then
        modify Cursor.advance
        skipLayoutWithin bound

def skipLayout : Reading Unit := do
  skipLayoutWithin (← get).ahead

/-- Read a token that passes a test, or stay in place. -/
def expect (overLines : Bool) (test : Token → Bool) : Reading (Option Token) := do
  let mark := (← get).mark
  match ← next overLines with
  | some token =>
    if test token then pure (some token)
    else
      modify (·.reset mark)
      pure none
  | none =>
    modify (·.reset mark)
    pure none

/-- Read a token of a kind. Newlines and notes are looked for on the same line only. -/
def expectKind (kind : Kind) : Reading (Option Token) :=
  expect (kind != .newline && kind != .note) (·.kind = kind)

def expectKinds (kinds : List Kind) : Reading (Option Token) :=
  expect true (kinds.contains ·.kind)

def expectOneOf (texts : List String) : Reading (Option Token) :=
  expect true fun token => token.kind = .delimiter && texts.contains token.text

def expectDelimiter (text : String) : Reading Bool :=
  return (← expectOneOf [text]).isSome

/-- The failure to complete a rule here. A source that holds no token here fails for that
reason instead. -/
def failIn {α : Type} (rule : Rule) : Reading α := do
  let token ← peek
  throw (.incomplete rule token)

/-- Do something as one statement line: newlines outside brackets opened in it end it. -/
def withinLine {α : Type} (reading : Reading α) : Reading α := do
  let outer := (← get).line
  modify fun cursor => { cursor with line := some cursor.nesting }
  let leave : Reading Unit := modify fun cursor => { cursor with line := outer }
  let result ← tryCatch reading fun failure => do leave; throw failure
  leave
  pure result

end Reading

end DocumentLanguage
