import DocumentLanguage.Text.Basic

/-!
Indentation of literals that span lines. The spaces that a literal's continuation lines owe to
the place where it was written are layout: `dedent` takes them away when a literal enters the
tree and `indent` puts them back at the depth where it is written.
-/
namespace DocumentLanguage.Text

def indentationWidth : Nat := 4

def leadingSpaces (line : List Char) : Nat :=
  (line.takeWhile (· = ' ')).length

/-- A line without its first spaces, at most `amount` of them. -/
def dropSpaces (amount : Nat) (line : List Char) : List Char :=
  line.drop (min (leadingSpaces line) amount)

/-- Continuation lines without the indentation of the closing line. -/
def dedentLines : List (List Char) → List (List Char)
  | [] => []
  | first :: rest =>
    first :: rest.map (dropSpaces (leadingSpaces (rest.getLast?.getD [])))

/-- A line under a margin. An empty line gets none. -/
def underMargin (margin : Nat) (line : List Char) : List Char :=
  if line.isEmpty then [] else List.replicate margin ' ' ++ line

def indentLines (margin : Nat) : List (List Char) → List (List Char)
  | [] => []
  | first :: rest => first :: rest.map (underMargin margin)

/-- Strip the closing line's indentation from every continuation line. -/
def dedent (text : String) : String :=
  String.ofList (joinLines (dedentLines (splitLines text.toList)))

/-- Put `depth` levels of indentation before every continuation line that is not empty. -/
def indent (text : String) (depth : Nat) : String :=
  String.ofList (joinLines (indentLines (depth * indentationWidth) (splitLines text.toList)))

def expandTabs (text : String) : String :=
  String.ofList (text.toList.flatMap fun c =>
    if c = '\t' then List.replicate indentationWidth ' ' else [c])

end DocumentLanguage.Text
