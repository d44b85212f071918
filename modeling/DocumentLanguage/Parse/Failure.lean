import DocumentLanguage.Grammar.Catalog
import DocumentLanguage.Token.Basic

/-!
Why a document could not be read, and how that is shown: a headline, the lines around the place
with an arrow under the column, and the production that was expected.
-/
namespace DocumentLanguage

/-- What ends a reading. -/
inductive Failure
  /-- The source holds something that is no token. -/
  | lexical (token : Token)
  /-- A rule could not be completed behind the point of no return; no token means the end of
  the input. -/
  | incomplete (rule : Rule) (token : Option Token)
  /-- Something follows a complete document. -/
  | trailing (token : Token)
  /-- The budget of the reader ran out. -/
  | exhausted
deriving DecidableEq, Repr

namespace Failure

def token? : Failure → Option Token
  | lexical token | trailing token => some token
  | incomplete _ token => token
  | exhausted => none

def rule? : Failure → Option Rule
  | incomplete rule _ => some rule
  | _ => none

end Failure

namespace Diagnostic

/-- The most characters of a token that a headline quotes. -/
def quotedLength : Nat := 40

/-- How many lines above the place are shown. -/
def linesAbove : Nat := 3

/-- A text cut after so many characters, with dots for what is missing. -/
def shorten (length : Nat) (text : String) : String :=
  let chars := text.toList
  if length < chars.length then String.ofList (chars.take length) ++ "..." else text

/-- The lines of a source, without the carriage returns at their ends. -/
def sourceLines (source : String) : List String :=
  (Text.splitLines source.toList).map fun line =>
    String.ofList (if line.getLast? = some '\r' then line.dropLast else line)

def lineNumber (number : Nat) : String :=
  let digits := toString number
  String.ofList (List.replicate (4 - digits.length) '0') ++ digits

/-- A line under its number; a line outside the source is empty. -/
def numberedLine (lines : List String) (number : Nat) : String :=
  lineNumber number ++ ": " ++ (lines[number - 1]?).getD ""

def arrow (column : Nat) : String :=
  " >>>─" ++ String.ofList (List.replicate column '─') ++ "⌃"

def headline (source : String) : Option Token → String
  | some token =>
    "An unexpected token was received by the parser: " ++ token.kind.name ++ " at line " ++
      toString token.position.line ++ ", column " ++ toString token.position.column ++ ": " ++
      Text.quoted (shorten quotedLength token.text)
  | none =>
    let position := Position.endOf source
    "An unexpected end of input was reached by the parser at line " ++
      toString position.line ++ ", column " ++ toString position.column

def excerpt (lines : List String) (position : Position) : List String :=
  let first := max (position.line - linesAbove) 1
  let above := (List.range (position.line - first)).map fun index =>
    numberedLine lines (first + index)
  let below :=
    if position.line < lines.length then [numberedLine lines (position.line + 1)] else []
  above ++ [numberedLine lines position.line, arrow position.column] ++ below

/-- What was expected: a name with its production, which is empty for an unknown name. -/
def expectation (rule : String) : List String :=
  ["", "Was expecting:", "  " ++ rule ++ ": " ++ (production? rule).getD ""]

/-- The whole message about a token, or about the end of the input. -/
def render (source : String) (token : Option Token) (rule : Option String) : String :=
  let position := (token.map Token.position).getD (Position.endOf source)
  "\n".intercalate
    (headline source token :: excerpt (sourceLines source) position ++
      (rule.map expectation).getD [])

end Diagnostic

def Failure.message (source : String) (failure : Failure) : String :=
  Diagnostic.render source failure.token? (failure.rule?.map Rule.name)

end DocumentLanguage
