import DocumentLanguage.Parse.Rule
import DocumentLanguage.Token.Stream

/-! Reading whole documents: from tokens, or from a source as the options say. -/
namespace DocumentLanguage

/-- The most rules that can be open without a token read between them, with some to spare. -/
def nestingPerToken : Nat := 32

/-- A budget that is enough for any reading of so many tokens. -/
def readingBudget (tokenCount : Nat) : Nat :=
  nestingPerToken * (tokenCount + 2)

/-- One document and nothing behind it but layout. -/
def readDocument : Reading Document := do
  let budget := readingBudget (← get).tokens.size
  match ← readRule budget .document none with
  | (none, _) => Reading.failIn .document
  | (some document, _) =>
    match ← Reading.peek with
    | some token => throw (.trailing token)
    | none => pure document

/-- What one reading gives, and the state that it leaves for the next. -/
def Cursor.parseDocument (cursor : Cursor) : Except Failure Document × Cursor :=
  readDocument.run.run cursor

/-- The document that tokens make up. -/
def parseTokens (tokens : List Token) : Except Failure Document :=
  (Cursor.start tokens).parseDocument.1

/-- How a source is turned into tokens. -/
structure ParserOptions where
  /-- Whether the scanner runs ahead of the reader. -/
  concurrent : Bool := true
  /-- How many tokens it may run ahead. -/
  queueCapacity : Nat := defaultQueueCapacity
deriving DecidableEq, Repr

def ParserOptions.tokens (options : ParserOptions) (source : String) : List Token :=
  if options.concurrent then TokenStream.tokens options.queueCapacity source else scan source

/-- The document a source holds. Tabs count as indentation before anything is read. -/
def parseWith (options : ParserOptions) (source : String) : Except Failure Document :=
  parseTokens (options.tokens (Text.expandTabs source))

/-- The document a source holds, read with the default options. -/
def parse (source : String) : Except Failure Document :=
  parseWith {} source

def parseMessage (source : String) (failure : Failure) : String :=
  failure.message (Text.expandTabs source)

end DocumentLanguage
