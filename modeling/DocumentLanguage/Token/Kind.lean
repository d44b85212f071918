/-!
The kinds of tokens. Keywords, punctuation and operators share one kind and are told apart by
their text; every form of literal has a kind of its own.
-/
namespace DocumentLanguage

/-- What sort of thing a token is. -/
inductive Kind
  /-- A character that begins no token. -/
  | error
  /-- A keyword, a punctuation mark or an operator. -/
  | delimiter
  | space
  | newline
  /-- A comment over several lines. -/
  | comment
  /-- A remark that ends a line. -/
  | note
  | identifier
  | angle | boolean | duration | moment | number | pattern | percentage | probability
  | resource | symbol | tag
  | binary | bytecode | moniker | narrative | quote | version
deriving DecidableEq, Repr

namespace Kind

/-- Every kind, in the order of declaration. -/
def all : List Kind :=
  [error, delimiter, space, newline, comment, note, identifier, angle, boolean, duration,
   moment, number, pattern, percentage, probability, resource, symbol, tag, binary, bytecode,
   moniker, narrative, quote, version]

def elements : List Kind :=
  [angle, boolean, duration, moment, number, pattern, percentage, probability, resource,
   symbol, tag]

def strings : List Kind :=
  [binary, bytecode, moniker, narrative, quote, version]

def isElement (kind : Kind) : Bool := elements.contains kind

def isString (kind : Kind) : Bool := strings.contains kind

/-- Spaces and newlines, which most reads pass over. -/
def isLayout : Kind → Bool
  | space | newline => true
  | _ => false

def grammarName : Kind → String
  | error => "error"
  | delimiter => "delimiter"
  | space => "space"
  | newline => "newline"
  | comment => "comment"
  | note => "note"
  | identifier => "identifier"
  | angle => "angle"
  | boolean => "boolean"
  | duration => "duration"
  | moment => "moment"
  | number => "number"
  | pattern => "pattern"
  | percentage => "percentage"
  | probability => "probability"
  | resource => "resource"
  | symbol => "symbol"
  | tag => "tag"
  | binary => "binary"
  | bytecode => "bytecode"
  | moniker => "moniker"
  | narrative => "narrative"
  | quote => "quote"
  | version => "version"

def name : Kind → String
  | error => "Error"
  | delimiter => "Delimiter"
  | space => "Space"
  | newline => "Newline"
  | comment => "Comment"
  | note => "Note"
  | identifier => "Identifier"
  | angle => "Angle"
  | boolean => "Boolean"
  | duration => "Duration"
  | moment => "Moment"
  | number => "Number"
  | pattern => "Pattern"
  | percentage => "Percentage"
  | probability => "Probability"
  | resource => "Resource"
  | symbol => "Symbol"
  | tag => "Tag"
  | binary => "Binary"
  | bytecode => "Bytecode"
  | moniker => "Moniker"
  | narrative => "Narrative"
  | quote => "Quote"
  | version => "Version"

def ofName? (name : String) : Option Kind :=
  all.find? (·.name = name)

theorem ofName?_name (kind : Kind) : ofName? kind.name = some kind := by
  cases kind <;> decide

end Kind

end DocumentLanguage
