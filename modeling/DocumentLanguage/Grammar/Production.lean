import DocumentLanguage.Grammar.Catalog
import DocumentLanguage.Unicode.Ranges

/-! Productions read back from their text. -/
namespace DocumentLanguage

/-- What an item of a production stands for. -/
inductive Symbol
  | rule (name : String)
  | kind (name : String)
  | delimiter (text : String)
deriving DecidableEq, Repr

/-- How often an item may come. -/
inductive Quantity
  | one
  | atMostOne
  | many
  | atLeastOne
deriving DecidableEq, Repr

/-- An item of a production. -/
structure Item where
  symbol : Symbol
  quantity : Quantity
deriving DecidableEq, Repr

/-- Whether an item can stay away whatever it stands for. -/
def Item.mayBeAbsent (item : Item) : Bool :=
  item.quantity = .atMostOne || item.quantity = .many

/-- Items in a row. -/
abbrev Alternative := List Item

/-- The terminal a symbol is, as it stands in productions. -/
def Symbol.terminal? : Symbol → Option String
  | rule _ => none
  | kind name => some name
  | delimiter text => some (delimiterItem text)

def Quantity.ofMark? : Char → Option Quantity
  | '?' => some .atMostOne
  | '*' => some .many
  | '+' => some .atLeastOne
  | _ => none

def enclosed? : List Char → Option (List Char)
  | '"' :: rest => if rest.getLast? = some '"' then some rest.dropLast else none
  | _ => none

def Symbol.ofWord (word : List Char) : Symbol :=
  match enclosed? word with
  | some text => .delimiter (String.ofList text)
  | none =>
    if word.head?.any (·.isUpper) then .rule (String.ofList word)
    else .kind (String.ofList word)

/-- The item of a word. A quoted delimiter ends with its quote, so that no mark inside it is
taken for a quantity. -/
def Item.ofWord (word : List Char) : Item :=
  match word.getLast?.bind Quantity.ofMark? with
  | some quantity => ⟨.ofWord word.dropLast, quantity⟩
  | none => ⟨.ofWord word, .one⟩

def wordsOf : List Char → List (List Char)
  | [] => []
  | c :: rest =>
    if Unicode.isBlank c then wordsOf rest
    else match rest, wordsOf rest with
      | next :: _, word :: words =>
        if Unicode.isBlank next then [c] :: word :: words else (c :: word) :: words
      | _, words => [c] :: words

def alternativesOfWords : List (List Char) → List Alternative
  | [] => [[]]
  | word :: words =>
    match alternativesOfWords words with
    | [] => [[]]
    | alternative :: alternatives =>
      if word = ['|'] then [] :: alternative :: alternatives
      else (Item.ofWord word :: alternative) :: alternatives

/-- The alternatives of a production. There is always at least one. -/
def alternativesOf (production : String) : List Alternative :=
  alternativesOfWords (wordsOf production.toList)

/-- The delimiter an alternative consists of, if that is all. -/
def soleDelimiter? : Alternative → Option String
  | [⟨.delimiter text, .one⟩] => some text
  | _ => none

/-- The delimiters a production chooses from; none where some alternative is anything else. -/
def choicesOf (production : String) : List String :=
  ((alternativesOf production).mapM soleDelimiter?).getD []

def choices (name : String) : List String :=
  ((production? name).map choicesOf).getD []

end DocumentLanguage
