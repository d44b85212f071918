import DocumentLanguage.Text.Basic
import DocumentLanguage.Token.Kind

/-!
Tokens: a kind, the place of the first character and the text as it was written. Places are counted
in lines and characters from one. `Position.after` follows a text character by character;
`Position.endOf` counts its lines.
-/
namespace DocumentLanguage

/-- A line and a column, both counted from one. -/
structure Position where
  line : Nat
  column : Nat
deriving DecidableEq, Repr

namespace Position

def start : Position := ⟨1, 1⟩

def next (position : Position) (c : Char) : Position :=
  if c = '\n' then ⟨position.line + 1, 1⟩ else ⟨position.line, position.column + 1⟩

def after (position : Position) (text : List Char) : Position :=
  text.foldl next position

/-- The place just past a source: the last of its lines, one column behind its last character. -/
def endOf (source : String) : Position :=
  let lines := Text.splitLines source.toList
  ⟨lines.length, (lines.getLast?.getD []).length + 1⟩

@[simp] theorem after_nil (position : Position) : position.after [] = position := rfl

@[simp] theorem after_cons (position : Position) (c : Char) (text : List Char) :
    position.after (c :: text) = (position.next c).after text := rfl

theorem after_append (position : Position) (first second : List Char) :
    position.after (first ++ second) = (position.after first).after second := by
  simp [after, List.foldl_append]

end Position

/-- The smallest unit of a document's source. -/
structure Token where
  kind : Kind
  position : Position
  text : String
deriving DecidableEq, Repr

namespace Token

def isDelimiter (token : Token) (text : String) : Bool :=
  token.kind = .delimiter && token.text = text

/-- A token on one line: its kind, its place and its quoted text. -/
def describe (token : Token) : String :=
  token.kind.name ++ "(" ++ toString token.position.line ++ ":" ++
    toString token.position.column ++ ") " ++ Text.quoted token.text

end Token

end DocumentLanguage
