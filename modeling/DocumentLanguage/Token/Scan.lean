import DocumentLanguage.Token.Basic
import DocumentLanguage.Token.Pattern
import DocumentLanguage.Unicode.Alphanumeric

/-!
Scanning: from a source to its tokens. At each place the first trial that matches decides, even
where a later one would match more. Where none matches, one error token ends the scan.
-/
namespace DocumentLanguage

/-- Whether a delimiter ends in the middle of a word, judged by the character behind it. -/
def splitsWord (delimiter : List Char) (following : Option Char) : Bool :=
  delimiter.getLast?.any Unicode.isAlphanumeric &&
    following.any fun c => Unicode.isAlphanumeric c || c = '_'

/-- A kind, the text of a token and what is left of the source. -/
structure Lexeme where
  kind : Kind
  text : List Char
  rest : List Char

/-- What one trial yields at the head of a source. An empty match counts for nothing, and a
delimiter must not split a word. -/
def Trial.lexeme? (trial : Trial) (source : List Char) : Option Lexeme :=
  match trial.pattern.match? source with
  | none => none
  | some (text, rest) =>
    if text.isEmpty || (trial.kind = .delimiter && splitsWord text rest.head?) then none
    else some ⟨trial.kind, text, rest⟩

def lexeme? (source : List Char) : Option Lexeme :=
  trials.findSome? (·.lexeme? source)

/-- The tokens of a source that starts at `position`; the bound counts tokens. -/
def scanFrom : Nat → Position → List Char → List Token
  | 0, _, _ => []
  | _, _, [] => []
  | bound + 1, position, c :: source =>
    match lexeme? (c :: source) with
    | some lexeme =>
      ⟨lexeme.kind, position, String.ofList lexeme.text⟩ ::
        scanFrom bound (position.after lexeme.text) lexeme.rest
    | none => [⟨.error, position, String.ofList [c]⟩]

/-- The tokens of a source. -/
def scan (source : String) : List Token :=
  scanFrom source.toList.length .start source.toList

/-- The kind of a text that is one token by itself. -/
def soleKind? (text : String) : Option Kind :=
  match scan text with
  | [token] => if token.text = text then some token.kind else none
  | _ => none

end DocumentLanguage
