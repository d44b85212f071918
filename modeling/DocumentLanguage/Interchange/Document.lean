import DocumentLanguage.Interchange.Encode
import DocumentLanguage.Interchange.Load
import DocumentLanguage.Json.Pretty
import DocumentLanguage.Yaml.Read
import DocumentLanguage.Yaml.Write

/-! Documents as JSON and as YAML text, and documents from either. -/
namespace DocumentLanguage

/-- Why a text holds no document. -/
inductive Interchange.Failure
  /-- What the text holds is not what a document is made of, or the text is no JSON. -/
  | json (fault : Json.Fault)
  /-- The text is no YAML that has a value. -/
  | yaml

/-- The wording of a failure. -/
def Interchange.Failure.message : Interchange.Failure → String
  | json fault => "JSON serialization error: " ++ fault.message
  | yaml => "YAML serialization error"

def Document.toJson (document : Document) : String :=
  document.toValue.pretty

def Document.ofJson (text : String) : Except Interchange.Failure Document := do
  let (raw, rest) := Json.Raw.read text
  let document ←
    (Interchange.loadTree .document (.text Interchange.nestingLimit) raw).mapError .json
  if rest.isEmpty then pure document else throw (.json .trailingCharacters)

/-- The document that a value holds. The members of its objects count as sorted by key. -/
def Document.ofValue (value : Json) : Except Json.Fault Document :=
  Interchange.loadTree .document .value value.sorted.raw

/-- The text of a document in YAML. Keys are sorted. -/
def Document.toYaml (document : Document) : String :=
  Yaml.write document.toValue.sorted

/-- The document that a YAML text holds. -/
def Document.ofYaml (text : String) : Except Interchange.Failure Document :=
  match Yaml.read? text with
  | some value => (Document.ofValue value).mapError .json
  | none => .error .yaml

end DocumentLanguage
