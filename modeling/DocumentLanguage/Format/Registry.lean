import DocumentLanguage.Format.Canonical
import DocumentLanguage.Format.Outline
import DocumentLanguage.Interchange.Document

/-!
Formats by name. A registry holds at most one format of a name: registering another one replaces
it.
-/
namespace DocumentLanguage

/-- A way to write documents. -/
structure Format where
  name : String
  description : String := ""
  /-- The text of a document, or why there is none. -/
  serialize : Document → Except String String

/-- Why a registry gives no text for a document. -/
inductive FormatFailure
  | unknown (name : String)
  | failed (reason : String)
deriving DecidableEq, Repr

def FormatFailure.message : FormatFailure → String
  | unknown name => "Format '" ++ name ++ "' not found"
  | failed reason => "Serialization error: " ++ reason

namespace Format

def canonical : Format where
  name := "bali"
  description := "Canonical Bali source"
  serialize document := .ok document.canonical

def outline : Format where
  name := "treeviz"
  description := "One line per node outline"
  serialize document := .ok document.outline

def json : Format where
  name := "json"
  serialize document := .ok document.toJson

def yaml : Format where
  name := "yaml"
  serialize document := .ok document.toYaml

def standard : List Format := [canonical, outline, json, yaml]

end Format

/-- Formats sorted by name. -/
structure FormatRegistry where
  formats : List Format := []

namespace FormatRegistry

/-- Put a format into formats that are sorted by name, in the place of one with its name. -/
def insert (format : Format) : List Format → List Format
  | [] => [format]
  | other :: formats =>
    if format.name < other.name then format :: other :: formats
    else if format.name = other.name then format :: formats
    else other :: insert format formats

/-- Add a format, in the place of one with its name. -/
def register (registry : FormatRegistry) (format : Format) : FormatRegistry :=
  { formats := insert format registry.formats }

def standard : FormatRegistry :=
  Format.standard.foldl register {}

def get? (registry : FormatRegistry) (name : String) : Option Format :=
  registry.formats.find? (·.name = name)

def contains (registry : FormatRegistry) (name : String) : Bool :=
  (registry.get? name).isSome

def names (registry : FormatRegistry) : List String :=
  registry.formats.map Format.name

/-- The text of a document in the format of a name. -/
def serialize (registry : FormatRegistry) (document : Document) (name : String) :
    Except FormatFailure String :=
  match registry.get? name with
  | some format => (format.serialize document).mapError .failed
  | none => .error (.unknown name)

end FormatRegistry

end DocumentLanguage
