import DocumentLanguage.Parse.Document
import DocumentLanguage.Settings.Coercion
import DocumentLanguage.Settings.Key
import DocumentLanguage.Toml.Read

/-!
Parser options from settings in layers: built-in defaults, files over them in order, and single
settings over all files.
-/
namespace DocumentLanguage.Settings

/-- Why there are no options. -/
inductive Failure
  /-- A file that is needed is not there. -/
  | missingFile
  | malformedFile
  | malformedKey
  /-- A value that cannot be taken for what is expected, under a key. -/
  | mismatch (key : String) (mismatch : Mismatch)
  /-- The settings do not have the shape they should. -/
  | misshapen
deriving DecidableEq, Repr

/-- The wording of a value that is not what is expected. -/
def Mismatch.message (key : String) (mismatch : Mismatch) : String :=
  key ++ ": " ++ mismatch.found.describe ++ ", expected " ++ mismatch.expected.describe

/-- One layer of settings. -/
inductive Layer
  /-- A single setting. -/
  | override (key : String) (value : Json)
  /-- A file, which holds a text if it is there. -/
  | file (content : Option String) (required : Bool)

/-- The settings to be loaded. -/
structure Loader where
  /-- Files, the lowest first: what they hold, and whether they are needed. -/
  files : List (Option String × Bool) := []
  /-- Single settings, each key once. -/
  overrides : List (Key × Json) := []

/-- Note a setting; it takes the place of an earlier one under the same key. -/
def Loader.override (key : Key) (value : Json) (loader : Loader) : Loader :=
  { loader with overrides := loader.overrides.filter (·.1 ≠ key) ++ [(key, value)] }

def Loader.add (loader : Loader) : Layer → Except Failure Loader
  | .override key value =>
    match Key.parse? key with
    | some key => .ok (loader.override key value)
    | none => .error .malformedKey
  | .file content required =>
    .ok { loader with files := loader.files ++ [(content, required)] }

/-- The mark that may open a file. -/
def dropMark (text : String) : String :=
  match text.toList with
  | c :: rest => if c = '\ufeff' then String.ofList rest else text
  | [] => text

/-- Set the members of a file. A member whose name can be read as a key is set under it. -/
def setMembers : Json.Members → Json → Json
  | .nil, root => root
  | .cons name value rest, root =>
    setMembers rest (((Key.parse? name).getD (.top name)).set value root)

def readFile (root : Json) : Option String × Bool → Except Failure Json
  | (some text, _) =>
    match Toml.read? (dropMark text) with
    | some members => .ok (setMembers members root)
    | none => .error .malformedFile
  | (none, true) => .error .missingFile
  | (none, false) => .ok root

def defaults : Json :=
  let options : ParserOptions := {}
  .object (.cons "scanner" (.object
    (.cons "concurrent" (.bool options.concurrent)
      (.cons "queue_capacity" (.integer options.queueCapacity) .nil))) .nil)

def Loader.settings (loader : Loader) : Except Failure Json := do
  let root ← loader.files.foldlM readFile defaults
  pure (loader.overrides.foldl (fun root (key, value) => key.set value root) root)

def expect {α : Type} (key : String) (value : Except Mismatch α) : Except Failure α :=
  value.mapError (.mismatch key)

/-- The options that the settings of the scanner stand for: a table of them, or an array of them
in order. -/
def scannerOptions : Json → Except Failure ParserOptions
  | .object members =>
    match members.get? "concurrent", members.get? "queue_capacity" with
    | some concurrent, some capacity => do
      pure
        { concurrent := ← expect "scanner.concurrent" (asTruth concurrent)
          queueCapacity := ← expect "scanner.queue_capacity" (asCount capacity) }
    | _, _ => .error .misshapen
  | .array (.cons concurrent rest) => do
    let concurrent ← expect "scanner[0]" (asTruth concurrent)
    match rest with
    | .cons capacity _ =>
      pure { concurrent, queueCapacity := ← expect "scanner[1]" (asCount capacity) }
    | .nil => throw .misshapen
  | _ => .error .misshapen

/-- The options that settings stand for. What they do not name is passed over. -/
def optionsOf (settings : Json) : Except Failure ParserOptions :=
  match (membersOf settings).get? "scanner" with
  | some scanner => scannerOptions scanner
  | none => .error .misshapen

def load (layers : List Layer) : Except Failure ParserOptions := do
  let loader ← layers.foldlM Loader.add {}
  optionsOf (← loader.settings)

end DocumentLanguage.Settings
