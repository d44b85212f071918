import DocumentLanguage.Yaml.Node
import DocumentLanguage.Yaml.Resolve

/-!
The value that a YAML stream holds. A stream has at most one document. An alias counts as a copy
of the node that is on its shelf at the end of the document, and both the nesting and the number
of copies have a limit.
-/
namespace DocumentLanguage.Yaml

/-- How many levels of sequences and mappings a document may have. -/
def nestingLimit : Nat := 128

/-- How many copies an event of the document may give rise to. -/
def copiesPerEvent : Nat := 100

/-- The nodes on shelves. Of several on one shelf the first counts. -/
abbrev Shelves := List (Nat × Node)

def Shelves.put (properties : Properties) (node : Node) (shelves : Shelves) : Shelves :=
  match properties.shelf with
  | some shelf => (shelf, node) :: shelves
  | none => shelves

mutual

def Node.shelve (shelves : Shelves) : Node → Shelves
  | .alias _ => shelves
  | .scalar properties plain text => shelves.put properties (.scalar properties plain text)
  | .sequence properties items =>
    items.shelve (shelves.put properties (.sequence properties items))
  | .mapping properties pairs =>
    pairs.shelve (shelves.put properties (.mapping properties pairs))

def Nodes.shelve (shelves : Shelves) : Nodes → Shelves
  | .nil => shelves
  | .cons item rest => rest.shelve (item.shelve shelves)

def Pairs.shelve (shelves : Shelves) : Pairs → Shelves
  | .nil => shelves
  | .cons key value rest => rest.shelve (value.shelve (key.shelve shelves))

end

mutual

def Node.events : Node → Nat
  | .alias _ | .scalar _ _ _ => 1
  | .sequence _ items => items.events + 2
  | .mapping _ pairs => pairs.events + 2

def Nodes.events : Nodes → Nat
  | .nil => 0
  | .cons item rest => item.events + rest.events

def Pairs.events : Pairs → Nat
  | .nil => 0
  | .cons key value rest => key.events + value.events + rest.events

end

abbrev Reader := StateT Nat Option

/-- The node that an alias stands for, which is a copy; any other node stands for itself. -/
def Node.target (shelves : Shelves) : Node → Reader Node
  | .alias shelf => do
    match ← get with
    | 0 => failure
    | left + 1 =>
      set left
      shelves.lookup shelf
  | node => pure node

/-- The value of a scalar. Without a demand only plain text can be anything but text. -/
def scalarValue? (demand : Demand) (plain : Bool) (text : String) : Option Json :=
  match demand with
  | .any => if plain then resolve? text else some (.string text)
  | .bool => (bool? text).map .bool
  | .integer => (integer? text.toList).bind ofInteger?
  | .float => (float? text).map ofFloat
  | .null => if isNull text then some .null else none
  | .text => some (.string text)
  | .own => none

/-- The key that a node is: the text of a scalar, whatever its tag. -/
def Node.key (shelves : Shelves) (node : Node) : Reader String := do
  match ← node.target shelves with
  | .scalar _ _ text => pure text
  | _ => failure

/-- The values of items. How a node is read is given. -/
def Nodes.values (read : Node → Reader Json) : Nodes → Reader Json.Items
  | .nil => pure .nil
  | .cons item rest => do
    let value ← read item
    let items ← rest.values read
    pure (.cons value items)

/-- The members that pairs are. How a key and how a value is read is given. -/
def Pairs.members (readKey : Node → Reader String) (read : Node → Reader Json) :
    Pairs → Reader Json.Members
  | .nil => pure .nil
  | .cons key value rest => do
    let key ← readKey key
    let value ← read value
    let members ← rest.members readKey read
    pure (.cons key value members)

/-- Sequences and mappings cannot be of a sort of a program's own. -/
def Properties.admit (properties : Properties) : Reader Unit :=
  if Demand.ofTag properties.tag = .own then failure else pure ()

/-- The value of a node in which so many levels are left. -/
def Node.read (shelves : Shelves) : Nat → Node → Reader Json
  | levels, node => do
    match levels, ← node.target shelves with
    | _, .scalar properties plain text =>
      scalarValue? (.ofTag properties.tag) plain text
    | levels + 1, .sequence properties items => do
      properties.admit
      pure (.array (← items.values (Node.read shelves levels)))
    | levels + 1, .mapping properties pairs => do
      properties.admit
      pure (.object (← pairs.members (Node.key shelves) (Node.read shelves levels)))
    | _, _ => failure

def Node.value? (node : Node) : Option Json :=
  (node.read (node.shelve []) nestingLimit).run' (copiesPerEvent * node.events)

def isSupported (major minor : Nat) : Bool := major = 1 && (minor = 1 || minor = 2)

/-- The handles that directives introduce, and the tokens behind these. Nothing may be said
twice. -/
def readDirectives (versioned : Bool) (handles : Handles) :
    List Token → Option (Handles × List Token)
  | .directive (.version major minor) :: rest =>
    if versioned || !isSupported major minor then none else readDirectives true handles rest
  | .directive (.tag handle stem) :: rest =>
    if (handles.lookup handle).isSome then none
    else readDirectives versioned ((handle, stem) :: handles) rest
  | rest => some (handles ++ standardHandles, rest)

/-- Whether the tokens of a document that has been opened begin with no node. -/
def endsDocument : List Token → Bool
  | [] | .directive _ :: _ | .documentStart :: _ | .documentEnd :: _ => true
  | _ => false

/-- The document at the start of a stream, and the tokens behind it. A document that is opened by
its mark may be empty. -/
def readDocument (tokens : List Token) : Option (Node × List Token) :=
  let bound := 4 * (tokens.length + 1)
  match tokens with
  | .directive _ :: _ | .documentStart :: _ => do
    let (handles, rest) ← readDirectives false [] tokens
    match rest with
    | .documentStart :: rest =>
      if endsDocument rest then pure (.empty, rest) else readNode handles bound true false rest
    | _ => none
  | tokens => readNode standardHandles bound true false tokens

/-- The value in a stream of tokens. An empty stream holds null. -/
def valueOf? (tokens : List Token) : Option Json :=
  if tokens.isEmpty then some .null
  else do
    let (node, rest) ← readDocument tokens
    let value ← node.value?
    if (rest.dropWhile (· = .documentEnd)).isEmpty then pure value else none

def read? (text : String) : Option Json := do
  valueOf? (← tokens? text)

end DocumentLanguage.Yaml
