import DocumentLanguage.Decimal.Number
import DocumentLanguage.Json.Value
import DocumentLanguage.Text.Basic
import DocumentLanguage.Unicode.Lowercase

/-!
Keys of settings: a name, behind it further names and places in arrays. Setting a value makes
tables and arrays along its key, in the place of whatever else stood there, and a table is merged
into the one that it meets. Names are kept in lower case.
-/
namespace DocumentLanguage

namespace Json.Members

def get? (key : String) : Members → Option Json
  | .nil => none
  | .cons key' value rest => if key' = key then some value else rest.get? key

/-- Put a value under a key, behind the others unless the key is there already. -/
def put (key : String) (value : Json) : Members → Members
  | .nil => .cons key value .nil
  | .cons key' value' rest =>
    if key' = key then .cons key value rest else .cons key' value' (rest.put key value)

end Json.Members

namespace Json.Items

def get? : Nat → Items → Option Json
  | _, .nil => none
  | 0, .cons item _ => some item
  | place + 1, .cons _ rest => rest.get? place

/-- Put an item at a place. What is missing before it is null. -/
def put (value : Json) : Nat → Items → Items
  | 0, .nil => .cons value .nil
  | 0, .cons _ rest => .cons value rest
  | place + 1, .nil => .cons .null (put value place .nil)
  | place + 1, .cons item rest => .cons item (put value place rest)

/-- The number of items. -/
def length : Items → Nat
  | .nil => 0
  | .cons _ rest => rest.length + 1

end Json.Items

namespace Settings

/-- A key. -/
inductive Key
  | top (name : String)
  | member (key : Key) (name : String)
  | item (key : Key) (place : Int)
deriving DecidableEq, Repr

def isNameChar (c : Char) : Bool := c.isAlphanum || c = ' ' || c = '_' || c = '-'

def readName (text : List Char) : Option (String × List Char) :=
  let name := text.takeWhile isNameChar
  if name.isEmpty then none else some (String.ofList name, text.dropWhile isNameChar)

def dropBlanks (text : List Char) : List Char :=
  text.dropWhile fun c => c = ' ' ∨ c = '\t'

/-- A place in brackets behind the opening one, and what follows it. A negative one counts from
the end. Blanks may stand around it. -/
def readPlace (text : List Char) : Option (Int × List Char) :=
  let (negative, text) := match dropBlanks text with
    | '-' :: text => (true, text)
    | text => (false, text)
  let digits := text.takeWhile Char.isDigit
  match Text.number? 10 digits, dropBlanks (text.dropWhile Char.isDigit) with
  | some number, ']' :: rest =>
    let place : Int := if negative then -number else number
    if Decimal.fitsSigned place then some (place, rest) else none
  | _, _ => none

/-- A key that goes on with a text. The bound counts characters. -/
def Key.extend? (key : Key) : Nat → List Char → Option Key
  | _, [] => some key
  | bound + 1, '.' :: text => do
    let (name, rest) ← readName text
    (Key.member key name).extend? bound rest
  | bound + 1, '[' :: text => do
    let (place, rest) ← readPlace text
    (Key.item key place).extend? bound rest
  | _, _ => none

def Key.parse? (text : String) : Option Key := do
  let (name, rest) ← readName text.toList
  (Key.top name).extend? rest.length rest

def membersOf : Json → Json.Members
  | .object members => members
  | _ => .nil

def itemsOf : Json → Json.Items
  | .array items => items
  | _ => .nil

mutual

/-- Set a value under a name in a table. A table is merged into what is there. -/
def assign (table : Json.Members) (name : String) : Json → Json.Members
  | .object members =>
    let name := Unicode.lower name
    table.put name (merge ((table.get? name).getD (.object .nil)) members)
  | value => table.put (Unicode.lower name) value

/-- Set members in a value, which becomes a table if there is any. -/
def merge (target : Json) : Json.Members → Json
  | .nil => target
  | .cons name value rest => merge (.object (assign (membersOf target) name value)) rest

end

def placeIn (items : Json.Items) (place : Int) : Nat :=
  if 0 ≤ place then place.toNat else items.length - place.natAbs

def Key.change (use : Json → Json) : Key → Json → Json
  | top name, root =>
    let name := Unicode.lower name
    let members := membersOf root
    .object (members.put name (use ((members.get? name).getD .null)))
  | member key name, root =>
    key.change (fun parent =>
      let name := Unicode.lower name
      let members := membersOf parent
      .object (members.put name (use ((members.get? name).getD .null)))) root
  | item key place, root =>
    key.change (fun parent =>
      let items := itemsOf parent
      let place := placeIn items place
      .array (items.put (use ((items.get? place).getD .null)) place)) root

def Key.set (value : Json) : Key → Json → Json
  | top name, root => .object (assign (membersOf root) name value)
  | member key name, root =>
    key.change (fun parent => .object (assign (membersOf parent) name value)) root
  | item key place, root =>
    key.change (fun parent =>
      let items := itemsOf parent
      .array (items.put value (placeIn items place))) root

end Settings

end DocumentLanguage
