import DocumentLanguage.Text.Basic
import DocumentLanguage.Yaml.Place

/-!
Tags, anchors and directives: the words behind the marks that begin them. An address is a row of
octets, which need not be the code of any text; what follows an octet of zero does not count.
-/
namespace DocumentLanguage.Yaml

/-- The characters of addresses. Inside angles there are a few more. -/
def isAddressChar (angled : Bool) (c : Char) : Bool :=
  isNameChar c ||
    [';', '/', '?', ':', '@', '&', '=', '+', '$', '.', '!', '~', '*', '\'', '(', ')',
     '%'].contains c || (angled && [',', '[', ']'].contains c)

def octetsOf (text : List Char) : List UInt8 :=
  text.map fun c => UInt8.ofNat c.toNat

/-- How many octets follow one that begins the code of a character. -/
def octetsBehind? (octet : Nat) : Option Nat :=
  if octet < 0x80 then some 0
  else if octet < 0xC0 then none
  else if octet < 0xE0 then some 1
  else if octet < 0xF0 then some 2
  else if octet < 0xF8 then some 3
  else none

/-- The octets of characters, where two digits behind a percent sign are an octet. So many are
still due for the character that has been begun, all of them behind percent signs. -/
def decodeOctets : Nat → List Char → Option (List UInt8)
  | due, [] => if due = 0 then some [] else none
  | due, '%' :: high :: low :: rest => do
    let octet ← Text.number? 16 [high, low]
    let due ← match due with
      | 0 => octetsBehind? octet
      | due + 1 => if 0x80 ≤ octet ∧ octet < 0xC0 then some due else none
    (decodeOctets due rest).map (UInt8.ofNat octet :: ·)
  | due, c :: rest =>
    if c = '%' ∨ due ≠ 0 then none else (decodeOctets 0 rest).map (octetsOf [c] ++ ·)

def decodeAddress (address : List Char) : Option (List UInt8) :=
  (decodeOctets 0 address).map (·.takeWhile (· ≠ 0))

/-- A name behind the mark of an anchor or an alias. It ends at a blank or at certain marks. -/
def readName (place : Place) : Option (Place × String) :=
  let name := place.takeWhile isNameChar
  let place := place.skipMany name.length
  if !name.isEmpty && (atBlank place.rest ||
      place.atAny (['?', ':', ',', ']', '}', '%', '@', '`'].contains ·)) then
    some (place, String.ofList name)
  else none

/-- The names of nodes in a document so far, and the shelves on which the nodes are put. -/
abbrev Names := List (String × Nat)

/-- Give a name. Its shelf is numbered by how many names there are, so a name that is given again
moves to the shelf that the next new name will have too. -/
def Names.give (name : String) (names : Names) : Names :=
  (name, names.length) :: names.filter (·.1 ≠ name)

/-- A tag in two parts: a handle that stands for a beginning, and the rest. -/
structure Tag where
  handle : String
  suffix : List UInt8
deriving DecidableEq, Repr

/-- The handle at a place: an exclamation mark, and a name with another one behind it, if any. -/
def readHandle (place : Place) : Option (Place × List Char) :=
  if place.at? '!' then
    let place := place.skip
    let name := place.takeWhile isNameChar
    let place := place.skipMany name.length
    if place.at? '!' then some (place.skip, '!' :: name ++ ['!']) else some (place, '!' :: name)
  else none

def readTag (flow : Bool) (place : Place) : Option (Place × Tag) := do
  let (place, tag) ←
    if place.rest[1]? = some '<' then do
      let place := place.skipMany 2
      let address := place.takeWhile (isAddressChar true)
      let place := place.skipMany address.length
      if address.isEmpty || !place.at? '>' then none
      else pure (place.skip, (⟨"", ← decodeAddress address⟩ : Tag))
    else do
      let (place, handle) ← readHandle place
      let address := place.takeWhile (isAddressChar false)
      let place := place.skipMany address.length
      let suffix ← decodeAddress address
      if 2 ≤ handle.length && handle.getLast? = some '!' then
        if address.isEmpty then none else pure (place, (⟨String.ofList handle, suffix⟩ : Tag))
      else
        let suffix := octetsOf handle.tail ++ suffix
        pure (place, if suffix.isEmpty then ⟨"", octetsOf ['!']⟩ else ⟨"!", suffix⟩)
  if (flow && place.at? ',') || atBlank place.rest then pure (place, tag) else none

/-- What a node is asked to be by its tag. -/
inductive Demand
  /-- What it looks like. -/
  | any
  | bool | integer | float | null | text
  /-- Something of a program's own. -/
  | own
deriving DecidableEq, Repr

def Demand.ofName (name : String) : Demand :=
  if name.startsWith "!" then .own
  else if name = "tag:yaml.org,2002:bool" then .bool
  else if name = "tag:yaml.org,2002:int" then .integer
  else if name = "tag:yaml.org,2002:float" then .float
  else if name = "tag:yaml.org,2002:null" then .null
  else .text

/-- What the octets of a tag ask for, if there is one. A tag of a program's own that is no text
counts as none. -/
def Demand.ofTag : Option (List UInt8) → Demand
  | none => .any
  | some octets =>
    match String.fromUTF8? ⟨octets.toArray⟩ with
    | some name => ofName name
    | none => if (octetsOf ['!']).isPrefixOf octets then .any else .text

/-- What a directive says. -/
inductive Directive
  | version (major minor : Nat)
  | tag (handle : String) (stem : List UInt8)
deriving DecidableEq, Repr

/-- A number of at most nine digits, and the place behind it. -/
def readVersionNumber (place : Place) : Option (Place × Nat) := do
  let digits := place.takeWhile Char.isDigit
  if 9 < digits.length then none
  else pure (place.skipMany digits.length, ← Text.number? 10 digits)

def readDirectiveValue (name : List Char) (place : Place) : Option (Place × Directive) := do
  let place := place.skipWhile isBlank
  if name = ['Y', 'A', 'M', 'L'] then
    let (place, major) ← readVersionNumber place
    if !place.at? '.' then none
    else
      let (place, minor) ← readVersionNumber place.skip
      pure (place, .version major minor)
  else if name = ['T', 'A', 'G'] then
    let (place, handle) ← readHandle place
    if handle ≠ ['!'] && handle.getLast? ≠ some '!' || !place.atAny isBlank then none
    else
      let place := place.skipWhile isBlank
      let address := place.takeWhile (isAddressChar true)
      let place := place.skipMany address.length
      if address.isEmpty || !atBlank place.rest then none
      else pure (place, .tag (String.ofList handle) (← decodeAddress address))
  else none

/-- A directive behind its mark, and the place at the start of the next line. -/
def readDirective (place : Place) : Option (Place × Directive) := do
  let name := place.takeWhile isNameChar
  let place := place.skipMany name.length
  if name.isEmpty || !atBlank place.rest then none
  else
    let (place, directive) ← readDirectiveValue name place
    pure (← place.skipToNextLine?, directive)

end DocumentLanguage.Yaml
