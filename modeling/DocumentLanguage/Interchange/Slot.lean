import DocumentLanguage.Json.Fault
import DocumentLanguage.Tree.Basic

/-!
Places to be filled. The members of an object may come in any order, so a record is gathered in
one slot for each of its fields and put together when all have come.
-/
namespace DocumentLanguage

/-- What one slot takes. -/
inductive Datum
  /-- The kind of a literal. -/
  | kind
  /-- The text of a literal. -/
  | text
  | field (shape : Shape)
deriving DecidableEq, Repr

/-- A slot with its label. -/
structure Slot where
  label : String
  datum : Datum
deriving DecidableEq, Repr

def Shape.Value : Shape → Type
  | .text _ => String
  | .optionalText _ => Option String
  | .child rule => Tree rule
  | .optional rule => Option (Tree rule)
  | .many rule => Trees rule

def Datum.Value : Datum → Type
  | .kind => Kind
  | .text => String
  | .field shape => shape.Value

/-- The value of a slot that nothing was given for, if it can do without. -/
def Datum.default? : (datum : Datum) → Option datum.Value
  | .field (.optionalText _) => some (none : Option String)
  | .field (.optional rule) => some (none : Option (Tree rule))
  | _ => none

/-- What each slot holds so far. -/
def Held : List Slot → Type
  | [] => PUnit
  | slot :: slots => Option slot.datum.Value × Held slots

def Filled : List Slot → Type
  | [] => PUnit
  | slot :: slots => slot.datum.Value × Filled slots

/-- One slot of several. -/
inductive SlotIn : List Slot → Datum → Type
  | here {slot : Slot} {slots : List Slot} : SlotIn (slot :: slots) slot.datum
  | there {slot : Slot} {slots : List Slot} {datum : Datum} (place : SlotIn slots datum) :
      SlotIn (slot :: slots) datum

def SlotIn.find? (label : String) : (slots : List Slot) → Option (Σ datum, SlotIn slots datum)
  | [] => none
  | slot :: slots =>
    if slot.label = label then some ⟨slot.datum, .here⟩
    else (find? label slots).map fun ⟨datum, place⟩ => ⟨datum, .there place⟩

namespace Held

def empty : (slots : List Slot) → Held slots
  | [] => PUnit.unit
  | _ :: slots => (none, empty slots)

def get : {slots : List Slot} → {datum : Datum} → SlotIn slots datum → Held slots →
    Option datum.Value
  | _, _, .here, held => held.1
  | _, _, .there place, held => get place held.2

def set : {slots : List Slot} → {datum : Datum} → SlotIn slots datum → datum.Value →
    Held slots → Held slots
  | _, _, .here, value, held => (some value, held.2)
  | _, _, .there place, value, held => (held.1, set place value held.2)

/-- The values of all slots. The first that is missing and cannot be done without is a fault. -/
def finish : (slots : List Slot) → Held slots → Except Json.Fault (Filled slots)
  | [], _ => .ok PUnit.unit
  | slot :: slots, (value, held) =>
    match value <|> slot.datum.default? with
    | none => .error (.missingField slot.label)
    | some value => (finish slots held).map fun filled => (value, filled)

end Held

def Field.slot (field : Field) : Slot := ⟨field.label, .field field.shape⟩

def literalSlots : List Slot := [⟨"kind", .kind⟩, ⟨"value", .text⟩]

def Fields.ofFilled : (fields : List Field) → Filled (fields.map Field.slot) → Fields fields
  | [], _ => .nil
  | ⟨_, .text _⟩ :: fields, (value, filled) => .text value (ofFilled fields filled)
  | ⟨_, .optionalText _⟩ :: fields, (value, filled) =>
    .optionalText value (ofFilled fields filled)
  | ⟨_, .child _⟩ :: fields, (value, filled) => .child value (ofFilled fields filled)
  | ⟨_, .optional _⟩ :: fields, (some value, filled) => .present value (ofFilled fields filled)
  | ⟨_, .optional _⟩ :: fields, (none, filled) => .absent (ofFilled fields filled)
  | ⟨_, .many _⟩ :: fields, (value, filled) => .many value (ofFilled fields filled)

end DocumentLanguage
