import DocumentLanguage.Interchange.Name
import DocumentLanguage.Interchange.Slot
import DocumentLanguage.Json.Raw

/-!
Trees from JSON. The rule that is looked for says what is expected at each place, and the first
fault in the order of the text is the one that is told. A record may be an object, whose members
come in any order and may be more than the fields, or an array of its fields in order. A text may
only nest so deep; a value that is there already may nest as deep as it likes.
-/
namespace DocumentLanguage.Interchange

open Json

/-- How many levels of arrays and objects a text may have: the JSON library counts them
down from 128 and refuses the one that would leave none. -/
def nestingLimit : Nat := 127

/-- What is read. -/
inductive Origin
  /-- A text in which so many levels are left. -/
  | text (left : Nat)
  | value
deriving DecidableEq, Repr

def Origin.enter : Origin → Except Fault Origin
  | text (left + 1) => .ok (text left)
  | text 0 => .error .tooDeep
  | value => .ok value

def loadText : Raw → Except Fault String
  | .string lexeme => lexeme.text
  | raw => .error (raw.mismatch .text)

def loadOptionalText : Raw → Except Fault (Option String)
  | .null => .ok none
  | raw => (loadText raw).map some

/-- What is wrong behind the last element of a record that is given as an array, if anything
is. -/
def afterElements (origin : Origin) (read : Nat) : Raw.Items → Except Fault Unit
  | .close => .ok ()
  | .missing => .error .endInList
  | .dangling => .error .trailingComma
  | .stray => .error .trailingCharacters
  | .cons _ rest =>
    match origin with
    | .text _ => .error .trailingCharacters
    | .value => .error (.tooLong (read + 1 + count rest))
where
  /-- The number of items. -/
  count : Raw.Items → Nat
    | .cons _ rest => count rest + 1
    | _ => 0

/-- What is wrong behind the only member of an object that names a variant, if anything is. -/
def afterVariant : Raw.Members → Except Fault Unit
  | .close => .ok ()
  | .missing => .error .endInObject
  | _ => .error .expectedValue

def missingItem (record : String) (length fields : Nat) : Raw.Items → Fault
  | .missing => .endInList
  | .stray => .expectedListEnd
  | .dangling => .trailingComma
  | _ => .tooShort length record fields

/-- What is wrong with an object in which no member names a variant. -/
def noVariant : Origin → Raw.Members → Fault
  | .value, _ => .notOneMember
  | .text _, .missing => .endInObject
  | .text _, .strayKey => .keyNotString
  | .text _, _ => .expectedValue

/-- Whether an object holds something behind its first member although it is given as a
value. -/
def tooMany : Origin → Raw.Members → Bool
  | .value, .cons _ _ _ => true
  | _, _ => false

/-- What is wrong with something that is neither a variant's name nor an object. -/
def noChoice : Origin → Raw → Fault
  | .text _, .missing => .endInValue
  | .text _, _ => .expectedValue
  | .value, raw => raw.mismatch .variantOrObject

def kindOfName (name : String) : Except Fault Kind :=
  match Kind.ofName? name with
  | some kind => .ok kind
  | none => .error (.unknownVariant name (Kind.all.map Kind.name))

def ruleOfTag (rules : List Rule) (tag : String) :
    Except Fault { rule : Rule // rule ∈ rules } :=
  match Rule.ofTag? rules tag with
  | some rule => .ok rule
  | none => .error (.unknownVariant tag (rules.map Rule.tag))

/-- The kind of a literal: its name, alone or with nothing in an object. -/
def loadKind (origin : Origin) : Raw → Except Fault Kind
  | .string lexeme => do kindOfName (← lexeme.text)
  | .object members => do
    let origin ← origin.enter
    match members with
    | .cons key value rest =>
      if tooMany origin rest then throw .notOneMember
      let kind ← kindOfName (← key.text)
      match value with
      | .null => pure ()
      | value => throw (value.mismatch .nothing)
      afterVariant rest
      pure kind
    | .loneKey key fault =>
      let _ ← kindOfName (← key.text)
      throw fault
    | members => throw (noVariant origin members)
  | raw => .error (noChoice origin raw)

/-- The value of a slot. How a tree and a sequence of trees are loaded from the same place is
given. -/
def loadDatum (origin : Origin) (tree : (rule : Rule) → Except Fault (Tree rule))
    (trees : (rule : Rule) → Except Fault (Trees rule)) :
    (datum : Datum) → Raw → Except Fault datum.Value
  | .kind, raw => loadKind origin raw
  | .text, raw | .field (.text _), raw => loadText raw
  | .field (.optionalText _), raw => loadOptionalText raw
  | .field (.child rule), _ => tree rule
  | .field (.optional _), .null => .ok none
  | .field (.optional rule), _ => (tree rule).map some
  | .field (.many rule), _ => trees rule

def checkNew (slots : List Slot) (label : String) (held : Held slots) : Except Fault Unit :=
  match SlotIn.find? label slots with
  | some ⟨_, place⟩ =>
    if (held.get place).isSome then .error (.duplicateField label) else .ok ()
  | none => .ok ()

def literalOf {kinds : List Kind} : Filled literalSlots → Content (.literal kinds)
  | (kind, text, _) => .literal kind text

def sequenceOf {standing : Standing} {parts : List Part}
    (filled : Filled ((fieldsOf parts).map Field.slot)) : Content (.sequence standing parts) :=
  .sequence (.ofFilled _ filled)

mutual

def loadContent (record : String) :
    (form : Form) → Origin → Raw → Except Fault (Content form)
  | .oneOf rules, origin, .object members => do loadVariant rules (← origin.enter) members
  | .oneOf rules, _, .string lexeme => do
    let _ ← ruleOfTag rules (← lexeme.text)
    throw (.mismatch .bareVariant .payload)
  | .oneOf _, origin, raw => .error (noChoice origin raw)
  | .literal _, origin, .object members => do
    literalOf <$> loadMembers literalSlots (← origin.enter) members (.empty _)
  | .literal _, origin, .array items => do
    literalOf <$> loadElements record 2 literalSlots (← origin.enter) 0 items
  | .literal _, _, raw => .error (raw.mismatch (.record record))
  | .sequence _ parts, origin, raw =>
    let fields := fieldsOf parts
    let slots := fields.map Field.slot
    if fields.isEmpty then
      match raw with
      | .null => sequenceOf <$> Held.finish slots (.empty slots)
      | raw => .error (raw.mismatch (.empty record))
    else
      match raw with
      | .object members => do
        sequenceOf <$> loadMembers slots (← origin.enter) members (.empty slots)
      | .array items => do
        sequenceOf <$> loadElements record fields.length slots (← origin.enter) 0 items
      | raw => .error (raw.mismatch (.record record))

/-- The node that the only member of an object stands for. -/
def loadVariant (rules : List Rule) (origin : Origin) :
    Raw.Members → Except Fault (Content (.oneOf rules))
  | .cons key value rest => do
    if tooMany origin rest then throw .notOneMember
    let rule ← ruleOfTag rules (← key.text)
    let content ← loadContent rule.val.recordName rule.val.form origin value
    afterVariant rest
    pure (.oneOf rule.val rule.property (.mk content))
  | .loneKey key fault => do
    let _ ← ruleOfTag rules (← key.text)
    throw fault
  | members => .error (noVariant origin members)

/-- The slots of a record from the members that are left. What belongs to no slot is passed
over. -/
def loadMembers (slots : List Slot) (origin : Origin) :
    Raw.Members → Held slots → Except Fault (Filled slots)
  | .close, held => held.finish slots
  | .missing, _ => .error .endInObject
  | .stray, _ => .error .expectedObjectEnd
  | .dangling, _ => .error .trailingComma
  | .cut, _ => .error .endInValue
  | .strayKey, _ => .error .keyNotString
  | .loneKey key fault, held => do
    checkNew slots (← key.text) held
    throw fault
  | .cons key value rest, held => do
    let label ← key.text
    checkNew slots label held
    match SlotIn.find? label slots with
    | none =>
      value.passed
      loadMembers slots origin rest held
    | some ⟨datum, place⟩ =>
      let value ← loadDatum origin
        (fun rule => Tree.mk <$> loadContent rule.recordName rule.form origin value)
        (fun rule => loadTrees rule origin value) datum value
      loadMembers slots origin rest (held.set place value)

/-- The slots of a record from the items that are left, of which so many have been read. -/
def loadElements (record : String) (total : Nat) : (slots : List Slot) → Origin → Nat →
    Raw.Items → Except Fault (Filled slots)
  | [], origin, read, items => do
    afterElements origin read items
    pure PUnit.unit
  | slot :: slots, origin, read, .cons item rest => do
    let value ← loadDatum origin
      (fun rule => Tree.mk <$> loadContent rule.recordName rule.form origin item)
      (fun rule => loadTrees rule origin item) slot.datum item
    let filled ← loadElements record total slots origin (read + 1) rest
    pure (value, filled)
  | _ :: _, _, read, items => .error (missingItem record read total items)

def loadTrees (rule : Rule) (origin : Origin) : Raw → Except Fault (Trees rule)
  | .array items => do loadItems rule (← origin.enter) items
  | raw => .error (raw.mismatch .sequence)

def loadItems (rule : Rule) (origin : Origin) : Raw.Items → Except Fault (Trees rule)
  | .close => .ok .nil
  | .missing => .error .endInList
  | .stray => .error .expectedListEnd
  | .dangling => .error .trailingComma
  | .cons item rest => do
    let content ← loadContent rule.recordName rule.form origin item
    let trees ← loadItems rule origin rest
    pure (.cons (.mk content) trees)

end

def loadTree (rule : Rule) (origin : Origin) (raw : Raw) : Except Fault (Tree rule) :=
  Tree.mk <$> loadContent rule.recordName rule.form origin raw

end DocumentLanguage.Interchange
