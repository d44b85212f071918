/-!
JSON values. Items and members are families of their own, so that a definition over a value
follows its shape. The members of an object keep the order in which they were given.
-/
namespace DocumentLanguage

mutual

/-- A JSON value. -/
inductive Json
  | null
  | bool (value : Bool)
  | integer (value : Int)
  | float (value : Float)
  | string (text : String)
  | array (items : Json.Items)
  | object (members : Json.Members)

/-- The values in an array. -/
inductive Json.Items
  | nil
  | cons (item : Json) (rest : Json.Items)

/-- The keys and values in an object. -/
inductive Json.Members
  | nil
  | cons (key : String) (value : Json) (rest : Json.Members)

end

namespace Json

instance : Inhabited Json := ⟨null⟩

def Items.ofList : List Json → Items
  | [] => nil
  | item :: items => cons item (ofList items)

def Members.ofList : List (String × Json) → Members
  | [] => nil
  | (key, value) :: members => cons key value (ofList members)

/-- Put a member into members that are sorted by key; it takes the place of one with its
key. -/
def Members.insert (key : String) (value : Json) : Members → Members
  | nil => cons key value nil
  | cons key' value' rest =>
    if key < key' then cons key value (cons key' value' rest)
    else if key = key' then cons key value rest
    else cons key' value' (rest.insert key value)

mutual

/-- The value with the members of every object sorted by key. Of two members with one key the
later one stays. -/
def sorted : Json → Json
  | array items => array items.sorted
  | object members => object (members.sorted .nil)
  | value => value

/-- The items with the members of every object sorted by key. -/
def Items.sorted : Items → Items
  | .nil => .nil
  | .cons item rest => .cons item.sorted rest.sorted

/-- Sort members into those that are sorted already. -/
def Members.sorted : Members → Members → Members
  | .nil, before => before
  | .cons key value rest, before => rest.sorted (before.insert key value.sorted)

end

end Json

end DocumentLanguage
