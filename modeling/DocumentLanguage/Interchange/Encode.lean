import DocumentLanguage.Interchange.Name
import DocumentLanguage.Json.Value
import DocumentLanguage.Tree.Basic

/-!
Trees as JSON values. A record is an object with its fields in order, a record without fields is
null, and a node of one of several rules is an object with its tag as the only key. That is how the
library codes such types by default.
-/
namespace DocumentLanguage

def optionalText : Option String → Json
  | some text => .string text
  | none => .null

mutual

def Tree.toValue : {rule : Rule} → Tree rule → Json
  | _, .mk content => content.toValue

def Content.toValue : {form : Form} → Content form → Json
  | _, .literal kind text =>
    .object (.cons "kind" (.string kind.name) (.cons "value" (.string text) .nil))
  | _, .oneOf rule _ tree => .object (.cons rule.tag tree.toValue .nil)
  | _, .sequence fields =>
    match fields.toMembers with
    | .nil => .null
    | members => .object members

def Fields.toMembers : {fields : List Field} → Fields fields → Json.Members
  | _, .nil => .nil
  | _, @Fields.text label _ _ text rest => .cons label (.string text) rest.toMembers
  | _, @Fields.optionalText label _ _ text rest =>
    .cons label (optionalText text) rest.toMembers
  | _, @Fields.child label _ _ tree rest => .cons label tree.toValue rest.toMembers
  | _, @Fields.absent label _ _ rest => .cons label .null rest.toMembers
  | _, @Fields.present label _ _ tree rest => .cons label tree.toValue rest.toMembers
  | _, @Fields.many label _ _ trees rest => .cons label (.array trees.toItems) rest.toMembers

def Trees.toItems : {rule : Rule} → Trees rule → Json.Items
  | _, .nil => .nil
  | _, .cons tree trees => .cons tree.toValue trees.toItems

end

end DocumentLanguage
