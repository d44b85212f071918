import DocumentLanguage.Proofs.Grammar.Terminal

/-!
What a node keeps of the parts of its rule. The fields of a sequence are what is kept of its first
part and then the fields of the others, so that what is said of fields can be said part by part.
-/
namespace DocumentLanguage

namespace Part

abbrev Kept : Part → Type
  | keyword _ | delimiter _ | newline | commit => Unit
  | choice _ _ | token _ _ => String
  | optionalToken _ _ => Option String
  | child _ rule | line _ rule => Tree rule
  | optional _ rule => Option (Tree rule)
  | many _ rule | some _ rule => Trees rule

/-- The fields of a sequence, from what is kept of its first part and the fields of the others. -/
def keep {parts : List Part} : (part : Part) → part.Kept → Fields (fieldsOf parts) →
    Fields (fieldsOf (part :: parts))
  | keyword _, _, fields | delimiter _, _, fields | newline, _, fields | commit, _, fields => fields
  | choice _ _, text, fields | token _ _, text, fields => .text text fields
  | optionalToken _ _, text, fields => .optionalText text fields
  | child _ _, tree, fields | line _ _, tree, fields => .child tree fields
  | optional _ _, none, fields => .absent fields
  | optional _ _, Option.some tree, fields => .present tree fields
  | many _ _, trees, fields | some _ _, trees, fields => .many trees fields

/-- The fields of a sequence are what is kept of its first part and the fields of the others. -/
theorem exists_keep {parts : List Part} (part : Part)
    (fields : Fields (fieldsOf (part :: parts))) :
    ∃ kept rest, fields = part.keep kept rest := by
  cases part with
  | keyword | delimiter | newline | commit => exact ⟨(), fields, rfl⟩
  | choice | token | optionalToken | child | line | many | some =>
      cases fields
      exact ⟨_, _, rfl⟩
  | optional label rule =>
      cases fields with
      | absent rest => exact ⟨none, rest, rfl⟩
      | present tree rest => exact ⟨Option.some tree, rest, rfl⟩

/-- The terminals of a part and what is kept of it. -/
def terminals : (part : Part) → part.Kept → List Terminal
  | keyword text, _ | delimiter text, _ => [.verbatim .delimiter text]
  | newline, _ => [.newline]
  | commit, _ => []
  | choice _ _, text => [.kept .delimiter text]
  | token _ kind, text => [.kept kind text]
  | optionalToken _ kind, text => (text.map (Terminal.kept kind)).toList
  | child _ _, tree | line _ _, tree | optional _ _, Option.some tree => tree.terminals
  | optional _ _, none => []
  | many _ _, trees | some _ _, trees => trees.terminals

def nodes : (part : Part) → part.Kept → List Node
  | child _ rule, tree | line _ rule, tree | optional _ rule, Option.some tree => [⟨rule, tree⟩]
  | many _ _, trees | some _ _, trees => trees.asNodes
  | _, _ => []

/-- The tokens that are kept of a part, at a place. -/
def tokens (place : Nat) : (part : Part) → part.Kept → List KeptToken
  | choice _ _, text => [⟨place, .delimiter, text⟩]
  | token _ kind, text | optionalToken _ kind, Option.some text => [⟨place, kind, text⟩]
  | _, _ => []

/-- Whether what is kept of a part is as it asks. -/
def suits : (part : Part) → part.Kept → Bool
  | choice _ options, text => options.delimiters.contains text
  | some _ _, trees => !trees.asNodes.isEmpty
  | _, _ => true

variable {parts : List Part} (part : Part) (kept : part.Kept) (fields : Fields (fieldsOf parts))

theorem weave_keep : weave (part :: parts) (part.keep kept fields).marks =
    part.terminals kept ++ weave parts fields.marks := by
  cases part with
  | optional => cases kept <;> rfl
  | _ => rfl

theorem aligned_keep : aligned admits (part :: parts) (part.keep kept fields).stored =
    (part.suits kept && aligned admits parts fields.stored) := by
  cases part with
  | optional => cases kept <;> rfl
  | _ => rfl

theorem nodes_keep : (part.keep kept fields).stored.flatMap Stored.nodes =
    part.nodes kept ++ fields.stored.flatMap Stored.nodes := by
  cases part with
  | optional => cases kept <;> rfl
  | _ => rfl

variable {part} {kept}

/-- Behind the tokens of a part that keeps something come those of the next place on. -/
theorem tokens_keep (hKeeps : part.fixed? = none) (place : Nat) :
    tokensFrom place (part.keep kept fields).stored =
      part.tokens place kept ++ tokensFrom (place + 1) fields.stored := by
  cases part with
  | keyword | delimiter | newline | commit => cases hKeeps
  | optional | optionalToken => cases kept <;> rfl
  | _ => rfl

end Part

end DocumentLanguage
