import DocumentLanguage.Tree.Basic

/-! Equality of trees is decidable. -/
namespace DocumentLanguage

mutual

def Tree.decEq : {rule : Rule} → (first second : Tree rule) → Decidable (first = second)
  | _, .mk content, .mk content' =>
    match content.decEq content' with
    | isTrue hEq => isTrue (by rw [hEq])
    | isFalse hNe => isFalse (by intro hEq; injection hEq; contradiction)

/-- Contents of one form are equal when all they hold is. -/
def Content.decEq : {form : Form} → (first second : Content form) → Decidable (first = second)
  | _, .literal kind text, .literal kind' text' =>
    if hEq : kind = kind' ∧ text = text' then isTrue (by rw [hEq.1, hEq.2])
    else isFalse (by intro hSame; injection hSame; simp_all)
  | _, .oneOf rule _ tree, .oneOf rule' _ tree' =>
    if hRule : rule = rule' then by
      subst hRule
      exact match tree.decEq tree' with
        | isTrue hEq => isTrue (by rw [hEq])
        | isFalse hNe => isFalse (by intro hSame; injection hSame; simp_all)
    else isFalse (by intro hSame; injection hSame; simp_all)
  | _, .sequence fields, .sequence fields' =>
    match fields.decEq fields' with
    | isTrue hEq => isTrue (by rw [hEq])
    | isFalse hNe => isFalse (by intro hSame; injection hSame; contradiction)

def Fields.decEq : {fields : List Field} → (first second : Fields fields) →
    Decidable (first = second)
  | _, .nil, .nil => isTrue rfl
  | _, .text text rest, .text text' rest' =>
    if hText : text = text' then
      match rest.decEq rest' with
      | isTrue hRest => isTrue (by rw [hText, hRest])
      | isFalse hNe => isFalse (by intro hSame; injection hSame; simp_all)
    else isFalse (by intro hSame; injection hSame; simp_all)
  | _, .optionalText text rest, .optionalText text' rest' =>
    if hText : text = text' then
      match rest.decEq rest' with
      | isTrue hRest => isTrue (by rw [hText, hRest])
      | isFalse hNe => isFalse (by intro hSame; injection hSame; simp_all)
    else isFalse (by intro hSame; injection hSame; simp_all)
  | _, .child tree rest, .child tree' rest' =>
    match tree.decEq tree', rest.decEq rest' with
    | isTrue hTree, isTrue hRest => isTrue (by rw [hTree, hRest])
    | isFalse hNe, _ => isFalse (by intro hSame; injection hSame; simp_all)
    | _, isFalse hNe => isFalse (by intro hSame; injection hSame; simp_all)
  | _, .absent rest, .absent rest' =>
    match rest.decEq rest' with
    | isTrue hRest => isTrue (by rw [hRest])
    | isFalse hNe => isFalse (by intro hSame; injection hSame; simp_all)
  | _, .absent _, .present _ _ => isFalse (by intro hSame; injection hSame)
  | _, .present _ _, .absent _ => isFalse (by intro hSame; injection hSame)
  | _, .present tree rest, .present tree' rest' =>
    match tree.decEq tree', rest.decEq rest' with
    | isTrue hTree, isTrue hRest => isTrue (by rw [hTree, hRest])
    | isFalse hNe, _ => isFalse (by intro hSame; injection hSame; simp_all)
    | _, isFalse hNe => isFalse (by intro hSame; injection hSame; simp_all)
  | _, .many trees rest, .many trees' rest' =>
    match trees.decEq trees', rest.decEq rest' with
    | isTrue hTrees, isTrue hRest => isTrue (by rw [hTrees, hRest])
    | isFalse hNe, _ => isFalse (by intro hSame; injection hSame; simp_all)
    | _, isFalse hNe => isFalse (by intro hSame; injection hSame; simp_all)

def Trees.decEq : {rule : Rule} → (first second : Trees rule) → Decidable (first = second)
  | _, .nil, .nil => isTrue rfl
  | _, .nil, .cons _ _ => isFalse (by intro hSame; injection hSame)
  | _, .cons _ _, .nil => isFalse (by intro hSame; injection hSame)
  | _, .cons tree trees, .cons tree' trees' =>
    match tree.decEq tree', trees.decEq trees' with
    | isTrue hTree, isTrue hTrees => isTrue (by rw [hTree, hTrees])
    | isFalse hNe, _ => isFalse (by intro hSame; injection hSame; simp_all)
    | _, isFalse hNe => isFalse (by intro hSame; injection hSame; simp_all)

end

instance {rule : Rule} : DecidableEq (Tree rule) := Tree.decEq

end DocumentLanguage
