import DocumentLanguage.Format.Outline
import DocumentLanguage.Proofs.Text.Quoted

/-!
The outline determines the tree. It is a row for every node and every token, with its depth and what
it is; the rows can be told from the text, and the tree from the rows, as no part of a sequence that
may stay away begins with what a part behind it begins with.
-/
namespace DocumentLanguage

namespace Outline

/-- What a row of an outline stands for. -/
inductive Label
  | node (rule : Rule)
  | token (kind : Kind) (text : String)
deriving DecidableEq

def Label.text : Label → List Char
  | node rule => rule.name.toList
  | token kind text => kind.name.toList ++ ' ' :: (Text.quoted text).toList

/-- A row of an outline. -/
structure Row where
  depth : Nat
  label : Label

def Row.text (row : Row) : List Char :=
  List.replicate (2 * row.depth) ' ' ++ (row.label.text ++ ['\n'])

end Outline

open Outline

mutual

def Tree.rows (depth : Nat) : {rule : Rule} → Tree rule → List Row
  | rule, .mk content => ⟨depth, .node rule⟩ :: content.rows (depth + 1)

def Content.rows (depth : Nat) : {form : Form} → Content form → List Row
  | _, .literal kind text => [⟨depth, .token kind text⟩]
  | _, .oneOf _ _ tree => tree.rows depth
  | _, .sequence fields => fields.rows depth

def Fields.rows (depth : Nat) : {fields : List Field} → Fields fields → List Row
  | _, .nil => []
  | _, @Fields.text _ kind _ text rest => ⟨depth, .token kind text⟩ :: rest.rows depth
  | _, @Fields.optionalText _ kind _ (some text) rest =>
    ⟨depth, .token kind text⟩ :: rest.rows depth
  | _, .optionalText none rest | _, .absent rest => rest.rows depth
  | _, .child tree rest | _, .present tree rest => tree.rows depth ++ rest.rows depth
  | _, .many trees rest => trees.rows depth ++ rest.rows depth

def Trees.rows (depth : Nat) : {rule : Rule} → Trees rule → List Row
  | _, .nil => []
  | _, .cons tree trees => tree.rows depth ++ trees.rows depth

end

/-! ### The outline is its rows -/

namespace Outline

/-- A part of a walk that adds to the sheet the rows that belong to its depth. -/
def Adds (hook : Hook Sheet Empty Unit) (rows : Nat → List Row) : Prop :=
  ∀ sheet : Sheet, hook.run.run sheet =
    (.ok (), { sheet with
      text := sheet.text ++ String.ofList ((rows sheet.depth).flatMap Row.text) })

theorem adds_pure : Adds (pure ()) fun _ => [] := by
  intro sheet
  simp
  rfl

/-- A line that is added to a sheet is a row at the depth that the sheet has. -/
theorem addLine_eq (sheet : Sheet) (label : Label) :
    sheet.addLine (String.ofList label.text) =
      { sheet with text := sheet.text ++ String.ofList (Row.text ⟨sheet.depth, label⟩) } := by
  simp [Sheet.addLine, Row.text, String.append_assoc]

/-- Two parts of a walk add the rows of the first and then those of the second, at the same depth.
-/
theorem Adds.bind {first second : Hook Sheet Empty Unit} {front back : Nat → List Row}
    (hFirst : Adds first front) (hSecond : Adds second back) :
    Adds (do first; second) fun depth => front depth ++ back depth := by
  intro sheet
  rw [Hook.run_bind (hFirst sheet), hSecond]
  simp [String.append_assoc]

theorem adds_token (kind : Kind) (text : String) :
    Adds (writer.token kind text) fun depth => [⟨depth, .token kind text⟩] := by
  intro sheet
  have hLine : kind.name ++ " " ++ Text.quoted text =
      String.ofList (Label.token kind text).text := by
    simp [Label.text, String.append_assoc]
  have hToken : (writer.token kind text).run.run sheet =
      (.ok (), sheet.addLine (kind.name ++ " " ++ Text.quoted text)) := rfl
  rw [hToken, hLine, addLine_eq]
  simp

theorem adds_before (node : Node) (index : Nat) : Adds (writer.before node index) fun _ => [] := by
  cases index with
  | zero => exact adds_pure
  | succ index => exact adds_pure

mutual

/-- The walk of a node adds its rows, one for the node and, a level deeper, those of what it holds.
-/
theorem adds_tree {rule : Rule} : (tree : Tree rule) → (index size : Nat) →
    Adds (tree.walk writer index size) fun depth => tree.rows depth
  | .mk content, index, size => by
      intro sheet
      have hContent := adds_content content ⟨rule, .mk content⟩
      have hEnter : (writer.enter ⟨rule, .mk content⟩ index size).run.run sheet =
          (.ok (), { sheet.addLine rule.name with depth := sheet.depth + 1 }) := rfl
      have hLeave : ∀ sheet : Sheet, (writer.leave ⟨rule, .mk content⟩ index size).run.run sheet =
          (.ok (), { sheet with depth := sheet.depth - 1 }) := fun _ => rfl
      simp only [Tree.walk, Tree.rows]
      have hName : rule.name = String.ofList (Label.node rule).text := by simp [Label.text]
      rw [Hook.run_bind hEnter, Hook.run_bind (hContent _), hLeave, hName, addLine_eq]
      simp [String.append_assoc]

theorem adds_content : {form : Form} → (content : Content form) → (node : Node) →
    Adds (content.walk writer node) fun depth => content.rows depth
  | _, .literal kind text, _ => adds_token kind text
  | _, .oneOf _ _ tree, _ => adds_tree tree 0 1
  | _, .sequence fields, node => adds_fields fields node 0

/-- The walk of the fields of a node adds their rows, field by field. -/
theorem adds_fields : {fields : List Field} → (kept : Fields fields) → (node : Node) →
    (index : Nat) → Adds (kept.walk writer node index) fun depth => kept.rows depth
  | _, .nil, _, _ => adds_pure
  | _, .text text rest, node, index =>
      (adds_before node index).bind ((adds_token _ text).bind (adds_fields rest node (index + 1)))
  | _, .optionalText none rest, node, index =>
      (adds_before node index).bind (adds_pure.bind (adds_fields rest node (index + 1)))
  | _, .optionalText (some text) rest, node, index =>
      (adds_before node index).bind ((adds_token _ text).bind (adds_fields rest node (index + 1)))
  | _, .child tree rest, node, index | _, .present tree rest, node, index =>
      (adds_before node index).bind ((adds_tree tree 0 1).bind (adds_fields rest node (index + 1)))
  | _, .absent rest, node, index =>
      (adds_before node index).bind (adds_fields rest node (index + 1))
  | _, .many trees rest, node, index =>
      (adds_before node index).bind
        ((adds_trees trees 0 trees.length).bind (adds_fields rest node (index + 1)))

theorem adds_trees : {rule : Rule} → (trees : Trees rule) → (index size : Nat) →
    Adds (trees.walk writer index size) fun depth => trees.rows depth
  | _, .nil, _, _ => adds_pure
  | _, .cons tree trees, index, size =>
      (adds_tree tree index size).bind (adds_trees trees (index + 1) size)

end

end Outline

/-- The outline of a tree is the text of its rows, one line for each row. -/
theorem Tree.toList_outline {rule : Rule} (tree : Tree rule) :
    tree.outline.toList = (tree.rows 0).flatMap Row.text := by
  rw [Tree.outline, Tree.process, adds_tree tree 0 1]
  simp

/-! ### The rows are read off the text -/

def Rule.named? (name : String) : Option Rule :=
  ((List.range 77).map Rule.ofNat).find? (·.name = name)

theorem Rule.named?_name (rule : Rule) : Rule.named? rule.name = some rule := by
  cases rule <;> decide

theorem Rule.name_injective {rule other : Rule} (hSame : rule.name = other.name) : rule = other :=
  Option.some.inj ((named?_name rule).symm.trans (hSame ▸ named?_name other))

theorem Kind.name_injective {kind other : Kind} (hSame : kind.name = other.name) : kind = other :=
  Option.some.inj ((ofName?_name kind).symm.trans (hSame ▸ ofName?_name other))

theorem Rule.name_word (rule : Rule) :
    rule.name.toList.head?.any (· ≠ ' ') ∧ ' ' ∉ rule.name.toList ∧ '\n' ∉ rule.name.toList := by
  cases rule <;> decide

theorem Kind.name_word (kind : Kind) :
    kind.name.toList.head?.any (· ≠ ' ') ∧ ' ' ∉ kind.name.toList ∧ '\n' ∉ kind.name.toList := by
  cases kind <;> decide

namespace Outline

/-- What a row stands for is determined by its text, as the rule or the kind is in front and a text
behind it is quoted. -/
theorem Label.text_injective {label other : Label} (hSame : label.text = other.text) :
    label = other := by
  cases label with
  | node rule =>
    cases other with
    | node other => rw [Rule.name_injective (String.toList_inj.mp hSame)]
    | token kind text =>
      have hSpace : ' ' ∈ (Label.node rule).text := hSame ▸ List.mem_append_right _ List.mem_cons_self
      exact absurd hSpace rule.name_word.2.1
  | token kind text =>
    cases other with
    | node rule =>
      have hSpace : ' ' ∈ (Label.node rule).text := hSame ▸ List.mem_append_right _ List.mem_cons_self
      exact absurd hSpace rule.name_word.2.1
    | token other text' =>
      obtain ⟨hName, hText⟩ := Text.eq_of_append_eq kind.name_word.2.1 other.name_word.2.1 hSame
      rw [Kind.name_injective (String.toList_inj.mp hName),
        Text.quoted_inj (String.toList_inj.mp hText)]

/-- What a row stands for is on one line, even where the text of a token spans lines. -/
theorem Label.newline_not_mem_text (label : Label) : '\n' ∉ label.text := by
  cases label with
  | node rule => exact rule.name_word.2.2
  | token kind text =>
    intro hMem
    rcases List.mem_append.mp hMem with hName | hText
    · exact kind.name_word.2.2 hName
    · rcases List.mem_cons.mp hText with hSpace | hText
      · cases hSpace
      · exact Text.newline_not_mem_quoted text hText

/-- What a row stands for does not begin like an indentation, so that the depth of a row can be read
off its line. -/
theorem Label.text_eq_cons (label : Label) : ∃ c rest, label.text = c :: rest ∧ c ≠ ' ' := by
  have hWord : ∀ {name : String}, name.toList.head?.any (· ≠ ' ') → ∀ rest,
      ∃ c behind, name.toList ++ rest = c :: behind ∧ c ≠ ' ' := by
    intro name hHead rest
    cases hName : name.toList with
    | nil => simp [hName] at hHead
    | cons c behind => exact ⟨c, behind ++ rest, rfl, by simpa [hName] using hHead⟩
  cases label with
  | node rule =>
    obtain ⟨c, rest, hText, hSpace⟩ := hWord rule.name_word.1 []
    exact ⟨c, rest, by rwa [List.append_nil] at hText, hSpace⟩
  | token kind text => exact hWord kind.name_word.1 _

/-- The indentation of a line is where its first other character is. -/
theorem indentation_inj {m n : Nat} {label other : Label}
    (hSame : List.replicate m ' ' ++ label.text = List.replicate n ' ' ++ other.text) :
    m = n ∧ label.text = other.text := by
  obtain ⟨c, rest, hLabel, hc⟩ := label.text_eq_cons
  obtain ⟨d, rest', hOther, hd⟩ := other.text_eq_cons
  induction m generalizing n with
  | zero =>
    cases n with
    | zero => exact ⟨rfl, hSame⟩
    | succ n =>
      rw [hLabel] at hSame
      exact absurd (List.cons.inj hSame).1 hc
  | succ m ih =>
    cases n with
    | zero =>
      rw [hOther] at hSame
      exact absurd (List.cons.inj hSame).1.symm hd
    | succ n =>
      obtain ⟨rfl, hText⟩ := ih (List.cons.inj hSame).2
      exact ⟨rfl, hText⟩

/-- How a row is written begins no way in which another is. -/
theorem Row.text_append_inj {row other : Row} {behind behind' : List Char}
    (hSame : row.text ++ behind = other.text ++ behind') : row = other ∧ behind = behind' := by
  have hLine : ∀ row : Row, '\n' ∉ List.replicate (2 * row.depth) ' ' ++ row.label.text := by
    intro row hMem
    rcases List.mem_append.mp hMem with hSpaces | hLabel
    · cases List.eq_of_mem_replicate hSpaces
    · exact row.label.newline_not_mem_text hLabel
  obtain ⟨hText, hBehind⟩ := Text.eq_of_append_eq (hLine row) (hLine other)
    (by simpa only [Row.text, List.append_assoc, List.cons_append, List.nil_append] using hSame)
  obtain ⟨hDepth, hLabel⟩ := indentation_inj hText
  have hDepth : row.depth = other.depth := by omega
  have hLabel := Label.text_injective hLabel
  cases row
  cases other
  exact ⟨by congr, hBehind⟩

theorem Row.text_ne_nil (row : Row) : row.text ≠ [] := by
  simp [Row.text]

/-- The rows of an outline are determined by its text. They are decoded line by line: the
indentation tells the depth and the rest tells the label. -/
theorem flatMap_text_inj {rows others : List Row}
    (hSame : rows.flatMap Row.text = others.flatMap Row.text) : rows = others := by
  induction rows generalizing others with
  | nil =>
    cases others with
    | nil => rfl
    | cons other others =>
      exact absurd (List.append_eq_nil_iff.mp hSame.symm).1 other.text_ne_nil
  | cons row rows ih =>
    cases others with
    | nil => exact absurd (List.append_eq_nil_iff.mp hSame).1 row.text_ne_nil
    | cons other others =>
      obtain ⟨rfl, hRest⟩ := Row.text_append_inj hSame
      rw [ih hRest]

end Outline

end DocumentLanguage
