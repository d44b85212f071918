import DocumentLanguage.Interchange.Document
import DocumentLanguage.Proofs.Interchange.Member
import DocumentLanguage.Proofs.Json.Pretty

/-!
Trees through JSON and back. What a tree is written as is loaded as that tree, whatever the order
of members, as long as it does not nest deeper than what is read may; beyond that the depth is the
only fault there is.

JSON itself is the business of a library, and so is the coding of records. What it does is taken as
given, in the form that the definitions of `Json` and `Interchange` give it:

* A record is written as an object with a member for each field, in the order of the fields, and as
  `null` if it has none. One of several alternatives is an object whose only key is its tag, a text or
  child that is left out is `null`, and many children are an array (`Tree.toValue`).
* Text is written with two spaces a level and a line for each item and member. Quotes, backslashes and
  control characters are escaped, and no other character is (`Json.pretty`).
* A text that is read may hold the members of an object in any order. One that belongs to no field is
  passed over, and one that is missing or that comes twice is a fault (`Interchange.loadMembers`).
* A text may have 127 levels of arrays and objects, and the next one is too deep
  (`Interchange.nestingLimit`). A value that is there already may have any number, and the members of
  its objects are sorted by key.

That a library keeps to this is not proved here. What the theorems add is that the two directions fit
each other for every tree: no two alternatives of a rule share a tag, no two fields of a record share a
label, and nothing that is left out looks like something that is there.
-/
namespace DocumentLanguage

/-! ### How nodes are told apart -/

/-- Whether the node of a rule keeps nothing. -/
def Form.isBare : Form → Bool
  | .sequence _ parts => (fieldsOf parts).isEmpty
  | .literal _ | .oneOf _ => false

/-- Whether a field shows that it is filled: a child that may be left out is never written as
nothing. -/
def Field.tells (field : Field) : Bool :=
  match field.shape with
  | .optional rule => !rule.form.isBare
  | _ => true

/-- Whether what a node is can be told from how it is written: no two of its fields have one label
and no two of its choices one tag. -/
def Form.tells : Form → Bool
  | .literal _ => true
  | .oneOf rules => (rules.map Rule.tag).Nodup
  | .sequence _ parts =>
    decide ((fieldsOf parts).map Field.label).Nodup && (fieldsOf parts).all Field.tells

theorem Rule.form_tells (rule : Rule) : rule.form.tells = true := by
  cases rule <;> decide

/-- The rule that a tag was made from is found by it. -/
theorem Rule.ofTag?_tag {rules : List Rule} (hTags : (rules.map Rule.tag).Nodup) {rule : Rule}
    (hRule : rule ∈ rules) : Rule.ofTag? rules rule.tag = some ⟨rule, hRule⟩ := by
  have hSome : (Rule.ofTag? rules rule.tag).isSome := by
    rw [ofTag?, List.find?_isSome]
    exact ⟨⟨rule, hRule⟩, List.mem_attach .., by simp⟩
  obtain ⟨found, hFound⟩ := Option.isSome_iff_exists.mp hSome
  have hTag : found.val.tag = rule.tag := by simpa using List.find?_some hFound
  have hSame : found.val = rule := List.inj_on_of_nodup_map hTags found.property hRule hTag
  rw [hFound]
  exact congrArg some (Subtype.ext hSame)

/-- The labels of a record are the keys of its members, in their order. -/
theorem Fields.keys_toMembers : {fields : List Field} → (kept : Fields fields) →
    kept.toMembers.keys = fields.map Field.label
  | _, .nil => rfl
  | _, .text _ rest | _, .optionalText _ rest | _, .child _ rest | _, .absent rest
  | _, .present _ rest | _, .many _ rest => by
    rw [toMembers, Json.Members.keys_cons, rest.keys_toMembers, List.map_cons]

/-- What keeps fields of its own is written as an object, with a member for each. -/
theorem Content.toValue_eq_object : {form : Form} → (content : Content form) →
    form.isBare = false → ∃ members, content.toValue = .object members
  | _, .literal _ _, _ => ⟨_, rfl⟩
  | _, .oneOf _ _ _, _ => ⟨_, rfl⟩
  | _, @Content.sequence _ parts kept, hKeeps => by
    have hKeys := kept.keys_toMembers
    cases hMembers : kept.toMembers with
    | nil =>
      rw [hMembers, Json.Members.keys_nil, eq_comm, List.map_eq_nil_iff] at hKeys
      simp [Form.isBare, hKeys] at hKeeps
    | cons key value rest => exact ⟨_, by rw [toValue, hMembers]⟩

namespace Interchange

open Json

/-- A text is loaded wherever one is expected, at no cost in depth. -/
theorem restores_text (text : String) :
    Restores (fun _ => loadText) (.string text) text := by
  rintro _ rfl origin
  rw [Json.depth, Origin.answer_zero]
  rfl

theorem restores_kind (kind : Kind) : Restores loadKind (.string kind.name) kind := by
  rintro _ rfl origin
  rw [Json.depth, Origin.answer_zero]
  simp [raw, Lexeme.ofText, loadKind, ok_bind, kindOfName, Kind.ofName?_name]

theorem restores_optionalText : (text : Option String) →
    Restores (fun _ => loadOptionalText) (optionalText text) text
  | none => by
    intro written hWritten origin
    obtain rfl : written = .null := hWritten
    rw [Json.depth, Origin.answer_zero]
    rfl
  | some text => by
    intro written hWritten origin
    obtain rfl : written = .string text := hWritten
    rw [Json.depth, Origin.answer_zero]
    rfl

/-- A literal is loaded from its kind and its text, which are all that it was written with. -/
theorem restores_literal {kinds : List Kind} (kind : Kind) (text record : String) :
    Restores (loadContent record (.literal kinds))
      (Content.literal kind text : Content (.literal kinds)).toValue (.literal kind text) := by
  have hFills : Fills
      (.cons "kind" (.string kind.name) (.cons "value" (.string text) .nil))
      literalSlots (kind, text, PUnit.unit) :=
    .cons ⟨"kind", .kind⟩ (by decide) (restores_kind kind)
      (.cons ⟨"value", .text⟩ (by decide) (restores_text text) .nil)
  rintro _ ⟨members, pairs, rfl, hPairs, hOrder⟩ origin
  calc loadContent record (.literal kinds) origin (Json.object members).raw
    _ = literalOf <$> (origin.enter >>= fun inner =>
          loadMembers literalSlots inner members.raw (.empty _)) := by
      rw [raw, loadContent]
      simp
    _ = literalOf <$> origin.answer (members.depth + 1) _ :=
      congrArg (literalOf <$> ·) (hFills.load (by decide) hPairs hOrder origin)
    _ = origin.answer (members.depth + 1) (.literal kind text) := Origin.map_answer ..

/-- Records that keep nothing are all the same, so that they can be written as nothing. -/
theorem Fields.eq_of_eq_nil {fields : List Field} (hEmpty : fields = []) (kept others : Fields fields) :
    kept = others := by
  subst hEmpty
  cases kept
  cases others
  rfl

/-- A record is loaded from its fields. They may come in any order, and none may be missing. -/
theorem restores_record {standing : Standing} {parts : List Part}
    (hLabels : ((fieldsOf parts).map Field.label).Nodup) {kept : Fields (fieldsOf parts)}
    (hFills : Fills kept.toMembers _ kept.filled) (record : String) :
    Restores (loadContent record (.sequence standing parts))
      (Content.sequence kept : Content (.sequence standing parts)).toValue (.sequence kept) := by
  intro written hWritten origin
  have hSlots : (((fieldsOf parts).map Field.slot).map Slot.label).Nodup := by
    rw [List.map_map]
    exact hLabels
  rw [Content.toValue] at hWritten
  cases hMembers : kept.toMembers with
  | nil =>
    -- nothing is kept, and nothing is there to be loaded
    have hNone : fieldsOf parts = [] := by
      have hKeys := kept.keys_toMembers
      rwa [hMembers, Json.Members.keys_nil, eq_comm, List.map_eq_nil_iff] at hKeys
    rw [hMembers] at hWritten
    obtain rfl : written = .null := hWritten
    obtain ⟨filled, hFilled⟩ := Held.finish_empty (congrArg (List.map Field.slot) hNone)
    rw [Json.depth, Origin.answer_zero, raw, loadContent]
    simp only [List.isEmpty_iff.mpr hNone, if_true, hFilled]
    exact congrArg (Except.ok ∘ Content.sequence) (Fields.eq_of_eq_nil hNone _ kept)
  | cons key value rest =>
    rw [hMembers] at hWritten
    obtain ⟨members, pairs, rfl, hPairs, hOrder⟩ := hWritten
    rw [← hMembers] at hPairs
    have hSome : (fieldsOf parts).isEmpty = false := by
      have hKeys := kept.keys_toMembers
      rw [hMembers, Json.Members.keys_cons] at hKeys
      cases hFields : fieldsOf parts with
      | nil => simp [hFields] at hKeys
      | cons => rfl
    calc loadContent record (.sequence standing parts) origin (Json.object members).raw
      _ = sequenceOf <$> (origin.enter >>= fun inner =>
            loadMembers ((fieldsOf parts).map Field.slot) inner members.raw (.empty _)) := by
        rw [raw, loadContent]
        simp [hSome]
      _ = sequenceOf <$> origin.answer (members.depth + 1) kept.filled := by
        rw [hFills.load hSlots hPairs hOrder]
      _ = origin.answer (members.depth + 1) (.sequence kept) := by
        rw [Origin.map_answer, sequenceOf, Fields.ofFilled_filled]

/-- A node of one of several rules is loaded from the member that names its rule. -/
theorem restores_oneOf {rules : List Rule} (hTags : (rules.map Rule.tag).Nodup) {rule : Rule}
    (hRule : rule ∈ rules) {tree : Tree rule}
    (hTree : Restores (loadTree rule) tree.toValue tree) (record : String) :
    Restores (loadContent record (.oneOf rules))
      (Content.oneOf rule hRule tree).toValue (.oneOf rule hRule tree) := by
  rintro _ ⟨members, pairs, rfl, ⟨inside, _, rfl, hInside, rfl⟩, hOrder⟩ origin
  obtain rfl : members = .cons rule.tag inside .nil := by
    have hOnly : members.toList = [(rule.tag, inside)] := List.perm_singleton.mp hOrder.symm
    match members with
    | .cons key value .nil =>
      obtain ⟨rfl, rfl⟩ : key = rule.tag ∧ value = inside := by
        simpa [Json.Members.toList] using hOnly
      rfl
    | .nil => cases hOnly
    | .cons _ _ (.cons _ _ _) => cases hOnly
  calc loadContent record (.oneOf rules) origin (Json.object (.cons rule.tag inside .nil)).raw
    _ = (origin.enter >>= fun inner => Content.oneOf rule hRule <$> loadTree rule inner inside.raw) := by
      rw [raw, loadContent]
      refine bind_congr fun inner => ?_
      rw [Json.Members.raw, loadVariant]
      simp [Lexeme.ofText, ok_bind, ruleOfTag, Rule.ofTag?_tag hTags hRule, tooMany, afterVariant,
        Json.Members.raw, loadTree]
      rw [map_eq_pure_bind]
      rfl
    _ = (origin.enter >>= fun inner => inner.answer inside.depth (Content.oneOf rule hRule tree)) :=
      bind_congr fun inner => by rw [hTree hInside, Origin.map_answer]
    _ = origin.answer (Json.object (.cons rule.tag inside .nil)).depth (.oneOf rule hRule tree) := by
      rw [Origin.enter_answer, Json.depth, Json.Members.depth, Json.Members.depth, Nat.max_zero]

/-- A child that may be left out is loaded from where it is written. -/
theorem restores_present {rule : Rule} (hKeeps : rule.form.isBare = false) {tree : Tree rule}
    (hTree : Restores (loadTree rule) tree.toValue tree) :
    Restores (fun origin => loadSlot origin (.field (.optional rule))) tree.toValue (some tree) := by
  intro written hWritten origin
  obtain ⟨members, rfl⟩ : ∃ members, written = .object members := by
    obtain ⟨content⟩ := tree
    obtain ⟨encoded, hEncoded⟩ := content.toValue_eq_object hKeeps
    rw [Tree.toValue, hEncoded] at hWritten
    obtain ⟨members, _, rfl, _, _⟩ := hWritten
    exact ⟨members, rfl⟩
  have hLoads : some <$> loadTree rule origin (Json.object members).raw =
      origin.answer (Json.object members).depth (some tree) := by
    rw [hTree hWritten, Origin.map_answer]
  exact hLoads

/-- A child that is left out is written as nothing and loaded as left out. -/
theorem restores_absent (rule : Rule) :
    Restores (fun origin => loadSlot origin (.field (.optional rule))) .null none := by
  rintro _ rfl origin
  rw [Json.depth]
  exact (Origin.answer_zero ..).symm

/-- What there may be many of is loaded from an array, with its items in order. -/
theorem restores_many {rule : Rule} {trees : Trees rule}
    (hTrees : ∀ ⦃items : Json.Items⦄, trees.toItems.Reordered items → ∀ origin : Origin,
      loadItems rule origin items.raw = origin.answer items.depth trees) :
    Restores (loadTrees rule) (.array trees.toItems) trees := by
  rintro _ ⟨items, rfl, hItems⟩ origin
  rw [Json.depth, ← Origin.enter_answer, raw, loadTrees]
  exact bind_congr fun inner => hTrees hItems inner

mutual

/-- What a tree is written as, with its members in any order, is loaded as that tree. -/
theorem restores_tree {rule : Rule} : (tree : Tree rule) →
    Restores (loadTree rule) tree.toValue tree
  | .mk content => fun written hWritten origin => by
    rw [loadTree, restores_content content rule.form_tells _ hWritten origin, Origin.map_answer]

/-- What a node holds is loaded from how it is written, whatever its form is. -/
theorem restores_content : {form : Form} → (content : Content form) → form.tells →
    (record : String) → Restores (loadContent record form) content.toValue content
  | _, .literal kind text, _, record => restores_literal kind text record
  | _, .oneOf _ hRule tree, hTells, record =>
    restores_oneOf (of_decide_eq_true hTells) hRule (restores_tree tree) record
  | _, .sequence kept, hTells, record =>
    have hParts := Bool.and_eq_true_iff.mp hTells
    have hLabels := of_decide_eq_true hParts.1
    restores_record hLabels (fills_fields kept hLabels (List.all_eq_true.mp hParts.2)) record

/-- The members of a record fill its slots, if the labels differ and each field tells what it was
written with. -/
theorem fills_fields : {fields : List Field} → (kept : Fields fields) →
    (fields.map Field.label).Nodup → (∀ field ∈ fields, field.tells) →
    Fills kept.toMembers _ kept.filled
  | _, .nil, _, _ => .nil
  | _, .text kept rest, hLabels, hTells =>
    .field hLabels (restores_text kept)
      (fills_fields rest hLabels.of_cons (List.forall_mem_cons.mp hTells).2)
  | _, .optionalText kept rest, hLabels, hTells =>
    .field hLabels (restores_optionalText kept)
      (fills_fields rest hLabels.of_cons (List.forall_mem_cons.mp hTells).2)
  | _, .child tree rest, hLabels, hTells =>
    .field hLabels (restores_tree tree)
      (fills_fields rest hLabels.of_cons (List.forall_mem_cons.mp hTells).2)
  | _, @Fields.absent _ rule _ rest, hLabels, hTells =>
    .field hLabels (restores_absent rule)
      (fills_fields rest hLabels.of_cons (List.forall_mem_cons.mp hTells).2)
  | _, .present tree rest, hLabels, hTells =>
    have hParts := List.forall_mem_cons.mp hTells
    .field hLabels (restores_present (by simpa [Field.tells] using hParts.1) (restores_tree tree))
      (fills_fields rest hLabels.of_cons hParts.2)
  | _, .many trees rest, hLabels, hTells =>
    .field hLabels (restores_many (loadItems_of_reordered trees))
      (fills_fields rest hLabels.of_cons (List.forall_mem_cons.mp hTells).2)

/-- Nodes are loaded from the items of an array, also where the members inside them come in another
order. -/
theorem loadItems_of_reordered {rule : Rule} : (trees : Trees rule) → ⦃written : Json.Items⦄ →
    trees.toItems.Reordered written → ∀ origin : Origin,
      loadItems rule origin written.raw = origin.answer written.depth trees
  | .nil, _, hWritten, origin => by
    rw [show _ = Json.Items.nil from hWritten, Json.Items.depth, Origin.answer_zero]
    rfl
  | .cons tree trees, written, hWritten, origin => by
    obtain ⟨item, rest, rfl, hItem, hRest⟩ := hWritten
    have hTree := restores_tree tree hItem origin
    have hTrees := loadItems_of_reordered trees hRest origin
    calc loadItems rule origin (Json.Items.cons item rest).raw
      _ = (loadTree rule origin item.raw >>= fun tree => Trees.cons tree <$> loadItems rule origin rest.raw) := by
        rw [Json.Items.raw, loadItems, loadTree]
        simp
      _ = origin.answer (max item.depth rest.depth) (.cons tree trees) := by
        rw [hTree]
        exact Origin.answer_bind_of_eq _ _ _ _ (by rw [hTrees, Origin.map_answer])

end

end Interchange

/-! ### Documents -/

theorem optionalText_tidy : (text : Option String) →
    (optionalText text).Numberless ∧ (optionalText text).Distinct
  | none => ⟨trivial, trivial⟩
  | some _ => ⟨trivial, trivial⟩

mutual

/-- A tree is written without numbers and with no key twice in an object. -/
theorem Tree.toValue_tidy {rule : Rule} : (tree : Tree rule) →
    tree.toValue.Numberless ∧ tree.toValue.Distinct
  | .mk content => content.toValue_tidy rule.form_tells

/-- What is written for a node has no numbers in it and no key twice in one object. -/
theorem Content.toValue_tidy : {form : Form} → (content : Content form) → form.tells →
    content.toValue.Numberless ∧ content.toValue.Distinct
  | _, .literal _ _, _ =>
    have hKeys : ["kind", "value"].Nodup := by decide
    ⟨⟨trivial, trivial, trivial⟩, hKeys, trivial, trivial, trivial⟩
  | _, .oneOf rule _ tree, _ =>
    have hTree := tree.toValue_tidy
    ⟨⟨hTree.1, trivial⟩, List.nodup_singleton rule.tag, hTree.2, trivial⟩
  | _, .sequence kept, hTells => by
    have hMembers := kept.toMembers_tidy
    have hKeys : kept.toMembers.keys.Nodup := by
      rw [kept.keys_toMembers]
      exact of_decide_eq_true (Bool.and_eq_true_iff.mp hTells).1
    rw [Content.toValue]
    split
    · exact ⟨trivial, trivial⟩
    · exact ⟨hMembers.1, hKeys, hMembers.2⟩

theorem Fields.toMembers_tidy : {fields : List Field} → (kept : Fields fields) →
    kept.toMembers.Numberless ∧ kept.toMembers.Distinct
  | _, .nil => ⟨trivial, trivial⟩
  | _, .text _ rest | _, .absent rest =>
    have hRest := rest.toMembers_tidy
    ⟨⟨trivial, hRest.1⟩, trivial, hRest.2⟩
  | _, .optionalText text rest =>
    have hText := optionalText_tidy text
    have hRest := rest.toMembers_tidy
    ⟨⟨hText.1, hRest.1⟩, hText.2, hRest.2⟩
  | _, .child tree rest | _, .present tree rest =>
    have hTree := tree.toValue_tidy
    have hRest := rest.toMembers_tidy
    ⟨⟨hTree.1, hRest.1⟩, hTree.2, hRest.2⟩
  | _, .many trees rest =>
    have hTrees := trees.toItems_tidy
    have hRest := rest.toMembers_tidy
    ⟨⟨hTrees.1, hRest.1⟩, hTrees.2, hRest.2⟩

theorem Trees.toItems_tidy {rule : Rule} : (trees : Trees rule) →
    trees.toItems.Numberless ∧ trees.toItems.Distinct
  | .nil => ⟨trivial, trivial⟩
  | .cons tree trees =>
    have hTree := tree.toValue_tidy
    have hTrees := trees.toItems_tidy
    ⟨⟨hTree.1, hTrees.1⟩, hTree.2, hTrees.2⟩

end

/-- The JSON text of a document is read as that document where its arrays and objects nest no
deeper than a text may, and as too deep where they do; as a value with sorted keys it is read as
that document at every depth. -/
theorem Document.interchange_roundTrip (document : Document) :
    Document.ofJson document.toJson =
        (if document.toValue.depth ≤ 127 then .ok document else .error (.json .tooDeep)) ∧
      Document.ofValue document.toValue = .ok document := by
  have hTidy := document.toValue_tidy
  constructor
  · have hRead : Json.Raw.read document.toJson = (document.toValue.raw, []) :=
      Json.read_pretty hTidy.1
    have hLoad := Interchange.restores_tree document (.refl _) (.text Interchange.nestingLimit)
    rw [Document.ofJson, hRead]
    simp only [hLoad, List.isEmpty_nil, if_true]
    by_cases hDepth : document.toValue.depth ≤ 127
    · simp [Interchange.Origin.answer, Interchange.Origin.admits, Interchange.nestingLimit, hDepth]
      rfl
    · simp [Interchange.Origin.answer, Interchange.Origin.admits, Interchange.nestingLimit, hDepth]
      rfl
  · exact Interchange.restores_tree document (Json.reordered_sorted hTidy.2) .value

end DocumentLanguage
