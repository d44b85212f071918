import DocumentLanguage.Proofs.Grammar.Production
import DocumentLanguage.Proofs.Tree.Children
import DocumentLanguage.Tree.Walk

/-!
Walks rule by rule. For every rule a script names what a walk passes on its way through a node of
that rule: the fields, each in the way that it is kept, and the slots between them with their
numbers. A walk follows the script of each node that it comes to.
-/
namespace DocumentLanguage

/-- One step of a walk through a node. -/
inductive WalkStep
  /-- The token of a literal, of whatever kind it is. -/
  | literal
  /-- The child of a node that holds one of several alternatives. -/
  | alternative
  | token (kind : Kind) (label : String)
  | optionalToken (kind : Kind) (label : String)
  | child (label : String)
  | optional (label : String)
  /-- Children that are told their place among each other. -/
  | each (label : String)
  | slot (place : Nat)
deriving DecidableEq, Repr

/-- The steps of a walk through a node of each rule. -/
def Rule.script : Rule → List WalkStep
  -- documents and components
  | document => [.optionalToken .comment "comment", .slot 1, .child "component"]
  | component => [.child "entity", .slot 1, .optional "parameters"]
  | element | string => [.literal]
  | entity | primitive => [.alternative]
  -- collections
  | collection | associations | values => [.alternative]
  | range =>
    [.token .delimiter "left", .slot 1, .child "first", .slot 2, .child "last", .slot 3,
     .token .delimiter "right"]
  | catalog | parameters => [.child "associations"]
  | multilineAssociations | multilineValues | multilineStatements => [.each "lines"]
  | annotatedAssociation => [.child "association", .slot 1, .optionalToken .note "note"]
  | inlineAssociations => [.child "association", .slot 1, .each "additional"]
  | additionalAssociation => [.child "association"]
  | noAssociations | noValues | noStatements => []
  | association => [.child "key", .slot 1, .child "value"]
  | list => [.child "values"]
  | annotatedValue => [.child "value", .slot 1, .optionalToken .note "note"]
  | inlineValues => [.child "value", .slot 1, .each "additional"]
  | additionalValue => [.child "value"]
  -- procedures
  | procedure => [.child "statements"]
  | statements | annotatedStatement => [.alternative]
  | commentLine => [.token .comment "comment"]
  | statementLine => [.child "statement", .slot 1, .optionalToken .note "note"]
  | inlineStatements => [.child "statement", .slot 1, .each "additional"]
  | additionalStatement => [.child "statement"]
  | statement => [.child "main_clause", .slot 1, .optional "on_clause"]
  | onClause => [.token .symbol "failure", .slot 1, .each "handlers"]
  | matchHandler => [.child "template", .slot 1, .child "procedure"]
  -- clauses
  | mainClause | flowControl | recipient | repositoryAccess | messageHandling => [.alternative]
  | ifClause | whileClause => [.child "condition", .slot 1, .child "procedure"]
  | selectClause => [.child "target", .slot 1, .each "handlers"]
  | withClause =>
    [.token .identifier "item", .slot 1, .child "sequence", .slot 2, .child "procedure"]
  | continueClause | breakClause => []
  | returnClause => [.child "result"]
  | throwClause => [.child "exception"]
  | letClause =>
    [.child "recipient", .slot 1, .token .delimiter "assign", .slot 2, .child "expression"]
  | checkoutClause => [.child "recipient", .slot 1, .optional "level", .slot 2, .child "name"]
  | atLevel => [.child "level"]
  | saveClause => [.child "document", .slot 1, .child "recipient"]
  | discardClause => [.child "document"]
  | notarizeClause => [.child "document", .slot 1, .child "name"]
  | postClause => [.child "message", .slot 1, .child "bag"]
  | retrieveClause => [.child "recipient", .slot 1, .child "bag"]
  | acceptClause | rejectClause => [.child "message"]
  | publishClause => [.child "event"]
  -- expressions
  | expression => [.child "subject", .slot 1, .each "predicates"]
  | predicate => [.token .delimiter "operator", .slot 1, .child "subject"]
  | subject | target => [.alternative]
  | function => [.token .identifier "identifier", .slot 1, .optional "arguments"]
  | method =>
    [.token .identifier "target", .slot 1, .token .delimiter "invoke", .slot 2,
     .token .identifier "method", .slot 3, .optional "arguments"]
  | arguments => [.child "argument", .slot 1, .each "additional"]
  | additionalArgument => [.child "argument"]
  | attributeTarget => [.token .identifier "identifier", .slot 1, .child "indices"]
  | indices => [.child "index", .slot 1, .each "additional"]
  | additionalIndex => [.child "index"]
  | variableTarget => [.token .identifier "identifier"]
  | referent | complement => [.child "subject"]
  | precedence | magnitude => [.child "expression"]
  | inversion => [.token .delimiter "inverse", .slot 1, .child "subject"]

/-! ### Following a script -/

/-- What a content keeps under each label. A literal and an alternative keep one thing without a
label. -/
def Content.labelled : {form : Form} → Content form → List (String × Stored)
  | _, .literal kind text => [("", .text kind text)]
  | _, .oneOf rule _ tree => [("", .child ⟨rule, tree⟩)]
  | .sequence _ parts, .sequence fields => ((fieldsOf parts).map Field.label).zip fields.stored

section

variable {σ ε : Type} (processor : Processor σ ε)

/-- Walk nodes one after another, of which the first stands at an index among so many. -/
def walkEach : List Node → Nat → Nat → Hook σ ε Unit
  | [], _, _ => pure ()
  | node :: nodes, index, size => do
    node.tree.walk processor index size
    walkEach nodes (index + 1) size

/-- Take a step of a walk through a node that keeps these things. Nothing is done where nothing of
that sort is kept under the label. -/
def WalkStep.take (node : Node) (kept : List (String × Stored)) : WalkStep → Hook σ ε Unit
  | literal =>
    match kept.lookup "" with
    | some (.text kind text) => processor.token kind text
    | _ => pure ()
  | alternative =>
    match kept.lookup "" with
    | some (.child held) => held.tree.walk processor 0 1
    | _ => pure ()
  | token kind label =>
    match kept.lookup label with
    | some (.text _ text) => processor.token kind text
    | _ => pure ()
  | optionalToken kind label =>
    match kept.lookup label with
    | some (.optionalText _ (some text)) => processor.token kind text
    | _ => pure ()
  | child label =>
    match kept.lookup label with
    | some (.child held) => held.tree.walk processor 0 1
    | _ => pure ()
  | optional label =>
    match kept.lookup label with
    | some (.optional (some held)) => held.tree.walk processor 0 1
    | _ => pure ()
  | each label =>
    match kept.lookup label with
    | some (.many held) => walkEach processor held 0 held.length
    | _ => pure ()
  | slot place => processor.slot node place

def followSteps (node : Node) (kept : List (String × Stored)) : List WalkStep → Hook σ ε Unit
  | [] => pure ()
  | step :: steps => do
    step.take processor node kept
    followSteps node kept steps

end

/-! ### Scripts from forms -/

def Field.step (field : Field) : WalkStep :=
  match field.shape with
  | .text kind => .token kind field.label
  | .optionalText kind => .optionalToken kind field.label
  | .child _ => .child field.label
  | .optional _ => .optional field.label
  | .many _ => .each field.label

/-- The steps at fields of which the first is at an index. Before each but the first of all there is
a slot with its index. -/
def stepsFrom : Nat → List Field → List WalkStep
  | _, [] => []
  | 0, field :: fields => field.step :: stepsFrom 1 fields
  | index + 1, field :: fields => .slot (index + 1) :: field.step :: stepsFrom (index + 2) fields

/-- The steps of a walk through a node of a form. -/
def Form.script : Form → List WalkStep
  | literal _ => [.literal]
  | oneOf _ => [.alternative]
  | sequence _ parts => stepsFrom 0 (fieldsOf parts)

/-- Each script is that of the form of its rule: the fields in the order in which they are declared,
and slots that count the gaps between them. -/
theorem Rule.script_eq (rule : Rule) : rule.script = rule.form.script := by
  cases rule <;> rfl

/-- No two parts of a rule leave fields with the same label. -/
theorem Rule.labels_distinct {rule : Rule} {standing : Standing} {parts : List Part}
    (hForm : rule.form = .sequence standing parts) : ((fieldsOf parts).map Field.label).Nodup := by
  cases rule <;> cases hForm <;> decide

/-! ### Walks follow scripts -/

section

variable {σ ε : Type} {processor : Processor σ ε}

/-- A run of trees is walked as its nodes are, each with its place among them. -/
theorem Trees.walk_eq {rule : Rule} : (trees : Trees rule) → ∀ index size : Nat,
    trees.walk processor index size = walkEach processor trees.asNodes index size
  | .nil => fun _ _ => rfl
  | .cons tree trees => by
    intro index size
    rw [Trees.walk, trees.walk_eq]
    rfl

/-- A field comes behind the slot with its index, and the other fields come behind it with the
indices that follow. -/
theorem followSteps_stepsFrom_cons {node : Node} {kept : List (String × Stored)} (index : Nat) (field : Field)
    (fields : List Field) :
    followSteps processor node kept (stepsFrom index (field :: fields)) = (do
      processor.before node index
      field.step.take processor node kept
      followSteps processor node kept (stepsFrom (index + 1) fields)) := by
  cases index with
  | zero => simp [stepsFrom, followSteps, Processor.before]
  | succ index => simp [stepsFrom, followSteps, Processor.before, WalkStep.take]

/-- A walk through fields follows their steps wherever each of them is found under its label. -/
theorem Fields.walk_eq {node : Node} {kept : List (String × Stored)} :
    {fields : List Field} → (held : Fields fields) → (index : Nat) →
    (∀ entry ∈ (fields.map Field.label).zip held.stored, kept.lookup entry.1 = some entry.2) →
    held.walk processor node index = followSteps processor node kept (stepsFrom index fields)
  | _, .nil, index, _ => by
    cases index <;> rfl
  | _, .optionalText kept rest, index, hKept => by
    obtain ⟨hHere, hRest⟩ := List.forall_mem_cons.mp hKept
    rw [Fields.walk, rest.walk_eq _ hRest, followSteps_stepsFrom_cons]
    cases kept <;> simp [Field.step, WalkStep.take, hHere]
  | _, .many trees rest, index, hKept => by
    obtain ⟨hHere, hRest⟩ := List.forall_mem_cons.mp hKept
    rw [Fields.walk, rest.walk_eq _ hRest, followSteps_stepsFrom_cons]
    simp [Field.step, WalkStep.take, hHere, trees.walk_eq, trees.length_asNodes]
  | _, .text _ rest, index, hKept | _, .child _ rest, index, hKept | _, .absent rest, index, hKept
  | _, .present _ rest, index, hKept => by
    obtain ⟨hHere, hRest⟩ := List.forall_mem_cons.mp hKept
    rw [Fields.walk, rest.walk_eq _ hRest, followSteps_stepsFrom_cons]
    simp [Field.step, WalkStep.take, hHere]

/-- As much is kept as there are fields, one thing for each of them. -/
theorem Fields.length_stored : {fields : List Field} → (held : Fields fields) →
    held.stored.length = fields.length
  | _, .nil => rfl
  | _, .text _ rest | _, .optionalText _ rest | _, .child _ rest | _, .absent rest | _, .present _ rest
  | _, .many _ rest => congrArg (· + 1) rest.length_stored

/-- What fields keep is found under their labels where these differ. -/
theorem Fields.lookup_stored {fields : List Field} (hLabels : (fields.map Field.label).Nodup)
    (held : Fields fields) : ∀ entry ∈ (fields.map Field.label).zip held.stored,
      ((fields.map Field.label).zip held.stored).lookup entry.1 = some entry.2 := by
  intro entry hEntry
  refine (lookup_eq_some_iff ?_).mpr hEntry
  rwa [List.map_fst_zip (by simp [held.length_stored])]

/-- The walk of what a node holds follows the script of its form. The labels of a sequence have to
differ, as the steps find what is kept by its label. -/
theorem Content.walk_eq {node : Node} : {form : Form} → (content : Content form) →
    (∀ standing parts, form = .sequence standing parts → ((fieldsOf parts).map Field.label).Nodup) →
    content.walk processor node = followSteps processor node content.labelled form.script
  | _, .literal kind text, _ => by
    simp [Content.walk, Content.labelled, Form.script, followSteps, WalkStep.take]
  | _, .oneOf rule _ tree, _ => by
    simp [Content.walk, Content.labelled, Form.script, followSteps, WalkStep.take]
  | _, .sequence fields, hLabels =>
    fields.walk_eq 0 (fields.lookup_stored (hLabels _ _ rfl))

/-- A walk enters a node, follows the script of its rule through what the node keeps, and leaves the
node. -/
theorem Tree.walk_eq_script : {rule : Rule} → (tree : Tree rule) → (index size : Nat) →
    tree.walk processor index size = (do
      processor.enter ⟨rule, tree⟩ index size
      followSteps processor ⟨rule, tree⟩ tree.content.labelled rule.script
      processor.leave ⟨rule, tree⟩ index size)
  | rule, .mk content, index, size => by
    rw [Tree.walk, content.walk_eq fun _ _ => Rule.labels_distinct, rule.script_eq]
    rfl

end

end DocumentLanguage
