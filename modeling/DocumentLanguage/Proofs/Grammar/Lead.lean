import DocumentLanguage.Proofs.Grammar.Kept

/-!
What the terminals of a rule begin with. The table is computed from the forms of the rules, and is
large enough that no rule can add anything to it.
-/
namespace DocumentLanguage

/-- What tells a token from others at the head of a rule: its kind, and of a delimiter its text. -/
inductive Lead
  | word (text : String)
  | kind (kind : Kind)
deriving DecidableEq, Repr

def Lead.of (kind : Kind) (text : String) : Lead :=
  if kind = .delimiter then word text else .kind kind

def Token.lead (token : Token) : Lead :=
  .of token.kind token.text

namespace Token

variable {token : Token}

theorem lead_of_kind {kind : Kind} (hKind : token.kind = kind) (hDelimiter : kind ≠ .delimiter) :
    token.lead = .kind kind := by
  subst hKind
  exact if_neg hDelimiter

theorem lead_of_delimiter (hKind : token.kind = .delimiter) : token.lead = .word token.text :=
  if_pos hKind

theorem kind_of_lead {text : String} (hLead : token.lead = .word text) : token.kind = .delimiter := by
  by_cases hKind : token.kind = .delimiter
  · exact hKind
  · rw [lead_of_kind rfl hKind] at hLead
    cases hLead

end Token

def Terminal.lead : Terminal → Lead
  | verbatim kind text => .of kind text
  | dedented kind _ => .kind kind
  | newline => .kind .newline

/-- A token that a terminal reads has its lead, except where the terminal leaves open which
delimiter it is. -/
theorem Terminal.lead_of_reads {terminal : Terminal} {token : Token} (hReads : terminal.reads token)
    (hLead : terminal.lead ≠ .kind .delimiter) : token.lead = terminal.lead := by
  cases terminal with
  | verbatim kind text =>
      obtain ⟨rfl, rfl⟩ := hReads
      rfl
  | dedented kind text =>
      obtain ⟨rfl, -⟩ := hReads
      have hKind : token.kind ≠ .delimiter := fun hEq => hLead (congrArg Lead.kind hEq)
      simp [Token.lead, Lead.of, hKind, lead]
  | newline =>
      have hKind : token.kind = .newline := hReads
      simp [Token.lead, Lead.of, hKind, lead]

def Rule.mayBeEmpty : Rule → Bool
  | values | noValues | statements | noStatements => true
  | _ => false

def Part.mayBeEmpty : Part → Bool
  | keyword _ | delimiter _ | newline | choice _ _ | token _ _ => false
  | optionalToken _ _ | optional _ _ | many _ _ | commit => true
  | child _ rule | line _ rule | some _ rule => rule.mayBeEmpty

def Form.mayBeEmpty : Form → Bool
  | literal _ => false
  | oneOf rules => rules.any Rule.mayBeEmpty
  | sequence _ parts => parts.all Part.mayBeEmpty

theorem Rule.mayBeEmpty_of_form (rule : Rule) (hForm : rule.form.mayBeEmpty = true) :
    rule.mayBeEmpty = true := by
  cases rule <;> first | rfl | cases hForm

def Part.leads (known : Rule → List Lead) : Part → List Lead
  | keyword text | delimiter text => [.word text]
  | newline => [.kind .newline]
  | choice _ options => options.delimiters.map .word
  | token _ kind | optionalToken _ kind => [.kind kind]
  | child _ rule | line _ rule | optional _ rule | many _ rule | some _ rule => known rule
  | commit => []

def leadsOf (known : Rule → List Lead) : List Part → List Lead
  | [] => []
  | part :: parts =>
    part.leads known ++ if part.mayBeEmpty then leadsOf known parts else []

def Form.leads (known : Rule → List Lead) : Form → List Lead
  | literal kinds => kinds.map .kind
  | oneOf rules => rules.flatMap known
  | sequence _ parts => leadsOf known parts

/-- What a rule begins with, looking through so many rules. -/
def Rule.leadsWithin : Nat → Rule → List Lead
  | 0, _ => []
  | bound + 1, rule => rule.form.leads (leadsWithin bound)

def Rule.leads (rule : Rule) : List Lead :=
  rule.leadsWithin 12

/-- The table of leads is closed: reading the forms with it adds nothing to what it says of a rule.
-/
theorem Rule.leads_of_form (rule : Rule) : rule.form.leads Rule.leads ⊆ rule.leads := by
  cases rule <;> decide

theorem Rule.leads_ne_delimiter (rule : Rule) : Lead.kind .delimiter ∉ rule.leads := by
  cases rule <;> decide

/-- Terminals begin as they may, and are missing only where they may be. -/
structure Begins (terminals : List Terminal) (leads : List Lead) (mayBeEmpty : Bool) : Prop where
  head : ∀ terminal ∈ terminals.head?, terminal.lead ∈ leads
  empty : terminals = [] → mayBeEmpty = true

namespace Begins

variable {terminals rest : List Terminal} {leads others : List Lead} {mayBeEmpty : Bool}

theorem cons {terminal : Terminal} (hLead : terminal.lead ∈ leads) :
    Begins (terminal :: rest) leads mayBeEmpty where
  head := by
    intro first hFirst
    cases hFirst
    exact hLead
  empty := by simp

theorem nil : Begins [] leads true where
  head := by simp
  empty := fun _ => rfl

/-- Terminals begin as the first of them do, and as the others do if there may be no first. -/
theorem append {last : Bool} (first : Begins terminals leads mayBeEmpty)
    (second : Begins rest others last) :
    Begins (terminals ++ rest) (leads ++ if mayBeEmpty then others else []) (mayBeEmpty && last) where
  head := by
    intro terminal hTerminal
    cases terminals with
    | nil =>
        rw [first.empty rfl, if_pos rfl]
        exact List.mem_append_right _ (second.head terminal hTerminal)
    | cons head terminals => exact List.mem_append_left _ (first.head terminal hTerminal)
  empty := by
    intro hEmpty
    obtain ⟨hFirst, hSecond⟩ := List.append_eq_nil_iff.mp hEmpty
    rw [first.empty hFirst, second.empty hSecond]
    rfl

end Begins

/-- How the terminals of a node begin. -/
def Node.Begins (node : Node) : Prop :=
  DocumentLanguage.Begins node.tree.terminals node.rule.leads node.rule.mayBeEmpty

theorem Terminal.lead_kept {kind : Kind} (hKind : kind ≠ .delimiter) (text : String) :
    (Terminal.kept kind text).lead = .kind kind := by
  by_cases hComment : kind = .comment
  · simp [Terminal.kept, hComment, Terminal.lead]
  · simp [Terminal.kept, hComment, hKind, Terminal.lead, Lead.of]

/-- The kind of token that a part keeps, if its rule does not leave a choice. -/
def Part.tokenKind? : Part → Option Kind
  | token _ kind | optionalToken _ kind => Option.some kind
  | _ => none

def Form.parts : Form → List Part
  | sequence _ parts => parts
  | literal _ | oneOf _ => []

/-- A delimiter is kept by a node only where there is a choice of several. -/
theorem Rule.tokenKind?_ne_delimiter (rule : Rule) :
    ∀ part ∈ rule.form.parts, part.tokenKind? ≠ some .delimiter := by
  cases rule <;> decide

/-- A run of nodes begins as its rule says, and with nothing at all if there are none. -/
theorem Trees.begins {rule : Rule} : (trees : Trees rule) →
    (∀ node ∈ trees.asNodes, node.Begins) →
      Begins trees.terminals rule.leads (trees.asNodes.isEmpty || rule.mayBeEmpty)
  | .nil, _ => .nil
  | .cons tree trees, hNodes => by
      simp only [asNodes_cons, List.mem_cons, forall_eq_or_imp] at hNodes
      have hBoth := hNodes.1.append (trees.begins hNodes.2)
      refine ⟨?_, ?_⟩
      · intro terminal hTerminal
        have hMem := hBoth.head terminal hTerminal
        split at hMem
        · simpa using hMem
        · simpa using hMem
      · intro hEmpty
        have hNone := hBoth.empty hEmpty
        simp only [Bool.and_eq_true] at hNone
        simp [hNone.1]

/-- A part begins with one of the leads that its form says, or with nothing where it may be empty.
-/
theorem Part.begins (part : Part) (kept : part.Kept) (hSuits : part.suits kept = true)
    (hOther : part.tokenKind? ≠ Option.some .delimiter)
    (hNodes : ∀ node ∈ part.nodes kept, node.Begins) :
    Begins (part.terminals kept) (part.leads Rule.leads) part.mayBeEmpty := by
  cases part with
  | keyword text | delimiter text | newline => exact .cons List.mem_cons_self
  | commit => exact .nil
  | choice label options =>
      refine .cons ?_
      simpa [leads, suits, Terminal.kept, Terminal.lead, Lead.of] using hSuits
  | token label kind =>
      have hKind : kind ≠ .delimiter := fun hEq => hOther (congrArg Option.some hEq)
      refine .cons ?_
      simp [leads, Terminal.lead_kept hKind]
  | optionalToken label kind =>
      have hKind : kind ≠ .delimiter := fun hEq => hOther (congrArg Option.some hEq)
      refine ⟨?_, fun _ => rfl⟩
      intro terminal hTerminal
      cases kept with
      | none => cases hTerminal
      | some kept =>
          cases hTerminal
          simp [leads, Terminal.lead_kept hKind]
  | child label rule | line label rule => exact hNodes ⟨rule, kept⟩ List.mem_cons_self
  | optional label rule =>
      cases kept with
      | none => exact ⟨nofun, fun _ => rfl⟩
      | some tree => exact ⟨(hNodes ⟨rule, tree⟩ List.mem_cons_self).head, fun _ => rfl⟩
  | many label rule => exact ⟨(kept.begins hNodes).head, fun _ => rfl⟩
  | some label rule =>
      have hTrees := kept.begins hNodes
      have hFilled : kept.asNodes.isEmpty = false := by simpa [suits] using hSuits
      rw [hFilled, Bool.false_or] at hTrees
      exact hTrees

/-- The parts of a sequence begin with the leads of the first one that is not empty. -/
theorem Fields.begins (parts : List Part) (fields : Fields (fieldsOf parts))
    (hMade : aligned Part.admits parts fields.stored = true)
    (hKinds : ∀ part ∈ parts, part.tokenKind? ≠ some .delimiter)
    (hNodes : ∀ node ∈ fields.stored.flatMap Stored.nodes, node.Begins) :
    Begins (weave parts fields.marks) (leadsOf Rule.leads parts) (parts.all Part.mayBeEmpty) := by
  induction parts with
  | nil =>
      cases fields
      exact .nil
  | cons part parts ih =>
      obtain ⟨kept, rest, rfl⟩ := part.exists_keep fields
      rw [Part.aligned_keep, Bool.and_eq_true] at hMade
      rw [Part.nodes_keep, List.forall_mem_append] at hNodes
      rw [List.forall_mem_cons] at hKinds
      rw [Part.weave_keep, leadsOf, List.all_cons]
      exact (part.begins kept hMade.1 hKinds.1 hNodes.1).append (ih rest hMade.2 hKinds.2 hNodes.2)

/-- What a node holds begins as its form says if its children begin as their rules say. -/
theorem Content.begins {form : Form} (content : Content form) (hMade : content.made = true)
    (hKinds : ∀ part ∈ form.parts, part.tokenKind? ≠ some .delimiter)
    (hNodes : ∀ child ∈ content.children, child.Begins) :
    Begins content.terminals (form.leads Rule.leads) form.mayBeEmpty := by
  cases content with
  | literal kind text =>
      simp only [made, List.contains_eq_mem, decide_eq_true_eq] at hMade
      exact Begins.cons (List.mem_map.mpr ⟨kind, hMade, rfl⟩)
  | oneOf rule allowed tree =>
      have hTree : Node.Begins ⟨rule, tree⟩ := hNodes _ List.mem_cons_self
      refine ⟨?_, ?_⟩
      · intro terminal hTerminal
        exact List.mem_flatMap.mpr ⟨rule, allowed, hTree.head terminal hTerminal⟩
      · intro hEmpty
        exact List.any_eq_true.mpr ⟨rule, allowed, hTree.empty hEmpty⟩
  | sequence fields => exact Fields.begins _ fields hMade hKinds hNodes

/-- The terminals of a tree begin with a lead of its rule, and only few rules may have none. -/
theorem Tree.begins {rule : Rule} (tree : Tree rule) (made : tree.Made) :
    Begins tree.terminals rule.leads rule.mayBeEmpty := by
  induction tree using Tree.induct with
  | step rule content ih =>
      obtain ⟨hMade, hChildren⟩ := Tree.made_mk.mp made
      have hBegins := content.begins hMade rule.tokenKind?_ne_delimiter
        fun child hChild => ih child hChild (hChildren child hChild)
      refine ⟨?_, ?_⟩
      · intro terminal hTerminal
        exact rule.leads_of_form (hBegins.head terminal hTerminal)
      · intro hEmpty
        exact rule.mayBeEmpty_of_form (hBegins.empty hEmpty)

end DocumentLanguage
