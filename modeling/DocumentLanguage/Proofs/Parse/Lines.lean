import DocumentLanguage.Proofs.Grammar.Lead
import DocumentLanguage.Proofs.Parse.Spelt

/-!
The lines of procedures. What stands between the braces of a procedure is divided by the newlines
at its own depth, and its comments and statements are these lines one for one: no statement goes on
behind its line, whatever the next line starts with.
-/
namespace DocumentLanguage

/-! ### What tokens convey -/

/-- Tokens read as terminals, with nothing but layout in between. -/
def Conveys (terminals : List Terminal) (tokens : List Token) : Prop :=
  ∃ kept, Thinned tokens kept ∧ List.Forall₂ Terminal.reads terminals kept

namespace Thinned

variable {tokens tokens' kept kept' : List Token}

/-- What is kept of two runs of tokens is what is kept of each, one behind the other. -/
theorem append (left : Thinned tokens kept) (right : Thinned tokens' kept') :
    Thinned (tokens ++ tokens') (kept ++ kept') := by
  induction left with
  | nil => exact right
  | drop hLayout _ ih => exact .drop hLayout ih
  | keep hSpace _ ih => exact .keep hSpace ih

/-- Only newlines are left out of the tokens other than spaces. -/
theorem sublist (thinned : Thinned tokens kept) : kept.Sublist (unspaced tokens) := by
  induction thinned with
  | nil => exact .slnil
  | @drop token tokens kept _ _ ih =>
    exact ih.trans ((List.sublist_cons_self token tokens).filter _)
  | keep hSpace _ ih =>
    rw [unspaced, List.filter_cons_of_pos (by simpa using hSpace)]
    exact ih.cons_cons _

/-- Layout that is passed over has nothing in it that would be kept. -/
theorem gap {overLines : Bool} {gap : List Token} (layout : Gap overLines gap) :
    Thinned gap [] := by
  induction gap with
  | nil => exact .nil
  | cons token gap ih =>
    exact .drop ((layout token List.mem_cons_self).imp_right And.right) (ih layout.tail)

end Thinned

namespace Conveys

variable {first second : List Terminal} {tokens tokens' : List Token}

theorem nil : Conveys [] [] := ⟨[], .nil, .nil⟩

theorem append (left : Conveys first tokens) (right : Conveys second tokens') :
    Conveys (first ++ second) (tokens ++ tokens') := by
  obtain ⟨kept, hThinned, hReads⟩ := left
  obtain ⟨kept', hThinned', hReads'⟩ := right
  exact ⟨kept ++ kept', hThinned.append hThinned', List.rel_append hReads hReads'⟩

theorem gap {overLines : Bool} (layout : Gap overLines tokens) : Conveys [] tokens :=
  ⟨[], .gap layout, .nil⟩

/-- Tokens that say something are not all spaces. The first terminal is read from a token of its
own, and no terminal is read from a space. -/
theorem unspaced_ne_nil (conveys : Conveys first tokens) (hFirst : first ≠ []) : unspaced tokens ≠ [] := by
  obtain ⟨kept, hThinned, hReads⟩ := conveys
  intro hNone
  have hSublist := hThinned.sublist
  rw [hNone, List.sublist_nil] at hSublist
  subst hSublist
  cases hReads
  exact hFirst rfl

end Conveys

/-- A terminal is conveyed by its token and the layout before it: this token is kept, and the rest
is not. -/
theorem Terminal.Spelt.conveys {overLines : Bool} {terminal : Terminal} {tokens : List Token}
    (spelt : terminal.Spelt overLines tokens) : Conveys [terminal] tokens := by
  obtain ⟨gap, token, rfl, layout, hSpace, hReads⟩ := spelt
  exact (Conveys.gap layout).append ⟨[token], .keep hSpace .nil, .cons hReads .nil⟩

def Part.said : (part : Part) → part.Kept → List Terminal
  | keyword text, _ | delimiter text, _ => [.verbatim .delimiter text]
  | newline, _ => [.newline]
  | commit, _ => []
  | choice _ _, text => [.kept .delimiter text]
  | token _ kind, text => [.kept kind text]
  | optionalToken _ kind, text => (text.map (Terminal.kept kind)).toList
  | child _ _, tree | line _ _, tree => tree.terminals
  | optional _ _, tree => (tree.map Tree.terminals).getD []
  | many _ _, trees | some _ _, trees => trees.terminals

/-- The terminals of a sequence are those of its first part followed by those of the rest, in the
order in which their tokens stand. -/
theorem weave_keep {parts : List Part} (part : Part) (kept : part.Kept)
    (fields : Fields (fieldsOf parts)) :
    weave (part :: parts) (part.keep kept fields).marks = part.said kept ++ weave parts fields.marks := by
  cases part with
  | optional label rule => cases kept <;> rfl
  | _ => rfl

mutual

/-- The tokens that a node is read from say what its terminals say. -/
theorem Tree.Spelt.conveys {rule : Rule} {tree : Tree rule} {tokens : List Token} :
    tree.Spelt tokens → Conveys tree.terminals tokens
  | .mk content_spelt _ => content_spelt.conveys

/-- The tokens that a node was read from convey its terminals, whatever holds its fields. -/
theorem Content.Spelt.conveys {form : Form} {content : Content form} {tokens : List Token} :
    content.Spelt tokens → Conveys content.terminals tokens
  | .literal token_spelt => token_spelt.conveys
  | .oneOf tree_spelt => tree_spelt.conveys
  | .sequence fields_spelt => fields_spelt.conveys

theorem Fields.Spelt.conveys {parts : List Part} {fields : Fields (fieldsOf parts)}
    {tokens : List Token} : Fields.Spelt parts fields tokens → Conveys (weave parts fields.marks) tokens
  | .nil => .nil
  | @Fields.Spelt.cons part parts kept fields _ _ part_spelt rest_spelt => by
    rw [weave_keep]
    exact part_spelt.conveys.append rest_spelt.conveys

theorem Part.Spelt.conveys {part : Part} {kept : part.Kept} {tokens : List Token} :
    part.Spelt kept tokens → Conveys (part.said kept) tokens
  | .keyword token_spelt | .delimiter token_spelt | .newline token_spelt => token_spelt.conveys
  | .choice _ token_spelt | .token token_spelt | .someToken token_spelt => token_spelt.conveys
  | .commit | .noToken | .absent => .nil
  | .child tree_spelt | .present tree_spelt => tree_spelt.conveys
  | .line layout tree_spelt _ => (Conveys.gap layout).append tree_spelt.conveys
  | .many trees_spelt | .some trees_spelt => trees_spelt.conveys

theorem Trees.Spelt.conveys {rule : Rule} {trees : Trees rule} {tokens : List Token} :
    trees.Spelt tokens → Conveys trees.terminals tokens
  | .nil => .nil
  | .cons tree_spelt trees_spelt => tree_spelt.conveys.append trees_spelt.conveys

end

/-! ### Nodes taken apart -/

theorem Tree.Spelt.content {rule : Rule} {content : Content rule.form} {tokens : List Token}
    (spelt : Tree.Spelt (.mk content) tokens) : content.Spelt tokens := by
  cases spelt
  assumption

/-- A node is read from tokens that close every bracket they open and no other. -/
theorem Tree.Spelt.balanced {rule : Rule} {tree : Tree rule} {tokens : List Token}
    (spelt : tree.Spelt tokens) : Balanced tokens := by
  cases spelt
  assumption

/-- An alternative is read from the tokens of the node that was chosen, with none of its own. -/
theorem Content.Spelt.chosen {rules : List Rule} {rule : Rule} {allowed : rule ∈ rules}
    {tree : Tree rule} {tokens : List Token}
    (spelt : Content.Spelt (.oneOf rule allowed tree) tokens) : tree.Spelt tokens := by
  cases spelt
  assumption

theorem Content.Spelt.fields {standing : Standing} {parts : List Part}
    {fields : Fields (fieldsOf parts)} {tokens : List Token}
    (spelt : Content.Spelt (.sequence fields : Content (.sequence standing parts)) tokens) :
    fields.Spelt parts tokens := by
  cases spelt
  assumption

/-- The tokens of a sequence fall into those of its first part and those of the other parts, one
behind the other. -/
theorem Fields.Spelt.split {part : Part} {parts : List Part} {fields : Fields (fieldsOf (part :: parts))}
    {tokens : List Token} (spelt : Fields.Spelt (part :: parts) fields tokens) :
    ∃ kept rest here behind, fields = part.keep kept rest ∧ tokens = here ++ behind ∧
      part.Spelt kept here ∧ Fields.Spelt parts rest behind := by
  cases spelt with
  | cons part_spelt rest_spelt => exact ⟨_, _, _, _, rfl, rfl, part_spelt, rest_spelt⟩

theorem Fields.Spelt.eq_nil {fields : Fields (fieldsOf [])} {tokens : List Token}
    (spelt : Fields.Spelt [] fields tokens) : fields = .nil ∧ tokens = [] := by
  cases spelt
  exact ⟨rfl, rfl⟩

/-! ### The lines of a procedure -/

/-- The procedure that a node is, if it is one. -/
def Node.procedure? : Node → Option (Tree .procedure)
  | ⟨.procedure, tree⟩ => some tree
  | _ => none

/-- The procedures of a tree, each before those in it. -/
def Tree.procedures {rule : Rule} (tree : Tree rule) : List (Tree .procedure) :=
  tree.nodes.filterMap Node.procedure?

def Procedure.statements : Tree .procedure → Tree .statements
  | .mk (.sequence (.child statements .nil)) => statements

/-- The lines of statements that are each on a line. -/
def Statements.lines? : Tree .statements → Option (List (Tree .annotatedStatement))
  | .mk (.oneOf .multilineStatements _ (.mk (.sequence (.many lines .nil)))) => some lines.toList
  | _ => none

/-- Tokens are one line: a comment, or a statement and perhaps a note behind it. -/
inductive OnLine : Tree .annotatedStatement → List Token → Prop
  | comment {allowed : Rule.commentLine ∈ [Rule.commentLine, Rule.statementLine]} {text : String}
      {token : Token} {tokens : List Token} (alone : unspaced tokens = [token])
      (reads : (Terminal.kept .comment text).reads token) :
      OnLine (.mk (.oneOf .commentLine allowed (.mk (.sequence (.text text .nil))))) tokens
  | statement {allowed : Rule.statementLine ∈ [Rule.commentLine, Rule.statementLine]}
      {statement : Tree .statement} {note : Option String} {first last : List Token}
      (conveys : Conveys statement.terminals first) (solid : unspaced first ≠ [])
      (reads : List.Forall₂ Terminal.reads (note.map (.verbatim .note)).toList (unspaced last)) :
      OnLine (.mk (.oneOf .statementLine allowed
        (.mk (.sequence (.child statement (.optionalText note .nil)))))) (first ++ last)

/-- What stands between the braces of a procedure: its statements, and where each is on a line its
lines, one for one. -/
structure Procedure.Fits (procedure : Tree .procedure) (inner : List Token) : Prop where
  conveys : Conveys (Procedure.statements procedure).terminals inner
  lines : ∀ lines ∈ Statements.lines? (Procedure.statements procedure),
    List.Forall₂ OnLine lines (linesOf inner)

/-- A line is read from a gap, what is on it, and the newline that ends it. -/
structure EndsLine (line : Tree .annotatedStatement) (gap tokens : List Token) (newline : Token) :
    Prop where
  layout : Gap true gap
  balanced : Balanced tokens
  unbroken : Unbroken 0 tokens
  solid : unspaced tokens ≠ []
  ends : newline.kind = .newline
  onLine : ∀ spaces, Gap false spaces → OnLine line (spaces ++ tokens)

theorem unspaced_append (first second : List Token) :
    unspaced (first ++ second) = unspaced first ++ unspaced second :=
  List.filter_append ..

/-- A gap, a token on a line, and only spaces behind it. -/
theorem unspaced_token {token : Token} (hSpace : token.kind ≠ .space) {spaces gap : List Token}
    (before : Gap false spaces) (behind : Gap false gap) :
    unspaced (spaces ++ (token :: gap)) = [token] := by
  rw [unspaced_append, before.unspaced, List.nil_append, ← List.singleton_append, unspaced_append,
    behind.unspaced]
  simp [unspaced, hSpace]

/-- A comment line is read from the layout before it, its own tokens and the newline at its end. -/
theorem CommentLine.endsLine {allowed : Rule.commentLine ∈ [Rule.commentLine, Rule.statementLine]}
    (comment : Tree .commentLine) {tokens : List Token} (spelt : comment.Spelt tokens) :
    ∃ gap line newline, tokens = gap ++ (line ++ [newline]) ∧
      EndsLine (.mk (.oneOf .commentLine allowed comment)) gap line newline := by
  obtain ⟨⟨fields⟩⟩ := comment
  obtain ⟨text, rest, _, _, rfl, rfl, hComment, hRest⟩ := spelt.content.fields.split
  obtain ⟨_, rest, _, _, rfl, rfl, hNewline, hNil⟩ := hRest.split
  cases hComment with
  | token hComment =>
    cases hNewline with
    | newline hNewline =>
      obtain ⟨gap, token, rfl, layout, hSpace, hReads⟩ := hComment
      obtain ⟨spaces, newline, rfl, behind, -, hEnds⟩ := hNewline
      obtain ⟨rfl, rfl⟩ := hNil.eq_nil
      have hKind : token.kind = .comment := hReads.1
      refine ⟨gap, token :: spaces, newline, by simp, layout, ?_, ?_, ?_, hEnds, ?_⟩
      · exact (Balanced.single (Token.turn_of_kind (by simp [hKind]))).append (.gap behind)
      · exact ⟨by simp [hKind], behind.unbroken⟩
      · simp [unspaced, hSpace]
      · exact fun _ before => .comment (unspaced_token hSpace before behind) hReads

/-- The note of a statement, if there is one, stands on the line of the statement. -/
theorem unspaced_note {note : Option String} {tokens : List Token}
    (spelt : (Part.optionalToken "note" .note).Spelt note tokens) :
    Balanced tokens ∧ Unbroken 0 tokens ∧
      List.Forall₂ Terminal.reads (note.map (.verbatim .note)).toList (unspaced tokens) := by
  cases spelt with
  | noToken => exact ⟨⟨Int.le_refl 0, rfl⟩, trivial, .nil⟩
  | someToken spelt =>
    obtain ⟨gap, token, rfl, layout, hSpace, hReads⟩ := spelt
    have hKind : token.kind = .note := hReads.1
    have hTurn : token.turn = 0 := Token.turn_of_kind (by simp [hKind])
    refine ⟨(Balanced.gap layout).append (.single hTurn), ?_, ?_⟩
    · exact unbroken_append.mpr ⟨layout.unbroken, by simp [hKind], trivial⟩
    · have hNone : Gap false [] := nofun
      rw [unspaced_token hSpace layout hNone]
      exact .cons hReads .nil

/-- A statement line is read from the layout before it, its own tokens and the newline at its end.
There is no newline in between that stands outside every bracket. -/
theorem StatementLine.endsLine
    {allowed : Rule.statementLine ∈ [Rule.commentLine, Rule.statementLine]}
    (line : Tree .statementLine) (made : line.Made) {tokens : List Token}
    (spelt : line.Spelt tokens) :
    ∃ gap line' newline, tokens = gap ++ (line' ++ [newline]) ∧
      EndsLine (.mk (.oneOf .statementLine allowed line)) gap line' newline := by
  obtain ⟨⟨fields⟩⟩ := line
  obtain ⟨statement, rest, _, _, rfl, rfl, hStatement, hRest⟩ := spelt.content.fields.split
  obtain ⟨_, rest, _, _, rfl, rfl, hCommit, hRest⟩ := hRest.split
  obtain ⟨note, rest, noted, _, rfl, rfl, hNote, hRest⟩ := hRest.split
  obtain ⟨_, rest, _, _, rfl, rfl, hNewline, hNil⟩ := hRest.split
  cases hStatement with
  | @line _ _ _ gap stated layout hStatement unbroken =>
    cases hCommit
    cases hNewline with
    | newline hNewline =>
      obtain ⟨spaces, newline, rfl, behind, -, hEnds⟩ := hNewline
      obtain ⟨rfl, rfl⟩ := hNil.eq_nil
      obtain ⟨hBalanced, hUnbroken, hReads⟩ := unspaced_note hNote
      have hFilled : statement.terminals ≠ [] := fun hEmpty => by
        have hMade := (Tree.made_mk.mp made).2 ⟨.statement, statement⟩ List.mem_cons_self
        cases (statement.begins hMade).empty hEmpty
      have hSolid := hStatement.conveys.unspaced_ne_nil hFilled
      refine ⟨gap, stated ++ (noted ++ spaces), newline, by simp, layout, ?_, ?_, ?_, hEnds, ?_⟩
      · exact hStatement.balanced.append (hBalanced.append (.gap behind))
      · refine unbroken_append.mpr ⟨unbroken, ?_⟩
        rw [hStatement.balanced.even]
        exact unbroken_append.mpr ⟨hUnbroken, behind.unbroken⟩
      · rw [unspaced_append]
        exact fun hNone => hSolid (List.append_eq_nil_iff.mp hNone).1
      · intro before hBefore
        rw [← List.append_assoc]
        refine .statement ((Conveys.gap hBefore).append hStatement.conveys) ?_ ?_
        · rwa [unspaced_append, hBefore.unspaced, List.nil_append]
        · rwa [unspaced_append, behind.unspaced, List.append_nil]

/-- Every line of a procedure ends its line, whether a statement or a comment stands on it. -/
theorem AnnotatedStatement.endsLine (line : Tree .annotatedStatement) (made : line.Made)
    {tokens : List Token} (spelt : line.Spelt tokens) :
    ∃ gap line' newline, tokens = gap ++ (line' ++ [newline]) ∧ EndsLine line gap line' newline := by
  obtain ⟨content⟩ := line
  cases content with
  | oneOf rule allowed tree =>
    have hAllowed : rule = .commentLine ∨ rule = .statementLine := by simpa using allowed
    rcases hAllowed with rfl | rfl
    · exact CommentLine.endsLine tree spelt.content.chosen
    · exact StatementLine.endsLine tree ((Tree.made_mk.mp made).2 ⟨_, tree⟩ List.mem_cons_self)
        spelt.content.chosen

/-- Lines are read from the lines of their tokens, one for one. -/
theorem Trees.onLines {tail : List Token} (layout : Gap true tail) :
    (trees : Trees .annotatedStatement) → (∀ node ∈ trees.asNodes, node.tree.Made) →
      {tokens : List Token} → trees.Spelt tokens →
        List.Forall₂ OnLine trees.toList (linesOf (tokens ++ tail))
  | .nil, _, _, spelt => by
    cases spelt
    rw [List.nil_append, linesOf_gap layout]
    exact .nil
  | .cons tree trees, made, tokens, spelt => by
    rw [Trees.asNodes_cons, List.forall_mem_cons] at made
    cases spelt with
    | cons tree_spelt trees_spelt =>
      obtain ⟨gap, line, newline, rfl, ends⟩ := AnnotatedStatement.endsLine tree made.1 tree_spelt
      obtain ⟨spaces, hSpaces, hLines⟩ := linesOf_gap_append ends.layout ends.balanced ends.unbroken
        ends.solid ends.ends (_ ++ tail)
      rw [List.append_assoc, List.append_assoc, List.append_assoc, List.singleton_append, hLines]
      exact .cons (ends.onLine spaces hSpaces) (trees.onLines layout made.2 trees_spelt)

/-- The lines of a block and the lines of its tokens go together one by one, and the blank lines
among the tokens belong to none. -/
theorem MultilineStatements.onLines {lines : Trees .annotatedStatement}
    (made : ∀ node ∈ lines.asNodes, node.tree.Made) {tokens tail : List Token}
    (spelt : Tree.Spelt (.mk (.sequence (.many lines .nil)) : Tree .multilineStatements) tokens)
    (layout : Gap true tail) : List.Forall₂ OnLine lines.toList (linesOf (tokens ++ tail)) := by
  obtain ⟨_, rest, _, _, rfl, rfl, hNewline, hRest⟩ := spelt.content.fields.split
  obtain ⟨trees, rest, _, _, hLines, rfl, hTrees, hNil⟩ := hRest.split
  cases hNewline with
  | newline hNewline =>
    obtain ⟨spaces, newline, rfl, before, -, hEnds⟩ := hNewline
    cases hTrees with
    | some hTrees =>
      obtain ⟨rfl, rfl⟩ := hNil.eq_nil
      cases hLines
      rw [List.append_nil, List.append_assoc, List.append_assoc, List.singleton_append,
        linesOf_spaces_newline before hEnds]
      exact lines.onLines layout made hTrees

/-- Statements that are each on a line go with the lines of their tokens one by one, also with
layout behind the last of them. -/
theorem Statements.onLines (statements : Tree .statements) (made : statements.Made)
    {tokens tail : List Token} (spelt : statements.Spelt tokens) (layout : Gap true tail) :
    ∀ lines ∈ Statements.lines? statements, List.Forall₂ OnLine lines (linesOf (tokens ++ tail)) := by
  intro lines hLines
  obtain ⟨content⟩ := statements
  cases content with
  | oneOf rule allowed block =>
    have hBlock := (Tree.made_mk.mp made).2 ⟨rule, block⟩ List.mem_cons_self
    have hAllowed : rule = .multilineStatements ∨ rule = .inlineStatements ∨ rule = .noStatements := by
      simpa using allowed
    rcases hAllowed with rfl | rfl | rfl
    · obtain ⟨content⟩ := block
      cases content with
      | sequence fields =>
        cases fields with
        | many trees rest =>
          cases rest
          cases hLines
          refine MultilineStatements.onLines (fun node hNode => ?_) spelt.content.chosen layout
          exact (Tree.made_mk.mp hBlock).2 node
            (by simpa [Content.children, Fields.stored, Stored.nodes])
    · cases hLines
    · cases hLines

/-- What a procedure is read from: its statements between two braces. -/
theorem Procedure.fits (procedure : Tree .procedure) (made : procedure.Made) {tokens : List Token}
    (spelt : procedure.Spelt tokens) :
    ∃ gap brace inner tail closing, tokens = gap ++ brace :: (inner ++ (tail ++ [closing])) ∧
      Gap true gap ∧ (Terminal.verbatim .delimiter "\x7b").reads brace ∧
        (Procedure.statements procedure).Spelt inner ∧ Gap true tail ∧
          (Terminal.verbatim .delimiter "\x7d").reads closing ∧
            Procedure.Fits procedure (inner ++ tail) := by
  obtain ⟨⟨fields⟩⟩ := procedure
  obtain ⟨_, rest, _, _, rfl, rfl, hOpens, hRest⟩ := spelt.content.fields.split
  obtain ⟨_, rest, _, _, rfl, rfl, hCommit, hRest⟩ := hRest.split
  obtain ⟨statements, rest, inner, _, rfl, rfl, hStatements, hRest⟩ := hRest.split
  obtain ⟨_, rest, _, _, rfl, rfl, hCloses, hNil⟩ := hRest.split
  cases hOpens with
  | delimiter hOpens =>
    cases hCloses with
    | delimiter hCloses =>
      cases hCommit
      cases hStatements with
      | child hStatements =>
        obtain ⟨gap, brace, rfl, layout, -, hBrace⟩ := hOpens
        obtain ⟨tail, closing, rfl, behind, -, hClosing⟩ := hCloses
        obtain ⟨rfl, rfl⟩ := hNil.eq_nil
        refine ⟨gap, brace, inner, tail, closing, by simp, layout, hBrace, hStatements, behind,
          hClosing, ?_, ?_⟩
        · have hBoth := hStatements.conveys.append (Conveys.gap behind)
          rwa [List.append_nil] at hBoth
        · exact Statements.onLines statements
            ((Tree.made_mk.mp made).2 ⟨_, statements⟩ List.mem_cons_self) hStatements behind

/-! ### All procedures of a tree -/

/-- A token that a delimiter would not lead to is not that delimiter. -/
theorem Token.isDelimiter_eq_false {token : Token} {text : String} (hLead : token.lead ≠ .word text) :
    token.isDelimiter text = false := by
  rw [Bool.eq_false_iff]
  intro hDelimiter
  simp only [isDelimiter, Bool.and_eq_true, decide_eq_true_eq] at hDelimiter
  exact hLead (by simp [lead, Lead.of, hDelimiter])

/-- The procedures among nodes are what braces stand around in tokens, and in whatever comes behind
the tokens the procedures are those behind the nodes. -/
def Braced (nodes : List Node) (tokens : List Token) : Prop :=
  ∀ (others : List (Tree .procedure)) (behind : List Token),
    List.Forall₂ Procedure.Fits others (bracedIn behind) →
      List.Forall₂ Procedure.Fits (nodes.filterMap Node.procedure? ++ others)
        (bracedIn (tokens ++ behind))

namespace Braced

variable {first second : List Node} {tokens tokens' : List Token}

/-- Tokens with braces of their own may follow one another, and each brace still belongs to one
procedure. -/
theorem append (left : Braced first tokens) (right : Braced second tokens') :
    Braced (first ++ second) (tokens ++ tokens') := by
  intro others behind hBehind
  rw [List.filterMap_append, List.append_assoc, List.append_assoc]
  exact left _ _ (right _ _ hBehind)

theorem nil : Braced [] [] := fun _ _ hBehind => hBehind

/-- Tokens among which there is no opening brace belong to no procedure, since a procedure has one
of its own. -/
theorem of_forall_not (hNone : ∀ token ∈ tokens, token.isDelimiter "\x7b" = false) :
    Braced [] tokens := by
  intro others behind hBehind
  rwa [bracedIn_append_of_forall_not hNone]

/-- No brace is among the layout, so that no procedure begins in it. -/
theorem gap {overLines : Bool} (layout : Gap overLines tokens) : Braced [] tokens := by
  refine of_forall_not fun token hToken => Token.isDelimiter_eq_false ?_
  rcases layout token hToken with hSpace | ⟨-, hNewline⟩
  · simp [Token.lead, Lead.of, hSpace]
  · simp [Token.lead, Lead.of, hNewline]

end Braced

/-- Whether a part may be read from an opening brace. -/
def Part.opensBrace : Part → Bool
  | keyword text | delimiter text => text = "\x7b"
  | choice _ options => options.delimiters.contains "\x7b"
  | token _ kind | optionalToken _ kind => kind = .delimiter
  | _ => false

/-- Whether a form may have an opening brace of its own. -/
def Form.opensBrace : Form → Bool
  | literal kinds => kinds.contains .delimiter
  | oneOf _ => false
  | sequence _ parts => parts.any Part.opensBrace

/-- Only procedures have an opening brace. No other rule asks for one, wherever its parts lead. -/
theorem Rule.opensBrace_form (rule : Rule) (hRule : rule ≠ .procedure) :
    rule.form.opensBrace = false := by
  cases rule <;> first | rfl | contradiction

def Part.below : (part : Part) → part.Kept → List Node
  | child _ rule, tree | line _ rule, tree => [⟨rule, tree⟩]
  | optional _ rule, tree => (tree.map (Node.mk rule)).toList
  | many _ _, trees | some _ _, trees => trees.asNodes
  | _, _ => []

/-- The nodes below a sequence are those below its first part and those below the others. -/
theorem Fields.nodes_keep {parts : List Part} (part : Part) (kept : part.Kept)
    (fields : Fields (fieldsOf parts)) :
    (part.keep kept fields).stored.flatMap Stored.nodes =
      part.below kept ++ fields.stored.flatMap Stored.nodes := by
  cases part with
  | optional label rule => cases kept <;> rfl
  | _ => rfl

/-- Spaces, newlines and a token that is no brace belong to no procedure. -/
theorem Terminal.Spelt.braced {overLines : Bool} {terminal : Terminal} {tokens : List Token}
    (spelt : terminal.Spelt overLines tokens) (hKind : terminal.lead ≠ .kind .delimiter)
    (hBrace : terminal.lead ≠ .word "\x7b") : Braced [] tokens := by
  obtain ⟨gap, token, rfl, layout, -, hReads⟩ := spelt
  refine (Braced.gap layout).append (Braced.of_forall_not (List.forall_mem_singleton.mpr ?_))
  rw [← Terminal.lead_of_reads hReads hKind] at hBrace
  exact Token.isDelimiter_eq_false hBrace

/-- The procedures in a run of nodes are found at its braces, each node having its own. -/
theorem Trees.Spelt.braced {rule : Rule} : (trees : Trees rule) →
    (∀ node ∈ trees.asNodes, ∀ tokens, node.tree.Spelt tokens → Braced node.tree.nodes tokens) →
      {tokens : List Token} → trees.Spelt tokens →
        Braced (trees.asNodes.flatMap (·.tree.nodes)) tokens
  | .nil, _, _, spelt => by
    cases spelt
    exact .nil
  | .cons tree trees, hBelow, tokens, spelt => by
    rw [Trees.asNodes_cons, List.forall_mem_cons] at hBelow
    cases spelt with
    | cons tree_spelt trees_spelt =>
      exact (hBelow.1 _ tree_spelt).append (Trees.Spelt.braced trees hBelow.2 trees_spelt)

/-- The procedures below a part are found at the braces of its tokens, if the part asks for no brace
itself. -/
theorem Part.Spelt.braced {part : Part} {kept : part.Kept} {tokens : List Token}
    (spelt : part.Spelt kept tokens) (hPart : part.opensBrace = false)
    (hBelow : ∀ node ∈ part.below kept, ∀ tokens, node.tree.Spelt tokens →
      Braced node.tree.nodes tokens) :
    Braced ((part.below kept).flatMap (·.tree.nodes)) tokens := by
  cases spelt with
  | keyword token_spelt | delimiter token_spelt =>
    simp only [opensBrace, decide_eq_false_iff_not] at hPart
    exact token_spelt.braced (by simp [Terminal.lead, Lead.of]) (by simpa [Terminal.lead, Lead.of])
  | newline token_spelt =>
    exact token_spelt.braced (by simp [Terminal.lead]) (by simp [Terminal.lead])
  | commit => exact .nil
  | @choice _ text _ _ chosen token_spelt =>
    have hText : text ≠ "\x7b" := by
      rintro rfl
      simp [opensBrace, chosen] at hPart
    exact token_spelt.braced (by simp [Terminal.lead, Lead.of]) (by simpa [Terminal.lead, Lead.of])
  | token token_spelt | someToken token_spelt =>
    simp only [opensBrace, decide_eq_false_iff_not] at hPart
    have hLead := Terminal.lead_kept hPart
    exact token_spelt.braced (by simpa [hLead]) (by simp [hLead])
  | noToken => exact .nil
  | child tree_spelt | present tree_spelt =>
    have hTree := hBelow _ List.mem_cons_self _ tree_spelt
    rwa [← List.append_nil (Tree.nodes _)] at hTree
  | line layout tree_spelt unbroken =>
    have hTree := hBelow _ List.mem_cons_self _ tree_spelt
    rw [← List.append_nil (Tree.nodes _)] at hTree
    exact (Braced.gap layout).append hTree
  | absent => exact .nil
  | many trees_spelt | some trees_spelt => exact trees_spelt.braced _ hBelow

/-- The procedures below a sequence are found at its braces, part by part. -/
theorem Fields.Spelt.braced {parts : List Part} {fields : Fields (fieldsOf parts)}
    {tokens : List Token} (spelt : fields.Spelt parts tokens)
    (hParts : ∀ part ∈ parts, part.opensBrace = false)
    (hBelow : ∀ node ∈ fields.stored.flatMap Stored.nodes, ∀ tokens, node.tree.Spelt tokens →
      Braced node.tree.nodes tokens) :
    Braced ((fields.stored.flatMap Stored.nodes).flatMap (·.tree.nodes)) tokens := by
  induction parts generalizing tokens with
  | nil =>
    obtain ⟨rfl, rfl⟩ := spelt.eq_nil
    exact .nil
  | cons part parts ih =>
    obtain ⟨kept, rest, here, behind, rfl, rfl, hHere, hRest⟩ := spelt.split
    rw [List.forall_mem_cons] at hParts
    rw [Fields.nodes_keep, List.forall_mem_append] at hBelow
    rw [Fields.nodes_keep, List.flatMap_append]
    exact (hHere.braced hParts.1 hBelow.1).append (ih hRest hParts.2 hBelow.2)

/-- The procedures below a node are found at the braces of its tokens, if its rule has no brace of
its own. -/
theorem Content.Spelt.braced {form : Form} {content : Content form} {tokens : List Token}
    (spelt : content.Spelt tokens) (made : content.made = true) (hForm : form.opensBrace = false)
    (hBelow : ∀ child ∈ content.children, ∀ tokens, child.tree.Spelt tokens →
      Braced child.tree.nodes tokens) :
    Braced (content.children.flatMap (·.tree.nodes)) tokens := by
  cases spelt with
  | @literal kinds kind text _ token_spelt =>
    have hKind : kind ≠ .delimiter := by
      rintro rfl
      rw [Form.opensBrace, ← Content.made.eq_1 kinds .delimiter text, made] at hForm
      cases hForm
    exact token_spelt.braced (by simpa [Terminal.lead]) (by simp [Terminal.lead])
  | oneOf tree_spelt =>
    have hTree := hBelow _ List.mem_cons_self _ tree_spelt
    rwa [← List.append_nil (Tree.nodes _)] at hTree
  | sequence fields_spelt =>
    exact fields_spelt.braced (by simpa [Form.opensBrace] using hForm) hBelow

/-- Up to the bracket that closes it, a brace stands around tokens that close all they open. -/
theorem bracedIn_brace {brace closing : Token} {inner : List Token}
    (hBrace : brace.isDelimiter "\x7b" = true) (balanced : Balanced inner)
    (hClosing : closing.turn < 0) (behind : List Token) :
    bracedIn (brace :: (inner ++ closing :: behind)) =
      inner :: bracedIn (inner ++ closing :: behind) := by
  have hClose : upToClose 0 (closing :: behind) = [] := by
    rw [upToClose, if_pos (by omega)]
  rw [bracedIn, if_pos hBrace, upToClose_append balanced.stays, balanced.even, Int.add_zero, hClose,
    List.append_nil]

theorem Procedure.children (procedure : Tree .procedure) :
    procedure.content.children = [⟨.statements, Procedure.statements procedure⟩] := by
  obtain ⟨content⟩ := procedure
  cases content with
  | sequence fields =>
    cases fields with
    | child statements rest =>
      cases rest
      rfl

/-- A procedure is found at its opening brace, and the procedures below it are found behind that.
The closing brace belongs to it as well and is no opening one. -/
theorem Procedure.braced (procedure : Tree .procedure) (made : procedure.Made) {tokens : List Token}
    (spelt : procedure.Spelt tokens)
    (hBelow : ∀ tokens, (Procedure.statements procedure).Spelt tokens →
      Braced (Procedure.statements procedure).nodes tokens) :
    Braced (⟨.procedure, procedure⟩ :: (Procedure.statements procedure).nodes) tokens := by
  intro others behind hBehind
  obtain ⟨gap, brace, inner, tail, closing, rfl, layout, hBrace, hInner, hTail, hClosing, fits⟩ :=
    Procedure.fits procedure made spelt
  have hTurn : closing.turn < 0 := by
    simp [Token.turn, hClosing.1, hClosing.2]
  have hRest : Braced [] (tail ++ [closing]) := by
    refine (Braced.gap hTail).append (Braced.of_forall_not (List.forall_mem_singleton.mpr ?_))
    simp [Token.isDelimiter, hClosing.2]
  have hInside := (hBelow inner hInner).append hRest others behind hBehind
  rw [List.append_nil, List.append_assoc, List.append_assoc, ← List.append_assoc inner tail,
    List.singleton_append] at hInside
  have hOpen : brace.isDelimiter "\x7b" = true := by
    simp [Token.isDelimiter, hBrace.1, hBrace.2]
  have hBraced := bracedIn_brace hOpen (hInner.balanced.append (.gap hTail)) hTurn behind
  have hTokens : gap ++ brace :: (inner ++ (tail ++ [closing])) ++ behind =
      gap ++ brace :: (inner ++ tail ++ closing :: behind) := by simp
  rw [hTokens]
  refine Braced.gap layout _ _ ?_
  rw [hBraced]
  exact .cons fits hInside

/-- The procedures of a tree are what braces stand around in its tokens. -/
theorem Tree.Spelt.braced {rule : Rule} (tree : Tree rule) (made : tree.Made) (tokens : List Token)
    (spelt : tree.Spelt tokens) : Braced tree.nodes tokens := by
  induction tree using Tree.induct generalizing tokens with
  | step rule content ih =>
    obtain ⟨hMade, hChildren⟩ := Tree.made_mk.mp made
    have hBelow : ∀ child ∈ content.children, ∀ tokens, child.tree.Spelt tokens →
        Braced child.tree.nodes tokens :=
      fun child hChild tokens => ih child hChild (hChildren child hChild) tokens
    have hNodes : (Tree.mk content).nodes =
        [⟨rule, .mk content⟩] ++ content.children.flatMap (·.tree.nodes) := by
      rw [Tree.nodes, content.nodes_eq]
      rfl
    rw [hNodes]
    by_cases hRule : rule = .procedure
    · subst hRule
      have hChild := Procedure.children (.mk content)
      rw [Tree.content] at hChild
      rw [hChild, List.forall_mem_singleton] at hBelow
      rw [hChild, List.flatMap_singleton]
      exact Procedure.braced _ made spelt hBelow
    · have hNone : Node.procedure? ⟨rule, .mk content⟩ = none := by
        cases rule <;> first | rfl | contradiction
      intro others behind hBehind
      rw [List.filterMap_append, List.filterMap_cons_none hNone, List.filterMap_nil, List.nil_append]
      exact spelt.content.braced hMade (rule.opensBrace_form hRule) hBelow others behind hBehind

/-- The lines of a document, as they stand in its tokens. What opening braces stand around are the
procedures of the document, one for one and in their order. Where a procedure has its statements on
lines, the lines that newlines at its own depth divide it into, but for blank ones, are its comments
and statements, one for one: nothing goes on behind its line, whatever the next line starts with. -/
theorem lines_of_parseTokens {tokens : List Token} {document : Document}
    (hParse : parseTokens tokens = .ok document) :
    List.Forall₂ Procedure.Fits document.procedures (bracedIn tokens) := by
  obtain ⟨commits, next, hFound, hRest⟩ := parseTokens_eq_ok.mp hParse
  have hAround : AroundLine none true 0 := by rintro outer ⟨⟩
  obtain ⟨used, hSpelt, hStretch⟩ := spells_seekRule _ hAround (fun _ => rfl) hFound
  have layout : Gap true next.rest := fun token hToken =>
    (Kind.isLayout_iff.mp (List.dropWhile_eq_nil_iff.mp hRest token hToken)).imp_right
      fun hNewline => ⟨rfl, hNewline⟩
  have hBehind := Braced.gap layout [] [] .nil
  have hFits := hSpelt.braced document (along_of_parseTokens hParse).1 used [] _ hBehind
  have hTokens : tokens = used ++ (next.rest ++ []) := by rw [List.append_nil, ← hStretch.rest]
  rw [hTokens]
  simpa [Tree.procedures] using hFits

/-- A block is read line by line even if its second line starts like an index of the variable on its
first, and has newlines inside its own brackets. -/
theorem lines_of_parseTokens_block :
    let tokens : List Token :=
      [⟨.delimiter, .start, "\x7b"⟩, ⟨.newline, .start, "\n"⟩, ⟨.identifier, .start, "first"⟩,
        ⟨.newline, .start, "\n"⟩, ⟨.delimiter, .start, "["⟩, ⟨.newline, .start, "\n"⟩,
        ⟨.number, .start, "1"⟩, ⟨.newline, .start, "\n"⟩, ⟨.delimiter, .start, "]"⟩,
        ⟨.newline, .start, "\n"⟩, ⟨.delimiter, .start, "\x7d"⟩]
    ∃ document, parseTokens tokens = .ok document ∧
      List.Forall₂ Procedure.Fits document.procedures (bracedIn tokens) := by
  intro tokens
  have hOk : (parseTokens tokens).isOk = true := by decide +kernel
  cases hParse : parseTokens tokens with
  | ok document => exact ⟨document, rfl, lines_of_parseTokens hParse⟩
  | error failure =>
    rw [hParse] at hOk
    cases hOk

end DocumentLanguage
