import DocumentLanguage.Proofs.Grammar.Adjacent
import DocumentLanguage.Proofs.Parse.Derivation
import DocumentLanguage.Proofs.Validation.Spelled

/-!
Documents that were read pass the validator. A word is taken for another kind of token in its
source than by itself only where a number follows it at once, and the grammar has no such place.
-/
namespace DocumentLanguage

open Validator

/-- Whether a terminal stands for a token that is kept. -/
def Terminal.Keeps (terminal : Terminal) (held : KeptToken) : Prop :=
  terminal = .verbatim held.kind held.text ∨
    (terminal = .dedented held.kind held.text ∧ held.kind.isLayout = false)

/-- The terminal of a kept token is kept as that token, at any place. -/
theorem Terminal.keeps_kept (place : Nat) (kind : Kind) (text : String) :
    (Terminal.kept kind text).Keeps ⟨place, kind, text⟩ := by
  by_cases hComment : kind = .comment
  · subst hComment
    exact .inr ⟨rfl, rfl⟩
  · exact .inl (by simp [Terminal.kept, hComment])

/-- What is kept in some place is woven in between the fixed terminals. -/
theorem subset_weave {parts : List Part} {marks : List (List Terminal)}
    (hLength : marks.length = (parts.filter fun part => part.fixed?.isNone).length) :
    ∀ mark ∈ marks, mark ⊆ weave parts marks := by
  induction parts generalizing marks with
  | nil =>
      rw [List.eq_nil_of_length_eq_zero hLength]
      simp
  | cons part parts ih =>
      cases hFixed : part.fixed? with
      | some terminals =>
          simp only [List.filter_cons, hFixed, Option.isNone_some, Bool.false_eq_true, if_false] at hLength
          simp only [weave, hFixed]
          exact fun mark hMark => List.subset_append_of_subset_right _ (ih hLength mark hMark)
      | none =>
          cases marks with
          | nil => simp
          | cons first marks =>
              simp only [List.filter_cons, hFixed, Option.isNone_none, if_true, List.length_cons,
                Nat.add_right_cancel_iff] at hLength
              simp only [weave, hFixed, List.mem_cons, forall_eq_or_imp]
              exact ⟨List.subset_append_left _ _,
                fun mark hMark => List.subset_append_of_subset_right _ (ih hLength mark hMark)⟩

theorem Fields.length_marks (parts : List Part) (fields : Fields (fieldsOf parts)) :
    fields.marks.length = (parts.filter fun part => part.fixed?.isNone).length := by
  induction parts with
  | nil =>
      cases fields
      rfl
  | cons part parts ih =>
      cases part with
      | keyword | delimiter | newline | commit => exact ih fields
      | choice | token =>
          cases fields with
          | text kept rest => exact congrArg (· + 1) (ih rest)
      | optionalToken =>
          cases fields with
          | optionalText kept rest => exact congrArg (· + 1) (ih rest)
      | child | line =>
          cases fields with
          | child tree rest => exact congrArg (· + 1) (ih rest)
      | optional =>
          cases fields with
          | absent rest => exact congrArg (· + 1) (ih rest)
          | present tree rest => exact congrArg (· + 1) (ih rest)
      | many | some =>
          cases fields with
          | many trees rest => exact congrArg (· + 1) (ih rest)

/-- The terminals of a node include those of its children, so that a fact about all of them passes
down. -/
theorem Content.terminals_child_subset {form : Form} (content : Content form) :
    ∀ child ∈ content.children, child.tree.terminals ⊆ content.terminals := by
  cases content with
  | literal => simp [Content.children]
  | oneOf rule allowed tree =>
      intro child hChild
      rw [List.mem_singleton.mp hChild]
      exact List.Subset.refl _
  | sequence fields =>
      intro child hChild
      obtain ⟨stored, hStored, hNode⟩ := List.mem_flatMap.mp hChild
      have hMark : stored.terminals ∈ fields.marks := by
        rw [fields.marks_eq]
        exact List.mem_map_of_mem hStored
      refine List.Subset.trans ?_ (subset_weave (Fields.length_marks _ fields) _ hMark)
      cases stored with
      | text | optionalText => cases hNode
      | child node =>
          rw [List.mem_singleton.mp hNode]
          exact List.Subset.refl _
      | optional node => exact fun terminal hMem => List.mem_flatMap.mpr ⟨child, hNode, hMem⟩
      | many nodes => exact fun terminal hMem => List.mem_flatMap.mpr ⟨child, hNode, hMem⟩

/-- Every token that is kept among fields has a terminal among theirs. -/
theorem exists_keeps_of_stored {stored : List Stored} {place : Nat} :
    ∀ held ∈ tokensFrom place stored, ∃ mark ∈ stored.map Stored.terminals,
      ∃ terminal ∈ mark, terminal.Keeps held := by
  induction stored generalizing place with
  | nil => simp [tokensFrom]
  | cons first stored ih =>
      have hRest : ∀ held ∈ tokensFrom (place + 1) stored,
          ∃ mark ∈ (first :: stored).map Stored.terminals, ∃ terminal ∈ mark, terminal.Keeps held := by
        intro held hHeld
        obtain ⟨mark, hMark, hTerminal⟩ := ih held hHeld
        exact ⟨mark, List.mem_cons_of_mem _ hMark, hTerminal⟩
      have hHere : ∀ kind text, first.terminals = [Terminal.kept kind text] →
          ∃ mark ∈ (first :: stored).map Stored.terminals, ∃ terminal ∈ mark,
            terminal.Keeps ⟨place, kind, text⟩ := by
        intro kind text hFirst
        refine ⟨first.terminals, by simp, .kept kind text, by simp [hFirst], ?_⟩
        exact Terminal.keeps_kept place kind text
      cases first with
      | text kind text =>
          simp only [tokensFrom, List.mem_cons, forall_eq_or_imp]
          exact ⟨hHere kind text rfl, hRest⟩
      | optionalText kind text =>
          cases text with
          | none => exact hRest
          | some text =>
              simp only [tokensFrom, List.mem_cons, forall_eq_or_imp]
              exact ⟨hHere kind text rfl, hRest⟩
      | child | optional | many => exact hRest

def Form.kinds : Form → List Kind
  | literal kinds => kinds
  | oneOf _ | sequence _ _ => []

theorem Rule.kinds_not_layout (rule : Rule) : ∀ kind ∈ rule.form.kinds, kind.isLayout = false := by
  cases rule <;> decide

/-- Every token that a node holds has a terminal of the node, if its form has no layout in it. -/
theorem Content.exists_keeps {form : Form} (content : Content form) (hMade : content.made = true)
    (hLayout : ∀ kind ∈ form.kinds, kind.isLayout = false) :
    ∀ held ∈ content.tokens, ∃ terminal ∈ content.terminals, terminal.Keeps held := by
  cases content with
  | literal kind text =>
      intro held hHeld
      rw [List.mem_singleton.mp hHeld]
      simp only [made, List.contains_eq_mem, decide_eq_true_eq] at hMade
      exact ⟨.dedented kind text, List.mem_cons_self, .inr ⟨rfl, hLayout kind hMade⟩⟩
  | oneOf => simp [Content.tokens]
  | sequence fields =>
      intro held hHeld
      obtain ⟨mark, hMark, terminal, hTerminal, hKeeps⟩ := exists_keeps_of_stored held hHeld
      rw [← fields.marks_eq] at hMark
      exact ⟨terminal, subset_weave (Fields.length_marks _ fields) mark hMark hTerminal, hKeeps⟩

/-- Every token that a tree keeps, at any node, has a terminal of the tree that it was read for. -/
theorem Tree.exists_keeps {rule : Rule} (tree : Tree rule) (made : tree.Made) :
    ∀ node ∈ tree.nodes, ∀ held ∈ node.tree.content.tokens,
      ∃ terminal ∈ tree.terminals, terminal.Keeps held := by
  induction tree using Tree.induct with
  | step rule content ih =>
      obtain ⟨hMade, hChildren⟩ := Tree.made_mk.mp made
      refine Tree.forall_nodes_mk.mpr ⟨content.exists_keeps hMade rule.kinds_not_layout, ?_⟩
      intro child hChild node hNode held hHeld
      obtain ⟨terminal, hTerminal, hKeeps⟩ := ih child hChild (hChildren child hChild) node hNode held hHeld
      exact ⟨terminal, content.terminals_child_subset child hChild hTerminal, hKeeps⟩

/-- A terminal stands for a token, and what comes behind the token for the terminals behind. -/
theorem Along.exists_split {passes : Kind → Bool} {before after : List Terminal} {terminal : Terminal}
    {tokens last : List Token} (along : Along passes (before ++ terminal :: after) tokens last) :
    ∃ front token rest, tokens = front ++ token :: rest ∧ terminal.reads token ∧
      token.kind ≠ .error ∧ Along passes after rest last := by
  generalize hTerminals : before ++ terminal :: after = terminals at along
  induction along generalizing before with
  | stop => simp at hTerminals
  | @pass _ token _ _ hPass _ ih =>
      obtain ⟨front, found, rest, rfl, hFound⟩ := ih hTerminals
      exact ⟨token :: front, found, rest, rfl, hFound⟩
  | @read first _ token _ _ hReads hSpace hError along ih =>
      cases before with
      | nil =>
          obtain ⟨rfl, rfl⟩ := List.cons.inj hTerminals
          exact ⟨[], token, _, rfl, hReads, hError, along⟩
      | cons head before =>
          obtain ⟨rfl, hTail⟩ := List.cons.inj hTerminals
          obtain ⟨front, found, rest, rfl, hFound⟩ := ih hTail
          exact ⟨token :: front, found, rest, rfl, hFound⟩

/-- The next token that is no layout stands for the next terminal. -/
theorem Along.exists_head {passes : Kind → Bool} {terminals : List Terminal} {token : Token}
    {tokens last : List Token} (along : Along passes terminals (token :: tokens) last)
    (hPasses : passes token.kind = false) (hLast : ∀ token ∈ last, passes token.kind = true) :
    ∃ terminal rest, terminals = terminal :: rest ∧ terminal.reads token ∧ token.kind ≠ .error := by
  cases along with
  | stop =>
      rw [hLast token List.mem_cons_self] at hPasses
      cases hPasses
  | pass hPass =>
      rw [hPass] at hPasses
      cases hPasses
  | read hReads _ hError => exact ⟨_, _, rfl, hReads, hError⟩

/-- A token of a source is the first lexeme where it stands. -/
theorem Scanned.of_append_cons {source : List Char} {front rest : List Token} {token : Token}
    (scanned : Scanned source (front ++ token :: rest)) (hError : token.kind ≠ .error) :
    ∃ behind, lexeme? (token.text.toList ++ behind) =
      some ⟨token.kind, token.text.toList, behind⟩ ∧ Scanned behind rest := by
  induction front generalizing source with
  | nil =>
      cases scanned with
      | @token _ lexeme _ _ hLexeme hKind hText scanned =>
          obtain ⟨hSource, -⟩ := lexeme?_text_append_rest hLexeme
          refine ⟨lexeme.rest, ?_, scanned⟩
          rw [hKind, hText, ← hSource]
          exact hLexeme
      | error hNone hKind => exact absurd hKind hError
  | cons first front ih =>
      rw [List.cons_append] at scanned
      generalize hTokens : front ++ token :: rest = tokens at scanned
      cases scanned with
      | token _ _ _ scanned =>
          rw [← hTokens] at scanned
          exact ih scanned
      | error => simp at hTokens

/-- The lead of a terminal that reads a literal or a name is its kind. -/
theorem Terminal.lead_eq_kind {terminal : Terminal} {token : Token} (hReads : terminal.reads token)
    (hKind : token.kind ≠ .delimiter) : terminal.lead = .kind token.kind := by
  cases terminal with
  | verbatim kind text =>
      obtain ⟨rfl, -⟩ := hReads
      simp [lead, Lead.of, hKind]
  | dedented kind text =>
      obtain ⟨rfl, -⟩ := hReads
      rfl
  | newline =>
      have hNewline : token.kind = .newline := hReads
      rw [hNewline]
      rfl

/-- A token that stands for a terminal of a document is one token by itself. -/
theorem alone_of_along {source : List Char} {tokens last : List Token}
    {before after : List Terminal} {terminal : Terminal} (scanned : Scanned source tokens)
    (along : Along Kind.isLayout (before ++ terminal :: after) tokens last)
    (hLast : ∀ token ∈ last, token.kind.isLayout = true)
    (parted : Parted (before ++ terminal :: after)) :
    ∃ token, terminal.reads token ∧ Alone token.kind token.text.toList := by
  obtain ⟨front, token, rest, rfl, hReads, hError, hAfter⟩ := along.exists_split
  obtain ⟨behind, hLexeme, hRest⟩ := scanned.of_append_cons hError
  refine ⟨token, hReads, ?_⟩
  by_cases hDelimiter : token.kind = .delimiter
  · obtain ⟨word, hWord, hText⟩ := mem_delimiters_of_lexeme? hLexeme hDelimiter
    dsimp only at hText
    rw [hDelimiter, hText]
    exact alone_delimiter hWord
  · refine alone_of_lexeme? hLexeme hDelimiter ?_
    intro hBegins
    by_contra hContinues
    rw [Bool.not_eq_false] at hContinues
    cases behind with
    | nil => cases hContinues
    | cons c behind =>
        obtain ⟨hLetter, hAlphanum⟩ := isAlphanum_of_beginsWord hLexeme hDelimiter hBegins
        -- what follows is a number, or no token at all
        obtain ⟨next, others, rfl, hNext⟩ : ∃ next others, rest = next :: others ∧
            (next.kind ∈ digitKinds ∨ next.kind = .error) := by
          cases hRest with
          | token hNextLexeme hKind =>
              refine ⟨_, _, rfl, .inl ?_⟩
              rw [hKind]
              exact kind_of_continuesWord hNextLexeme hContinues hAlphanum
          | error _ hKind => exact ⟨_, _, rfl, .inr hKind⟩
        have hNotLayout : next.kind.isLayout = false := by
          rcases hNext with hDigit | hNextError
          · have hAll : ∀ kind ∈ digitKinds, kind.isLayout = false := by decide
            exact hAll _ hDigit
          · rw [hNextError]
            rfl
        obtain ⟨second, others, rfl, hSecond, hNextError⟩ := hAfter.exists_head hNotLayout hLast
        have hDigit := hNext.resolve_right hNextError
        have hWord : terminal.lead.isWord = true := by
          have hAll : ∀ kind ∈ letterKinds, (Lead.kind kind).isWord = true := by decide
          rw [Terminal.lead_eq_kind hReads hDelimiter]
          exact hAll _ hLetter
        have hNumber : second.lead.isNumber = true := by
          have hAll : ∀ kind ∈ digitKinds,
              kind ≠ .delimiter ∧ (Lead.kind kind).isNumber = true := by decide
          rw [Terminal.lead_eq_kind hSecond (hAll _ hDigit).1]
          exact (hAll _ hDigit).2
        have hPrecedes : terminal.mayPrecede second :=
          (List.isChain_append_cons_cons.mp parted).2.1
        rw [hPrecedes hWord] at hNumber
        cases hNumber

/-- The tokens that a parsed document keeps are tokens by themselves, since each was one in its
source. -/
theorem spelled_of_parse {source : String} {document : Document}
    (hParse : parse source = .ok document) : document.Spelled ∧ document.Made := by
  rw [parse_eq] at hParse
  obtain ⟨made, last, along, hLast⟩ := along_of_parseTokens hParse
  refine ⟨?_, made⟩
  intro node hNode held hHeld
  obtain ⟨terminal, hTerminal, hKeeps⟩ := document.exists_keeps made node hNode held hHeld
  obtain ⟨before, after, hSplit⟩ := List.append_of_mem hTerminal
  have parted := document.parted made
  rw [hSplit] at along parted
  obtain ⟨token, hReads, alone⟩ :=
    alone_of_along (scanned_scan (Text.expandTabs source)) along hLast parted
  rcases hKeeps with rfl | ⟨rfl, hLayout⟩
  · obtain ⟨hKind, hText⟩ := hReads
    rwa [hKind, hText] at alone
  · obtain ⟨hKind, hText⟩ := hReads
    rw [hKind] at alone
    have hRelaid := Text.relaid_dedent token.text
    rw [hText] at hRelaid
    exact alone.relaid hLayout hRelaid

/-- A document that is read from a source passes the validator. Each token it keeps looks like its
kind and is, scanned by itself, one token of that kind. -/
theorem validate_of_parse {source : String} {document : Document}
    (hParse : parse source = .ok document) :
    document.validate = .ok () ∧ ∀ node ∈ document.nodes, ∀ held ∈ node.tree.content.tokens,
      held.kind.accepts held.text = true ∧ soleKind? held.text = some held.kind := by
  obtain ⟨spelled, made⟩ := spelled_of_parse hParse
  refine ⟨Tree.validate_eq_ok.mpr (Tree.passesAll_iff.mpr ⟨spelled, made⟩).1, ?_⟩
  intro node hNode held hHeld
  have alone := spelled node hNode held hHeld
  exact ⟨alone.accepts, (soleKind?_eq_some_iff_alone (kind_ne_error_of_lexeme? alone)).mpr alone⟩

/-- A list with a word in it and a literal over two lines is valid once it is parsed. -/
theorem validate_of_parse_list :
    ∃ document, parse "[true, '[\n    0f\n  ]']" = .ok document ∧ document.validate = .ok () ∧
      ∀ node ∈ document.nodes, ∀ held ∈ node.tree.content.tokens,
        held.kind.accepts held.text = true ∧ soleKind? held.text = some held.kind := by
  have hOk : (parse "[true, '[\n    0f\n  ]']").isOk = true := by
    rw [parse_eq]
    decide +kernel
  cases hParse : parse "[true, '[\n    0f\n  ]']" with
  | ok document => exact ⟨document, rfl, validate_of_parse hParse⟩
  | error failure =>
      rw [hParse] at hOk
      cases hOk

end DocumentLanguage
