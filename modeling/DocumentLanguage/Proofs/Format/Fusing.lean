import DocumentLanguage.Proofs.Format.Shows
import DocumentLanguage.Tree.Inspection

/-!
The two places where the canonical text of a node does not say what the node holds. A moniker at the
head of a range takes the points behind it, and a minus sign becomes part of a number whose first
digit is not an ASCII one.
-/
namespace DocumentLanguage

open Canonical Pattern

def Primitive.isMoniker : Tree .primitive → Bool
  | .mk (.oneOf .string _ (.mk (.literal kind _))) => kind = .moniker
  | _ => false

def Range.fuses : Tree .range → Bool
  | .mk (.sequence (.text _ (.child first _))) => Primitive.isMoniker first

/-- Whether an inversion has a minus sign right before a digit. -/
def Inversion.fuses : Tree .inversion → Bool
  | .mk (.sequence (.text sign (.child subject .nil))) =>
    sign = "-" && (Subject.element? subject).any fun text =>
      text.toList.head?.any fun c => Unicode.isDecimalDigit c && !c.isDigit

/-- Whether tokens of a node run into each other where it is written. -/
def Node.fuses : Node → Bool
  | ⟨.range, tree⟩ => Range.fuses tree
  | ⟨.inversion, tree⟩ => Inversion.fuses tree
  | _ => false

/-- Whether no tokens of a tree run into each other where it is written. -/
def Tree.Faithful {rule : Rule} (tree : Tree rule) : Prop :=
  ∀ node ∈ tree.nodes, node.fuses = false

theorem Tree.faithful_mk {rule : Rule} {content : Content rule.form} :
    (Tree.mk content).Faithful ↔ Node.fuses ⟨rule, .mk content⟩ = false ∧
      ∀ child ∈ content.children, child.tree.Faithful :=
  Tree.forall_nodes_mk

/-- A source holds a document, and whether tokens of that run into each other can be looked up. -/
theorem exists_faithful_iff {source : String} {fuses : Bool}
    (hFuses : ((parse source).toOption.map fun document => document.nodes.any Node.fuses) = some fuses) :
    ∃ document, parse source = .ok document ∧ (document.Faithful ↔ fuses = false) := by
  cases hParse : parse source with
  | error failure =>
      rw [hParse] at hFuses
      cases hFuses
  | ok document =>
      rw [hParse] at hFuses
      refine ⟨document, rfl, ?_⟩
      rw [← Option.some.inj hFuses, List.any_eq_false]
      exact forall₂_congr fun node _ => Bool.not_eq_true _ ▸ Iff.rfl

/-- What is read from a source with a digit outside ASCII behind a minus sign is not read from its
canonical text. -/
theorem canonical_fuses :
    ∃ document, parse "\x7b return - \u0663 \x7d" = .ok document ∧ ¬ document.Faithful ∧
      parse document.canonical ≠ .ok document := by
  have hInspect : ((parse "\x7b return - \u0663 \x7d").toOption.map fun document =>
      document.inspect.reparsed.toOption) = some (some false) := by
    decide +kernel
  obtain ⟨document, hParse, hFaithful⟩ :=
    @exists_faithful_iff "\x7b return - \u0663 \x7d" true (by decide +kernel)
  refine ⟨document, hParse, by simp [hFaithful], fun hSame => ?_⟩
  rw [hParse] at hInspect
  simp [Document.inspect, hSame, Except.map, Except.toOption] at hInspect

section

variable {step : List Char → List (List Char)} {property : List Char → Prop}

/-- What holds of all that a step prefers to leave over holds of what many runs of it prefer. -/
theorem head?_mostRuns (hStep : ∀ text, ∀ rest ∈ (step text).head?, property rest) (bound : Nat)
    {text : List Char} (hText : property text) :
    ∃ rest, (mostRuns step bound text).head? = some rest ∧ property rest := by
  induction bound generalizing text with
  | zero => exact ⟨text, rfl, hText⟩
  | succ bound ih =>
      cases hRests : step text with
      | nil => exact ⟨text, by simp [mostRuns, hRests], hText⟩
      | cons first rests =>
          obtain ⟨rest, hHead, hRest⟩ := ih (hStep text first (by simp [hRests]))
          exact ⟨rest, by simp [mostRuns, hRests, hHead], hRest⟩

end

/-- Two characters and a repetition behind them are taken as long as they can be. -/
theorem head?_ends_pair_star {first second repeated : CharTest} {text rest : List Char}
    (hHead : rest ∈ ((cats [one first, one second, star (one repeated)]).ends text).head?) :
    ∀ c ∈ rest.head?, repeated.holds c = false := by
  intro c hNext
  have hStar : cats [star (one repeated)] = star (one repeated) := rfl
  rw [ends_cats_cons] at hHead
  cases text with
  | nil => cases hHead
  | cons x text =>
      by_cases hFirst : first.holds x = true
      · simp only [ends, hFirst, if_true, List.flatMap_cons, List.flatMap_nil,
          List.append_nil] at hHead
        rw [ends_cats_cons] at hHead
        cases text with
        | nil => cases hHead
        | cons y text =>
            by_cases hSecond : second.holds y = true
            · simp only [ends, hSecond, if_true, List.flatMap_cons, List.flatMap_nil,
                List.append_nil] at hHead
              rw [hStar, head?_ends_star_one] at hHead
              have hNot := List.head?_dropWhile_not repeated.holds text
              rw [Option.some.inj hHead, Option.mem_def.mp hNext] at hNot
              exact hNot
            · simp [ends, hSecond] at hHead
      · simp [ends, hFirst] at hHead

/-- A moniker is taken as long as it can be: what stands behind it is no character that a moniker
could go on with. -/
theorem head?_ends_moniker {items : List SetItem} {text rest : List Char}
    (hHead : ((plus (cats [char '/', oneOf letters, star (oneOf items)])).ends text).head? = some rest)
    {c : Char} (hNext : c ∈ rest.head?) : (CharTest.oneOf items).holds c = false := by
  have hStep : ∀ text, ∀ rest ∈ ((cats [char '/', oneOf letters, star (oneOf items)]).ends text).head?,
      ∀ c ∈ rest.head?, (CharTest.oneOf items).holds c = false :=
    fun text rest hRest => head?_ends_pair_star hRest
  rw [ends_plus] at hHead
  cases hRests : (cats [char '/', oneOf letters, star (oneOf items)]).ends text with
  | nil =>
      rw [hRests] at hHead
      cases hHead
  | cons first rests =>
      obtain ⟨last, hLast, hProperty⟩ := head?_mostRuns hStep first.length
        (hStep text first (by simp [hRests]))
      have hStar : (star (cats [char '/', oneOf letters, star (oneOf items)])).ends first =
          mostRuns (cats [char '/', oneOf letters, star (oneOf items)]).ends first.length first := rfl
      rw [hRests, List.flatMap_cons, List.head?_append, hStar, hLast, Option.some_or] at hHead
      rw [Option.some.inj hHead] at hProperty
      exact hProperty c hNext

/-- Nothing but a delimiter or a literal that opens with the first character comes first. -/
theorem kind_of_lexeme?_cons {c : Char} {source : List Char} {lexeme : Lexeme}
    (hLexeme : lexeme? (c :: source) = some lexeme) {kinds : List Kind}
    (hOthers : ∀ other ∈ literalOrder, other ∉ kinds →
      other.pattern?.all (fun pattern => !pattern.opens c) = true) :
    lexeme.kind = .delimiter ∨
      lexeme.kind ∈ kinds ∧ ∃ pattern, lexeme.kind.pattern? = some pattern ∧
        (pattern.ends (c :: source)).head? = some lexeme.rest := by
  obtain ⟨before, trial, after, hTrials, hTrial, -⟩ := lexeme?_eq_some_iff.mp hLexeme
  obtain ⟨hHead, hKind, -, -, -⟩ := Trial.lexeme?_eq_some.mp hTrial
  have hMem : trial ∈ trials := by simp [hTrials]
  rcases mem_trials.mp hMem with rfl | ⟨hLiteral, hPattern⟩ | rfl
  · exact .inl hKind
  · refine .inr ⟨?_, trial.pattern, ?_, hHead⟩
    · rw [hKind]
      by_contra hNone
      rw [ends_eq_nil_of_all hLiteral hPattern (hOthers trial.kind hLiteral hNone)] at hHead
      cases hHead
    · rw [hKind]
      exact hPattern
  · exact .inl hKind

/-- Spaces in front of tokens make no difference to the terminals that these say. -/
theorem matches_dropWhile {terminals : List Terminal} {tokens : List Token}
    (hMatches : Matches terminals tokens) :
    Matches terminals (tokens.dropWhile (·.kind = .space)) := by
  induction tokens with
  | nil => exact hMatches
  | cons token tokens ih =>
      by_cases hSpace : token.kind = .space
      · rw [List.dropWhile_cons_of_pos (by simpa using hSpace)]
        exact ih ((matches_pass (Kind.isLayout_iff.mpr (.inl hSpace))).mp hMatches)
      · rwa [List.dropWhile_cons_of_neg (by simpa using hSpace)]

/-- A text is blocked if its first token is no layout and not what the first terminal says. -/
theorem Shows.never {c : Char} {text ending : List Char} {terminal : Terminal}
    {terminals : List Terminal} (hSpace : c ≠ ' ') (hLead : terminal.lead ≠ .kind .newline)
    (hError : ∀ token : Token, terminal.reads token → token.kind ≠ .error)
    (hNever : ∀ lexeme, lexeme? (c :: text ++ ending) = some lexeme →
      lexeme.kind.isLayout = false ∧ ∀ token : Token, token.kind = lexeme.kind →
        token.text.toList = lexeme.text → ¬ terminal.reads token) :
    Shows False (c :: text) (terminal :: terminals) ending where
  reads := fun hFalse => hFalse.elim
  blocks := by
    intro _ tokens more behind hMatches
    rw [Behind, List.cons_append, List.dropWhile_cons_of_neg (by simpa using hSpace)] at behind
    replace hMatches := matches_dropWhile hMatches
    generalize tokens.dropWhile (·.kind = .space) = tokens at behind hMatches
    rw [Matches, List.cons_append, List.filter_cons_of_pos (by simpa using hLead)] at hMatches
    cases behind with
    | token hLexeme hKind hText =>
        obtain ⟨hLayout, hOther⟩ := hNever _ hLexeme
        rw [← hKind] at hLayout
        rw [List.filter_cons_of_pos (by simp [hLayout])] at hMatches
        exact hOther _ hKind hText (List.forall₂_cons.mp hMatches).1
    | error _ hKind =>
        rw [List.filter_cons_of_pos (by simp [hKind, Kind.isLayout])] at hMatches
        exact hError _ (List.forall₂_cons.mp hMatches).1 hKind

/-- A moniker runs into points behind it, since a point may be inside a moniker. It does not show
its terminal before them. -/
theorem shows_moniker_points {text : String} (alone : Alone .moniker text.toList)
    (terminals : List Terminal) (ending : List Char) :
    Shows False text.toList (.dedented .moniker text :: terminals) ('.' :: ending) := by
  have hPoint : ∀ pattern, Kind.moniker.pattern? = some pattern → ∀ source rest,
      (pattern.ends source).head? = some rest → rest.head? ≠ some '.' := by
    rintro pattern ⟨⟩ source rest hHead hNext
    exact absurd (head?_ends_moniker hHead (Option.mem_def.mpr hNext)) (by decide)
  have hKinds : ∀ other ∈ literalOrder, other ∉ [Kind.moniker] →
      other.pattern?.all (fun pattern => !pattern.opens '/') = true := by
    decide
  obtain ⟨body, hText⟩ : ∃ body, text.toList = '/' :: body := by
    obtain ⟨c, body, hText⟩ := List.exists_cons_of_ne_nil alone.ne_nil
    obtain ⟨-, pattern, hPattern, hEnds⟩ := alone.mem_ends (by decide)
    rw [hText] at hEnds
    have hOpens := opens_of_mem_ends hEnds
    obtain ⟨items, hMoniker⟩ := pattern?_moniker
    obtain rfl := Option.some.inj (hMoniker.symm.trans hPattern)
    have hSlash : c = '/' := by simpa [plus, cats, char, opens, nullable, CharTest.holds] using hOpens
    exact ⟨body, by rw [hText, hSlash]⟩
  rw [hText]
  refine Shows.never (by decide) (by simp [Terminal.lead]) ?_ ?_
  · rintro token ⟨hKind, -⟩
    simp [hKind]
  · intro lexeme hLexeme
    rcases kind_of_lexeme?_cons hLexeme hKinds with hKind | ⟨hKind, pattern, hOwn, hHead⟩
    · rw [hKind]
      refine ⟨rfl, ?_⟩
      rintro token hToken - ⟨hSame, -⟩
      rw [hToken] at hSame
      cases hSame
    · obtain hMoniker := List.mem_singleton.mp hKind
      rw [hMoniker] at hOwn ⊢
      refine ⟨rfl, ?_⟩
      rintro token - hTaken ⟨-, hDedent⟩
      have hLine : '\n' ∉ token.text.toList := by
        intro hMem
        have hBack := (Text.relaid_dedent token.text).symm.mem (by decide) hMem
        rw [hDedent] at hBack
        exact alone.not_mem_feed (by decide) rfl hBack
      rw [Text.dedent_of_not_mem hLine] at hDedent
      rw [hDedent, hText] at hTaken
      have hSource := (lexeme?_text_append_rest hLexeme).1
      rw [← hTaken] at hSource
      have hRest := List.append_cancel_left hSource
      exact hPoint pattern hOwn _ _ hHead (by rw [← hRest]; rfl)

/-- A sign and a digit begin a number, whatever the script of the digit is. -/
theorem mem_ends_number {c : Char} (hDigit : Unicode.isDecimalDigit c = true) {pattern : Pattern}
    (hPattern : Kind.number.pattern? = some pattern) (ending : List Char) :
    ending ∈ pattern.ends ('-' :: c :: ending) := by
  obtain ⟨patterns, rfl, hOptional⟩ : ∃ patterns, pattern = cats (opt (char '-') :: digits :: patterns) ∧
      ∀ text, text ∈ (cats patterns).ends text := by
    cases hPattern
    refine ⟨_, rfl, fun text => ?_⟩
    have hOpt : ∀ body, text ∈ (opt body).ends text := fun body => by simp [ends]
    refine List.mem_flatMap.mpr ⟨text, hOpt _, ?_⟩
    exact List.mem_flatMap.mpr ⟨text, hOpt _, hOpt _⟩
  have hSign : c :: ending ∈ (opt (char '-')).ends ('-' :: c :: ending) := by
    simp [char, ends, CharTest.holds]
  have hDigits : ending ∈ digits.ends (c :: ending) := by
    refine List.mem_flatMap.mpr ⟨ending, ?_, mem_ends_star_one.mpr ⟨[], rfl, by simp⟩⟩
    have hHolds : CharTest.digit.holds c = true := hDigit
    simp [digit, ends, hHolds]
  rw [ends_cats_cons]
  refine List.mem_flatMap.mpr ⟨c :: ending, hSign, ?_⟩
  rw [ends_cats_cons]
  exact List.mem_flatMap.mpr ⟨ending, hDigits, hOptional ending⟩

/-- Where a literal can be read a delimiter is read only if it is tried before. -/
theorem mem_words_of_lexeme? {source : List Char} {lexeme : Lexeme}
    (hLexeme : lexeme? source = some lexeme) (hKind : lexeme.kind = .delimiter) {kind : Kind}
    {pattern : Pattern} (hLiteral : kind ∈ literalOrder) (hPattern : kind.pattern? = some pattern)
    (hEnds : pattern.ends source ≠ []) :
    ∃ word ∈ keywords ++ punctuation, lexeme.text = word.toList := by
  have hTrials : trials = (⟨.delimiter, anyWord (keywords ++ punctuation)⟩ ::
      literalOrder.filterMap (fun kind => kind.pattern?.map (⟨kind, ·⟩))) ++
        [⟨.delimiter, anyWord operators⟩] := rfl
  have hMem : (⟨kind, pattern⟩ : Trial) ∈ (⟨.delimiter, anyWord (keywords ++ punctuation)⟩ ::
      literalOrder.filterMap (fun kind => kind.pattern?.map (⟨kind, ·⟩)) : List Trial) := by
    refine List.mem_cons_of_mem _ (List.mem_filterMap.mpr ⟨kind, hLiteral, ?_⟩)
    rw [hPattern]
    rfl
  rw [lexeme?, hTrials, List.findSome?_append] at hLexeme
  cases hFirst : (⟨.delimiter, anyWord (keywords ++ punctuation)⟩ ::
      literalOrder.filterMap (fun kind => kind.pattern?.map (⟨kind, ·⟩)) : List Trial).findSome?
        (·.lexeme? source) with
  | none =>
      have hNone := List.findSome?_eq_none_iff.mp hFirst _ hMem
      exact absurd (ends_eq_nil_of_lexeme?_eq_none hLiteral hPattern hNone) hEnds
  | some first =>
      rw [hFirst, Option.some_or] at hLexeme
      obtain rfl := Option.some.inj hLexeme
      obtain ⟨trial, hTrial, hSome⟩ := List.exists_of_findSome?_eq_some hFirst
      obtain ⟨hHead, hSame, hText, -, -⟩ := Trial.lexeme?_eq_some.mp hSome
      rcases List.mem_cons.mp hTrial with rfl | hOther
      · obtain ⟨word, hWord, hSource⟩ := (mem_ends_anyWord (by decide)).mp (List.mem_of_head? hHead)
        rw [hText] at hSource
        exact ⟨word, hWord, List.append_cancel_right hSource⟩
      · obtain ⟨other, hLiteralOther, tried, -, rfl⟩ : ∃ other ∈ literalOrder,
            ∃ tried, other.pattern? = some tried ∧ ⟨other, tried⟩ = trial := by
          simpa [List.mem_filterMap] using hOther
        have hOwn : other = .delimiter := hSame.symm.trans hKind
        rw [hOwn] at hLiteralOther
        exact absurd hLiteralOther (by decide)

/-- A minus sign runs into a digit behind it and is read as the sign of a number, not as a token of
its own. -/
theorem shows_minus_digit {c : Char} (hDigit : Unicode.isDecimalDigit c = true)
    (terminals : List Terminal) (ending : List Char) :
    Shows False "-".toList (.verbatim .delimiter "-" :: terminals) (c :: ending) := by
  have hKinds : ∀ other ∈ literalOrder, other ∉ [Kind.percentage, Kind.number] →
      other.pattern?.all (fun pattern => !pattern.opens '-') = true := by
    decide
  refine @Shows.never '-' [] _ _ _ (by decide) (by decide) ?_ ?_
  · rintro token ⟨hKind, -⟩
    simp [hKind]
  · intro lexeme hLexeme
    rcases kind_of_lexeme?_cons hLexeme hKinds with hKind | ⟨hKind, -⟩
    · rw [hKind]
      refine ⟨rfl, ?_⟩
      rintro token - hText ⟨-, hSign⟩
      obtain ⟨pattern, hPattern⟩ : ∃ pattern, Kind.number.pattern? = some pattern := ⟨_, rfl⟩
      obtain ⟨word, hWord, hSame⟩ := mem_words_of_lexeme? hLexeme hKind (by decide) hPattern
        (List.ne_nil_of_mem (mem_ends_number hDigit hPattern ending))
      rw [← hText, hSign] at hSame
      have hAll : ∀ word ∈ keywords ++ punctuation, "-".toList ≠ word.toList := by decide
      exact hAll word hWord hSame
    · have hAll : ∀ kind ∈ [Kind.percentage, Kind.number],
          kind.isLayout = false ∧ kind ≠ .delimiter := by decide
      refine ⟨(hAll _ hKind).1, ?_⟩
      rintro token hToken - ⟨hSame, -⟩
      exact (hAll _ hKind).2 (hToken.symm.trans hSame)

end DocumentLanguage
