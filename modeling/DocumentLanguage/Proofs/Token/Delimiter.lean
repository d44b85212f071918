import DocumentLanguage.Proofs.Token.Boundary

/-!
Where delimiters end. A delimiter is read as itself unless what follows makes it a longer
delimiter, goes on with its word, or opens a literal together with it.
-/
namespace DocumentLanguage

open Pattern

def delimiters : List String := keywords ++ punctuation ++ operators

/-- Whether a longer delimiter, or a longer word, begins with a delimiter and a character. -/
def lengthens (word : List Char) (c : Char) : Bool :=
  delimiters.any (fun other => (word ++ [c]).isPrefixOf other.toList) || splitsWord word (some c)

/-- Whether a literal may begin with an operator and a character behind it. -/
def opensLiteral (word : List Char) (c : Char) : Bool :=
  match word with
  | ['-'] | ['.'] => Unicode.isDecimalDigit c
  | ['<'] => Unicode.isDecimalDigit c || ('a' ≤ c && c ≤ 'z')
  | ['/'] => ('a' ≤ c && c ≤ 'z') || ('A' ≤ c && c ≤ 'Z')
  | _ => false

/-- Whether a delimiter ends before an ending. -/
def delimiterEnds (word ending : List Char) : Bool :=
  ending.head?.all fun c => !lengthens word c && !opensLiteral word c

/-- A delimiter that goes on into an ending is a longer one. -/
theorem lengthens_of_prefix {word other ending : List Char} (hPrefix : other <+: word ++ ending)
    (hLonger : word.length < other.length) :
    ∃ c, ending.head? = some c ∧ word ++ [c] <+: other := by
  have hWord : word <+: other :=
    List.prefix_of_prefix_length_le (List.prefix_append word ending) hPrefix (by omega)
  obtain ⟨more, rfl⟩ := hWord
  have hMore : more <+: ending := (List.prefix_append_right_inj word).mp hPrefix
  cases more with
  | nil => simp at hLonger
  | cons c more =>
      obtain ⟨rest, rfl⟩ := hMore
      exact ⟨c, rfl, by simp⟩

/-- Of the delimiters that begin a source none is longer than one that ends there. -/
theorem length_le_of_delimiterEnds {word ending : List Char}
    (hEnding : delimiterEnds word ending = true) {other : String} (hOther : other ∈ delimiters)
    (hPrefix : other.toList <+: word ++ ending) : other.toList.length ≤ word.length := by
  by_contra hLonger
  obtain ⟨c, hHead, hMore⟩ := lengthens_of_prefix hPrefix (by omega)
  simp only [delimiterEnds, hHead, Option.all_some, Bool.and_eq_true, Bool.not_eq_true',
    lengthens, Bool.or_eq_false_iff] at hEnding
  have hAny : delimiters.any (fun other => (word ++ [c]).isPrefixOf other.toList) = true :=
    List.any_eq_true.mpr ⟨other, hOther, List.isPrefixOf_iff_prefix.mpr hMore⟩
  rw [hAny] at hEnding
  cases hEnding.1.1

/-- A delimiter that ends here is not split off from a word. -/
theorem splitsWord_of_delimiterEnds {word ending : List Char}
    (hEnding : delimiterEnds word ending = true) : splitsWord word ending.head? = false := by
  cases ending with
  | nil => exact Trial.splitsWord_none word
  | cons c ending =>
      simp only [delimiterEnds, List.head?_cons, Option.all_some, Bool.and_eq_true,
        Bool.not_eq_true', lengthens, Bool.or_eq_false_iff] at hEnding
      exact hEnding.1.2

/-- Among words to choose from the one that ends there is taken. -/
theorem lexeme?_anyWord {words : List String} {word : String} {ending : List Char}
    (hWords : words ⊆ delimiters) (hWord : word ∈ words)
    (hEnding : delimiterEnds word.toList ending = true) :
    (⟨.delimiter, anyWord words⟩ : Trial).lexeme? (word.toList ++ ending) =
      some ⟨.delimiter, word.toList, ending⟩ := by
  have hNonempty : ∀ word ∈ delimiters, word.toList ≠ [] := by decide
  refine Trial.lexeme?_eq_some.mpr ⟨?_, rfl, rfl, hNonempty word (hWords hWord), ?_⟩
  · refine head?_ends_anyWord hWord ?_
    intro other hOther hPrefix
    exact length_le_of_delimiterEnds hEnding (hWords hOther) hPrefix
  · exact fun _ => splitsWord_of_delimiterEnds hEnding

/-- No keyword and no punctuation begins an operator, so that operators are found although they are
tried last. -/
theorem not_prefix_operator : ∀ operator ∈ operators, ∀ other ∈ keywords ++ punctuation,
    ¬ other.toList <+: operator.toList := by
  decide

/-- Behind its first character a match must go on, which it cannot if the next pattern does not open
with what is there. -/
theorem ends_behind_eq_nil {x c : Char} {pattern : Pattern} {patterns : List Pattern}
    {text : List Char} (hOpens : pattern.opens c = false) (hNullable : pattern.nullable = false) :
    (cats (char x :: pattern :: patterns)).ends (x :: c :: text) = [] := by
  have hChar : (char x).ends (x :: c :: text) = [c :: text] := by
    simp [char, ends, CharTest.holds]
  rw [ends_cats_cons, hChar, List.flatMap_cons, List.flatMap_nil, List.append_nil, ends_cats_cons,
    ends_eq_nil_of_not_opens hOpens hNullable, List.flatMap_nil]

/-- Behind its sign a number must go on with a digit. -/
theorem ends_signed_eq_nil {c : Char} {patterns : List Pattern} {text : List Char}
    (hDigit : Unicode.isDecimalDigit c = false) :
    (cats (opt (char '-') :: digits :: patterns)).ends ('-' :: c :: text) = [] := by
  have hSign : (opt (char '-')).ends ('-' :: c :: text) = [c :: text, '-' :: c :: text] := by
    simp [char, ends, CharTest.holds]
  have hDigits : ∀ {d : Char} {rest : List Char}, Unicode.isDecimalDigit d = false →
      (cats (digits :: patterns)).ends (d :: rest) = [] := by
    intro d rest hNone
    have hFirst : digits.ends (d :: rest) = [] := ends_eq_nil_of_not_opens hNone rfl
    rw [ends_cats_cons, hFirst, List.flatMap_nil]
  rw [ends_cats_cons, hSign]
  simp only [List.flatMap_cons, List.flatMap_nil, List.append_nil]
  rw [hDigits hDigit, hDigits (by decide), List.append_nil]

/-- The kinds that can begin with each operator's first character. -/
def kindsOpening : Char → List Kind
  | '-' => [.percentage, .number]
  | '.' => [.probability]
  | '<' => [.moment, .resource]
  | '/' => [.moniker]
  | _ => []

theorem not_opens_operator : ∀ operator ∈ operators, ∀ c ∈ operator.toList.head?,
    ∀ kind ∈ literalOrder, kind ∉ kindsOpening c →
      kind.pattern?.all (fun pattern => !pattern.opens c) = true := by
  decide

/-- An operator that stands alone is no literal of any kind. -/
theorem ends_operator_nil : ∀ operator ∈ operators, ∀ kind ∈ literalOrder,
    kind.pattern?.all (fun pattern => (pattern.ends operator.toList).isEmpty) = true := by
  decide

def letters : List SetItem := [.range 'a' 'z', .range 'A' 'Z']

theorem holds_letters (c : Char) : (CharTest.oneOf letters).holds c = c.isAlpha := by
  have hAlpha : c.isAlpha = (c.isUpper || c.isLower) := rfl
  have hUpper : c.isUpper = (decide ('A' ≤ c) && decide (c ≤ 'Z')) := by
    rw [← Bool.decide_and]
    rfl
  have hLower : c.isLower = (decide ('a' ≤ c) && decide (c ≤ 'z')) := rfl
  rw [hAlpha, hUpper, hLower, Bool.or_comm]
  simp [letters, CharTest.holds, SetItem.holds]

theorem holds_alphanumeric (c : Char) :
    (CharTest.oneOf (letters ++ [.range '0' '9'])).holds c = c.isAlphanum := by
  have hAlphanum : c.isAlphanum = (c.isAlpha || (decide ('0' ≤ c) && decide (c ≤ '9'))) := rfl
  rw [hAlphanum, ← holds_letters]
  simp [letters, CharTest.holds, SetItem.holds, Bool.or_assoc]

theorem pattern?_moniker : ∃ items, Kind.moniker.pattern? =
    some (plus (cats [char '/', oneOf letters, star (oneOf items)])) := ⟨_, rfl⟩

/-- Where no literal may begin with a mark and the character behind it, none does. -/
theorem ends_opening_cons {x c : Char} {text : List Char} (hOpens : opensLiteral [x] c = false)
    {kind : Kind} (hMember : kind ∈ kindsOpening x) {pattern : Pattern}
    (hPattern : kind.pattern? = some pattern) : pattern.ends (x :: c :: text) = [] := by
  simp only [kindsOpening] at hMember
  split at hMember <;> simp only [List.mem_cons, List.not_mem_nil, or_false] at hMember
  · rcases hMember with rfl | rfl <;> cases hPattern <;> exact ends_signed_eq_nil hOpens
  · subst hMember
    cases hPattern
    exact ends_behind_eq_nil hOpens rfl
  · simp only [opensLiteral, Bool.or_eq_false_iff] at hOpens
    rcases hMember with rfl | rfl <;> cases hPattern
    · exact ends_behind_eq_nil hOpens.1 rfl
    · refine ends_behind_eq_nil ?_ rfl
      simp [oneOf, opens, CharTest.holds, SetItem.holds, hOpens.2]
  · subst hMember
    obtain ⟨items, hMoniker⟩ := pattern?_moniker
    obtain rfl := Option.some.inj (hMoniker.symm.trans hPattern)
    have hLetter : (oneOf letters).opens c = false := by
      simpa [oneOf, letters, opens, CharTest.holds, SetItem.holds, opensLiteral] using hOpens
    rw [ends_plus, ends_behind_eq_nil hLetter rfl, List.flatMap_nil]

/-- Where no literal may begin with an operator and what follows it, none does. -/
theorem ends_operator_cons {operator : String} (hOperator : operator ∈ operators) {c : Char}
    {ending : List Char} (hOpens : opensLiteral operator.toList c = false) {kind : Kind}
    (hKind : kind ∈ literalOrder) {pattern : Pattern} (hPattern : kind.pattern? = some pattern) :
    pattern.ends (operator.toList ++ c :: ending) = [] := by
  have hShort : ∀ operator ∈ operators,
      operator.toList = ['/', '/'] ∨ operator.toList.tail = [] ∧ operator.toList ≠ [] := by
    decide
  obtain ⟨first, next, rest, hText, hFirst, hNext⟩ : ∃ first next rest,
      operator.toList ++ c :: ending = first :: next :: rest ∧
        first ∈ operator.toList.head? ∧ opensLiteral [first] next = false := by
    rcases hShort operator hOperator with hSlashes | ⟨hTail, hNonempty⟩
    · exact ⟨'/', '/', c :: ending, by rw [hSlashes]; rfl, by rw [hSlashes]; rfl, by decide⟩
    · obtain ⟨first, more, hText⟩ := List.exists_cons_of_ne_nil hNonempty
      rw [hText] at hTail hOpens ⊢
      obtain rfl : more = [] := hTail
      exact ⟨first, c, ending, rfl, rfl, hOpens⟩
  rw [hText]
  by_cases hMember : kind ∈ kindsOpening first
  · exact ends_opening_cons hNext hMember hPattern
  · have hNone := not_opens_operator operator hOperator first hFirst kind hKind hMember
    rw [hPattern, Option.all_some, Bool.not_eq_true'] at hNone
    exact ends_eq_nil_of_not_opens hNone (productive_pattern hKind hPattern).2

/-- No literal begins with an operator where the operator ends. What would go on from it is not
there. -/
theorem ends_operator_eq_nil {operator : String} (hOperator : operator ∈ operators)
    {ending : List Char} (hEnding : delimiterEnds operator.toList ending = true) {kind : Kind}
    (hKind : kind ∈ literalOrder) {pattern : Pattern} (hPattern : kind.pattern? = some pattern) :
    pattern.ends (operator.toList ++ ending) = [] := by
  cases ending with
  | nil =>
      have hNone := ends_operator_nil operator hOperator kind hKind
      rw [hPattern, Option.all_some, List.isEmpty_iff] at hNone
      rw [List.append_nil, hNone]
  | cons c ending =>
      simp only [delimiterEnds, List.head?_cons, Option.all_some, Bool.and_eq_true,
        Bool.not_eq_true'] at hEnding
      exact ends_operator_cons hOperator hEnding.2 hKind hPattern

/-- A delimiter is one token where nothing goes on from it: neither a longer delimiter nor a word
nor a number. -/
theorem lexeme?_delimiter {word : String} {ending : List Char} (hWord : word ∈ delimiters)
    (hEnding : delimiterEnds word.toList ending = true) :
    lexeme? (word.toList ++ ending) = some ⟨.delimiter, word.toList, ending⟩ := by
  have hTrials : trials = ⟨.delimiter, anyWord (keywords ++ punctuation)⟩ ::
      literalOrder.filterMap (fun kind => kind.pattern?.map (⟨kind, ·⟩)) ++
        [⟨.delimiter, anyWord operators⟩] := rfl
  rcases List.mem_append.mp hWord with hFirst | hOperator
  · refine lexeme?_eq_some_iff.mpr ⟨[], _, _, hTrials, ?_, by simp⟩
    exact lexeme?_anyWord (List.subset_append_left _ _) hFirst hEnding
  · refine lexeme?_eq_some_iff.mpr ⟨_, _, [], hTrials, ?_, ?_⟩
    · exact lexeme?_anyWord (List.subset_append_right _ _) hOperator hEnding
    · intro trial hTrial
      refine Trial.lexeme?_eq_none_of_ends ?_
      rcases List.mem_cons.mp hTrial with rfl | hLiteral
      · refine List.eq_nil_iff_forall_not_mem.mpr ?_
        intro rest hRest
        obtain ⟨other, hOther, hText⟩ := (mem_ends_anyWord (by decide)).mp hRest
        have hPrefix : other.toList <+: word.toList ++ ending := ⟨rest, hText.symm⟩
        have hLength := length_le_of_delimiterEnds hEnding
          (List.mem_append_left operators hOther) hPrefix
        exact not_prefix_operator word hOperator other hOther
          (List.prefix_of_prefix_length_le hPrefix (List.prefix_append _ _) hLength)
      · obtain ⟨kind, hKind, pattern, hPattern, rfl⟩ : ∃ kind ∈ literalOrder,
            ∃ pattern, kind.pattern? = some pattern ∧ ⟨kind, pattern⟩ = trial := by
          simpa [List.mem_filterMap] using hLiteral
        exact ends_operator_eq_nil hOperator hEnding hKind hPattern

/-- A token that is a delimiter has one of the delimiters as its text, because no trial for a
literal is one for delimiters. -/
theorem mem_delimiters_of_lexeme? {source : List Char} {lexeme : Lexeme}
    (hLexeme : lexeme? source = some lexeme) (hKind : lexeme.kind = .delimiter) :
    ∃ word ∈ delimiters, lexeme.text = word.toList := by
  obtain ⟨before, trial, after, hTrials, hTrial, -⟩ := lexeme?_eq_some_iff.mp hLexeme
  obtain ⟨hHead, hSame, hText, -, -⟩ := Trial.lexeme?_eq_some.mp hTrial
  have hMem : trial ∈ trials := by simp [hTrials]
  have hWords : ∀ {words : List String}, words ⊆ delimiters → words ≠ [] →
      lexeme.rest ∈ (anyWord words).ends source → ∃ word ∈ delimiters, lexeme.text = word.toList := by
    intro words hWords hNonempty hRest
    obtain ⟨word, hWord, hSource⟩ := (mem_ends_anyWord hNonempty).mp hRest
    rw [hText] at hSource
    exact ⟨word, hWords hWord, List.append_cancel_right hSource⟩
  rcases mem_trials.mp hMem with rfl | ⟨hLiteral, -⟩ | rfl
  · exact hWords (List.subset_append_left _ _) (by decide) (List.mem_of_head? hHead)
  · rw [← hSame, hKind] at hLiteral
    exact absurd hLiteral (by decide)
  · exact hWords (List.subset_append_right _ _) (by decide) (List.mem_of_head? hHead)

/-- Every delimiter is one token by itself, as nothing follows that could make it longer. -/
theorem alone_delimiter {word : String} (hWord : word ∈ delimiters) :
    Alone .delimiter word.toList := by
  have hAlone : lexeme? (word.toList ++ []) = some ⟨.delimiter, word.toList, []⟩ :=
    lexeme?_delimiter hWord rfl
  rwa [List.append_nil] at hAlone

/-- A token that is one by itself looks like its kind. -/
theorem Alone.accepts {kind : Kind} {text : String} (alone : Alone kind text.toList) :
    kind.accepts text = true := by
  by_cases hDelimiter : kind = .delimiter
  · subst hDelimiter
    obtain ⟨word, hWord, hText⟩ := mem_delimiters_of_lexeme? alone rfl
    dsimp only at hText
    have hEnds : [] ∈ (anyWord delimiters).ends word.toList :=
      (mem_ends_anyWord (by decide)).mpr ⟨word, hWord, by simp⟩
    have hPattern : Kind.delimiter.pattern? = some (anyWord delimiters) := rfl
    rw [Kind.accepts, hPattern, Option.any_some, hText]
    exact List.any_eq_true.mpr ⟨[], hEnds, rfl⟩
  · obtain ⟨-, pattern, hPattern, hEnds⟩ := alone.mem_ends hDelimiter
    rw [Kind.accepts, hPattern, Option.any_some]
    exact List.any_eq_true.mpr ⟨[], hEnds, rfl⟩

end DocumentLanguage
