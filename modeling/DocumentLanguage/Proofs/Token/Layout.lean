import DocumentLanguage.Proofs.Text.Indentation
import DocumentLanguage.Proofs.Token.Context

/-!
Indentation and tokens. Only literals and comments that may span lines hold line feeds, and each
of them is the same token however its lines are indented.
-/
namespace DocumentLanguage

open Pattern Text

def spanningKinds : List Kind := [.comment, .binary, .bytecode, .narrative]

/-- No line feed is in a literal, unless it is one of those that may span lines. -/
theorem Alone.not_mem_feed {kind : Kind} {text : List Char} (alone : Alone kind text)
    (hKind : kind ∉ spanningKinds) (hLayout : kind.isLayout = false) : '\n' ∉ text := by
  by_cases hDelimiter : kind = .delimiter
  · obtain ⟨word, hWord, hText⟩ := mem_delimiters_of_lexeme? alone hDelimiter
    have hAll : ∀ word ∈ delimiters, '\n' ∉ word.toList := by decide
    dsimp only at hText
    rw [hText]
    exact hAll word hWord
  · obtain ⟨hLiteral, pattern, hPattern, hEnds⟩ := alone.mem_ends hDelimiter
    have hAll : ∀ kind ∈ literalOrder, kind ∉ spanningKinds → kind.isLayout = false →
        kind.pattern?.all (stopsBefore '\n') = true := by
      decide
    have hStops := hAll kind hLiteral hKind hLayout
    rw [hPattern, Option.all_some] at hStops
    exact not_mem_of_stopsBefore (by decide) hStops hEnds

/-- Whether a text is some characters that pass a test and then a closing mark. -/
def closes (test : Char → Bool) (mark : List Char) : List Char → Bool
  | [] => mark.isEmpty
  | c :: text => c :: text = mark || (test c && closes test mark text)

/-- A text is closed by a mark just if repeating the characters before it can end at the mark. -/
theorem closes_iff {test : CharTest} {mark text : List Char} :
    closes test.holds mark text = true ↔ mark ∈ (star (one test)).ends text := by
  rw [mem_ends_star_one]
  induction text with
  | nil =>
      simp [closes]
  | cons c text ih =>
      simp only [closes, Bool.or_eq_true, decide_eq_true_eq, Bool.and_eq_true, ih]
      constructor
      · rintro (rfl | ⟨hTest, front, rfl, hFront⟩)
        · exact ⟨[], rfl, by simp⟩
        · exact ⟨c :: front, rfl, by simpa [hTest] using hFront⟩
      · rintro ⟨front, hText, hFront⟩
        cases front with
        | nil => exact .inl hText
        | cons d front =>
            obtain ⟨rfl, rfl⟩ := List.cons.inj hText
            simp only [List.mem_cons, forall_eq_or_imp] at hFront
            exact .inr ⟨hFront.1, front, rfl, hFront.2⟩

theorem closes_spaces {test : Char → Bool} {mark text : List Char} (hSpace : test ' ' = true)
    (hMark : mark.head?.all (· ≠ ' ') = true) (hFilled : mark ≠ []) (count : Nat) :
    closes test mark (List.replicate count ' ' ++ text) = closes test mark text := by
  induction count with
  | zero => rfl
  | succ count ih =>
      have hNot : ¬ ' ' :: (List.replicate count ' ' ++ text) = mark := by
        rintro rfl
        simp at hMark
      simp [List.replicate_succ, closes, hNot, hSpace, ih]

/-- A text up to a closing mark of one line stays one however it is laid out. -/
theorem closes_relaid {test : Char → Bool} {mark first second : List Char} (hSpace : test ' ' = true)
    (hFeed : test '\n' = true) (hMark : mark.head?.all (· ≠ ' ') = true) (hFilled : mark ≠ [])
    (hLine : '\n' ∉ mark) (relaid : Relaid first second)
    (hCloses : closes test mark first = true) : closes test mark second = true := by
  induction relaid with
  | nil => exact hCloses
  | cons c relaid ih =>
      simp only [closes, Bool.or_eq_true, decide_eq_true_eq, Bool.and_eq_true] at hCloses ⊢
      rcases hCloses with hEnd | ⟨hTest, hCloses⟩
      · refine .inl ?_
        have hSame := relaid.eq_of_not_mem fun hMem => hLine (by rw [← hEnd]; exact List.mem_cons_of_mem _ hMem)
        rw [hSame, hEnd]
      · exact .inr ⟨hTest, ih hCloses⟩
  | feed before after relaid ih =>
      have hNot : ∀ rest, ¬ '\n' :: rest = mark := by
        rintro rest rfl
        simp at hLine
      simp only [closes, hNot, decide_false, Bool.false_or, hFeed, Bool.true_and,
        closes_spaces hSpace hMark hFilled] at hCloses ⊢
      exact ih hCloses

/-- What is found behind two characters is found there with spaces in front of them, too. -/
theorem behind_spaces {x y : Char} {text : List Char} (hSpace : x ≠ ' ') (count : Nat) :
    behind x y (List.replicate count ' ' ++ text) = behind x y text := by
  induction count with
  | zero => rfl
  | succ count ih =>
      rw [List.replicate_succ, List.cons_append, ← ih]
      cases List.replicate count ' ' ++ text with
      | nil => rfl
      | cons c rest => simp [behind, Ne.symm hSpace]

theorem behind_cons {x y c : Char} {text : List Char} (hFirst : x ≠ c) :
    behind x y (c :: text) = behind x y text := by
  cases text with
  | nil => rfl
  | cons d text => simp [behind, Ne.symm hFirst]

/-- What lies behind a closing mark of one line is there however the text is laid out. -/
theorem behind_relaid {x y : Char} {first second rest : List Char} (hSpace : x ≠ ' ')
    (hFeed : x ≠ '\n') (hSecond : y ≠ '\n') (relaid : Relaid first second)
    (hBehind : behind x y first = some rest) :
    ∃ rest', behind x y second = some rest' ∧ Relaid rest rest' := by
  induction relaid with
  | nil => cases hBehind
  | @cons c first second relaid ih =>
      cases first with
      | nil => cases hBehind
      | cons d first =>
          obtain ⟨second, rfl⟩ : ∃ rest, second = d :: rest := by
            cases relaid with
            | cons => exact ⟨_, rfl⟩
            | feed => exact ⟨_, rfl⟩
          by_cases hMarks : c = x ∧ d = y
          · obtain ⟨rfl, rfl⟩ := hMarks
            simp only [behind, and_self, if_pos, Option.some.injEq] at hBehind ⊢
            obtain ⟨rest', hRest', hRelaid⟩ := relaid.exists_cons hSecond
            obtain rfl := (List.cons.inj hRest').2
            subst hBehind
            exact ⟨_, rfl, hRelaid⟩
          · simp only [behind, hMarks, if_false] at hBehind ⊢
            exact ih hBehind
  | feed before after relaid ih =>
      rw [behind_cons hFeed, behind_spaces hSpace] at hBehind ⊢
      exact ih hBehind

/-- A kind is that of the first token if its pattern matches and nothing tried before does. -/
theorem lexeme?_of_literal {kind : Kind} {pattern : Pattern} {text taken rest : List Char}
    (hKind : kind ∈ literalOrder) (hPattern : kind.pattern? = some pattern)
    (hHead : (pattern.ends text).head? = some rest) (hText : text = taken ++ rest)
    (hTaken : taken ≠ [])
    (hWords : (⟨.delimiter, anyWord (keywords ++ punctuation)⟩ : Trial).lexeme? text = none)
    (hBefore : ∀ other ∈ literalOrder.takeWhile (· ≠ kind), ∀ tried, other.pattern? = some tried →
      tried.ends text = []) : lexeme? text = some ⟨kind, taken, rest⟩ := by
  have hDelimiter : kind ≠ .delimiter := by
    rintro rfl
    revert hKind
    decide
  obtain ⟨before, after, hOrder, hFirst⟩ := List.eq_append_cons_of_mem hKind
  have hTried : literalOrder.takeWhile (· ≠ kind) = before := by
    have hAll : ∀ other ∈ before, decide (other ≠ kind) = true := by
      intro other hOther
      rw [decide_eq_true_eq]
      rintro rfl
      exact hFirst hOther
    rw [hOrder, List.takeWhile_append_of_pos hAll]
    simp
  have hTrials : trials =
      (⟨.delimiter, anyWord (keywords ++ punctuation)⟩ ::
        before.filterMap (fun kind => kind.pattern?.map (⟨kind, ·⟩))) ++
          ⟨kind, pattern⟩ :: (after.filterMap (fun kind => kind.pattern?.map (⟨kind, ·⟩)) ++
            [⟨.delimiter, anyWord operators⟩]) := by
    simp [trials, hOrder, hPattern]
  refine lexeme?_eq_some_iff.mpr ⟨_, _, _, hTrials, ?_, ?_⟩
  · exact Trial.lexeme?_eq_some.mpr ⟨hHead, rfl, hText, hTaken, fun hEq => absurd hEq hDelimiter⟩
  · intro trial hTrial
    rcases List.mem_cons.mp hTrial with rfl | hLiteral
    · exact hWords
    · obtain ⟨other, hOther, tried, hPatternTried, rfl⟩ : ∃ other ∈ before,
          ∃ tried, other.pattern? = some tried ∧ ⟨other, tried⟩ = trial := by
        simpa [List.mem_filterMap] using hLiteral
      exact Trial.lexeme?_eq_none_of_ends
        (hBefore other (by rw [hTried]; exact hOther) tried hPatternTried)

/-- Where no word begins as a text does none is its first token. -/
theorem lexeme?_of_head?_ends {kind : Kind} {pattern : Pattern} {c : Char}
    {text taken rest : List Char} (hKind : kind ∈ literalOrder)
    (hPattern : kind.pattern? = some pattern)
    (hHead : (pattern.ends (c :: text)).head? = some rest) (hText : c :: text = taken ++ rest)
    (hTaken : taken ≠ []) (hWords : ∀ word ∈ keywords ++ punctuation, word.toList.head? ≠ some c)
    (hBefore : ∀ other ∈ literalOrder.takeWhile (· ≠ kind), ∀ tried, other.pattern? = some tried →
      tried.ends (c :: text) = []) : lexeme? (c :: text) = some ⟨kind, taken, rest⟩ := by
  refine lexeme?_of_literal hKind hPattern hHead hText hTaken ?_ hBefore
  refine Trial.lexeme?_eq_none_of_ends (List.eq_nil_iff_forall_not_mem.mpr ?_)
  intro rest hRest
  obtain ⟨word, hWord, hText⟩ := (mem_ends_anyWord (by decide)).mp hRest
  have hFilled : ∀ word ∈ keywords ++ punctuation, word.toList ≠ [] := by decide
  obtain ⟨d, chars, hChars⟩ := List.exists_cons_of_ne_nil (hFilled word hWord)
  rw [hChars] at hText
  refine hWords word hWord ?_
  rw [hChars, (List.cons.inj hText).1]
  rfl

/-- A text is a token if its pattern takes all of it and nothing tried before matches. -/
theorem alone_of_head?_ends {kind : Kind} {pattern : Pattern} {c : Char} {text : List Char}
    (hKind : kind ∈ literalOrder) (hPattern : kind.pattern? = some pattern)
    (hHead : (pattern.ends (c :: text)).head? = some [])
    (hWords : ∀ word ∈ keywords ++ punctuation, word.toList.head? ≠ some c)
    (hBefore : ∀ other ∈ literalOrder.takeWhile (· ≠ kind), ∀ tried, other.pattern? = some tried →
      tried.ends (c :: text) = []) : Alone kind (c :: text) :=
  lexeme?_of_head?_ends hKind hPattern hHead (by simp) (by simp) hWords hBefore

/-- The comment and the narrative are still one token when they are laid out anew, since only spaces
behind line feeds come and go in them. -/
theorem Alone.relaid_enclosed {kind : Kind} {a b x y : Char} (hKind : kind ∈ literalOrder)
    (hPattern : kind.pattern? = some (enclosed a b x y)) (hOpening : a ≠ '\n' ∧ b ≠ '\n')
    (hClosing : x ≠ ' ' ∧ x ≠ '\n' ∧ y ≠ '\n')
    (hWords : ∀ word ∈ keywords ++ punctuation, word.toList.head? ≠ some a)
    (hBefore : ∀ other ∈ literalOrder.takeWhile (· ≠ kind), ∀ tried, other.pattern? = some tried →
      ∀ feed body, (feed = ['\n'] ∨ feed = ['\r', '\n']) → tried.ends (a :: b :: feed ++ body) = [])
    {first second : List Char} (alone : Alone kind first) (relaid : Relaid first second) :
    Alone kind second := by
  have hDelimiter : kind ≠ .delimiter := by
    rintro rfl
    revert hKind
    decide
  obtain ⟨-, pattern, hOwn, hHead⟩ := alone.head?_ends hDelimiter
  obtain rfl := Option.some.inj (hPattern.symm.trans hOwn)
  obtain ⟨feed, body, hFeed, rfl⟩ := exists_of_ends_enclosed
    (List.ne_nil_of_mem (List.mem_of_head? hHead))
  rw [head?_ends_enclosed a b x y body hFeed] at hHead
  -- the line feed stays where it is, and the body with it
  obtain ⟨body', rfl, hBody⟩ : ∃ body', second = a :: b :: feed ++ body' ∧
      behind x y body' = some [] := by
    have hFeedBody : ∀ {rest : List Char}, Relaid ('\n' :: body) rest →
        ∃ body', rest = '\n' :: body' ∧ behind x y body' = some [] := by
      intro rest hRest
      obtain ⟨body', rfl⟩ := hRest.exists_feed
      have hSome : behind x y ('\n' :: body) = some [] := by rw [behind_cons hClosing.2.1, hHead]
      obtain ⟨rest', hBehind, hEmpty⟩ := behind_relaid hClosing.1 hClosing.2.1 hClosing.2.2 hRest hSome
      rw [behind_cons hClosing.2.1, hEmpty.eq_of_not_mem List.not_mem_nil] at hBehind
      exact ⟨body', rfl, hBehind⟩
    obtain ⟨rest, rfl, hFirst⟩ := relaid.exists_cons hOpening.1
    obtain ⟨rest, rfl, hSecond⟩ := hFirst.exists_cons hOpening.2
    rcases hFeed with rfl | rfl
    · obtain ⟨body', rfl, hBody⟩ := hFeedBody hSecond
      exact ⟨body', rfl, hBody⟩
    · obtain ⟨rest, rfl, hReturn⟩ := hSecond.exists_cons (by decide)
      obtain ⟨body', rfl, hBody⟩ := hFeedBody hReturn
      exact ⟨body', rfl, hBody⟩
  refine alone_of_head?_ends hKind hPattern ?_ hWords ?_
  · exact (head?_ends_enclosed a b x y body' hFeed).trans hBody
  · exact fun other hOther tried hTried => hBefore other hOther tried hTried feed body' hFeed

/-- A comment is still one token when it is laid out anew. -/
theorem Alone.relaid_comment {first second : List Char} (alone : Alone .comment first)
    (relaid : Relaid first second) : Alone .comment second := by
  refine Alone.relaid_enclosed (by decide) pattern?_comment (by decide) (by decide)
    (by decide) ?_ alone relaid
  intro other hOther tried hTried feed body _
  have hAll : ∀ other ∈ literalOrder.takeWhile (· ≠ .comment), other ∈ literalOrder ∧
      other.pattern?.all (fun pattern => !pattern.opens '!') = true := by
    decide
  exact ends_eq_nil_of_all (hAll other hOther).1 hTried (hAll other hOther).2

/-- A narrative is still one token when it is laid out anew, and it is not taken for a quote. -/
theorem Alone.relaid_narrative {first second : List Char} (alone : Alone .narrative first)
    (relaid : Relaid first second) : Alone .narrative second := by
  refine Alone.relaid_enclosed (by decide) pattern?_narrative (by decide) (by decide)
    (by decide) ?_ alone relaid
  intro other hOther tried hTried feed body hFeed
  have hAll : ∀ other ∈ literalOrder.takeWhile (· ≠ .narrative), other ∈ literalOrder ∧
      (other ≠ .pattern → other.pattern?.all (fun pattern => !pattern.opens '"') = true) := by
    decide
  by_cases hPattern : other = .pattern
  · subst hPattern
    have hQuoted := ends_quoted_lineEnd feed body hFeed
    rw [List.cons_append, ends_pattern_quotation hTried, ← List.cons_append, hQuoted]
    rfl
  · exact ends_eq_nil_of_all (hAll other hOther).1 hTried ((hAll other hOther).2 hPattern)

/-- Characters that pass a test and a closing mark behind them that fails it end in one way. -/
theorem ends_closes {test : CharTest} {x : Char} {mark body rest : List Char}
    (hTest : test.holds x = false) :
    rest ∈ (cats [star (one test), Pattern.text (x :: mark)]).ends body ↔
      body.dropWhile test.holds = x :: mark ++ rest := by
  rw [ends_cats_cons, List.mem_flatMap]
  simp only [mem_ends_star_one]
  constructor
  · rintro ⟨behind, ⟨front, rfl, hFront⟩, hRest⟩
    have hMark : behind = x :: mark ++ rest := by
      simp only [cats, ends_text] at hRest
      split at hRest
      · rename_i hPrefix
        obtain ⟨more, rfl⟩ := hPrefix
        rw [List.mem_singleton.mp hRest]
        simp
      · cases hRest
    have hDrop : (x :: mark ++ rest).dropWhile test.holds = x :: mark ++ rest := by
      simp [hTest]
    rw [hMark, List.dropWhile_append_of_pos hFront, hDrop]
  · intro hDrop
    refine ⟨x :: mark ++ rest, ⟨body.takeWhile test.holds, ?_, ?_⟩, ?_⟩
    · rw [← hDrop, List.takeWhile_append_dropWhile]
    · exact fun c hMem => List.mem_takeWhile_imp hMem
    · simp [cats, ends_text]

theorem closes_iff_dropWhile {test : CharTest} {x : Char} {mark body : List Char}
    (hTest : test.holds x = false) :
    closes test.holds (x :: mark) body = true ↔ body.dropWhile test.holds = x :: mark := by
  rw [closes_iff, mem_ends_star_one]
  constructor
  · rintro ⟨front, rfl, hFront⟩
    rw [List.dropWhile_append_of_pos hFront]
    simp [hTest]
  · intro hDrop
    refine ⟨body.takeWhile test.holds, ?_, fun c hMem => List.mem_takeWhile_imp hMem⟩
    rw [← hDrop, List.takeWhile_append_dropWhile]

/-- Literals between ticks are still one token when they are laid out anew, as spaces may stand
anywhere inside them. -/
theorem Alone.relaid_ticked {kind : Kind} (first : Char) (opening : List Char) (test : CharTest)
    (x : Char) (mark : List Char) (hKind : kind ∈ literalOrder)
    (hEnds : ∀ pattern, kind.pattern? = some pattern → ∀ text, pattern.ends text =
      ((Pattern.text (first :: opening)).ends text).flatMap
        (cats [star (one test), Pattern.text (x :: mark)]).ends)
    (hTest : test.holds x = false ∧ test.holds ' ' = true ∧ test.holds '\n' = true)
    (hMark : x ≠ ' ' ∧ '\n' ∉ x :: mark ∧ '\n' ∉ first :: opening)
    (hWords : ∀ word ∈ keywords ++ punctuation, word.toList.head? ≠ some first)
    (hBefore : ∀ other ∈ literalOrder.takeWhile (· ≠ kind), ∀ tried, other.pattern? = some tried →
      ∀ body, tried.ends (first :: opening ++ body) = [])
    {text laid : List Char} (alone : Alone kind text) (relaid : Relaid text laid) :
    Alone kind laid := by
  have hDelimiter : kind ≠ .delimiter := by
    rintro rfl
    revert hKind
    decide
  obtain ⟨-, pattern, hPattern, hHead⟩ := alone.head?_ends hDelimiter
  have hMem := List.mem_of_head? hHead
  rw [hEnds pattern hPattern, ends_text] at hMem
  split at hMem
  · rename_i hPrefix
    obtain ⟨body, rfl⟩ := hPrefix
    rw [List.flatMap_cons, List.flatMap_nil, List.append_nil, List.drop_left,
      ends_closes hTest.1, List.append_nil, ← closes_iff_dropWhile hTest.1] at hMem
    obtain ⟨body', rfl, hBody⟩ : ∃ body', laid = first :: opening ++ body' ∧ Relaid body body' :=
      relaid.exists_append hMark.2.2
    have hCloses := closes_relaid hTest.2.1 hTest.2.2 (by simp [hMark.1]) (by simp) hMark.2.1 hBody hMem
    refine alone_of_head?_ends hKind hPattern ?_ hWords
      (fun other hOther tried hTried => hBefore other hOther tried hTried body')
    have hLaid : ∀ rest, rest ∈ pattern.ends (first :: (opening ++ body')) ↔ rest = [] := by
      intro rest
      have hPrefix : first :: opening <+: first :: (opening ++ body') := ⟨body', rfl⟩
      have hDrop : (first :: (opening ++ body')).drop (first :: opening).length = body' := by simp
      rw [hEnds pattern hPattern, ends_text, if_pos hPrefix, hDrop, List.flatMap_cons,
        List.flatMap_nil, List.append_nil, ends_closes hTest.1,
        (closes_iff_dropWhile hTest.1).mp hCloses]
      simp
    cases hList : pattern.ends (first :: (opening ++ body')) with
    | nil =>
        have hNil := (hLaid []).mpr rfl
        rw [hList] at hNil
        cases hNil
    | cons rest others =>
        have hRest := (hLaid rest).mp (by simp [hList])
        rw [hRest]
        rfl
  · cases hMem

def binaryTest : CharTest :=
  .oneOf [.range 'A' 'Z', .range 'a' 'z', .range '0' '9', .char '+', .char '/', .char '=', .blank]

def bytecodeTest : CharTest :=
  .oneOf [.range '0' '9', .range 'a' 'f', .range 'A' 'F', .blank]

/-- A binary is still one token when it is laid out anew. -/
theorem Alone.relaid_binary {text laid : List Char} (alone : Alone .binary text)
    (relaid : Relaid text laid) : Alone .binary laid := by
  refine Alone.relaid_ticked '\'' [] binaryTest '\'' [] (by decide) ?_ (by decide) (by decide)
    (by decide) ?_ alone relaid
  · rintro pattern ⟨⟩ text
    rfl
  · intro other hOther tried hTried body
    have hAll : ∀ other ∈ literalOrder.takeWhile (· ≠ .binary), other ∈ literalOrder ∧
        other.pattern?.all (fun pattern => !pattern.opens '\'') = true := by
      decide
    exact ends_eq_nil_of_all (hAll other hOther).1 hTried (hAll other hOther).2

/-- A bytecode is still one token when it is laid out anew, since blanks may stand anywhere inside
it. -/
theorem Alone.relaid_bytecode {text laid : List Char} (alone : Alone .bytecode text)
    (relaid : Relaid text laid) : Alone .bytecode laid := by
  refine Alone.relaid_ticked '\'' ['['] bytecodeTest ']' ['\''] (by decide) ?_ (by decide) (by decide)
    (by decide) ?_ alone relaid
  · rintro pattern ⟨⟩ text
    rfl
  · intro other hOther tried hTried body
    have hAll : ∀ other ∈ literalOrder.takeWhile (· ≠ .bytecode), other ∈ literalOrder ∧
        (other ≠ .binary → other.pattern?.all (fun pattern => !pattern.opens '\'') = true) := by
      decide
    by_cases hBinary : other = .binary
    · subst hBinary
      cases hTried
      have hEnds : (cats [char '\'', star (one binaryTest), char '\'']).ends
          ('\'' :: '[' :: body) =
            (cats [star (one binaryTest), Pattern.text ['\'']]).ends ('[' :: body) := by
        have hMark : (char '\'').ends ('\'' :: '[' :: body) = ['[' :: body] := rfl
        rw [ends_cats_cons, hMark, List.flatMap_cons, List.flatMap_nil, List.append_nil]
        rfl
      refine List.eq_nil_iff_forall_not_mem.mpr ?_
      intro rest hRest
      have hDrop := (ends_closes (by decide)).mp (hEnds ▸ hRest :)
      have hFirst : ('[' :: body).dropWhile binaryTest.holds = '[' :: body := rfl
      rw [hFirst] at hDrop
      cases hDrop
    · exact ends_eq_nil_of_all (hAll other hOther).1 hTried ((hAll other hOther).2 hBinary)

/-- A token that is no layout is one by itself however it is indented. -/
theorem Alone.relaid {kind : Kind} {text laid : List Char} (alone : Alone kind text)
    (hLayout : kind.isLayout = false) (relaid : Relaid text laid) : Alone kind laid := by
  by_cases hSpanning : kind ∈ spanningKinds
  · simp only [spanningKinds, List.mem_cons, List.not_mem_nil, or_false] at hSpanning
    rcases hSpanning with rfl | rfl | rfl | rfl
    · exact alone.relaid_comment relaid
    · exact alone.relaid_binary relaid
    · exact alone.relaid_bytecode relaid
    · exact alone.relaid_narrative relaid
  · rw [relaid.eq_of_not_mem (alone.not_mem_feed hSpanning hLayout)]
    exact alone

/-- The character that every match of a pattern ends with, if it is plain from its end. -/
def Pattern.closer? : Pattern → Option Char
  | one (.char c) => some c
  | cat _ second => second.closer?
  | _ => none

/-- A pattern with a closing character takes this character last. -/
theorem exists_of_closer? {pattern : Pattern} {c : Char} (hCloser : pattern.closer? = some c)
    {text rest : List Char} (hRest : rest ∈ pattern.ends text) :
    ∃ front, text = front ++ c :: rest := by
  induction pattern generalizing text with
  | one test =>
      cases test with
      | char d =>
          obtain rfl : d = c := Option.some.inj hCloser
          cases text with
          | nil => cases hRest
          | cons e text =>
              by_cases hSame : e = d
              · obtain rfl : rest = text := by simpa [ends, CharTest.holds, hSame] using hRest
                exact ⟨[], by rw [hSame]; rfl⟩
              · simp [ends, CharTest.holds, hSame] at hRest
      | _ => cases hCloser
  | cat first second _ ih =>
      obtain ⟨middle, hMiddle, hSecond⟩ := List.mem_flatMap.mp hRest
      obtain ⟨front, rfl⟩ := ih hCloser hSecond
      obtain ⟨taken, rfl⟩ := shrinks_ends first text _ hMiddle
      exact ⟨taken ++ front, by simp⟩
  | _ => cases hCloser

/-- A token that may span lines ends with a mark, not with a line feed. -/
theorem Alone.getLast?_spanning {kind : Kind} {text : List Char} (alone : Alone kind text)
    (hKind : kind ∈ spanningKinds) : ∃ c, c ≠ '\n' ∧ text.getLast? = some c := by
  have hAll : ∀ kind ∈ spanningKinds, kind ≠ .delimiter ∧
      (kind.pattern?.bind Pattern.closer?).any (· ≠ '\n') = true := by
    decide
  obtain ⟨hDelimiter, hClosers⟩ := hAll kind hKind
  obtain ⟨-, pattern, hPattern, hEnds⟩ := alone.mem_ends hDelimiter
  rw [hPattern, Option.bind_some] at hClosers
  obtain ⟨c, hCloser, hFeed⟩ := (Option.any_eq_true _ _).mp hClosers
  obtain ⟨front, rfl⟩ := exists_of_closer? hCloser hEnds
  exact ⟨c, by simpa using hFeed, by simp⟩

/-- Taking the indentation of a token away gives the token back, if its last line stands flush. -/
theorem Alone.dedent_indent {kind : Kind} {text : String} (alone : Alone kind text.toList)
    (hLayout : kind.isLayout = false) (hFlush : Text.endsFlush text = true) (depth : Nat) :
    Text.dedent (Text.indent text depth) = text := by
  by_cases hKind : kind ∈ spanningKinds
  · obtain ⟨c, hFeed, hLast⟩ := alone.getLast?_spanning hKind
    exact Text.dedent_indent hFlush hFeed hLast depth
  · have hLine := alone.not_mem_feed hKind hLayout
    rw [Text.indent_of_not_mem hLine, Text.dedent_of_not_mem hLine]

end DocumentLanguage
