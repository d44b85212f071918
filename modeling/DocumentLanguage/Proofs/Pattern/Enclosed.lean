import DocumentLanguage.Proofs.Pattern.Words

/-!
Texts between marks. A quote has at most one end. A text that may hold anything ends where its
closing mark first comes.
-/
namespace DocumentLanguage.Pattern

/-- One step through a quote: a plain character, or any with a backslash before it. -/
def quoteStep : Pattern :=
  alts [noneOf [.char '"', .char '\\', .char '\r', .char '\n'], cats [char '\\', one .inLine]]

def quoted : Pattern :=
  cats [char '"', star quoteStep, char '"']

theorem pattern?_quote : Kind.quote.pattern? = some quoted := rfl

/-- A pattern literal is one of two words, or a quote with its mark behind it. -/
theorem pattern?_pattern : Kind.pattern.pattern? =
    some (alts [cats [alts [text "none".toList, text "any".toList], wordEnd],
      cats [quoted, char '?']]) := rfl

/-- A step through a quote goes on in one way, and the closing mark is none. -/
theorem ends_quoteStep (text : List Char) :
    quoteStep.ends text = [] ∨
      (char '"').ends text = [] ∧ ∃ rest, quoteStep.ends text = [rest] := by
  cases text with
  | nil => exact .inl rfl
  | cons c text =>
      by_cases hEscape : c = '\\'
      · subst hEscape
        cases text with
        | nil => exact .inl rfl
        | cons d text =>
            by_cases hLine : d = '\n'
            · subst hLine
              exact .inl rfl
            · refine .inr ⟨rfl, text, ?_⟩
              simp [quoteStep, alts, cats, noneOf, char, ends, CharTest.holds, SetItem.holds, hLine]
      · by_cases hPlain : c = '"' ∨ c = '\r' ∨ c = '\n'
        · refine .inl ?_
          rcases hPlain with rfl | rfl | rfl <;> rfl
        · simp only [not_or] at hPlain
          refine .inr ⟨by simp [char, ends, CharTest.holds, hPlain.1], text, ?_⟩
          simp [quoteStep, alts, cats, noneOf, char, ends, CharTest.holds, SetItem.holds, hEscape,
            hPlain]

/-- At each place a quote either goes on in one way or ends. -/
theorem length_ends_quoteTail (text : List Char) :
    ((cat (star quoteStep) (char '"')).ends text).length ≤ 1 := by
  have hNullable : quoteStep.nullable = false := rfl
  induction hLength : text.length using Nat.strongRecOn generalizing text with
  | ind length ih =>
      have hStep : (cat (star quoteStep) (char '"')).ends text =
          (quoteStep.ends text).flatMap (cat (star quoteStep) (char '"')).ends ++
            (char '"').ends text := by
        have hStar : (cat (star quoteStep) (char '"')).ends text =
            ((star quoteStep).ends text).flatMap (char '"').ends := rfl
        rw [hStar, ends_star hNullable, List.flatMap_append, List.flatMap_assoc]
        simp only [List.flatMap_cons, List.flatMap_nil, List.append_nil]
        rfl
      rw [hStep]
      rcases ends_quoteStep text with hNone | ⟨hClose, rest, hRest⟩
      · rw [hNone]
        cases text with
        | nil => simp [char, ends]
        | cons c text =>
            simp only [char, ends, List.flatMap_nil, List.nil_append]
            split <;> simp
      · have hLess := takes_ends hNullable text rest (by simp [hRest])
        rw [hRest, hClose]
        simpa using ih rest.length (by omega) rest rfl

/-- A quote has at most one end: nothing inside it can be the closing quotation mark, and an escape
takes the character behind it. -/
theorem length_ends_quoted (text : List Char) : (quoted.ends text).length ≤ 1 := by
  cases text with
  | nil => simp [quoted, cats, char, ends]
  | cons c text =>
      have hQuoted : quoted.ends (c :: text) =
          ((char '"').ends (c :: text)).flatMap (cat (star quoteStep) (char '"')).ends := rfl
      rw [hQuoted]
      by_cases hMark : c = '"'
      · subst hMark
        have hChar : (char '"').ends ('"' :: text) = [text] := rfl
        rw [hChar, List.flatMap_cons, List.flatMap_nil, List.append_nil]
        exact length_ends_quoteTail text
      · have hChar : (char '"').ends (c :: text) = [] := by
          simp [char, ends, CharTest.holds, hMark]
        rw [hChar]
        exact Nat.zero_le _

/-- A quote that ends with a text still does before an ending, and nowhere else. -/
theorem ends_quoted_append {text rest : List Char} (hEnds : rest ∈ quoted.ends text)
    (ending : List Char) : quoted.ends (text ++ ending) = [rest ++ ending] := by
  have hLocal : Local quoted.ends ending := local_ends rfl (.inl rfl)
  have hMem : rest ++ ending ∈ reaching ending (quoted.ends (text ++ ending)) := by
    rw [hLocal text]
    exact List.mem_map_of_mem hEnds
  have hSingle := length_ends_quoted (text ++ ending)
  cases hList : quoted.ends (text ++ ending) with
  | nil =>
      rw [hList] at hMem
      cases hMem
  | cons first others =>
      rw [hList] at hMem hSingle
      obtain rfl : others = [] := List.eq_nil_of_length_eq_zero (by simpa using hSingle)
      rw [List.mem_singleton.mp (List.mem_of_mem_filter hMem)]

/-- What lies behind the first place where two characters stand side by side. -/
def behind (x y : Char) : List Char → Option (List Char)
  | c :: d :: rest => if c = x ∧ d = y then some rest else behind x y (d :: rest)
  | _ => none

/-- What is found behind two characters is still found there when more text follows. -/
theorem behind_append {x y : Char} {text rest : List Char} (hBehind : behind x y text = some rest)
    (ending : List Char) : behind x y (text ++ ending) = some (rest ++ ending) := by
  induction text with
  | nil => cases hBehind
  | cons c text ih =>
      cases text with
      | nil => cases hBehind
      | cons d text =>
          simp only [behind, List.cons_append] at hBehind ⊢
          split
          · rename_i hEq
            rw [if_pos hEq] at hBehind
            cases hBehind
            rfl
          · rename_i hNe
            rw [if_neg hNe] at hBehind
            exact ih hBehind

theorem ends_anything (text : List Char) : anything.ends text = text.tails := by
  have hRuns : ∀ text, fewestRuns (oneOf [.blank, .nonBlank]).ends text.length text = text.tails := by
    intro text
    induction text with
    | nil => rfl
    | cons c text ih =>
        have hOne : (oneOf [.blank, .nonBlank]).ends (c :: text) = [text] := by
          simp [oneOf, ends, CharTest.holds, SetItem.holds]
        simp only [List.length_cons, fewestRuns, hOne, List.flatMap_cons, List.flatMap_nil,
          List.append_nil, List.tails, ih]
  exact hRuns text

/-- Two characters that are asked for are taken together or not at all. -/
theorem ends_pair (x y : Char) (text : List Char) :
    (Pattern.text [x, y]).ends text =
      match text with
      | c :: d :: rest => if c = x ∧ d = y then [rest] else []
      | _ => [] := by
  cases text with
  | nil => rfl
  | cons c text =>
      by_cases hFirst : c = x
      · subst hFirst
        cases text with
        | nil => simp [Pattern.text, cats, char, ends, CharTest.holds]
        | cons d text => simp [Pattern.text, cats, char, ends, CharTest.holds]
      · cases text <;> simp [Pattern.text, cats, char, ends, CharTest.holds, hFirst]

/-- As little as possible of anything goes as far as the first closing mark. -/
theorem head?_ends_closing (x y : Char) (text : List Char) :
    ((cats [anything, Pattern.text [x, y]]).ends text).head? = behind x y text := by
  have hCat : (cats [anything, Pattern.text [x, y]]).ends text =
      text.tails.flatMap (Pattern.text [x, y]).ends := by
    rw [← ends_anything]
    rfl
  rw [hCat]
  clear hCat
  induction text with
  | nil => rfl
  | cons c text ih =>
      simp only [List.tails, List.flatMap_cons, List.head?_append, ends_pair x y (c :: text)]
      cases text with
      | nil => simp [behind, ends_pair, List.tails]
      | cons d text =>
          simp only [behind]
          split
          · simp
          · simpa using ih

/-- A text of any number of lines between two marks, the first of which stands alone on its line. -/
def enclosed (a b x y : Char) : Pattern :=
  cats [Pattern.text [a, b], lineEnd, anything, Pattern.text [x, y]]

theorem pattern?_comment : Kind.comment.pattern? = some (enclosed '!' '>' '<' '!') := rfl

theorem pattern?_narrative : Kind.narrative.pattern? = some (enclosed '"' '>' '<' '"') := rfl

/-- A line end is a line feed, with or without a carriage return before it, and it ends in one way.
-/
theorem ends_lineEnd (text : List Char) :
    lineEnd.ends text =
      match text with
      | '\r' :: '\n' :: rest => [rest]
      | '\n' :: rest => [rest]
      | _ => [] := by
  split
  · rfl
  · rfl
  · rename_i hReturn hFeed
    cases text with
    | nil => rfl
    | cons c text =>
        have hNotFeed : c ≠ '\n' := fun hEq => hFeed text (by rw [hEq])
        by_cases hEq : c = '\r'
        · subst hEq
          cases text with
          | nil => rfl
          | cons d text =>
              have hNotFeed : d ≠ '\n' := fun hEq => hReturn text (by rw [hEq])
              simp [lineEnd, cats, char, ends, CharTest.holds, hNotFeed]
        · simp [lineEnd, cats, char, ends, CharTest.holds, hEq, hNotFeed]

/-- An enclosed text has its two marks and a line end in front. Behind these it ends wherever the
closing marks stand. -/
theorem ends_enclosed (a b x y : Char) (text : List Char) :
    (enclosed a b x y).ends text =
      match text with
      | c :: d :: rest =>
        if c = a ∧ d = b then
          (lineEnd.ends rest).flatMap (cats [anything, Pattern.text [x, y]]).ends
        else []
      | _ => [] := by
  have hCat : (enclosed a b x y).ends text =
      ((Pattern.text [a, b]).ends text).flatMap fun rest =>
        (lineEnd.ends rest).flatMap (cats [anything, Pattern.text [x, y]]).ends := rfl
  rw [hCat, ends_pair]
  split
  · split <;> simp
  · rfl

/-- Behind its opening an enclosed text ends with its first closing mark. -/
theorem head?_ends_enclosed (a b x y : Char) {feed : List Char} (body : List Char)
    (hFeed : feed = ['\n'] ∨ feed = ['\r', '\n']) :
    ((enclosed a b x y).ends (a :: b :: feed ++ body)).head? = behind x y body := by
  rcases hFeed with rfl | rfl
  · rw [ends_enclosed]
    simp only [List.cons_append, List.nil_append, and_self, if_pos, ends_lineEnd,
      List.flatMap_cons, List.flatMap_nil, List.append_nil]
    exact head?_ends_closing x y body
  · rw [ends_enclosed]
    simp only [List.cons_append, List.nil_append, and_self, if_pos, ends_lineEnd,
      List.flatMap_cons, List.flatMap_nil, List.append_nil]
    exact head?_ends_closing x y body

/-- What an enclosed text begins with: its opening marks and the end of their line. -/
theorem exists_of_ends_enclosed {a b x y : Char} {text : List Char}
    (hEnds : (enclosed a b x y).ends text ≠ []) :
    ∃ feed body, (feed = ['\n'] ∨ feed = ['\r', '\n']) ∧ text = a :: b :: feed ++ body := by
  rw [ends_enclosed] at hEnds
  split at hEnds
  · rename_i c d rest
    split at hEnds
    · rename_i hMarks
      obtain ⟨rfl, rfl⟩ := hMarks
      rw [ends_lineEnd] at hEnds
      split at hEnds
      · rename_i body
        exact ⟨['\r', '\n'], body, .inr rfl, rfl⟩
      · rename_i body
        exact ⟨['\n'], body, .inl rfl, rfl⟩
      · simp at hEnds
    · contradiction
  · contradiction

/-- Before a separator an enclosed text ends where it ends by itself. -/
theorem head?_ends_enclosed_append {a b x y : Char} {text rest : List Char}
    (hEnds : ((enclosed a b x y).ends text).head? = some rest) (ending : List Char) :
    ((enclosed a b x y).ends (text ++ ending)).head? = some (rest ++ ending) := by
  have hSome : (enclosed a b x y).ends text ≠ [] := by
    intro hNil
    rw [hNil] at hEnds
    cases hEnds
  obtain ⟨feed, body, hFeed, rfl⟩ := exists_of_ends_enclosed hSome
  rw [head?_ends_enclosed a b x y body hFeed] at hEnds
  rw [List.append_assoc, head?_ends_enclosed a b x y (body ++ ending) hFeed]
  exact behind_append hEnds ending

/-- A quote has no line end behind its first character, so that a narrative is not taken for a
quote. -/
theorem ends_quoted_lineEnd (lineEnd body : List Char)
    (hLineEnd : lineEnd = ['\n'] ∨ lineEnd = ['\r', '\n']) :
    quoted.ends ('"' :: '>' :: lineEnd ++ body) = [] := by
  have hStep : ∀ {c : Char} {rest : List Char}, c = '\n' ∨ c = '\r' →
      (star quoteStep).ends (c :: rest) = [c :: rest] := by
    rintro c rest (rfl | rfl)
    · rw [ends_star rfl]
      rfl
    · rw [ends_star rfl]
      rfl
  have hQuoted : ∀ {c : Char} {rest : List Char}, c = '\n' ∨ c = '\r' →
      quoted.ends ('"' :: '>' :: c :: rest) = [] := by
    intro c rest hEnd
    have hTail : quoted.ends ('"' :: '>' :: c :: rest) =
        ((star quoteStep).ends ('>' :: c :: rest)).flatMap (char '"').ends := by
      simp [quoted, cats, char, ends, CharTest.holds]
    have hGreater : quoteStep.ends ('>' :: c :: rest) = [c :: rest] := by
      simp [quoteStep, alts, cats, noneOf, char, ends, CharTest.holds, SetItem.holds]
    rw [hTail, ends_star rfl, hGreater, List.flatMap_cons, List.flatMap_nil, List.append_nil,
      hStep hEnd]
    rcases hEnd with rfl | rfl <;> rfl
  rcases hLineEnd with rfl | rfl
  · exact hQuoted (.inl rfl)
  · exact hQuoted (.inr rfl)

end DocumentLanguage.Pattern
