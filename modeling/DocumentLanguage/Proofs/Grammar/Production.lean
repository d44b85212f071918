import DocumentLanguage.Grammar.Production

/-!
Productions written down and read back. Alternatives of items that are words each are read back from
their text, and each entry of the grammar is found under its name.
-/
namespace DocumentLanguage

/-! ### Alternatives as they stand in a production -/

def Symbol.text : Symbol → String
  | rule name | kind name => name
  | delimiter text => delimiterItem text

def Quantity.mark : Quantity → String
  | one => ""
  | atMostOne => "?"
  | many => "*"
  | atLeastOne => "+"

def Item.text (item : Item) : String :=
  item.symbol.text ++ item.quantity.mark

/-- Items in a row as they stand in a production. -/
def Alternative.text (items : Alternative) : String :=
  " ".intercalate (items.map Item.text)

/-- Whether a symbol is one word that says what it is: the name of a rule begins with a capital, the
name of a kind with neither a capital nor a quote nor a bar, and no name ends with a mark. -/
def Symbol.isWord : Symbol → Bool
  | rule name => name.toList.head?.any (·.isUpper) && endsUnmarked name && isSolid name
  | kind name => name.toList.head?.any (fun c => !c.isUpper && c != '"' && c != '|') &&
      endsUnmarked name && isSolid name
  | delimiter text => isSolid text
where
  endsUnmarked (name : String) : Bool := name.toList.getLast?.all fun c => (Quantity.ofMark? c).isNone
  isSolid (text : String) : Bool := text.toList.all fun c => !Unicode.isBlank c

/-! ### Words -/

section Words

variable {word rest : List Char} {words : List (List Char)}

theorem wordsOf_blank {c : Char} (hBlank : Unicode.isBlank c = true) :
    wordsOf (c :: rest) = wordsOf rest := by
  rw [wordsOf.eq_def]
  exact if_pos hBlank

/-- A text begins with its first word if a blank or nothing at all is behind that word. -/
theorem wordsOf_append (hWord : word ≠ []) (hSolid : ∀ c ∈ word, Unicode.isBlank c = false)
    (hRest : ∀ c ∈ rest.head?, Unicode.isBlank c = true) :
    wordsOf (word ++ rest) = word :: wordsOf rest := by
  induction word with
  | nil => exact absurd rfl hWord
  | cons c word ih =>
    rw [List.forall_mem_cons] at hSolid
    rw [List.cons_append, wordsOf.eq_def]
    simp only [hSolid.1, Bool.false_eq_true, if_false]
    cases word with
    | nil =>
        cases rest with
        | nil => rfl
        | cons d rest =>
            rw [List.nil_append]
            cases wordsOf (d :: rest) with
            | nil => rfl
            | cons word words => exact if_pos (hRest d rfl)
    | cons d word =>
        rw [ih nofun hSolid.2]
        exact if_neg (by simp [hSolid.2 d List.mem_cons_self])

/-- Words with spaces between them are the words of the text that they make up. -/
theorem wordsOf_intercalate
    (hWords : ∀ word ∈ words, word ≠ [] ∧ ∀ c ∈ word, Unicode.isBlank c = false)
    (hRest : ∀ c ∈ rest.head?, Unicode.isBlank c = true) :
    wordsOf ([' '].intercalate words ++ rest) = words ++ wordsOf rest := by
  induction words with
  | nil => rfl
  | cons word words ih =>
    rw [List.forall_mem_cons] at hWords
    cases words with
    | nil => simpa using wordsOf_append hWords.1.1 hWords.1.2 hRest
    | cons next words =>
        rw [List.intercalate_cons_cons, List.append_assoc, List.append_assoc,
          wordsOf_append hWords.1.1 hWords.1.2 (by rintro _ ⟨⟩; decide)]
        exact congrArg (word :: ·) ((wordsOf_blank (by decide)).trans (ih hWords.2))

/-- Alternatives with bars between them are parted by words that are a bar. -/
theorem wordsOf_barred {alternatives : List (List (List Char))}
    (hWords : ∀ words ∈ alternatives, ∀ word ∈ words,
      word ≠ [] ∧ ∀ c ∈ word, Unicode.isBlank c = false) :
    wordsOf ([' ', '|', ' '].intercalate (alternatives.map [' '].intercalate)) =
      [['|']].intercalate alternatives := by
  induction alternatives with
  | nil => rfl
  | cons words alternatives ih =>
    rw [List.forall_mem_cons] at hWords
    cases alternatives with
    | nil => simpa [wordsOf] using @wordsOf_intercalate [] words hWords.1 nofun
    | cons next alternatives =>
        rw [List.map_cons, List.map_cons, List.intercalate_cons_cons, List.intercalate_cons_cons,
          ← List.map_cons, List.append_assoc, List.append_assoc,
          wordsOf_intercalate hWords.1 (by rintro _ ⟨⟩; decide), ← ih hWords.2]
        refine congrArg (words ++ ·) ((wordsOf_blank (by decide)).trans ?_)
        refine (@wordsOf_append ['|'] _ nofun (List.forall_mem_singleton.mpr (by decide))
          (by rintro _ ⟨⟩; decide)).trans ?_
        exact congrArg (['|'] :: ·) (wordsOf_blank (by decide))

/-- Words without a bar, put before others, belong to the first of their alternatives. -/
theorem alternativesOfWords_append {alternative : Alternative} {alternatives : List Alternative}
    (hWords : ['|'] ∉ words) {behind : List (List Char)}
    (hBehind : alternativesOfWords behind = alternative :: alternatives) :
    alternativesOfWords (words ++ behind) = (words.map Item.ofWord ++ alternative) :: alternatives := by
  induction words with
  | nil => exact hBehind
  | cons word words ih =>
    rw [List.mem_cons, not_or] at hWords
    rw [List.cons_append, alternativesOfWords, ih hWords.2]
    exact if_neg (Ne.symm hWords.1)

/-- Alternatives parted by words that are a bar are the alternatives of all words. -/
theorem alternativesOfWords_barred {alternatives : List (List (List Char))} (hSome : alternatives ≠ [])
    (hWords : ∀ words ∈ alternatives, ['|'] ∉ words) :
    alternativesOfWords ([['|']].intercalate alternatives) =
      alternatives.map fun words => words.map Item.ofWord := by
  induction alternatives with
  | nil => exact absurd rfl hSome
  | cons words alternatives ih =>
    rw [List.forall_mem_cons] at hWords
    cases alternatives with
    | nil => simpa using @alternativesOfWords_append words [] [] hWords.1 [] rfl
    | cons next alternatives =>
        have hBar : alternativesOfWords (['|'] :: [['|']].intercalate (next :: alternatives)) =
            [] :: (next :: alternatives).map fun words => words.map Item.ofWord := by
          rw [alternativesOfWords, ih nofun hWords.2]
          rfl
        rw [List.intercalate_cons_cons, List.append_assoc, List.singleton_append,
          alternativesOfWords_append hWords.1 hBar, List.append_nil]
        rfl

end Words

/-! ### Items -/

theorem enclosed?_eq_none {word : List Char} (hQuote : word.head? ≠ some '"') : enclosed? word = none := by
  unfold enclosed?
  split
  · exact absurd rfl hQuote
  · rfl

theorem enclosed?_quoted (text : List Char) : enclosed? ('"' :: (text ++ ['"'])) = some text := by
  simp [enclosed?]

theorem toList_delimiterItem (text : String) :
    (delimiterItem text).toList = '"' :: (text.toList ++ ['"']) := by
  simp [delimiterItem]

section Symbols

variable {symbol : Symbol} (hWord : symbol.isWord = true)

include hWord

/-- A symbol that is written as a word is read back from it, whether it is a rule, a kind or quoted
text. -/
theorem Symbol.ofWord_text : Symbol.ofWord symbol.text.toList = symbol := by
  cases symbol with
  | rule name =>
      simp only [isWord, Bool.and_eq_true] at hWord
      obtain ⟨c, hHead, hUpper⟩ := (Option.any_eq_true _ _).mp hWord.1.1
      have hNone : enclosed? name.toList = none := enclosed?_eq_none fun hQuote => by
        cases hHead.symm.trans hQuote
        exact absurd hUpper (by decide)
      rw [text, ofWord, hNone]
      exact (if_pos hWord.1.1).trans (congrArg rule String.ofList_toList)
  | kind name =>
      simp only [isWord, Bool.and_eq_true] at hWord
      obtain ⟨c, hHead, hOther⟩ := (Option.any_eq_true _ _).mp hWord.1.1
      simp only [Bool.and_eq_true, Bool.not_eq_true', bne_iff_ne, ne_eq] at hOther
      have hNone : enclosed? name.toList = none := enclosed?_eq_none fun hQuote =>
        hOther.1.2 (Option.some.inj (hHead.symm.trans hQuote))
      rw [text, ofWord, hNone]
      exact (if_neg (by simp [hHead, hOther.1.1])).trans (congrArg kind String.ofList_toList)
  | delimiter text =>
      rw [Symbol.text, toList_delimiterItem, ofWord, enclosed?_quoted]
      exact congrArg delimiter String.ofList_toList

/-- No symbol is written with a bar in front, so that it is not taken for one that parts
alternatives. -/
theorem Symbol.head?_text : ∃ c, symbol.text.toList.head? = some c ∧ c ≠ '|' := by
  cases symbol with
  | rule name =>
      simp only [isWord, Bool.and_eq_true] at hWord
      obtain ⟨c, hHead, hUpper⟩ := (Option.any_eq_true _ _).mp hWord.1.1
      exact ⟨c, hHead, by rintro rfl; exact absurd hUpper (by decide)⟩
  | kind name =>
      simp only [isWord, Bool.and_eq_true] at hWord
      obtain ⟨c, hHead, hOther⟩ := (Option.any_eq_true _ _).mp hWord.1.1
      simp only [Bool.and_eq_true, bne_iff_ne] at hOther
      exact ⟨c, hHead, hOther.2⟩
  | delimiter text =>
      rw [Symbol.text, toList_delimiterItem]
      exact ⟨_, rfl, by decide⟩

/-- No symbol is written with the mark of a quantity at its end. -/
theorem Symbol.getLast?_text : symbol.text.toList.getLast?.bind Quantity.ofMark? = none := by
  cases symbol with
  | rule name | kind name =>
      simp only [isWord, isWord.endsUnmarked, Bool.and_eq_true, Option.all_eq_true,
        Option.isNone_iff_eq_none] at hWord
      rw [Option.bind_eq_none_iff]
      exact hWord.1.2
  | delimiter text =>
      rw [Symbol.text, toList_delimiterItem, ← List.cons_append, List.getLast?_concat]
      rfl

theorem Symbol.solid_text : ∀ c ∈ symbol.text.toList, Unicode.isBlank c = false := by
  cases symbol with
  | rule name | kind name =>
      simp only [isWord, isWord.isSolid, Bool.and_eq_true, List.all_eq_true, Bool.not_eq_true'] at hWord
      exact hWord.2
  | delimiter text =>
      simp only [isWord, isWord.isSolid, List.all_eq_true, Bool.not_eq_true'] at hWord
      rw [Symbol.text, toList_delimiterItem, List.forall_mem_cons, List.forall_mem_append]
      exact ⟨by decide, hWord, List.forall_mem_singleton.mpr (by decide)⟩

end Symbols

/-- A mark is no character or the one that says its quantity. -/
theorem Quantity.toList_mark (quantity : Quantity) :
    (quantity = .one ∧ quantity.mark.toList = []) ∨
      ∃ c, quantity.mark.toList = [c] ∧ Quantity.ofMark? c = some quantity ∧ Unicode.isBlank c = false := by
  cases quantity with
  | one => exact .inl ⟨rfl, rfl⟩
  | atMostOne | many | atLeastOne => exact .inr ⟨_, rfl, rfl, by decide⟩

section Items

variable {item : Item} (hWord : item.symbol.isWord = true)

include hWord

/-- An item of a symbol that is a word is read back from it. -/
theorem Item.ofWord_text : Item.ofWord item.text.toList = item := by
  obtain ⟨symbol, quantity⟩ := item
  rw [text, String.toList_append, ofWord]
  obtain ⟨rfl, hNone⟩ | ⟨c, hMark, hQuantity, -⟩ := quantity.toList_mark
  · rw [hNone, List.append_nil, Symbol.getLast?_text hWord]
    exact congrArg (Item.mk · .one) (Symbol.ofWord_text hWord)
  · rw [hMark, List.getLast?_concat, List.dropLast_concat]
    simp only [Option.bind_some, hQuantity]
    exact congrArg (Item.mk · quantity) (Symbol.ofWord_text hWord)

theorem Item.text_ne_nil : item.text.toList ≠ [] := by
  obtain ⟨c, hHead, -⟩ := Symbol.head?_text hWord
  rw [text, String.toList_append]
  intro hNil
  rw [(List.append_eq_nil_iff.mp hNil).1] at hHead
  cases hHead

theorem Item.solid_text : ∀ c ∈ item.text.toList, Unicode.isBlank c = false := by
  rw [text, String.toList_append, List.forall_mem_append]
  refine ⟨Symbol.solid_text hWord, ?_⟩
  obtain ⟨-, hMark⟩ | ⟨c, hMark, -, hSolid⟩ := item.quantity.toList_mark
  · rw [hMark]
    exact nofun
  · rw [hMark]
    exact List.forall_mem_singleton.mpr hSolid

theorem Item.text_ne_bar : item.text.toList ≠ ['|'] := by
  obtain ⟨c, hHead, hBar⟩ := Symbol.head?_text hWord
  rw [text, String.toList_append]
  intro hSame
  have hBoth := congrArg List.head? hSame
  rw [List.head?_append, hHead] at hBoth
  exact hBar (Option.some.inj hBoth)

end Items

/-- Alternatives of items that are words are read back from their text. -/
theorem alternativesOf_text {alternatives : List Alternative} (hSome : alternatives ≠ [])
    (hWords : ∀ items ∈ alternatives, ∀ item ∈ items, item.symbol.isWord = true) :
    alternativesOf (alternativesText (alternatives.map Alternative.text)) = alternatives := by
  have hText : (alternativesText (alternatives.map Alternative.text)).toList =
      [' ', '|', ' '].intercalate ((alternatives.map fun items =>
        items.map fun item => item.text.toList).map [' '].intercalate) := by
    simp [alternativesText, Alternative.text, Function.comp_def]
  have hSolid : ∀ words ∈ alternatives.map fun items => items.map fun item => item.text.toList,
      ∀ word ∈ words, word ≠ [] ∧ ∀ c ∈ word, Unicode.isBlank c = false :=
    List.forall_mem_map.mpr fun items hItems => List.forall_mem_map.mpr fun item hItem =>
    ⟨Item.text_ne_nil (hWords items hItems item hItem), Item.solid_text (hWords items hItems item hItem)⟩
  have hBars : ∀ words ∈ alternatives.map fun items => items.map fun item => item.text.toList,
      ['|'] ∉ words := List.forall_mem_map.mpr fun items hItems hBar => by
    obtain ⟨item, hItem, hSame⟩ := List.mem_map.mp hBar
    exact Item.text_ne_bar (hWords items hItems item hItem) hSame
  rw [alternativesOf, hText, wordsOf_barred hSolid,
    alternativesOfWords_barred (mt List.map_eq_nil_iff.mp hSome) hBars, List.map_map]
  refine (List.map_congr_left fun items hItems => ?_).trans (List.map_id _)
  rw [Function.comp_apply, List.map_map]
  exact (List.map_congr_left fun item hItem => Item.ofWord_text (hWords items hItems item hItem)).trans
    (List.map_id _)

/-! ### The entries of the grammar -/

theorem Entry.mem_all (entry : Entry) : entry ∈ Entry.all := by
  cases entry with
  | rule named => cases named <;> decide
  | choice named => cases named <;> decide

/-- Where each name comes once, an entry is found under its name. -/
theorem lookup_eq_some_iff {α : Type} {entries : List (String × α)} {name : String} {value : α}
    (distinct : (entries.map Prod.fst).Nodup) :
    entries.lookup name = some value ↔ (name, value) ∈ entries := by
  induction entries with
  | nil => simp
  | cons entry entries ih =>
    obtain ⟨head, first⟩ := entry
    rw [List.map_cons, List.nodup_cons] at distinct
    rw [List.lookup_cons]
    by_cases hSame : name = head
    · subst hSame
      simp only [beq_self_eq_true, List.mem_cons, Prod.mk.injEq, true_and, Option.some.injEq]
      refine ⟨fun hValue => .inl hValue.symm, fun hMem => ?_⟩
      rcases hMem with hValue | hMem
      · exact hValue.symm
      · exact absurd (List.mem_map_of_mem hMem) distinct.1
    · simp only [beq_eq_false_iff_ne.mpr hSame, List.mem_cons, Prod.mk.injEq, hSame, false_and,
        false_or]
      exact ih distinct.2

/-- Each entry of the grammar has a name of its own, so that no production hides another. -/
theorem Entry.distinct : (catalog.map Prod.fst).Nodup := by
  decide

/-- What the catalog gives for the name of an entry is its production. -/
theorem production?_name (entry : Entry) : production? entry.name = some entry.production :=
  (lookup_eq_some_iff Entry.distinct).mpr
    (List.mem_map_of_mem (f := fun entry : Entry => (entry.name, entry.production)) entry.mem_all)

end DocumentLanguage
