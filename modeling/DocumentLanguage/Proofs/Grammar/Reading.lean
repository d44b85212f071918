import DocumentLanguage.Proofs.Grammar.Production
import Mathlib.Data.List.Forall2

/-!
What a production says. Its words stand between white space, a word that is a bar parts two
alternatives, and every other word means an item: a symbol, and behind it perhaps a mark. Each
production means one thing only, and that is what it is read as.
-/
namespace DocumentLanguage

/-- A text falls apart into words: stretches without white space that white space, or an end of the
text, stands on either side of. -/
inductive Words : List Char → List (List Char) → Prop
  | none {gap : List Char} (blank : ∀ c ∈ gap, Unicode.isBlank c = true) : Words gap []
  | word {gap word rest : List Char} {words : List (List Char)}
      (blank : ∀ c ∈ gap, Unicode.isBlank c = true) (filled : word ≠ [])
      (solid : ∀ c ∈ word, Unicode.isBlank c = false)
      (ends : ∀ c ∈ rest.head?, Unicode.isBlank c = true) (behind : Words rest words) :
      Words (gap ++ (word ++ rest)) (word :: words)

/-- A word without a mark means a symbol. Text in quotes is a delimiter, a name with a capital is a
rule, and any other name is a kind of token. -/
inductive Symbol.Means : List Char → Symbol → Prop
  | quoted (text : List Char) : Means ('"' :: (text ++ ['"'])) (.delimiter (String.ofList text))
  | capital {c : Char} {rest : List Char} (upper : c.isUpper = true) :
      Means (c :: rest) (.rule (String.ofList (c :: rest)))
  | other {word : List Char} (unquoted : ∀ text, word ≠ '"' :: (text ++ ['"']))
      (lower : ∀ c ∈ word.head?, c.isUpper = false) : Means word (.kind (String.ofList word))

/-- A word means an item. A mark at its end is taken for a quantity, so that a delimiter that ends
with such a character keeps it only inside its quotes. -/
inductive Item.Means : List Char → Item → Prop
  | marked {body : List Char} {c : Char} {symbol : Symbol} {quantity : Quantity}
      (mark : quantity.mark.toList = [c]) (means : symbol.Means body) :
      Means (body ++ [c]) ⟨symbol, quantity⟩
  | bare {word : List Char} {symbol : Symbol}
      (unmarked : ∀ c ∈ word.getLast?, ∀ quantity : Quantity, quantity.mark.toList ≠ [c])
      (means : symbol.Means word) : Means word ⟨symbol, .one⟩

/-- A production means these alternatives: its words are theirs, with a bar between each two of
them, and word by word they mean the items. -/
def Reads (production : String) (alternatives : List Alternative) : Prop :=
  ∃ groups : List (List (List Char)), groups ≠ [] ∧ (∀ words ∈ groups, ['|'] ∉ words) ∧
    Words production.toList ([['|']].intercalate groups) ∧
    List.Forall₂ (List.Forall₂ Item.Means) groups alternatives

/-! ### Words -/

theorem wordsOf_gap {gap rest : List Char} (hBlank : ∀ c ∈ gap, Unicode.isBlank c = true) :
    wordsOf (gap ++ rest) = wordsOf rest := by
  induction gap with
  | nil => rfl
  | cons c gap ih =>
    rw [List.forall_mem_cons] at hBlank
    exact (wordsOf_blank hBlank.1).trans (ih hBlank.2)

namespace Words

variable {text : List Char} {words : List (List Char)}

theorem cons {c : Char} (hBlank : Unicode.isBlank c = true) (means : Words text words) :
    Words (c :: text) words := by
  cases means with
  | none blank => exact .none (List.forall_mem_cons.mpr ⟨hBlank, blank⟩)
  | @word gap word rest words blank filled solid ends behind =>
    exact @Words.word (c :: gap) word rest words (List.forall_mem_cons.mpr ⟨hBlank, blank⟩) filled solid ends
      behind

/-- A text falls apart in one way only. -/
theorem eq (means : Words text words) : wordsOf text = words := by
  induction means with
  | @none gap blank => simpa [wordsOf] using @wordsOf_gap gap [] blank
  | word blank filled solid ends _ ih => rw [wordsOf_gap blank, wordsOf_append filled solid ends, ih]

/-- The first character of a text is of its first word, or stands before it. -/
theorem cons_solid {c : Char} (hSolid : Unicode.isBlank c = false) (means : Words text words) :
    ((∀ d ∈ text.head?, Unicode.isBlank d = true) ∧ Words (c :: text) ([c] :: words)) ∨
      ∃ word behind, words = word :: behind ∧ (∃ d ∈ text.head?, Unicode.isBlank d = false) ∧
        Words (c :: text) ((c :: word) :: behind) := by
  have hAlone : ∀ d ∈ [c], Unicode.isBlank d = false := List.forall_mem_singleton.mpr hSolid
  by_cases hHead : ∀ d ∈ text.head?, Unicode.isBlank d = true
  · exact .inl ⟨hHead, @word [] [c] text words nofun nofun hAlone hHead means⟩
  · refine .inr ?_
    cases means with
    | none blank => exact absurd (fun d hMem => blank d (List.mem_of_mem_head? hMem)) hHead
    | @word gap word rest behind blank filled solid ends means =>
      cases gap with
      | cons d gap =>
        exact absurd (by rintro _ ⟨⟩; exact blank d List.mem_cons_self) hHead
      | nil =>
        refine ⟨word, behind, rfl, ?_, ?_⟩
        · push Not at hHead
          simpa using hHead
        · exact @Words.word [] (c :: word) rest behind nofun nofun
            (List.forall_mem_cons.mpr ⟨hSolid, solid⟩) ends means

end Words

/-- Every text falls apart into the words it is read as. -/
theorem words_wordsOf (text : List Char) : Words text (wordsOf text) := by
  induction text with
  | nil => exact .none nofun
  | cons c rest ih =>
    cases hBlank : Unicode.isBlank c with
    | true =>
      rw [wordsOf_blank hBlank]
      exact ih.cons hBlank
    | false =>
      obtain ⟨-, means⟩ | ⟨word, behind, -, -, means⟩ := ih.cons_solid hBlank
      · rw [means.eq]
        exact means
      · rw [means.eq]
        exact means

/-! ### Items -/

theorem enclosed?_eq_some_iff {word text : List Char} :
    enclosed? word = some text ↔ word = '"' :: (text ++ ['"']) := by
  constructor
  · intro hSome
    unfold enclosed? at hSome
    split at hSome
    · split at hSome
      · rename_i rest hLast
        cases hSome
        rw [List.dropLast_append_getLast? _ hLast]
      · cases hSome
    · cases hSome
  · rintro rfl
    exact enclosed?_quoted text

theorem Symbol.means_iff {word : List Char} {symbol : Symbol} :
    symbol.Means word ↔ Symbol.ofWord word = symbol := by
  have hNone : ∀ {word : List Char}, (∀ text, word ≠ '"' :: (text ++ ['"'])) ↔
      enclosed? word = none := by
    intro word
    rw [Option.eq_none_iff_forall_ne_some]
    exact forall_congr' fun text => not_congr enclosed?_eq_some_iff.symm
  constructor
  · intro means
    cases means with
    | quoted text => rw [ofWord, enclosed?_quoted]
    | @capital c rest upper =>
      have hQuote : enclosed? (c :: rest) = none := enclosed?_eq_none fun hQuote => by
        cases hQuote
        exact absurd upper (by decide)
      rw [ofWord, hQuote]
      exact if_pos upper
    | other unquoted lower =>
      rw [ofWord, hNone.mp unquoted]
      refine if_neg ?_
      rw [Option.any_eq_true]
      rintro ⟨c, hHead, hUpper⟩
      rw [lower c hHead] at hUpper
      cases hUpper
  · rintro rfl
    rw [ofWord]
    cases hQuoted : enclosed? word with
    | some text =>
      rw [enclosed?_eq_some_iff.mp hQuoted]
      exact .quoted text
    | none =>
      dsimp only
      split
      · rename_i hUpper
        cases word with
        | nil => cases hUpper
        | cons c rest => exact .capital hUpper
      · rename_i hLower
        refine .other (hNone.mpr hQuoted) fun c hHead => ?_
        rw [Option.mem_def] at hHead
        simpa [hHead] using hLower

/-- A character is the mark of a quantity just if this quantity is written with it. -/
theorem Quantity.ofMark?_eq_some_iff {c : Char} {quantity : Quantity} :
    Quantity.ofMark? c = some quantity ↔ quantity.mark.toList = [c] := by
  constructor
  · intro hSome
    unfold ofMark? at hSome
    split at hSome <;> cases hSome <;> rfl
  · intro hMark
    obtain ⟨-, hNone⟩ | ⟨d, hSome, hQuantity, -⟩ := quantity.toList_mark
    · rw [hNone] at hMark
      cases hMark
    · rw [hSome] at hMark
      cases hMark
      exact hQuantity

/-- An item means a word just if it is what the word is read as: a mark at the end is its quantity,
and the rest its symbol. -/
theorem Item.means_iff {word : List Char} {item : Item} : item.Means word ↔ Item.ofWord word = item := by
  constructor
  · intro means
    cases means with
    | marked mark means =>
      rw [ofWord, List.getLast?_concat, List.dropLast_concat]
      simp only [Option.bind_some, Quantity.ofMark?_eq_some_iff.mpr mark, Symbol.means_iff.mp means]
    | bare unmarked means =>
      have hNone : word.getLast?.bind Quantity.ofMark? = none := by
        rw [Option.bind_eq_none_iff]
        intro c hLast
        rw [Option.eq_none_iff_forall_ne_some]
        exact fun quantity hSome => unmarked c hLast quantity (Quantity.ofMark?_eq_some_iff.mp hSome)
      rw [ofWord, hNone]
      exact congrArg (Item.mk · .one) (Symbol.means_iff.mp means)
  · rintro rfl
    rw [ofWord]
    cases hMark : word.getLast?.bind Quantity.ofMark? with
    | some quantity =>
      obtain ⟨c, hLast, hQuantity⟩ := Option.bind_eq_some_iff.mp hMark
      have means := @Item.Means.marked word.dropLast c _ quantity
        (Quantity.ofMark?_eq_some_iff.mp hQuantity) (Symbol.means_iff.mpr rfl)
      rwa [List.dropLast_append_getLast? c hLast] at means
    | none =>
      refine .bare (fun c hLast quantity hSame => ?_) (Symbol.means_iff.mpr rfl)
      have hSome := Quantity.ofMark?_eq_some_iff.mpr hSame
      rw [(Option.bind_eq_none_iff.mp hMark) c hLast] at hSome
      cases hSome

/-! ### Alternatives -/

/-- Words come in groups with a bar between each two of them. -/
theorem exists_groups (words : List (List Char)) :
    ∃ groups : List (List (List Char)), groups ≠ [] ∧ (∀ words ∈ groups, ['|'] ∉ words) ∧
      words = [['|']].intercalate groups := by
  induction words with
  | nil => exact ⟨[[]], nofun, List.forall_mem_singleton.mpr nofun, rfl⟩
  | cons word words ih =>
    obtain ⟨groups, hSome, hBars, rfl⟩ := ih
    obtain ⟨group, groups, rfl⟩ := List.exists_cons_of_ne_nil hSome
    rw [List.forall_mem_cons] at hBars
    by_cases hBar : word = ['|']
    · refine ⟨[] :: group :: groups, nofun, ?_, ?_⟩
      · exact List.forall_mem_cons.mpr ⟨nofun, List.forall_mem_cons.mpr hBars⟩
      · rw [List.intercalate_cons_cons, hBar]
        rfl
    · refine ⟨(word :: group) :: groups, nofun, ?_, ?_⟩
      · refine List.forall_mem_cons.mpr ⟨?_, hBars.2⟩
        rw [List.mem_cons, not_or]
        exact ⟨Ne.symm hBar, hBars.1⟩
      · cases groups with
        | nil => simp
        | cons next groups => simp [List.intercalate_cons_cons]

theorem forall₂_eq_iff {α β : Type} {f : α → β} {members : List α} {images : List β} :
    List.Forall₂ (fun member image => f member = image) members images ↔ members.map f = images := by
  rw [← @List.forall₂_map_left_iff _ _ _ (· = ·) f, List.forall₂_eq_eq_eq]

/-- Items mean words, group by group, if each is what its word is read as. -/
theorem forall₂_means_iff {groups : List (List (List Char))} {alternatives : List Alternative} :
    List.Forall₂ (List.Forall₂ Item.Means) groups alternatives ↔
      (groups.map fun words => words.map Item.ofWord) = alternatives := by
  have hItem : Item.Means = fun word item => Item.ofWord word = item :=
    funext₂ fun _ _ => propext Item.means_iff
  have hGroup : List.Forall₂ Item.Means = fun words items => words.map Item.ofWord = items := by
    rw [hItem]
    exact funext₂ fun _ _ => propext forall₂_eq_iff
  rw [hGroup, forall₂_eq_iff]

/-- A production means the alternatives that it is read as, and no others. -/
theorem reads_iff {production : String} {alternatives : List Alternative} :
    Reads production alternatives ↔ alternativesOf production = alternatives := by
  constructor
  · rintro ⟨groups, hSome, hBars, means, hItems⟩
    rw [alternativesOf, means.eq, alternativesOfWords_barred hSome hBars]
    exact forall₂_means_iff.mp hItems
  · rintro rfl
    obtain ⟨groups, hSome, hBars, hWords⟩ := exists_groups (wordsOf production.toList)
    refine ⟨groups, hSome, hBars, hWords ▸ words_wordsOf production.toList, ?_⟩
    rw [forall₂_means_iff, alternativesOf, hWords, alternativesOfWords_barred hSome hBars]

end DocumentLanguage
