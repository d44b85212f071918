import DocumentLanguage.Proofs.Pattern.Stops

/-!
Choices between words, and repetitions of single characters. A choice between words prefers the
longest that is there.
-/
namespace DocumentLanguage

namespace Pattern

/-- Patterns in a row leave what the others leave of what the first one left. -/
theorem ends_cats_cons (pattern : Pattern) (patterns : List Pattern) (text : List Char) :
    (cats (pattern :: patterns)).ends text = (pattern.ends text).flatMap (cats patterns).ends := by
  cases patterns with
  | nil =>
      have hEmpty : (cats []).ends = fun text => [text] := rfl
      rw [hEmpty]
      simp [cats]
  | cons _ _ => rfl

/-- A choice leaves what each of its ways leaves, those of the first way first. -/
theorem ends_alts (patterns : List Pattern) (hNonempty : patterns ≠ []) (text : List Char) :
    (alts patterns).ends text = patterns.flatMap (·.ends text) := by
  induction patterns with
  | nil => contradiction
  | cons pattern patterns ih =>
      cases patterns with
      | nil => simp [alts]
      | cons other patterns =>
          rw [List.flatMap_cons, ← ih (by simp)]
          rfl

/-- A word is taken as it is, or nothing is found. -/
theorem ends_word (chars text : List Char) :
    (word chars).ends text = if chars <+: text then [text.drop chars.length] else [] := by
  induction chars generalizing text with
  | nil => simp [word, cats, ends]
  | cons c chars ih =>
      have hCons : (word (c :: chars)).ends text =
          ((one (.verbatim c)).ends text).flatMap (word chars).ends := by
        simp only [word, List.map_cons]
        exact ends_cats_cons ..
      rw [hCons]
      cases text with
      | nil => simp [ends]
      | cons d text =>
          by_cases hEq : d = c
          · subst hEq
            simp [ends, CharTest.holds, ih]
          · have hNe : ¬ c = d := fun hEq' => hEq hEq'.symm
            simp [ends, CharTest.holds, hEq, hNe]

/-- Given characters in a row match as the word they make up. -/
theorem ends_text (chars text : List Char) :
    (Pattern.text chars).ends text = if chars <+: text then [text.drop chars.length] else [] := by
  have hWord : (Pattern.text chars).ends = (word chars).ends := by
    induction chars with
    | nil => rfl
    | cons c chars ih =>
        funext text
        have hFirst : (char c).ends = (one (.verbatim c)).ends := rfl
        have hText : Pattern.text (c :: chars) = cats (char c :: chars.map char) := rfl
        have hWord : word (c :: chars) =
            cats (one (.verbatim c) :: chars.map fun c => one (.verbatim c)) := rfl
        have hRest : (cats (chars.map char)).ends =
            (cats (chars.map fun c => one (.verbatim c))).ends := ih
        rw [hText, hWord, ends_cats_cons, ends_cats_cons, hFirst, hRest]
  rw [hWord, ends_word]

end Pattern

open Pattern

theorem mem_insertTried {word other : String} {words : List String} :
    other ∈ insertTried word words ↔ other = word ∨ other ∈ words := by
  induction words with
  | nil => simp [insertTried]
  | cons head words ih =>
      simp only [insertTried]
      split
      · simp
      · simp only [List.mem_cons, ih]
        tauto

/-- The order in which words are tried neither adds a word nor loses one. -/
theorem mem_inTriedOrder {word : String} {words : List String} :
    word ∈ inTriedOrder words ↔ word ∈ words := by
  induction words with
  | nil => simp [inTriedOrder]
  | cons head words ih =>
      simp only [inTriedOrder, List.foldr_cons] at ih ⊢
      rw [mem_insertTried, ih, List.mem_cons]

/-- Putting a word among others in the order in which they are tried keeps the longer ones before
the shorter ones. -/
theorem pairwise_insertTried {word : String} {words : List String}
    (hWords : words.Pairwise fun first second => second.length ≤ first.length) :
    (insertTried word words).Pairwise fun first second => second.length ≤ first.length := by
  induction words with
  | nil => simp [insertTried]
  | cons head words ih =>
      obtain ⟨hHead, hTail⟩ := List.pairwise_cons.mp hWords
      simp only [insertTried]
      split
      · rename_i hBefore
        have hLe : head.length ≤ word.length := by
          simp only [triedBefore, Bool.or_eq_true, Bool.and_eq_true, decide_eq_true_eq] at hBefore
          omega
        refine List.pairwise_cons.mpr ⟨?_, hWords⟩
        intro other hOther
        rcases List.mem_cons.mp hOther with rfl | hOther
        · exact hLe
        · exact Nat.le_trans (hHead other hOther) hLe
      · rename_i hBefore
        have hLe : word.length ≤ head.length := by
          simp only [triedBefore, Bool.or_eq_true, Bool.and_eq_true, decide_eq_true_eq] at hBefore
          omega
        refine List.pairwise_cons.mpr ⟨?_, ih hTail⟩
        intro other hOther
        rcases mem_insertTried.mp hOther with rfl | hOther
        · exact hLe
        · exact hHead other hOther

/-- Longer words are tried before shorter ones, so that no word hides one that it begins. -/
theorem pairwise_inTriedOrder (words : List String) :
    (inTriedOrder words).Pairwise fun first second => second.length ≤ first.length := by
  induction words with
  | nil => simp [inTriedOrder]
  | cons head words ih =>
      simp only [inTriedOrder, List.foldr_cons] at ih ⊢
      exact pairwise_insertTried ih

/-- What a choice between words leaves over, word by word, in the order in which they are tried. -/
theorem ends_anyWord {words : List String} (hNonempty : words ≠ []) (text : List Char) :
    (anyWord words).ends text = (inTriedOrder words).flatMap fun word =>
      if word.toList <+: text then [text.drop word.toList.length] else [] := by
  have hMap : (inTriedOrder words).map (fun word => Pattern.word word.toList) ≠ [] := by
    obtain ⟨word, hWord⟩ := List.exists_mem_of_ne_nil words hNonempty
    have hMem := mem_inTriedOrder.mpr hWord
    intro hNil
    rw [List.map_eq_nil_iff] at hNil
    rw [hNil] at hMem
    cases hMem
  rw [anyWord, ends_alts _ hMap, List.flatMap_map]
  exact List.flatMap_congr fun word _ => ends_word word.toList text

/-- One of several words is found in a text if the text begins with it, and the rest of the text is
left. -/
theorem mem_ends_anyWord {words : List String} (hNonempty : words ≠ []) {text rest : List Char} :
    rest ∈ (anyWord words).ends text ↔ ∃ word ∈ words, text = word.toList ++ rest := by
  rw [ends_anyWord hNonempty, List.mem_flatMap]
  constructor
  · rintro ⟨word, hWord, hRest⟩
    split at hRest
    · rename_i hPrefix
      obtain ⟨rest', rfl⟩ := hPrefix
      rw [List.mem_singleton.mp hRest]
      exact ⟨word, mem_inTriedOrder.mp hWord, by simp⟩
    · cases hRest
  · rintro ⟨word, hWord, rfl⟩
    exact ⟨word, mem_inTriedOrder.mpr hWord, by simp⟩

/-- Of several words that a text begins with the longest is taken, as it is the first of them to be
tried. -/
theorem head?_ends_anyWord {words : List String} {word : String} {ending : List Char}
    (hWord : word ∈ words)
    (hLongest : ∀ other ∈ words, other.toList <+: word.toList ++ ending →
      other.toList.length ≤ word.toList.length) :
    ((anyWord words).ends (word.toList ++ ending)).head? = some ending := by
  have hNonempty : words ≠ [] := List.ne_nil_of_mem hWord
  have hMem : ending ∈ (anyWord words).ends (word.toList ++ ending) :=
    (mem_ends_anyWord hNonempty).mpr ⟨word, hWord, rfl⟩
  have hSorted : ((anyWord words).ends (word.toList ++ ending)).Pairwise
      fun first second => first.length ≤ second.length := by
    rw [ends_anyWord hNonempty]
    refine List.pairwise_flatMap.mpr ⟨?_, ?_⟩
    · intro other _
      split <;> simp
    · refine (pairwise_inTriedOrder words).imp ?_
      intro first second hLe rest hRest other hOther
      split at hRest
      · split at hOther
        · rw [List.mem_singleton.mp hRest, List.mem_singleton.mp hOther, List.length_drop,
            List.length_drop]
          simp only [String.length_toList]
          omega
        · cases hOther
      · cases hRest
  cases hEnds : (anyWord words).ends (word.toList ++ ending) with
  | nil =>
      rw [hEnds] at hMem
      cases hMem
  | cons first rests =>
      rw [hEnds] at hMem hSorted
      have hFirst : first ∈ (anyWord words).ends (word.toList ++ ending) := by simp [hEnds]
      obtain ⟨other, hOther, hText⟩ := (mem_ends_anyWord hNonempty).mp hFirst
      have hShorter := hLongest other hOther ⟨first, hText.symm⟩
      have hLe : first.length ≤ ending.length := by
        rcases List.mem_cons.mp hMem with rfl | hMem
        · exact Nat.le_refl _
        · exact (List.pairwise_cons.mp hSorted).1 ending hMem
      have hLengths := congrArg List.length hText
      simp only [List.length_append] at hLengths
      have hSame := List.append_inj_right' hText (by omega)
      rw [List.head?_cons, hSame]

/-- Of the words that begin a text some is the longest. -/
theorem exists_longest {words : List String} {text : List Char}
    (hSome : ∃ word ∈ words, word.toList <+: text) :
    ∃ word ∈ words, word.toList <+: text ∧
      ∀ other ∈ words, other.toList <+: text → other.toList.length ≤ word.toList.length := by
  induction words with
  | nil => simp at hSome
  | cons first words ih =>
      by_cases hTail : ∃ word ∈ words, word.toList <+: text
      · obtain ⟨word, hWord, hPrefix, hLongest⟩ := ih hTail
        by_cases hFirst : first.toList <+: text ∧ word.toList.length < first.toList.length
        · refine ⟨first, List.mem_cons_self, hFirst.1, ?_⟩
          intro other hOther hBegins
          rcases List.mem_cons.mp hOther with rfl | hOther
          · exact Nat.le_refl _
          · exact Nat.le_trans (hLongest other hOther hBegins) (Nat.le_of_lt hFirst.2)
        · refine ⟨word, List.mem_cons_of_mem _ hWord, hPrefix, ?_⟩
          intro other hOther hBegins
          rcases List.mem_cons.mp hOther with rfl | hOther
          · exact Nat.le_of_not_lt fun hLess => hFirst ⟨hBegins, hLess⟩
          · exact hLongest other hOther hBegins
      · obtain ⟨word, hWord, hPrefix⟩ := hSome
        have hNone : ∀ other ∈ words, ¬ other.toList <+: text :=
          fun other hOther hBegins => hTail ⟨other, hOther, hBegins⟩
        rcases List.mem_cons.mp hWord with rfl | hWord
        · refine ⟨word, List.mem_cons_self, hPrefix, ?_⟩
          intro other hOther hBegins
          rcases List.mem_cons.mp hOther with rfl | hOther
          · exact Nat.le_refl _
          · exact absurd hBegins (hNone other hOther)
        · exact absurd hPrefix (hNone word hWord)

/-- A choice between words stops at a text that no word goes on from. -/
theorem stops_anyWord {words : List String} (hNonempty : words ≠ []) {text ending : List Char}
    {c : Char} (hWords : ∀ word ∈ words, ¬ text ++ [c] <+: word.toList) :
    (anyWord words).Stops text (c :: ending) := by
  intro rest hRest
  obtain ⟨word, hWord, hText⟩ := (mem_ends_anyWord hNonempty).mp hRest
  by_contra hShort
  refine hWords word hWord ?_
  have hLonger : text.length < word.toList.length := by
    have hLengths := congrArg List.length hText
    simp only [List.length_append, List.length_cons] at hLengths hShort
    omega
  have hFront : text ++ [c] <+: text ++ c :: ending := ⟨ending, by simp⟩
  have hPrefix : word.toList <+: text ++ c :: ending := ⟨rest, hText.symm⟩
  refine List.prefix_of_prefix_length_le hFront hPrefix ?_
  rw [List.length_append, List.length_singleton]
  omega

namespace Pattern

/-- A repetition is one run and then the repetition again, or it is nothing. A body that may be
empty would not get any further by this. -/
theorem ends_star {body : Pattern} (hNullable : body.nullable = false) (text : List Char) :
    (star body).ends text = (body.ends text).flatMap (star body).ends ++ [text] := by
  have hTakes := takes_ends hNullable
  have hSucc : (star body).ends text = mostRuns body.ends (text.length + 1) text :=
    hTakes.mostRuns_bound (Nat.le_refl _) (Nat.le_succ _)
  rw [hSucc, mostRuns]
  congr 1
  refine List.flatMap_congr ?_
  intro rest hRest
  exact hTakes.mostRuns_bound (Nat.le_of_lt (hTakes text rest hRest)) (Nat.le_refl _)

theorem ends_plus (body : Pattern) (text : List Char) :
    (plus body).ends text = (body.ends text).flatMap (star body).ends := rfl

/-- A repetition of single characters leaves over whatever follows some that are allowed. -/
theorem mem_ends_star_one {test : CharTest} {text rest : List Char} :
    rest ∈ (star (one test)).ends text ↔
      ∃ front, text = front ++ rest ∧ ∀ c ∈ front, test.holds c = true := by
  induction text generalizing rest with
  | nil =>
      rw [ends_star rfl]
      simp [ends]
  | cons c text ih =>
      rw [ends_star rfl, List.mem_append, List.mem_singleton]
      by_cases hHolds : test.holds c = true
      · have hOne : (one test).ends (c :: text) = [text] := by simp [ends, hHolds]
        rw [hOne, List.flatMap_cons, List.flatMap_nil, List.append_nil, ih]
        constructor
        · rintro (⟨front, rfl, hFront⟩ | rfl)
          · exact ⟨c :: front, rfl, List.forall_mem_cons.mpr ⟨hHolds, hFront⟩⟩
          · exact ⟨[], rfl, by simp⟩
        · rintro ⟨front, hText, hFront⟩
          cases front with
          | nil => exact .inr hText.symm
          | cons d front =>
              obtain ⟨rfl, rfl⟩ := List.cons.inj hText
              exact .inl ⟨front, rfl, (List.forall_mem_cons.mp hFront).2⟩
      · have hOne : (one test).ends (c :: text) = [] := by simp [ends, hHolds]
        rw [hOne, List.flatMap_nil]
        simp only [List.not_mem_nil, false_or]
        constructor
        · rintro rfl
          exact ⟨[], rfl, by simp⟩
        · rintro ⟨front, hText, hFront⟩
          cases front with
          | nil => exact hText.symm
          | cons d front =>
              obtain ⟨rfl, rfl⟩ := List.cons.inj hText
              exact absurd (hFront _ List.mem_cons_self) hHolds

end Pattern

end DocumentLanguage
