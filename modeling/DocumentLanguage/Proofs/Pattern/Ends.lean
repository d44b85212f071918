import DocumentLanguage.Pattern.Basic
import Mathlib.Data.List.Basic

/-!
What a pattern may leave over. A match only looks at what it takes and, at the end of a word, at
one character more. So the matches inside a text are the same whatever follows the text.
-/
namespace DocumentLanguage.Pattern

section

variable {α : Type} {property : α → Prop} [DecidablePred property]

/-- What holds of the members of a list is decided by going through the list, also where their
type is finite. -/
instance (priority := high) decidableForallMem (members : List α) : Decidable (∀ x ∈ members, property x) :=
  List.decidableBAll property members

/-- What holds of a value that may be missing is decided by looking whether it is there. -/
instance (priority := high) decidableForallSome (member : Option α) : Decidable (∀ x ∈ member, property x) :=
  decidable_of_iff (∀ x ∈ member.toList, property x) (by simp)

end

/-- Whether a pattern can match without taking anything. -/
def nullable : Pattern → Bool
  | empty | wordEnd | opt _ | star _ | fewest _ => true
  | one _ => false
  | cat first second => first.nullable && second.nullable
  | alt first second => first.nullable || second.nullable
  | plus body => body.nullable
  | times least _ body => least = 0 || body.nullable

/-- Whether everything that is repeated without a limit takes something each time. -/
def productive : Pattern → Bool
  | empty | wordEnd | one _ => true
  | cat first second | alt first second => first.productive && second.productive
  | opt body | times _ _ body => body.productive
  | star body | plus body | fewest body => body.productive && !body.nullable

/-- Whether the end of a word does not matter to a pattern. -/
def wordless : Pattern → Bool
  | wordEnd => false
  | empty | one _ => true
  | cat first second | alt first second => first.wordless && second.wordless
  | opt body | star body | plus body | fewest body | times _ _ body => body.wordless

/-- A step only takes characters from the front. -/
def Shrinks (step : List Char → List (List Char)) : Prop :=
  ∀ text, ∀ rest ∈ step text, rest <:+ text

/-- A step takes at least one character. -/
def Takes (step : List Char → List (List Char)) : Prop :=
  ∀ text, ∀ rest ∈ step text, rest.length < text.length

section

variable {step next : List Char → List (List Char)}

/-- One step behind another leaves an end of what the first one left, and so an end of the text. -/
theorem Shrinks.flatMap (first : Shrinks step) (second : Shrinks next) :
    Shrinks fun text => (step text).flatMap next := by
  intro text rest hRest
  obtain ⟨middle, hMiddle, hRest⟩ := List.mem_flatMap.mp hRest
  exact (second middle rest hRest).trans (first text middle hMiddle)

end

/-- One text is left of another when a step is run so many times, each run on what the one before it
left. -/
inductive Runs (step : List Char → List (List Char)) : Nat → List Char → List Char → Prop
  | none (text : List Char) : Runs step 0 text text
  | more {count : Nat} {text middle rest : List Char} (once : middle ∈ step text)
      (again : Runs step count middle rest) : Runs step (count + 1) text rest

/-- The runs of a step in an order of choice: it says where the text itself, left by no run at all,
comes among what is left behind a first run. -/
def runsBy (order : List Char → List (List Char) → List (List Char))
    (step : List Char → List (List Char)) : Nat → List Char → List (List Char)
  | 0, text => order text []
  | bound + 1, text => order text ((step text).flatMap (runsBy order step bound))

section

variable {step : List Char → List (List Char)}
  {order : List Char → List (List Char) → List (List Char)} {text rest : List Char}

/-- Runs that prefer more runs list the text itself behind everything else. -/
theorem mostRuns_eq (bound : Nat) :
    mostRuns step bound = runsBy (fun text rests => rests ++ [text]) step bound := by
  induction bound with
  | zero => rfl
  | succ bound ih =>
      funext text
      rw [mostRuns, ih, runsBy]

/-- Runs that prefer fewer runs list the text itself before everything else. -/
theorem fewestRuns_eq (bound : Nat) : fewestRuns step bound = runsBy List.cons step bound := by
  induction bound with
  | zero => rfl
  | succ bound ih =>
      funext text
      rw [fewestRuns, ih, runsBy]

/-- In whatever order runs are listed, what they list is what is left by no more runs than the bound
allows. -/
theorem mem_runsBy (hOrder : ∀ text rests rest, rest ∈ order text rests ↔ rest = text ∨ rest ∈ rests)
    {bound : Nat} : rest ∈ runsBy order step bound text ↔ ∃ count ≤ bound, Runs step count text rest := by
  induction bound generalizing text with
  | zero =>
      rw [runsBy, hOrder, or_iff_left List.not_mem_nil]
      constructor
      · rintro rfl
        exact ⟨0, Nat.le_refl 0, .none rest⟩
      · rintro ⟨count, hCount, runs⟩
        obtain rfl := Nat.le_zero.mp hCount
        cases runs
        rfl
  | succ bound ih =>
      rw [runsBy, hOrder, List.mem_flatMap]
      constructor
      · rintro (rfl | ⟨middle, hMiddle, hRest⟩)
        · exact ⟨0, Nat.zero_le _, .none rest⟩
        · obtain ⟨count, hCount, again⟩ := ih.mp hRest
          exact ⟨count + 1, Nat.succ_le_succ hCount, .more hMiddle again⟩
      · rintro ⟨count, hCount, runs⟩
        cases runs with
        | none => exact .inl rfl
        | more once again => exact .inr ⟨_, once, ih.mpr ⟨_, Nat.le_of_succ_le_succ hCount, again⟩⟩

/-- What is left by as many runs as possible is what some number of runs within the bound leave. -/
theorem mem_mostRuns {bound : Nat} :
    rest ∈ mostRuns step bound text ↔ ∃ count ≤ bound, Runs step count text rest := by
  rw [mostRuns_eq, mem_runsBy fun text rests rest => by simp [or_comm]]

/-- What is left by as few runs as possible is what some number of runs within the bound leave. Only
the order differs from that of the most runs. -/
theorem mem_fewestRuns {bound : Nat} :
    rest ∈ fewestRuns step bound text ↔ ∃ count ≤ bound, Runs step count text rest := by
  rw [fewestRuns_eq, mem_runsBy fun text rests rest => List.mem_cons]

/-- What is left by a fixed number of runs is what that many runs leave, one behind the other. -/
theorem mem_exactRuns {count : Nat} :
    rest ∈ exactRuns step count text ↔ Runs step count text rest := by
  induction count generalizing text with
  | zero =>
      rw [exactRuns, List.mem_singleton]
      constructor
      · rintro rfl
        exact .none rest
      · intro runs
        cases runs
        rfl
  | succ count ih =>
      rw [exactRuns, List.mem_flatMap]
      constructor
      · rintro ⟨middle, hMiddle, hRest⟩
        exact .more hMiddle (ih.mp hRest)
      · intro runs
        cases runs with
        | more once again => exact ⟨_, once, ih.mpr again⟩

/-- Runs behind runs add up: what the first ones leave is where the others begin. -/
theorem Runs.trans {first second : Nat} {middle : List Char} (runs : Runs step first text middle)
    (behind : Runs step second middle rest) : Runs step (first + second) text rest := by
  induction runs with
  | none => rwa [Nat.zero_add]
  | more once _ ih =>
      rw [Nat.add_right_comm]
      exact .more once (ih behind)

/-- However often a step that only takes from the front is run, an end of the text is left. -/
theorem Runs.suffix {count : Nat} (runs : Runs step count text rest) (shrinks : Shrinks step) :
    rest <:+ text := by
  induction runs with
  | none text => exact List.suffix_refl text
  | more once _ ih => exact ih.trans (shrinks _ _ once)

theorem Shrinks.mostRuns (shrinks : Shrinks step) (bound : Nat) :
    Shrinks (Pattern.mostRuns step bound) := by
  intro text rest hRest
  obtain ⟨_, -, runs⟩ := mem_mostRuns.mp hRest
  exact runs.suffix shrinks

theorem Shrinks.fewestRuns (shrinks : Shrinks step) (bound : Nat) :
    Shrinks (Pattern.fewestRuns step bound) := by
  intro text rest hRest
  obtain ⟨_, -, runs⟩ := mem_fewestRuns.mp hRest
  exact runs.suffix shrinks

theorem Shrinks.exactRuns (shrinks : Shrinks step) (count : Nat) :
    Shrinks (Pattern.exactRuns step count) :=
  fun _ _ hRest => (mem_exactRuns.mp hRest).suffix shrinks

end

/-- What is left over is an end of the text, for every pattern. The induction is on the pattern, and
every repetition is a number of runs. -/
theorem shrinks_ends (pattern : Pattern) : Shrinks pattern.ends := by
  induction pattern with
  | empty =>
      intro text rest hRest
      exact List.mem_singleton.mp hRest ▸ List.suffix_refl _
  | one test =>
      intro text rest hRest
      cases text with
      | nil => cases hRest
      | cons c text =>
          simp only [ends] at hRest
          split at hRest
          · rw [List.mem_singleton.mp hRest]
            exact List.suffix_cons c text
          · cases hRest
  | wordEnd =>
      intro text rest hRest
      simp only [ends] at hRest
      split at hRest
      · exact List.mem_singleton.mp hRest ▸ List.suffix_refl _
      · split at hRest
        · cases hRest
        · exact List.mem_singleton.mp hRest ▸ List.suffix_refl _
  | cat first second ihFirst ihSecond => exact ihFirst.flatMap ihSecond
  | alt first second ihFirst ihSecond =>
      intro text rest hRest
      rcases List.mem_append.mp hRest with hRest | hRest
      · exact ihFirst text rest hRest
      · exact ihSecond text rest hRest
  | opt body ih =>
      intro text rest hRest
      rcases List.mem_append.mp hRest with hRest | hRest
      · exact ih text rest hRest
      · exact List.mem_singleton.mp hRest ▸ List.suffix_refl _
  | star body ih =>
      intro text
      exact ih.mostRuns text.length text
  | plus body ih =>
      intro text rest hRest
      obtain ⟨middle, hMiddle, hRest⟩ := List.mem_flatMap.mp hRest
      exact (ih.mostRuns _ middle rest hRest).trans (ih text middle hMiddle)
  | fewest body ih =>
      intro text
      exact ih.fewestRuns text.length text
  | times least most body ih => exact (ih.exactRuns least).flatMap (ih.mostRuns (most - least))

theorem length_le_of_mem_ends {pattern : Pattern} {text rest : List Char}
    (hRest : rest ∈ pattern.ends text) : rest.length ≤ text.length :=
  (shrinks_ends pattern text rest hRest).length_le

/-- A pattern that cannot match nothing takes at least one character. -/
theorem takes_ends {pattern : Pattern} (hNullable : pattern.nullable = false) :
    Takes pattern.ends := by
  induction pattern with
  | empty | wordEnd | opt | star | fewest => cases hNullable
  | one test =>
      intro text rest hRest
      cases text with
      | nil => cases hRest
      | cons c text =>
          simp only [ends] at hRest
          split at hRest
          · rw [List.mem_singleton.mp hRest]
            exact Nat.lt_succ_self _
          · cases hRest
  | cat first second ihFirst ihSecond =>
      intro text rest hRest
      obtain ⟨middle, hMiddle, hRest⟩ := List.mem_flatMap.mp hRest
      have hFirst := length_le_of_mem_ends hMiddle
      have hSecond := length_le_of_mem_ends hRest
      simp only [nullable, Bool.and_eq_false_iff] at hNullable
      rcases hNullable with hNullable | hNullable
      · have hTakes := ihFirst hNullable text middle hMiddle
        omega
      · have hTakes := ihSecond hNullable middle rest hRest
        omega
  | alt first second ihFirst ihSecond =>
      intro text rest hRest
      simp only [nullable, Bool.or_eq_false_iff] at hNullable
      rcases List.mem_append.mp hRest with hRest | hRest
      · exact ihFirst hNullable.1 text rest hRest
      · exact ihSecond hNullable.2 text rest hRest
  | plus body ih =>
      intro text rest hRest
      obtain ⟨middle, hMiddle, hRest⟩ := List.mem_flatMap.mp hRest
      have hBody := ih hNullable text middle hMiddle
      have hRuns := ((shrinks_ends body).mostRuns _ middle rest hRest).length_le
      omega
  | times least most body ih =>
      intro text rest hRest
      simp only [nullable, Bool.or_eq_false_iff, decide_eq_false_iff_not] at hNullable
      obtain ⟨middle, hMiddle, hRest⟩ := List.mem_flatMap.mp hRest
      have hRuns := ((shrinks_ends body).mostRuns _ middle rest hRest).length_le
      obtain ⟨count, rfl⟩ := Nat.exists_eq_succ_of_ne_zero hNullable.1
      obtain ⟨once, hOnce, hMiddle⟩ := List.mem_flatMap.mp hMiddle
      have hBody := ih hNullable.2 text once hOnce
      have hExact := ((shrinks_ends body).exactRuns _ once middle hMiddle).length_le
      omega

section

variable {step : List Char → List (List Char)}

/-- Nothing is taken from the empty text, as a step that takes something would have to leave less.
-/
theorem Takes.nil (takes : Takes step) : step [] = [] := by
  refine List.eq_nil_iff_forall_not_mem.mpr ?_
  intro rest hRest
  exact absurd (takes [] rest hRest) (Nat.not_lt_zero _)

/-- A bound that a text is too short to reach does not matter: a step that takes something each time
cannot run more often than the text has characters. -/
theorem Takes.runsBy_bound (takes : Takes step)
    (order : List Char → List (List Char) → List (List Char)) {first second : Nat} {text : List Char}
    (hFirst : text.length ≤ first) (hSecond : text.length ≤ second) :
    runsBy order step first text = runsBy order step second text := by
  induction first generalizing second text with
  | zero =>
      obtain rfl := List.eq_nil_of_length_eq_zero (Nat.le_zero.mp hFirst)
      cases second <;> simp [runsBy, takes.nil]
  | succ first ih =>
      cases second with
      | zero =>
          obtain rfl := List.eq_nil_of_length_eq_zero (Nat.le_zero.mp hSecond)
          simp [runsBy, takes.nil]
      | succ second =>
          simp only [runsBy]
          congr 1
          refine List.flatMap_congr ?_
          intro rest hRest
          have hLess := takes text rest hRest
          exact ih (by omega) (by omega)

/-- Two bounds that a text is too short to reach leave the same, in the same order. -/
theorem Takes.mostRuns_bound (takes : Takes step) {first second : Nat} {text : List Char}
    (hFirst : text.length ≤ first) (hSecond : text.length ≤ second) :
    mostRuns step first text = mostRuns step second text := by
  rw [mostRuns_eq, mostRuns_eq, takes.runsBy_bound _ hFirst hSecond]

end

/-- The remainders that reach back over all of a given ending. -/
def reaching (ending : List Char) (rests : List (List Char)) : List (List Char) :=
  rests.filter fun rest => ending.length ≤ rest.length

/-- A step finds the same inside a text whether or not an ending follows. -/
def Local (step : List Char → List (List Char)) (ending : List Char) : Prop :=
  ∀ text, reaching ending (step (text ++ ending)) = (step text).map (· ++ ending)

section

variable {step next : List Char → List (List Char)} {ending : List Char}

/-- What reaches the ending among two lists is what does so in each of them. -/
theorem reaching_append (first second : List (List Char)) :
    reaching ending (first ++ second) = reaching ending first ++ reaching ending second :=
  List.filter_append ..

/-- What a second step leaves over reaches back over an ending only if what the first one did
does. -/
theorem reaching_flatMap (shrinks : Shrinks next) (rests : List (List Char)) :
    reaching ending (rests.flatMap next) =
      (reaching ending rests).flatMap fun rest => reaching ending (next rest) := by
  induction rests with
  | nil => rfl
  | cons rest rests ih =>
      rw [List.flatMap_cons, reaching_append, ih]
      simp only [reaching, List.filter_cons]
      split
      · rw [List.flatMap_cons]
      · rename_i hShort
        have hNone : (next rest).filter (fun rest => decide (ending.length ≤ rest.length)) = [] := by
          refine List.filter_eq_nil_iff.mpr ?_
          intro last hLast
          have hLess := (shrinks rest last hLast).length_le
          simp only [decide_eq_true_eq] at hShort ⊢
          omega
        rw [hNone, List.nil_append]

/-- One step behind another sees nothing of the ending if neither step does, provided that the
second one leaves an end of its text. -/
theorem Local.flatMap (first : Local step ending) (second : Local next ending)
    (shrinks : Shrinks next) : Local (fun text => (step text).flatMap next) ending := by
  intro text
  rw [reaching_flatMap shrinks, first text, List.flatMap_map, List.map_flatMap]
  refine List.flatMap_congr ?_
  intro rest _
  exact second rest

/-- The text itself may come behind whatever is left, as it does where a step may also be left out. -/
theorem reaching_append_self {text : List Char} {rests within : List (List Char)}
    (hRests : reaching ending rests = within.map (· ++ ending)) :
    reaching ending (rests ++ [text ++ ending]) = (within ++ [text]).map (· ++ ending) := by
  rw [reaching_append, hRests, List.map_append]
  simp [reaching]

/-- Runs in any order see nothing of the ending if a single run sees nothing. All that is asked of the
order is that the ending does not matter to where it puts the text itself. -/
theorem Local.runsBy {order : List Char → List (List Char) → List (List Char)}
    (hOrder : ∀ text rests within, reaching ending rests = within.map (· ++ ending) →
      reaching ending (order (text ++ ending) rests) = (order text within).map (· ++ ending))
    (inside : Local step ending) (hShrinks : ∀ bound, Shrinks (Pattern.runsBy order step bound))
    (bound : Nat) : Local (Pattern.runsBy order step bound) ending := by
  induction bound with
  | zero =>
      intro text
      exact hOrder text [] [] rfl
  | succ bound ih =>
      intro text
      exact hOrder text _ _ (inside.flatMap ih (hShrinks bound) text)

/-- As many runs as possible see nothing of the ending if a single run sees nothing. -/
theorem Local.mostRuns (inside : Local step ending) (shrinks : Shrinks step) (bound : Nat) :
    Local (Pattern.mostRuns step bound) ending := by
  rw [mostRuns_eq]
  exact inside.runsBy (fun _ _ _ => reaching_append_self)
    (fun bound => mostRuns_eq bound ▸ shrinks.mostRuns bound) bound

/-- As few runs as possible see nothing of the ending if a single run sees nothing. -/
theorem Local.fewestRuns (inside : Local step ending) (shrinks : Shrinks step) (bound : Nat) :
    Local (Pattern.fewestRuns step bound) ending := by
  rw [fewestRuns_eq]
  refine inside.runsBy ?_ (fun bound => fewestRuns_eq bound ▸ shrinks.fewestRuns bound) bound
  intro text rests within hRests
  rw [List.map_cons, ← hRests]
  simp [reaching]

/-- A fixed number of runs see nothing of the ending if a single run sees nothing. -/
theorem Local.exactRuns (inside : Local step ending) (shrinks : Shrinks step) (count : Nat) :
    Local (Pattern.exactRuns step count) ending := by
  induction count with
  | zero =>
      intro text
      simp [Pattern.exactRuns, reaching]
  | succ count ih => exact inside.flatMap ih (shrinks.exactRuns count)

/-- As many runs as fit into a text see nothing of the ending if a single run sees nothing and takes
something: the ending only raises a bound that was high enough without it. -/
theorem Local.allRuns (inside : Local step ending) (shrinks : Shrinks step) (takes : Takes step) :
    Local (fun text => Pattern.mostRuns step text.length text) ending := by
  intro text
  have hBound : text.length ≤ (text ++ ending).length := by simp
  rw [inside.mostRuns shrinks, takes.mostRuns_bound hBound (Nat.le_refl _)]

/-- Runs tried from the fewest on, up to as many as fit into a text, see nothing of the ending if a
single run sees nothing and takes something. -/
theorem Local.leastRuns (inside : Local step ending) (shrinks : Shrinks step) (takes : Takes step) :
    Local (fun text => Pattern.fewestRuns step text.length text) ending := by
  intro text
  have hBound : text.length ≤ (text ++ ending).length := by simp
  have hSame : Pattern.fewestRuns step (text ++ ending).length text =
      Pattern.fewestRuns step text.length text := by
    rw [fewestRuns_eq, fewestRuns_eq, takes.runsBy_bound _ hBound (Nat.le_refl _)]
  rw [inside.fewestRuns shrinks, hSame]

end

/-- A single character is found inside a text whatever follows. -/
theorem local_one (test : CharTest) (ending : List Char) : Local (one test).ends ending := by
  intro text
  cases text with
  | nil =>
      cases ending with
      | nil => rfl
      | cons c ending =>
          simp only [ends, List.nil_append, reaching]
          split <;> simp
  | cons c text =>
      simp only [ends, List.cons_append]
      split <;> simp [reaching]

/-- Whether an ending may follow a word. -/
def endsWord (ending : List Char) : Bool :=
  !ending.head?.any Unicode.isWord

/-- A word ends inside a text whatever follows, and it ends with the text if the ending may follow a
word. -/
theorem local_wordEnd {ending : List Char} (hEnding : endsWord ending = true) :
    Local wordEnd.ends ending := by
  intro text
  cases text with
  | nil =>
      cases ending with
      | nil => rfl
      | cons c ending =>
          simp only [endsWord, List.head?_cons, Option.any_some, Bool.not_eq_true'] at hEnding
          simp [ends, hEnding, reaching]
  | cons c text =>
      simp only [ends, List.cons_append]
      split
      · simp [reaching]
      · simp only [reaching, List.map_cons, List.map_nil, List.cons_append]
        refine List.filter_eq_self.mpr ?_
        simp
        omega

/-- The matches inside a text do not depend on what follows it, unless the end of a word counts
and a word goes on. -/
theorem local_ends {pattern : Pattern} {ending : List Char} (hProductive : pattern.productive = true)
    (hWord : pattern.wordless = true ∨ endsWord ending = true) :
    Local pattern.ends ending := by
  induction pattern with
  | empty =>
      intro text
      simp [ends, reaching]
  | one test => exact local_one test ending
  | wordEnd => exact local_wordEnd (hWord.resolve_left (by simp [wordless]))
  | cat first second ihFirst ihSecond =>
      simp only [productive, wordless, Bool.and_eq_true] at hProductive hWord
      exact (ihFirst hProductive.1 (hWord.imp_left And.left)).flatMap
        (ihSecond hProductive.2 (hWord.imp_left And.right)) (shrinks_ends second)
  | alt first second ihFirst ihSecond =>
      simp only [productive, wordless, Bool.and_eq_true] at hProductive hWord
      intro text
      simp only [ends, List.map_append]
      rw [reaching_append, ihFirst hProductive.1 (hWord.imp_left And.left),
        ihSecond hProductive.2 (hWord.imp_left And.right)]
  | opt body ih =>
      intro text
      exact reaching_append_self (ih hProductive hWord text)
  | star body ih =>
      simp only [productive, Bool.and_eq_true, Bool.not_eq_true'] at hProductive
      exact (ih hProductive.1 hWord).allRuns (shrinks_ends body) (takes_ends hProductive.2)
  | plus body ih =>
      simp only [productive, Bool.and_eq_true, Bool.not_eq_true'] at hProductive
      have hBody := ih hProductive.1 hWord
      exact hBody.flatMap (hBody.allRuns (shrinks_ends body) (takes_ends hProductive.2)) fun text =>
        (shrinks_ends body).mostRuns text.length text
  | fewest body ih =>
      simp only [productive, Bool.and_eq_true, Bool.not_eq_true'] at hProductive
      exact (ih hProductive.1 hWord).leastRuns (shrinks_ends body) (takes_ends hProductive.2)
  | times least most body ih =>
      have hBody := ih hProductive hWord
      exact (hBody.exactRuns (shrinks_ends body) least).flatMap
        (hBody.mostRuns (shrinks_ends body) (most - least))
        ((shrinks_ends body).mostRuns (most - least))

end DocumentLanguage.Pattern
