import DocumentLanguage.Proofs.Pattern.Ends
import DocumentLanguage.Token.Pattern

/-!
Where a match must stop. Most patterns cannot take the character that follows a token, so they
match the token and what follows just as they match the token alone.
-/
namespace DocumentLanguage.Pattern

/-- No match that begins with a text goes on into the ending behind it. -/
def Stops (pattern : Pattern) (text ending : List Char) : Prop :=
  ∀ rest ∈ pattern.ends (text ++ ending), ending.length ≤ rest.length

/-- An end of a text that is no shorter than its ending reaches back over it, and so it ends with
it. -/
theorem exists_append_of_length_le {text rest ending : List Char} (hRest : rest <:+ text ++ ending)
    (hLength : ending.length ≤ rest.length) : ∃ front, rest = front ++ ending := by
  obtain ⟨front, hFront⟩ := hRest
  obtain ⟨middle, -, hEq⟩ | ⟨middle, hEq, hEnding⟩ := List.append_eq_append_iff.mp hFront
  · exact ⟨middle, hEq⟩
  · have hLengths := congrArg List.length hEnding
    simp only [List.length_append] at hLengths
    have hMiddle : middle = [] := List.eq_nil_of_length_eq_zero (by omega)
    exact ⟨[], by simpa [hMiddle] using hEnding.symm⟩

/-- Where no match goes on, what follows a text does not change the matches. -/
theorem Stops.ends_append {pattern : Pattern} {text ending : List Char}
    (stops : pattern.Stops text ending) (hLocal : Local pattern.ends ending) :
    pattern.ends (text ++ ending) = (pattern.ends text).map (· ++ ending) := by
  rw [← hLocal text]
  exact (List.filter_eq_self.mpr fun rest hRest => by simpa using stops rest hRest).symm

section

variable {first second body : Pattern} {text ending : List Char}

/-- Two patterns in a row stop before an ending if the first one does here and the second one
wherever it begins. -/
theorem Stops.cat (hFirst : first.Stops text ending) (hSecond : ∀ text, second.Stops text ending) :
    (Pattern.cat first second).Stops text ending := by
  intro rest hRest
  obtain ⟨middle, hMiddle, hRest⟩ := List.mem_flatMap.mp hRest
  obtain ⟨front, rfl⟩ := exists_append_of_length_le (shrinks_ends first _ middle hMiddle)
    (hFirst middle hMiddle)
  exact hSecond front rest hRest

/-- A choice stops before an ending if both ways do. -/
theorem Stops.alt (hFirst : first.Stops text ending) (hSecond : second.Stops text ending) :
    (Pattern.alt first second).Stops text ending := by
  intro rest hRest
  rcases List.mem_append.mp hRest with hRest | hRest
  · exact hFirst rest hRest
  · exact hSecond rest hRest

theorem Stops.opt (hBody : body.Stops text ending) : (Pattern.opt body).Stops text ending := by
  intro rest hRest
  rcases List.mem_append.mp hRest with hRest | hRest
  · exact hBody rest hRest
  · rw [List.mem_singleton.mp hRest]
    simp

/-- However often a pattern is run that does not go on into an ending, the ending is left. -/
theorem Stops.runs (hBody : ∀ text, body.Stops text ending) {count : Nat} {rest : List Char}
    (runs : Runs body.ends count (text ++ ending) rest) : ending.length ≤ rest.length := by
  generalize hWhole : text ++ ending = whole at runs
  induction runs generalizing text with
  | none =>
      rw [← hWhole]
      simp
  | more once _ ih =>
      subst hWhole
      obtain ⟨front, rfl⟩ := exists_append_of_length_le (shrinks_ends body _ _ once)
        (hBody text _ once)
      exact ih rfl

/-- A repetition stops before an ending if one run does, wherever it begins. -/
theorem Stops.star (hBody : ∀ text, body.Stops text ending) (text : List Char) :
    (Pattern.star body).Stops text ending := by
  intro rest hRest
  obtain ⟨_, -, runs⟩ := mem_mostRuns.mp hRest
  exact Stops.runs hBody runs

theorem Stops.fewest (hBody : ∀ text, body.Stops text ending) (text : List Char) :
    (Pattern.fewest body).Stops text ending := by
  intro rest hRest
  obtain ⟨_, -, runs⟩ := mem_fewestRuns.mp hRest
  exact Stops.runs hBody runs

/-- At least one run stops before an ending if each run does, wherever it begins. -/
theorem Stops.plus (hBody : ∀ text, body.Stops text ending) (text : List Char) :
    (Pattern.plus body).Stops text ending := by
  intro rest hRest
  obtain ⟨middle, hMiddle, hRest⟩ := List.mem_flatMap.mp hRest
  obtain ⟨_, -, runs⟩ := mem_mostRuns.mp hRest
  exact Stops.runs hBody (.more hMiddle runs)

/-- A limited number of runs stop before an ending if each run does, wherever it begins. -/
theorem Stops.times {least most : Nat} (hBody : ∀ text, body.Stops text ending)
    (text : List Char) : (Pattern.times least most body).Stops text ending := by
  intro rest hRest
  obtain ⟨middle, hMiddle, hRest⟩ := List.mem_flatMap.mp hRest
  obtain ⟨_, -, runs⟩ := mem_mostRuns.mp hRest
  exact Stops.runs hBody ((mem_exactRuns.mp hMiddle).trans runs)

end

/-- Whether no match can take `c` where it comes. A point may be taken with a digit behind it. -/
def stopsBefore (c : Char) : Pattern → Bool
  | empty | wordEnd => true
  | one test => !test.holds c
  | cat first second =>
    (c = '.' && cat first second = fraction) || (first.stopsBefore c && second.stopsBefore c)
  | alt first second => first.stopsBefore c && second.stopsBefore c
  | opt body | star body | plus body | fewest body | times _ _ body => body.stopsBefore c

/-- Whether no match can take `c` behind another character. -/
def stopsInside (c : Char) : Pattern → Bool
  | empty | wordEnd | one _ => true
  | cat first second => first.stopsInside c && second.stopsBefore c
  | alt first second => first.stopsInside c && second.stopsInside c
  | opt body => body.stopsInside c
  | star body | plus body | fewest body | times _ _ body => body.stopsBefore c

def endsNumber : List Char → Bool
  | '.' :: c :: _ => !Unicode.isDecimalDigit c
  | _ => true

/-- No fraction begins at a point that ends a number, because no digit is behind it. -/
theorem ends_fraction_of_endsNumber {ending : List Char} (hEnding : endsNumber ('.' :: ending) = true) :
    fraction.ends ('.' :: ending) = [] := by
  cases ending with
  | nil => rfl
  | cons c ending =>
      simp only [endsNumber, Bool.not_eq_true'] at hEnding
      simp [fraction, cats, char, digits, digit, ends, CharTest.holds, hEnding]

/-- A single character is not taken from an ending that begins with one that fails the test. -/
theorem stops_one {test : CharTest} {c : Char} {ending : List Char} (hTest : test.holds c = false)
    (text : List Char) : (one test).Stops text (c :: ending) := by
  intro rest hRest
  cases text with
  | nil => simp [ends, hTest] at hRest
  | cons d text =>
      simp only [ends, List.cons_append] at hRest
      split at hRest
      · rw [List.mem_singleton.mp hRest]
        simp
      · cases hRest

/-- The end of a word takes nothing, so it stops anywhere. -/
theorem stops_wordEnd (text ending : List Char) : wordEnd.Stops text ending := by
  intro rest hRest
  obtain rfl : rest = text ++ ending := by
    simp only [ends] at hRest
    split at hRest
    · simpa using hRest
    · split at hRest
      · cases hRest
      · simpa using hRest
  simp

/-- A fraction stops in front of a point that no digit follows: there it cannot begin, and the digits
of one that began before do not take a point. -/
theorem stops_fraction {ending : List Char} (hEnding : endsNumber ('.' :: ending) = true)
    (text : List Char) : fraction.Stops text ('.' :: ending) := by
  intro rest hRest
  cases text with
  | nil =>
      rw [List.nil_append, ends_fraction_of_endsNumber hEnding] at hRest
      cases hRest
  | cons d text =>
      have hDigits : ∀ text, digits.Stops text ('.' :: ending) :=
        Stops.plus fun text => stops_one (by decide) text
      obtain ⟨middle, hMiddle, hRest⟩ := List.mem_flatMap.mp hRest
      simp only [char, ends, List.cons_append] at hMiddle
      split at hMiddle
      · rw [List.mem_singleton.mp hMiddle] at hRest
        exact hDigits text rest hRest
      · cases hMiddle

/-- A pattern that is checked to stop before a character does so in front of every ending that
begins with it. The check follows the pattern, and so does the proof. -/
theorem stops_of_stopsBefore {c : Char} {ending : List Char}
    (hEnding : endsNumber (c :: ending) = true) {pattern : Pattern}
    (hStops : pattern.stopsBefore c = true) (text : List Char) :
    pattern.Stops text (c :: ending) := by
  induction pattern generalizing text with
  | empty =>
      intro rest hRest
      rw [List.mem_singleton.mp hRest]
      simp
  | wordEnd => exact stops_wordEnd text (c :: ending)
  | one test => exact stops_one (by simpa [stopsBefore] using hStops) text
  | cat first second ihFirst ihSecond =>
      by_cases hFraction : c = '.' ∧ cat first second = fraction
      · obtain ⟨rfl, hPattern⟩ := hFraction
        exact hPattern ▸ stops_fraction hEnding text
      · have hBoth : first.stopsBefore c = true ∧ second.stopsBefore c = true := by
          simpa [stopsBefore, hFraction] using hStops
        exact (ihFirst hBoth.1 text).cat (ihSecond hBoth.2)
  | alt first second ihFirst ihSecond =>
      simp only [stopsBefore, Bool.and_eq_true] at hStops
      exact (ihFirst hStops.1 text).alt (ihSecond hStops.2 text)
  | opt body ih => exact (ih hStops text).opt
  | star body ih => exact Stops.star (ih hStops) text
  | plus body ih => exact Stops.plus (ih hStops) text
  | fewest body ih => exact Stops.fewest (ih hStops) text
  | times least most body ih => exact Stops.times (ih hStops) text

/-- A pattern that takes its first character from the text need only be checked behind that
character. -/
theorem stops_of_stopsInside {c d : Char} {ending : List Char}
    (hEnding : endsNumber (c :: ending) = true) {pattern : Pattern}
    (hStops : pattern.stopsInside c = true) (text : List Char) :
    pattern.Stops (d :: text) (c :: ending) := by
  induction pattern with
  | empty => exact stops_of_stopsBefore hEnding rfl _
  | wordEnd => exact stops_of_stopsBefore hEnding rfl _
  | one test =>
      intro rest hRest
      simp only [ends, List.cons_append] at hRest
      split at hRest
      · rw [List.mem_singleton.mp hRest]
        simp
      · cases hRest
  | cat first second ihFirst ihSecond =>
      simp only [stopsInside, Bool.and_eq_true] at hStops
      exact (ihFirst hStops.1).cat (stops_of_stopsBefore hEnding hStops.2)
  | alt first second ihFirst ihSecond =>
      simp only [stopsInside, Bool.and_eq_true] at hStops
      exact (ihFirst hStops.1).alt (ihSecond hStops.2)
  | opt body ih => exact (ih hStops).opt
  | star body ih => exact Stops.star (stops_of_stopsBefore hEnding hStops) _
  | plus body ih => exact Stops.plus (stops_of_stopsBefore hEnding hStops) _
  | fewest body ih => exact Stops.fewest (stops_of_stopsBefore hEnding hStops) _
  | times least most body ih => exact Stops.times (stops_of_stopsBefore hEnding hStops) _

/-- Whether a match can begin with a character. -/
def opens (c : Char) : Pattern → Bool
  | empty | wordEnd => false
  | one test => test.holds c
  | cat first second => first.opens c || (first.nullable && second.opens c)
  | alt first second => first.opens c || second.opens c
  | opt body | star body | plus body | fewest body | times _ _ body => body.opens c

/-- What takes nothing takes nothing however often it is run, and if it is run at all it can. -/
theorem Runs.eq {step : List Char → List (List Char)} {text rest : List Char} {count : Nat}
    (runs : Runs step count text rest) (hStays : ∀ rest ∈ step text, rest = text) :
    rest = text ∧ (count = 0 ∨ text ∈ step text) := by
  induction runs with
  | none => exact ⟨rfl, .inl rfl⟩
  | more once _ ih =>
      obtain rfl := hStays _ once
      exact ⟨(ih hStays).1, .inr once⟩

/-- A match that does not begin with the first character takes nothing. -/
theorem nullable_of_not_opens {c : Char} {text rest : List Char} {pattern : Pattern}
    (hOpens : pattern.opens c = false) (hRest : rest ∈ pattern.ends (c :: text)) :
    rest = c :: text ∧ pattern.nullable = true := by
  induction pattern generalizing rest with
  | empty => exact ⟨List.mem_singleton.mp hRest, rfl⟩
  | wordEnd =>
      simp only [ends] at hRest
      split at hRest
      · cases hRest
      · exact ⟨List.mem_singleton.mp hRest, rfl⟩
  | one test =>
      simp only [opens] at hOpens
      simp [ends, hOpens] at hRest
  | cat first second ihFirst ihSecond =>
      simp only [opens, Bool.or_eq_false_iff, Bool.and_eq_false_iff] at hOpens
      obtain ⟨middle, hMiddle, hRest⟩ := List.mem_flatMap.mp hRest
      obtain ⟨rfl, hFirst⟩ := ihFirst hOpens.1 hMiddle
      have hSecond := hOpens.2.resolve_left (by simp [hFirst])
      obtain ⟨rfl, hNullable⟩ := ihSecond hSecond hRest
      exact ⟨rfl, by simp [nullable, hFirst, hNullable]⟩
  | alt first second ihFirst ihSecond =>
      simp only [opens, Bool.or_eq_false_iff] at hOpens
      rcases List.mem_append.mp hRest with hRest | hRest
      · obtain ⟨rfl, hNullable⟩ := ihFirst hOpens.1 hRest
        exact ⟨rfl, by simp [nullable, hNullable]⟩
      · obtain ⟨rfl, hNullable⟩ := ihSecond hOpens.2 hRest
        exact ⟨rfl, by simp [nullable, hNullable]⟩
  | opt body ih =>
      rcases List.mem_append.mp hRest with hRest | hRest
      · exact ⟨(ih hOpens hRest).1, rfl⟩
      · exact ⟨List.mem_singleton.mp hRest, rfl⟩
  | star body ih =>
      obtain ⟨_, -, runs⟩ := mem_mostRuns.mp hRest
      exact ⟨(runs.eq fun _ hRest => (ih hOpens hRest).1).1, rfl⟩
  | plus body ih =>
      obtain ⟨middle, hMiddle, hRest⟩ := List.mem_flatMap.mp hRest
      obtain ⟨rfl, hNullable⟩ := ih hOpens hMiddle
      obtain ⟨_, -, runs⟩ := mem_mostRuns.mp hRest
      exact ⟨(runs.eq fun _ hRest => (ih hOpens hRest).1).1, hNullable⟩
  | fewest body ih =>
      obtain ⟨_, -, runs⟩ := mem_fewestRuns.mp hRest
      exact ⟨(runs.eq fun _ hRest => (ih hOpens hRest).1).1, rfl⟩
  | times least most body ih =>
      have hStays : ∀ rest ∈ body.ends (c :: text), rest = c :: text := fun _ hRest => (ih hOpens hRest).1
      obtain ⟨middle, hMiddle, hRest⟩ := List.mem_flatMap.mp hRest
      obtain ⟨rfl, hTakes⟩ := (mem_exactRuns.mp hMiddle).eq hStays
      obtain ⟨_, -, runs⟩ := mem_mostRuns.mp hRest
      refine ⟨(runs.eq hStays).1, ?_⟩
      simpa [nullable] using hTakes.imp_right fun hTakes => (ih hOpens hTakes).2

/-- A pattern that takes something does not match where no match can begin. -/
theorem ends_eq_nil_of_not_opens {c : Char} {text : List Char} {pattern : Pattern}
    (hOpens : pattern.opens c = false) (hNullable : pattern.nullable = false) :
    pattern.ends (c :: text) = [] := by
  refine List.eq_nil_iff_forall_not_mem.mpr ?_
  intro rest hRest
  have hTrue := (nullable_of_not_opens hOpens hRest).2
  rw [hNullable] at hTrue
  cases hTrue

/-- The characters that a match can begin with, if there are only a few. -/
def openers? : Pattern → Option (List Char)
  | one (.char c) | one (.verbatim c) | one (.oneOf [.char c]) => some [c]
  | cat first second =>
    if first.nullable then
      first.openers?.bind fun openers => second.openers?.map (openers ++ ·)
    else first.openers?
  | alt first second => first.openers?.bind fun openers => second.openers?.map (openers ++ ·)
  | opt body | plus body => body.openers?
  | _ => none

/-- A pattern does not begin with a character that is not among those it can begin with. -/
theorem not_opens_of_openers? {pattern : Pattern} {openers : List Char} {c : Char}
    (hOpeners : pattern.openers? = some openers) (hNot : c ∉ openers) :
    pattern.opens c = false := by
  induction pattern generalizing openers with
  | one test =>
      unfold openers? at hOpeners
      split at hOpeners
      · rename_i hEq
        cases hEq
        cases hOpeners
        simpa [opens, CharTest.holds] using hNot
      · rename_i hEq
        cases hEq
        cases hOpeners
        simpa [opens, CharTest.holds] using hNot
      · rename_i hEq
        cases hEq
        cases hOpeners
        simpa [opens, CharTest.holds, SetItem.holds] using hNot
      · contradiction
      · contradiction
      · contradiction
      · contradiction
      · cases hOpeners
  | cat first second ihFirst ihSecond =>
      simp only [openers?] at hOpeners
      split at hOpeners
      · obtain ⟨openers, hFirst, hBoth⟩ := Option.bind_eq_some_iff.mp hOpeners
        obtain ⟨others, hSecond, rfl⟩ := Option.map_eq_some_iff.mp hBoth
        simp only [List.mem_append, not_or] at hNot
        simp [opens, ihFirst hFirst hNot.1, ihSecond hSecond hNot.2]
      · rename_i hNullable
        simp [opens, ihFirst hOpeners hNot, hNullable]
  | alt first second ihFirst ihSecond =>
      simp only [openers?] at hOpeners
      obtain ⟨openers, hFirst, hBoth⟩ := Option.bind_eq_some_iff.mp hOpeners
      obtain ⟨others, hSecond, rfl⟩ := Option.map_eq_some_iff.mp hBoth
      simp only [List.mem_append, not_or] at hNot
      simp [opens, ihFirst hFirst hNot.1, ihSecond hSecond hNot.2]
  | opt body ih => exact ih hOpeners hNot
  | plus body ih => exact ih hOpeners hNot
  | _ => cases hOpeners

/-- Whether a pattern cannot go on behind a token of a kind into what begins with `c`: either it
can take no such character there, or no token of the kind begins as it does. -/
def clears (token : Pattern) (c : Char) : Pattern → Bool
  | alt first second => clears token c first && clears token c second
  | pattern =>
    pattern.stopsInside c ||
      (!pattern.nullable && pattern.openers?.any fun openers => !openers.any token.opens)

/-- A token that begins like a pattern keeps it from running into the ending, if it is checked to
clear the character behind it. -/
theorem stops_of_clears {token pattern : Pattern} {c d : Char} {text ending : List Char}
    (hEnding : endsNumber (c :: ending) = true) (hToken : token.opens d = true)
    (hClears : clears token c pattern = true) : pattern.Stops (d :: text) (c :: ending) := by
  have hBase : ∀ pattern : Pattern,
      (pattern.stopsInside c ||
        (!pattern.nullable && pattern.openers?.any fun openers => !openers.any token.opens)) = true →
          pattern.Stops (d :: text) (c :: ending) := by
    intro pattern hCase
    rcases Bool.or_eq_true_iff.mp hCase with hStops | hOpeners
    · exact stops_of_stopsInside hEnding hStops text
    · simp only [Bool.and_eq_true, Bool.not_eq_true'] at hOpeners
      obtain ⟨hNullable, hOpeners⟩ := hOpeners
      obtain ⟨openers, hOpeners, hNot⟩ := (Option.any_eq_true _ _).mp hOpeners
      have hMem : d ∉ openers := by
        intro hMem
        have hAny : openers.any token.opens = true := List.any_eq_true.mpr ⟨d, hMem, hToken⟩
        simp [hAny] at hNot
      intro rest hRest
      rw [List.cons_append,
        ends_eq_nil_of_not_opens (not_opens_of_openers? hOpeners hMem) hNullable] at hRest
      cases hRest
  induction pattern with
  | alt first second ihFirst ihSecond =>
      simp only [clears, Bool.and_eq_true] at hClears
      exact (ihFirst hClears.1).alt (ihSecond hClears.2)
  | _ => exact hBase _ hClears

/-- Whether a match ends with its first `c`. -/
def closesWith (c : Char) : Pattern → Bool
  | one (.char d) => d = c
  | cat first second => first.stopsBefore c && second.closesWith c
  | _ => false

/-- Whether a match ends with its first `c` behind another character. -/
def closesInside (c : Char) : Pattern → Bool
  | cat first second => first.stopsInside c && !first.nullable && second.closesWith c
  | _ => false

/-- Any character but a point ends a number. -/
theorem endsNumber_of_ne {c : Char} {ending : List Char} (hPoint : c ≠ '.') :
    endsNumber (c :: ending) = true := by
  unfold endsNumber
  split
  · rename_i hEq
    exact absurd (List.cons.inj hEq).1 hPoint
  · rfl

/-- A match ends with the character that closes it, whatever follows. -/
theorem stops_of_closesWith {c : Char} (hPoint : c ≠ '.') {pattern : Pattern}
    (hCloses : pattern.closesWith c = true) (text ending : List Char) :
    pattern.Stops (text ++ [c]) ending := by
  induction pattern generalizing text with
  | one test =>
      intro rest hRest
      cases text with
      | nil =>
          simp only [ends, List.nil_append, List.cons_append] at hRest
          split at hRest
          · simp [List.mem_singleton.mp hRest]
          · cases hRest
      | cons d text =>
          simp only [ends, List.cons_append] at hRest
          split at hRest
          · simp only [List.mem_singleton.mp hRest, List.length_append]
            omega
          · cases hRest
  | cat first second ihFirst ihSecond =>
      simp only [closesWith, Bool.and_eq_true] at hCloses
      intro rest hRest
      rw [List.append_assoc] at hRest
      obtain ⟨middle, hMiddle, hRest⟩ := List.mem_flatMap.mp hRest
      obtain ⟨front, rfl⟩ := exists_append_of_length_le (shrinks_ends first _ middle hMiddle)
        (stops_of_stopsBefore (endsNumber_of_ne hPoint) hCloses.1 text middle hMiddle)
      exact ihSecond hCloses.2 front rest (by simpa using hRest)
  | _ => cases hCloses

/-- A pattern with a closing character stops at the first one, whatever is put behind it. -/
theorem stops_of_closesInside {c d : Char} (hPoint : c ≠ '.') {pattern : Pattern}
    (hCloses : pattern.closesInside c = true) (text ending : List Char) :
    pattern.Stops (d :: text ++ [c]) ending := by
  cases pattern with
  | cat first second =>
      simp only [closesInside, Bool.and_eq_true] at hCloses
      intro rest hRest
      rw [List.append_assoc] at hRest
      obtain ⟨middle, hMiddle, hRest⟩ := List.mem_flatMap.mp hRest
      obtain ⟨front, rfl⟩ := exists_append_of_length_le (shrinks_ends first _ middle hMiddle)
        (stops_of_stopsInside (endsNumber_of_ne hPoint) hCloses.1.1 text middle hMiddle)
      exact stops_of_closesWith hPoint hCloses.2 front ending rest (by simpa using hRest)
  | _ => cases hCloses

/-- What a closed pattern matches ends with the character that closes it. -/
theorem exists_append_of_closesWith {c : Char} {pattern : Pattern}
    (hCloses : pattern.closesWith c = true) {text rest : List Char}
    (hRest : rest ∈ pattern.ends text) : ∃ front, text = front ++ c :: rest := by
  induction pattern generalizing text with
  | one test =>
      cases test with
      | char d =>
          obtain rfl : d = c := by simpa [closesWith] using hCloses
          cases text with
          | nil => cases hRest
          | cons e text =>
              simp only [ends, CharTest.holds, decide_eq_true_eq] at hRest
              split at hRest
              · rename_i hEq
                subst hEq
                exact ⟨[], by rw [List.mem_singleton.mp hRest]; rfl⟩
              · cases hRest
      | _ => cases hCloses
  | cat first second ihFirst ihSecond =>
      simp only [closesWith, Bool.and_eq_true] at hCloses
      obtain ⟨middle, hMiddle, hRest⟩ := List.mem_flatMap.mp hRest
      obtain ⟨front, rfl⟩ := ihSecond hCloses.2 hRest
      obtain ⟨front', hText⟩ := shrinks_ends first _ _ hMiddle
      exact ⟨front' ++ front, by simpa using hText.symm⟩
  | _ => cases hCloses

/-- A pattern with a closing character takes at least one character before it, and then it takes the
closing one. -/
theorem exists_append_of_closesInside {c : Char} {pattern : Pattern}
    (hCloses : pattern.closesInside c = true) {text rest : List Char}
    (hRest : rest ∈ pattern.ends text) : ∃ d front, text = d :: front ++ c :: rest := by
  cases pattern with
  | cat first second =>
      simp only [closesInside, Bool.and_eq_true, Bool.not_eq_true'] at hCloses
      obtain ⟨middle, hMiddle, hRest⟩ := List.mem_flatMap.mp hRest
      obtain ⟨front, rfl⟩ := exists_append_of_closesWith hCloses.2 hRest
      obtain ⟨taken, rfl⟩ := shrinks_ends first _ _ hMiddle
      have hTakes := takes_ends hCloses.1.2 _ _ hMiddle
      cases taken with
      | nil => simp at hTakes
      | cons d taken => exact ⟨d, taken ++ front, by simp⟩
  | _ => cases hCloses

/-- A text that is matched as a whole holds no character that cannot be taken. -/
theorem not_mem_of_stopsBefore {c : Char} (hPoint : c ≠ '.') {pattern : Pattern}
    (hStops : pattern.stopsBefore c = true) {text : List Char} (hEnds : [] ∈ pattern.ends text) :
    c ∉ text := by
  intro hMem
  obtain ⟨front, ending, rfl⟩ := List.append_of_mem hMem
  have hLength := stops_of_stopsBefore (endsNumber_of_ne hPoint) hStops front [] hEnds
  simp at hLength

end DocumentLanguage.Pattern
