import DocumentLanguage.Text.Basic
import Mathlib.Tactic.SplitIfs

/-!
Quoted text is read back. Each character is written in a way that begins no other, so that the
quoted text determines the text; and it is all on one line.
-/
namespace DocumentLanguage.Text

theorem digitChar_injective {m n : Nat} (hm : m < 16) (hn : n < 16)
    (hSame : Nat.digitChar m = Nat.digitChar n) : m = n := by
  have hAll : ∀ m n : Fin 16, Nat.digitChar m = Nat.digitChar n → m = n := by decide
  exact congrArg Fin.val (hAll ⟨m, hm⟩ ⟨n, hn⟩ hSame)

/-- A number is determined by its hexadecimal digits. The induction is on the number, one digit at a
time from the last. -/
theorem toDigits_inj {m n : Nat} (hSame : Nat.toDigits 16 m = Nat.toDigits 16 n) : m = n := by
  induction m using Nat.strongRecOn generalizing n with
  | ind m ih =>
    have hDigits := hSame
    rw [Nat.toDigits_eq_if (n := m) (by decide), Nat.toDigits_eq_if (n := n) (by decide)] at hDigits
    have hMore : ∀ {k : Nat} {digit other : Char}, [digit] ≠ Nat.toDigits 16 k ++ [other] := by
      intro k digit other hSingle
      have hLength := congrArg List.length hSingle
      have hSome := List.length_pos_iff.mpr (Nat.toDigits_ne_nil : Nat.toDigits 16 k ≠ [])
      simp only [List.length_cons, List.length_nil, List.length_append] at hLength
      omega
    split_ifs at hDigits with hm hn hn
    · exact digitChar_injective hm hn (List.singleton_inj.mp hDigits)
    · exact absurd hDigits hMore
    · exact absurd hDigits.symm hMore
    · obtain ⟨hHigh, hLow⟩ := List.append_inj' hDigits rfl
      have hQuotient := ih (m / 16) (by omega) hHigh
      have hRest := digitChar_injective (Nat.mod_lt m (by decide)) (Nat.mod_lt n (by decide))
        (List.singleton_inj.mp hLow)
      omega

/-- Hexadecimal digits close no brace and begin no line, which keeps an escape together. -/
theorem mem_toDigits {n : Nat} {c : Char} (hMem : c ∈ Nat.toDigits 16 n) : c ≠ '}' ∧ c ≠ '\n' := by
  have hDigit : ∀ digit : Fin 16, Nat.digitChar digit ≠ '}' ∧ Nat.digitChar digit ≠ '\n' := by decide
  induction n using Nat.strongRecOn with
  | ind n ih =>
    rw [Nat.toDigits_eq_if (by decide)] at hMem
    split_ifs at hMem with hn
    · rw [List.mem_singleton.mp hMem]
      exact hDigit ⟨n, hn⟩
    · rcases List.mem_append.mp hMem with hHigh | hLow
      · exact ih (n / 16) (by omega) hHigh
      · rw [List.mem_singleton.mp hLow]
        exact hDigit ⟨n % 16, Nat.mod_lt n (by decide)⟩

/-- The character that a mark behind a backslash stands for. -/
def ofMark (mark : Char) : Char :=
  if mark = 't' then '\t' else if mark = 'n' then '\n' else if mark = 'r' then '\r'
  else if mark = '0' then '\x00' else mark

/-- A character is written as a backslash and a mark, as its code point, or as itself. -/
theorem quotedChar_cases (c : Char) :
    (∃ mark, quotedChar c = ['\\', mark] ∧ ofMark mark = c ∧ mark ≠ 'u' ∧ mark ≠ '\n') ∨
      quotedChar c = codePointEscape c ∨
      (quotedChar c = [c] ∧ c ≠ '\\' ∧ c ≠ '\n') := by
  unfold quotedChar
  split_ifs with hSelf hTab hNewline hReturn hNull hHidden
  · rcases hSelf with rfl | rfl
    · exact .inl ⟨'"', rfl, by decide, by decide, by decide⟩
    · exact .inl ⟨'\\', rfl, by decide, by decide, by decide⟩
  · exact .inl ⟨'t', rfl, by rw [hTab]; decide, by decide, by decide⟩
  · exact .inl ⟨'n', rfl, by rw [hNewline]; decide, by decide, by decide⟩
  · exact .inl ⟨'r', rfl, by rw [hReturn]; decide, by decide, by decide⟩
  · exact .inl ⟨'0', rfl, by rw [hNull]; decide, by decide, by decide⟩
  · exact .inr (.inl rfl)
  · exact .inr (.inr ⟨rfl, fun h => hSelf (.inr h), hNewline⟩)

/-- Two texts that end at the first mark are the same if they are the same together with the mark
and what follows. -/
theorem eq_of_append_eq {first second behind behind' : List Char} {mark : Char}
    (hFirst : mark ∉ first) (hSecond : mark ∉ second)
    (hSame : first ++ mark :: behind = second ++ mark :: behind') :
    first = second ∧ behind = behind' := by
  induction first generalizing second with
  | nil =>
    cases second with
    | nil => exact ⟨rfl, (List.cons.inj hSame).2⟩
    | cons c second => exact absurd (List.cons.inj hSame).1 (List.ne_of_not_mem_cons hSecond)
  | cons c first ih =>
    cases second with
    | nil => exact absurd (List.cons.inj hSame).1.symm (List.ne_of_not_mem_cons hFirst)
    | cons d second =>
      obtain ⟨rfl, hRest⟩ := List.cons.inj hSame
      obtain ⟨rfl, hBehind⟩ := ih (List.not_mem_of_not_mem_cons hFirst)
        (List.not_mem_of_not_mem_cons hSecond) hRest
      exact ⟨rfl, hBehind⟩

/-- An escape of a code point tells the character, and where it ends what follows begins. -/
theorem codePointEscape_append_inj {c d : Char} {first second : List Char}
    (hSame : codePointEscape c ++ first = codePointEscape d ++ second) : c = d ∧ first = second := by
  simp only [codePointEscape, List.cons_append, List.nil_append, List.append_assoc,
    List.cons.injEq, true_and] at hSame
  obtain ⟨hDigits, hRest⟩ := eq_of_append_eq (fun hMem => (mem_toDigits hMem).1 rfl)
    (fun hMem => (mem_toDigits hMem).1 rfl) hSame
  exact ⟨Char.toNat_inj.mp (toDigits_inj hDigits), hRest⟩

/-- How a character is written begins no way in which another is. -/
theorem quotedChar_append_inj {c d : Char} {first second : List Char}
    (hSame : quotedChar c ++ first = quotedChar d ++ second) : c = d ∧ first = second := by
  rcases quotedChar_cases c with ⟨mark, hc, hMark, hu, -⟩ | hc | ⟨hc, hSlash, -⟩ <;>
    rcases quotedChar_cases d with ⟨mark', hd, hMark', hu', -⟩ | hd | ⟨hd, hSlash', -⟩ <;>
    rw [hc, hd] at hSame
  · obtain ⟨hSameMark, hRest⟩ := List.cons.inj (List.cons.inj hSame).2
    exact ⟨by rw [← hMark, ← hMark', hSameMark], hRest⟩
  · exact absurd (List.cons.inj (List.cons.inj hSame).2).1 hu
  · exact absurd (List.cons.inj hSame).1.symm hSlash'
  · exact absurd (List.cons.inj (List.cons.inj hSame).2).1.symm hu'
  · exact codePointEscape_append_inj hSame
  · exact absurd (List.cons.inj hSame).1.symm hSlash'
  · exact absurd (List.cons.inj hSame).1 hSlash
  · exact absurd (List.cons.inj hSame).1 hSlash
  · exact List.cons.inj hSame

theorem quotedChar_ne_nil (c : Char) : quotedChar c ≠ [] := by
  rcases quotedChar_cases c with ⟨mark, hc, -⟩ | hc | ⟨hc, -⟩ <;> rw [hc]
  · exact List.cons_ne_nil _ _
  · exact List.cons_ne_nil _ _
  · exact List.cons_ne_nil _ _

/-- Characters that are quoted one by one can be told from what is written, as each is either itself
or an escape of its own. -/
theorem flatMap_quotedChar_inj {first second : List Char}
    (hSame : first.flatMap quotedChar = second.flatMap quotedChar) : first = second := by
  induction first generalizing second with
  | nil =>
    cases second with
    | nil => rfl
    | cons d second =>
      exact absurd (List.append_eq_nil_iff.mp hSame.symm).1 (quotedChar_ne_nil d)
  | cons c first ih =>
    cases second with
    | nil => exact absurd (List.append_eq_nil_iff.mp hSame).1 (quotedChar_ne_nil c)
    | cons d second =>
      obtain ⟨rfl, hRest⟩ := quotedChar_append_inj hSame
      rw [ih hRest]

/-- A text is determined by how it is quoted, so that two outlines with the same quotation hold the
same text. -/
theorem quoted_inj {first second : String} (hSame : quoted first = quoted second) : first = second := by
  have hChars := (List.cons.inj (String.ofList_inj.mp hSame)).2
  exact String.toList_inj.mp (flatMap_quotedChar_inj ((List.append_left_inj _).mp hChars))

/-- A quoted text is on one line, since a line feed in it is written as an escape. -/
theorem newline_not_mem_quoted (text : String) : '\n' ∉ (quoted text).toList := by
  have hChar : ∀ c, '\n' ∉ quotedChar c := by
    intro c hMem
    rcases quotedChar_cases c with ⟨mark, hc, -, -, hMark⟩ | hc | ⟨hc, -, hNewline⟩ <;> rw [hc] at hMem
    · rcases List.mem_cons.mp hMem with hSlash | hMem
      · cases hSlash
      · exact hMark (List.mem_singleton.mp hMem).symm
    · simp only [codePointEscape, List.mem_append] at hMem
      rcases hMem with (hOpen | hDigits) | hClose
      · exact absurd hOpen (by decide)
      · exact (mem_toDigits hDigits).2 rfl
      · exact absurd hClose (by decide)
    · exact hNewline (List.mem_singleton.mp hMem).symm
  simp [quoted, hChar]

end DocumentLanguage.Text
