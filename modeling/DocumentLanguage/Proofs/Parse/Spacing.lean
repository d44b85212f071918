import DocumentLanguage.Proofs.Grammar.Posture
import DocumentLanguage.Proofs.Parse.Budget
import DocumentLanguage.Proofs.Token.Condensed

/-!
Spacing and blank lines do not count. Two readers that stand before tokens alike but for layout
find the same, or the same is missing, or they fail alike; and then they stand before such tokens
again.
-/
namespace DocumentLanguage

/-- Failures that are the same but for where they are. -/
inductive Failure.Same : Failure → Failure → Prop
  | lexical {token token' : Token} (hToken : token.Same token') : Same (lexical token) (lexical token')
  | incomplete (rule : Rule) {token token' : Option Token}
      (hToken : Option.Rel Token.Same token token') :
      Same (incomplete rule token) (incomplete rule token')
  | trailing {token token' : Token} (hToken : token.Same token') :
      Same (trailing token) (trailing token')
  | exhausted : Same exhausted exhausted

/-- Spots with as many brackets open and with tokens ahead that are alike. -/
structure Spot.Alike (behindLine : Bool) (spot spot' : Spot) : Prop where
  nesting : spot'.nesting = spot.nesting
  tokens : AlikeTokens behindLine spot.rest spot'.rest

/-- Replies that are alike: what they find, and where it ends, is related. -/
inductive Reply.Alike {α : Type} (related : α → Spot → α → Spot → Prop) : Reply α → Reply α → Prop
  | found {value value' : α} {commits : Bool} {next next' : Spot}
      (hRelated : related value next value' next') :
      Alike related (found value commits next) (found value' commits next')
  | absent : Alike related absent absent
  | failed {failure failure' : Failure} {next next' : Spot} (hSame : failure.Same failure') :
      Alike related (failed failure next) (failed failure' next')

namespace Reply.Alike

variable {α β : Type} {related : α → Spot → α → Spot → Prop} {wanted : β → Spot → β → Spot → Prop}
  {reply reply' : Reply α}

/-- What goes on from replies that are alike is alike, if both ways on are: behind what was found,
and where it was missing. -/
theorem either (alike : reply.Alike related reply') {there there' : α → Bool → Spot → Reply β}
    {missing missing' : Reply β}
    (hThere : ∀ value commits next value' next', related value next value' next' →
      (there value commits next).Alike wanted (there' value' commits next'))
    (hMissing : missing.Alike wanted missing') :
    (reply.either there missing).Alike wanted (reply'.either there' missing') := by
  cases alike with
  | found hRelated => exact hThere _ _ _ _ _ hRelated
  | absent => exact hMissing
  | failed hSame => exact .failed hSame

/-- Replies that are alike under one relation are alike under any that asks for less. -/
theorem mono {looser : α → Spot → α → Spot → Prop} (alike : reply.Alike related reply')
    (hLooser : ∀ value next value' next', related value next value' next' →
      looser value next value' next') : reply.Alike looser reply' := by
  cases alike with
  | found hRelated => exact .found (hLooser _ _ _ _ hRelated)
  | absent => exact .absent
  | failed hSame => exact .failed hSame

theorem map (alike : reply.Alike related reply') {f f' : α → β}
    (hRelated : ∀ value next value' next', related value next value' next' →
      wanted (f value) next (f' value') next') :
    (reply.map f).Alike wanted (reply'.map f') := by
  rw [Reply.map_eq_either, Reply.map_eq_either]
  exact alike.either (fun _ _ _ _ _ hHere => .found (hRelated _ _ _ _ hHere)) .absent

end Reply.Alike

/-- A test that only looks at what counts of a token. -/
def Unlaid (test : Token → Bool) : Prop :=
  ∀ token token' : Token, token'.content = token.content → test token' = test token

/-- A test of the kind alone does not see where a token stands. -/
theorem unlaid_kind (test : Kind → Bool) : Unlaid fun token => test token.kind := by
  intro token token' hContent
  dsimp only
  rw [Token.kind_of_content hContent]

/-- Asking for one of several delimiters does not see where a token stands, as it looks at its text
only. -/
theorem unlaid_delimiter (texts : List String) :
    Unlaid fun token => token.kind = .delimiter && texts.contains token.text := by
  intro token token' hContent
  have hKind := Token.kind_of_content hContent
  by_cases hDelimiter : token.kind = .delimiter
  · have hSame := Token.same_of_content hContent (by simp [hDelimiter])
    simp [hSame.kind, hSame.text]
  · simp [hKind, hDelimiter]

/-- The depth behind a token depends on its text and not on where it stands. -/
theorem nestingAfter_eq {token token' : Token} (hContent : token'.content = token.content)
    (nesting : Nat) : Cursor.nestingAfter token' nesting = Cursor.nestingAfter token nesting := by
  have hKind := Token.kind_of_content hContent
  by_cases hDelimiter : token.kind = .delimiter
  · have hSame := Token.same_of_content hContent (by simp [hDelimiter])
    simp [Cursor.nestingAfter, hSame.kind, hSame.text]
  · simp [Cursor.nestingAfter, hKind, hDelimiter]

namespace Spot

variable {line : Line} {behindLine overLines : Bool} {spot spot' : Spot}

/-- Behind all layout two spots that are alike have the same token ahead, wherever the newlines
were. -/
theorem Alike.behindLayout (alike : spot.Alike behindLine spot') :
    spot.behindLayout.Alike false spot'.behindLayout :=
  ⟨alike.nesting, alike.tokens.behindLayout⟩

/-- What is visible goes on alike, behind a newline only if newlines are passed over. -/
theorem Alike.visible (alike : spot.Alike behindLine spot')
    (hSees : behindLine = true → overLines = true ∧ line ≠ some spot.nesting) :
    AlikeNext (spot.visible line overLines) (spot'.visible line overLines) := by
  have hVisible : ∀ spot : Spot, spot.visible line overLines =
      if overLines = true ∧ line ≠ some spot.nesting then dropLayout spot.rest
      else spot.rest.dropWhile (·.kind = .space) := by
    intro spot
    unfold Spot.visible dropLayout
    split
    · rename_i hOver
      congr 1
      funext token
      cases hKind : token.kind <;> simp [passes, hKind, hOver, Kind.isLayout]
    · rename_i hNot
      congr 1
      funext token
      by_cases hOver : overLines = true
      · have hLine : line = some spot.nesting := by
          by_contra hNe
          exact hNot ⟨hOver, hNe⟩
        simp [passes, hLine]
      · simp [passes, hOver]
  rw [hVisible, hVisible, alike.nesting]
  split
  · exact alike.tokens.next_dropLayout
  · rename_i hNot
    cases behindLine with
    | true => exact absurd (hSees rfl) hNot
    | false => exact alike.tokens.next_dropSpaces

/-- Looking for a token gives the same token, or none, or the same error. -/
theorem Alike.expect (alike : spot.Alike behindLine spot')
    (hSees : behindLine = true → overLines = true ∧ line ≠ some spot.nesting)
    {test : Token → Bool} (unlaid : Unlaid test) :
    (spot.expect line overLines test).Alike
      (fun token next token' next' => token'.content = token.content ∧ test token = true ∧
        next.Alike (token.kind = .newline) next' ∧
          next.nesting = Cursor.nestingAfter token spot.nesting)
      (spot'.expect line overLines test) := by
  unfold Spot.expect
  have hNext := alike.visible hSees
  revert hNext
  generalize spot.visible line overLines = tokens
  generalize spot'.visible line overLines = tokens'
  intro hNext
  cases hNext with
  | nil => exact .absent
  | @cons token token' rest rest' hContent hRest =>
      have hKind := Token.kind_of_content hContent
      dsimp only
      rw [hKind, unlaid token token' hContent]
      by_cases hError : token.kind = .error
      · rw [if_pos hError, if_pos hError]
        exact .failed (.lexical (Token.same_of_content hContent (by simp [hError])))
      · rw [if_neg hError, if_neg hError]
        by_cases hTest : test token = true
        · rw [if_pos hTest, if_pos hTest, alike.nesting]
          exact .found ⟨hContent, hTest, ⟨nestingAfter_eq hContent _, hRest⟩, rfl⟩
        · rw [if_neg hTest, if_neg hTest]
          exact .absent

/-- A rule fails alike at two spots that are alike: the class and the rule are the same, and so is
the text of the token. -/
theorem Alike.failure (alike : spot.Alike behindLine spot') (rule : Rule) :
    (spot.failure rule).Same (spot'.failure rule) := by
  have hNext : AlikeNext spot.behindLayout.rest spot'.behindLayout.rest :=
    alike.tokens.next_dropLayout
  have hSolid : ∀ token ∈ spot.behindLayout.rest.head?, token.kind.isLayout = false :=
    fun token hHead => isLayout_of_head?_dropLayout hHead
  unfold Spot.failure
  revert hNext hSolid
  generalize spot.behindLayout.rest = tokens
  generalize spot'.behindLayout.rest = tokens'
  intro hNext
  cases hNext with
  | nil => exact fun _ => .incomplete rule .none
  | @cons token token' rest rest' hContent hRest =>
      intro hSolid
      have hSame := Token.same_of_content hContent (Kind.ne_newline (hSolid token rfl))
      dsimp only
      rw [hSame.kind]
      split
      · exact .lexical hSame
      · exact .incomplete rule (.some hSame)

end Spot

/-- A sequence is given up alike at two spots that are alike, either as absent or with the same
failure. -/
theorem Setting.alike_giveUp {α : Type} {related : α → Spot → α → Spot → Prop} {behindLine : Bool}
    {spot spot' : Spot} (alike : spot.Alike behindLine spot') (setting : Setting)
    (progress : Progress) :
    (setting.giveUp progress spot).Alike related (setting.giveUp progress spot') := by
  unfold giveUp Spot.giveUp
  split
  · exact .failed (alike.failure _)
  · exact .absent

/-- Whether the brackets open around a line go on around a spot, and more of them if it is inside
some that were opened on the line. -/
def AroundLine (line : Line) (inner : Bool) (nesting : Nat) : Prop :=
  ∀ outer ∈ line, if inner then outer < nesting else outer ≤ nesting

/-- Brackets that are opened on the line are inside of those that are open around it. -/
theorem AroundLine.inside {line : Line} {inner : Bool} {start : Nat}
    (hLine : AroundLine line inner start) (posture : Posture) :
    AroundLine line (posture.inside inner) (start + posture.depth) := by
  intro outer hOuter
  have hStart := hLine outer hOuter
  unfold Posture.inside
  cases inner with
  | true =>
      simp only [if_true, Bool.true_or] at hStart ⊢
      omega
  | false =>
      simp only [Bool.false_eq_true, if_false, Bool.false_or, bne_iff_ne] at hStart ⊢
      split <;> omega

/-- Two readers in the middle of a sequence that began with so many brackets open. -/
structure Stands (start : Nat) (posture : Posture) (spot spot' : Spot) : Prop where
  nesting : spot.nesting = start + posture.depth
  alike : spot.Alike posture.behindLine spot'

namespace Stands

variable {line : Line} {inner : Bool} {start : Nat} {posture after : Posture} {spot spot' : Spot}

/-- Two spots that stand alike also stand alike behind a newline, where it is not seen how many more
there are. -/
theorem loosen {depth : Nat} {behindLine more : Bool}
    (stands : Stands start ⟨depth, behindLine⟩ spot spot') (hMore : behindLine = true → more = true) :
    Stands start ⟨depth, more⟩ spot spot' := by
  cases behindLine with
  | true =>
      rw [hMore rfl]
      exact stands
  | false =>
      cases more with
      | true => exact ⟨stands.nesting, stands.alike.nesting, stands.alike.tokens.loosen⟩
      | false => exact stands

/-- The line around a part stays the line around it at any depth within. -/
theorem around (stands : Stands start posture spot spot') (hLine : AroundLine line inner start) :
    AroundLine line (posture.inside inner) spot.nesting := by
  rw [stands.nesting]
  exact hLine.inside posture

/-- Where a token is seen whatever newlines there are, the line does not end with them. -/
theorem sees (stands : Stands start posture spot spot') (hLine : AroundLine line inner start)
    (hSees : posture.sees inner = true) (hBehind : posture.behindLine = true) :
    true = true ∧ line ≠ some spot.nesting := by
  refine ⟨rfl, ?_⟩
  rintro rfl
  have hInside : posture.inside inner = true := by simpa [Posture.sees, hBehind] using hSees
  have hLess := stands.around hLine spot.nesting rfl
  simp [hInside] at hLess

/-- The depth behind a delimiter is the depth that its brackets tell. -/
theorem nestingAfter_of_bracketsBehind {token : Token} (hKind : token.kind = .delimiter)
    {depth depth' : Nat} (hText : bracketsBehind token.text depth = some depth') (start : Nat) :
    Cursor.nestingAfter token (start + depth) = start + depth' := by
  unfold bracketsBehind at hText
  unfold Cursor.nestingAfter
  rw [if_pos hKind]
  split_ifs at hText ⊢ <;> simp_all <;> omega

/-- A delimiter leaves the readers as the posture behind it says. -/
theorem delimiter (stands : Stands start posture spot spot') (hLine : AroundLine line inner start)
    {texts : List String} (hAfter : posture.behind? inner texts = some after) :
    (spot.expectOneOf line texts).Alike
      (fun token next token' next' => token'.text = token.text ∧ Stands start after next next')
      (spot'.expectOneOf line texts) := by
  unfold Posture.behind? at hAfter
  split at hAfter
  · rename_i depth hDepth
    split at hAfter
    · rename_i hAll
      obtain rfl := Option.some.inj hAfter
      simp only [Bool.and_eq_true, List.all_eq_true, decide_eq_true_eq] at hAll
      refine (stands.alike.expect (stands.sees hLine hAll.1) (unlaid_delimiter texts)).mono ?_
      rintro token next token' next' ⟨hContent, hTest, hNext, hNesting⟩
      simp only [Bool.and_eq_true, decide_eq_true_eq, List.contains_eq_mem] at hTest
      have hSame := Token.same_of_content hContent (by simp [hTest.1])
      refine ⟨hSame.text, ?_, ?_⟩
      · rw [hNesting, stands.nesting]
        exact nestingAfter_of_bracketsBehind hTest.1 (hAll.2 token.text hTest.2) start
      · simpa [hTest.1] using hNext
    · cases hAfter
  · cases hAfter

/-- A token that is no delimiter leaves all brackets as they are. -/
theorem kind (stands : Stands start posture spot spot') {overLines : Bool}
    (hSees : posture.behindLine = true → overLines = true ∧ line ≠ some spot.nesting)
    (test : Kind → Bool) (hTest : test .delimiter = false) :
    (spot.expect line overLines fun token => test token.kind).Alike
      (fun token next token' next' => token'.content = token.content ∧ test token.kind = true ∧
        Stands start ⟨posture.depth, token.kind = .newline⟩ next next')
      (spot'.expect line overLines fun token => test token.kind) := by
  refine (stands.alike.expect hSees (unlaid_kind test)).mono ?_
  rintro token next token' next' ⟨hContent, hHere, hNext, hNesting⟩
  have hKind : token.kind ≠ .delimiter := by
    intro hDelimiter
    rw [hDelimiter, hTest] at hHere
    cases hHere
  refine ⟨hContent, hHere, ?_, hNext⟩
  rw [hNesting, ← stands.nesting]
  simp [Cursor.nestingAfter, hKind]

/-- A token of a plain kind is read behind any newlines. -/
theorem plain (stands : Stands start posture spot spot') (hLine : AroundLine line inner start)
    (hSees : posture.sees inner = true) (test : Kind → Bool)
    (hPlain : ∀ kind, test kind = true → kind.isPlain = true) :
    (spot.expect line true fun token => test token.kind).Alike
      (fun token next token' next' => token.Same token' ∧
        Stands start ⟨posture.depth, false⟩ next next')
      (spot'.expect line true fun token => test token.kind) := by
  have hDelimiter : test .delimiter = false := by
    by_contra hTest
    cases hPlain .delimiter (by simpa using hTest)
  refine (stands.kind (stands.sees hLine hSees) test hDelimiter).mono ?_
  rintro token next token' next' ⟨hContent, hTest, hNext⟩
  have hKind := hPlain token.kind hTest
  simp only [Kind.isPlain, Bool.and_eq_true, bne_iff_ne] at hKind
  refine ⟨Token.same_of_content hContent hKind.1.1, ?_⟩
  simpa [hKind.1.1] using hNext

/-- A token of a kind is found alike from both spots, and the two stand alike behind it. -/
theorem expectKind (stands : Stands start posture spot spot') (hLine : AroundLine line inner start)
    (hSees : posture.sees inner = true) {kind : Kind} (hPlain : kind.isPlain = true) :
    (spot.expectKind line kind).Alike
      (fun token next token' next' => token.Same token' ∧
        Stands start ⟨posture.depth, false⟩ next next')
      (spot'.expectKind line kind) := by
  have hOver : (kind != .newline && kind != .note) = true := by
    simp only [Kind.isPlain, Bool.and_eq_true] at hPlain ⊢
    exact hPlain.1
  unfold Spot.expectKind
  rw [hOver]
  refine stands.plain hLine hSees (fun other => decide (other = kind)) fun other hOther => ?_
  rwa [of_decide_eq_true hOther]

/-- A newline is read alike where none was passed over to come to it, and both readers are behind it
then. -/
theorem expectNewline (stands : Stands start posture spot spot')
    (hNotBehind : posture.behindLine = false) :
    (spot.expectKind line .newline).Alike
      (fun _ next _ next' => Stands start ⟨posture.depth, true⟩ next next')
      (spot'.expectKind line .newline) := by
  refine (stands.kind (by simp [hNotBehind]) (fun kind => decide (kind = .newline))
    (by decide)).mono ?_
  rintro token next token' next' ⟨-, hKind, hNext⟩
  simpa [of_decide_eq_true hKind] using hNext

/-- A note is read alike only where no newline was passed over, since it belongs to its line. -/
theorem expectNote (stands : Stands start posture spot spot')
    (hNotBehind : posture.behindLine = false) :
    (spot.expectKind line .note).Alike
      (fun token next token' next' => token.Same token' ∧
        Stands start ⟨posture.depth, false⟩ next next')
      (spot'.expectKind line .note) := by
  refine (stands.kind (by simp [hNotBehind]) (fun kind => decide (kind = .note))
    (by decide)).mono ?_
  rintro token next token' next' ⟨hContent, hKind, hNext⟩
  have hNote : token.kind = .note := of_decide_eq_true hKind
  exact ⟨Token.same_of_content hContent (by simp [hNote]), by simpa [hNote] using hNext⟩

end Stands

/-- Where a rule may be asked for, it may be asked for again behind itself. -/
theorem Posture.admits_lined {inner : Bool} {posture : Posture} {rule : Rule}
    (hAdmits : posture.admits inner rule = true) (hOpens : rule.opensLine = false) :
    (⟨posture.depth, rule.lined⟩ : Posture).admits inner rule = true := by
  simp only [admits, sees, inside, Bool.and_eq_true, Bool.or_eq_true, Bool.not_eq_true'] at hAdmits ⊢
  exact ⟨⟨hAdmits.1.2, hAdmits.1.2⟩, .inl hOpens⟩

theorem keptText_eq {token token' : Token} (hSame : token.Same token') :
    keptText token' = keptText token := by
  simp only [keptText, hSame.kind, hSame.text]

/-- A way to look for rules that finds alike what is alike. Only inside brackets may it begin or end
behind a newline. -/
def AlikeSeeker (seek : Seeker) : Prop :=
  ∀ {rule : Rule} {line : Line} {inner behindLine : Bool} {spot spot' : Spot},
    spot.Alike behindLine spot' → AroundLine line inner spot.nesting →
      (rule.lined = true → inner = true) →
        (behindLine = true → inner = true ∧ rule.opensLine = false) →
          (seek rule line spot).Alike
            (fun tree next tree' next' => tree' = tree ∧
              Stands spot.nesting ⟨0, rule.lined⟩ next next')
            (seek rule line spot')

namespace AlikeSeeker

variable {seek : Seeker} {line : Line} {inner : Bool} {start : Nat} {posture after : Posture}
  {spot spot' : Spot}

/-- A rule is found alike at any depth at which it may be asked for, and both spots then stand at
that depth. -/
theorem ask (alike : AlikeSeeker seek) (hLine : AroundLine line inner start)
    (stands : Stands start posture spot spot') {rule : Rule}
    (hAdmits : posture.admits inner rule = true) :
    (seek rule line spot).Alike
      (fun tree next tree' next' => tree' = tree ∧
        Stands start ⟨posture.depth, rule.lined⟩ next next')
      (seek rule line spot') := by
  simp only [Posture.admits, Posture.sees, Bool.and_eq_true, Bool.or_eq_true,
    Bool.not_eq_true'] at hAdmits
  obtain ⟨⟨hSees, hLined⟩, hOpens⟩ := hAdmits
  refine (alike stands.alike (stands.around hLine) ?_ ?_).mono ?_
  · intro hRule
    exact hLined.resolve_left (by simp [hRule])
  · intro hBehind
    exact ⟨hSees.resolve_left (by simp [hBehind]), hOpens.resolve_right (by simp [hBehind])⟩
  · rintro tree next tree' next' ⟨hTree, hNext⟩
    refine ⟨hTree, ?_, hNext.alike⟩
    have hNesting := hNext.nesting
    rw [stands.nesting] at hNesting
    exact hNesting

/-- Rounds are found alike: each one leaves the readers where another may begin. -/
theorem many (alike : AlikeSeeker seek) (hLine : AroundLine line inner start) {rule : Rule}
    (hOpens : rule.opensLine = false) (bound : Nat) (stands : Stands start posture spot spot')
    (hAdmits : posture.admits inner rule = true) :
    (seekMany seek line rule bound spot).Alike
      (fun trees next trees' next' => trees' = trees ∧
        Stands start ⟨posture.depth, posture.behindLine || rule.lined⟩ next next')
      (seekMany seek line rule bound spot') := by
  induction bound generalizing posture spot spot' with
  | zero => exact .failed .exhausted
  | succ bound ih =>
      rw [seekMany_succ, seekMany_succ]
      refine (alike.ask hLine stands hAdmits).either ?_
        (.found ⟨rfl, stands.loosen (by simp +contextual)⟩)
      rintro tree commits next tree' next' ⟨rfl, hNext⟩
      refine (ih hNext (Posture.admits_lined hAdmits hOpens)).map ?_
      rintro trees last trees' last' ⟨rfl, hLast⟩
      exact ⟨rfl, hLast.loosen (by simp +contextual)⟩

/-- Where one must come and others may follow, the others begin where the first one left the
readers. -/
theorem oneOrMore (alike : AlikeSeeker seek) (bound : Nat) (setting : Setting) (progress : Progress)
    (hLine : AroundLine setting.line inner start) (stands : Stands start posture spot spot')
    (label : String) {rule : Rule} (hOpens : rule.opensLine = false)
    (hAdmits : posture.admits inner rule = true) :
    (seekPart seek bound setting progress spot (.some label rule)).Alike
      (fun kept next kept' next' => kept' = kept ∧
        Stands start ⟨posture.depth, rule.lined⟩ next next')
      (seekPart seek bound setting progress spot' (.some label rule)) := by
  refine (alike.ask hLine stands hAdmits).either ?_
    (Setting.alike_giveUp stands.alike setting progress)
  rintro tree commits next tree' next' ⟨rfl, hNext⟩
  refine (alike.many hLine hOpens bound hNext (Posture.admits_lined hAdmits hOpens)).either ?_ .absent
  rintro trees commits last trees' last' ⟨rfl, hLast⟩
  exact .found ⟨rfl, hLast.loosen (by simp)⟩

/-- A child on a line of its own is asked for behind the layout, where both readers find the same.
-/
theorem behindLayout (alike : AlikeSeeker seek) (bound : Nat) (setting : Setting) (progress : Progress)
    (stands : Stands start posture spot spot') (label : String) {rule : Rule}
    (hLined : rule.lined = false) :
    (seekPart seek bound setting progress spot (.line label rule)).Alike
      (fun kept next kept' next' => kept' = kept ∧ Stands start ⟨posture.depth, false⟩ next next')
      (seekPart seek bound setting progress spot' (.line label rule)) := by
  have hOwn : AroundLine (some spot.nesting) false spot.behindLayout.nesting := by
    rintro outer ⟨⟩
    exact Nat.le_refl _
  simp only [seekPart, stands.alike.nesting]
  refine (alike stands.alike.behindLayout hOwn (by simp [hLined]) (by simp)).either ?_
    (Setting.alike_giveUp stands.alike.behindLayout setting progress)
  rintro tree commits next tree' next' ⟨rfl, hNext⟩
  rw [hLined] at hNext
  exact .found ⟨rfl, hNext.nesting.trans stands.nesting, hNext.alike⟩

/-- A part is found alike and leaves the readers as the posture behind it says. -/
theorem part (alike : AlikeSeeker seek) (bound : Nat) (setting : Setting) (progress : Progress)
    (hLine : AroundLine setting.line inner start) (stands : Stands start posture spot spot')
    (part : Part) (hAfter : part.posture? inner posture = some after) :
    (seekPart seek bound setting progress spot part).Alike
      (fun kept next kept' next' => kept' = kept ∧ Stands start after next next')
      (seekPart seek bound setting progress spot' part) := by
  have hGiveUp : ∀ {α : Type} {related : α → Spot → α → Spot → Prop},
      (setting.giveUp progress spot).Alike related (setting.giveUp progress spot') :=
    Setting.alike_giveUp stands.alike setting progress
  cases part with
  | keyword text | delimiter text =>
      refine (stands.delimiter hLine hAfter).either ?_ hGiveUp
      rintro token commits next token' next' ⟨-, hNext⟩
      exact .found ⟨rfl, hNext⟩
  | choice label options =>
      refine (stands.delimiter hLine hAfter).either ?_ hGiveUp
      rintro token commits next token' next' ⟨hText, hNext⟩
      exact .found ⟨by rw [hText], hNext⟩
  | commit =>
      obtain rfl := Option.some.inj hAfter
      exact .found ⟨rfl, stands⟩
  | newline =>
      obtain ⟨hHere, ⟨⟩⟩ := Option.ite_none_right_eq_some.mp hAfter
      simp only [Bool.and_eq_true, Bool.not_eq_true'] at hHere
      refine (stands.expectNewline hHere.1).either ?_ hGiveUp
      exact fun token commits next token' next' hNext => .found ⟨rfl, hNext⟩
  | token label kind =>
      obtain ⟨hHere, ⟨⟩⟩ := Option.ite_none_right_eq_some.mp hAfter
      simp only [Bool.and_eq_true] at hHere
      refine (stands.expectKind hLine hHere.1 hHere.2).either ?_ hGiveUp
      rintro token commits next token' next' ⟨hSame, hNext⟩
      exact .found ⟨by rw [keptText_eq hSame], hNext⟩
  | optionalToken label kind =>
      obtain ⟨hHere, ⟨⟩⟩ := Option.ite_none_right_eq_some.mp hAfter
      simp only [Bool.and_eq_true, Bool.or_eq_true, Bool.not_eq_true', decide_eq_true_eq] at hHere
      rcases hHere with ⟨hSees, hPlain⟩ | ⟨rfl, hNotBehind⟩
      · refine (stands.expectKind hLine hSees hPlain).either ?_ (.found ⟨rfl, stands⟩)
        rintro token commits next token' next' ⟨hSame, hNext⟩
        exact .found ⟨by rw [keptText_eq hSame], hNext.loosen nofun⟩
      · refine (stands.expectNote hNotBehind).either ?_ (.found ⟨rfl, stands⟩)
        rintro token commits next token' next' ⟨hSame, hNext⟩
        exact .found ⟨by rw [keptText_eq hSame], hNext.loosen nofun⟩
  | child label rule =>
      obtain ⟨hAdmits, ⟨⟩⟩ := Option.ite_none_right_eq_some.mp hAfter
      refine (alike.ask hLine stands hAdmits).either ?_ hGiveUp
      rintro tree commits next tree' next' ⟨rfl, hNext⟩
      exact .found ⟨rfl, hNext⟩
  | line label rule =>
      obtain ⟨hRule, ⟨⟩⟩ := Option.ite_none_right_eq_some.mp hAfter
      simp only [Bool.and_eq_true, Bool.not_eq_true'] at hRule
      exact alike.behindLayout bound setting progress stands label hRule.1
  | optional label rule =>
      obtain ⟨hHere, ⟨⟩⟩ := Option.ite_none_right_eq_some.mp hAfter
      simp only [Bool.and_eq_true] at hHere
      refine (alike.ask hLine stands hHere.1).either ?_
        (.found ⟨rfl, stands.loosen (by simp +contextual)⟩)
      rintro tree commits next tree' next' ⟨rfl, hNext⟩
      exact .found ⟨rfl, hNext.loosen (by simp +contextual)⟩
  | many label rule =>
      obtain ⟨hHere, ⟨⟩⟩ := Option.ite_none_right_eq_some.mp hAfter
      simp only [Bool.and_eq_true, Bool.not_eq_true'] at hHere
      refine (alike.many hLine hHere.2 bound stands hHere.1).either ?_ .absent
      rintro trees commits next trees' next' ⟨rfl, hNext⟩
      exact .found ⟨rfl, hNext⟩
  | some label rule =>
      obtain ⟨hHere, ⟨⟩⟩ := Option.ite_none_right_eq_some.mp hAfter
      simp only [Bool.and_eq_true, Bool.not_eq_true'] at hHere
      exact alike.oneOrMore bound setting progress hLine stands label hHere.2 hHere.1

/-- The parts of a sequence are found alike one after another. What each of them leaves is a posture
in which the next may be asked for. -/
theorem parts (alike : AlikeSeeker seek) (bound : Nat) (setting : Setting)
    (hLine : AroundLine setting.line inner start) {lined : Bool} (parts : List Part)
    (hSettles : settles inner lined posture parts = true) (progress : Progress)
    (stands : Stands start posture spot spot') :
    (seekParts seek bound setting parts progress spot).Alike
      (fun fields next fields' next' => fields' = fields ∧ Stands start ⟨0, lined⟩ next next')
      (seekParts seek bound setting parts progress spot') := by
  induction parts generalizing posture progress spot spot' with
  | nil =>
      obtain ⟨depth, behindLine⟩ := posture
      simp only [settles, Bool.and_eq_true, Bool.or_eq_true, Bool.not_eq_true',
        decide_eq_true_eq] at hSettles
      obtain ⟨rfl, hLined⟩ := hSettles
      exact .found ⟨rfl, stands.loosen fun hBehind => hLined.resolve_right (by simp [hBehind])⟩
  | cons part parts ih =>
      rw [seekParts_cons, seekParts_cons]
      simp only [settles] at hSettles
      split at hSettles
      · rename_i after hAfter
        refine (alike.part bound setting progress hLine stands part hAfter).either ?_ .absent
        rintro kept commits next kept' next' ⟨rfl, hNext⟩
        refine (ih hSettles _ hNext).map ?_
        rintro fields last fields' last' ⟨rfl, hLast⟩
        exact ⟨rfl, hLast⟩
      · cases hSettles

/-- Alternatives are found alike one after another, since each that is absent at one spot is absent
at the other. -/
theorem first (alike : AlikeSeeker seek) {lined opensLine behindLine : Bool}
    (hSpots : spot.Alike behindLine spot') (hLine : AroundLine line inner spot.nesting)
    (hLined : lined = true → inner = true)
    (hBehind : behindLine = true → inner = true ∧ opensLine = false) (rules : List Rule)
    (hRules : ∀ rule ∈ rules, (rule.lined = true → lined = true) ∧
      (rule.opensLine = true → opensLine = true)) :
    (seekFirst seek line spot rules).Alike
      (fun content next content' next' => content' = content ∧
        Stands spot.nesting ⟨0, lined⟩ next next')
      (seekFirst seek line spot' rules) := by
  induction rules with
  | nil => exact .absent
  | cons rule rules ih =>
      rw [seekFirst_cons, seekFirst_cons]
      simp only [List.mem_cons, forall_eq_or_imp] at hRules
      refine (alike hSpots hLine (fun hRule => hLined (hRules.1.1 hRule)) ?_).either ?_
        ((ih hRules.2).map ?_)
      · intro hHere
        obtain ⟨hInner, hOpens⟩ := hBehind hHere
        refine ⟨hInner, ?_⟩
        cases hRule : rule.opensLine with
        | false => rfl
        | true => rw [hRules.1.2 hRule] at hOpens; cases hOpens
      · rintro tree commits next tree' next' ⟨rfl, hNext⟩
        exact .found ⟨rfl, hNext.loosen hRules.1.1⟩
      · rintro content next content' next' ⟨rfl, hNext⟩
        exact ⟨rfl, hNext⟩

end AlikeSeeker

/-- Every rule is found alike where the tokens are alike. The induction is on the budget, which both
searches share. -/
theorem alike_seekRule (bound : Nat) : AlikeSeeker (seekRule bound) := by
  induction bound with
  | zero => exact fun _ _ _ _ => .failed .exhausted
  | succ bound ih =>
      intro rule line inner behindLine spot spot' hSpots hLine hLined hBehind
      have hForm : (seekForm (seekRule bound) bound rule line spot rule.form).Alike
          (fun content next content' next' => content' = content ∧
            Stands spot.nesting ⟨0, rule.lined⟩ next next')
          (seekForm (seekRule bound) bound rule line spot' rule.form) := by
        have hSettles := rule.settles_form inner behindLine hLined hBehind
        have stands : Stands spot.nesting ⟨0, behindLine⟩ spot spot' := ⟨rfl, hSpots⟩
        revert hSettles
        generalize rule.form = form
        intro hSettles
        cases form with
        | literal kinds =>
            have hSees : (⟨0, behindLine⟩ : Posture).sees inner = true := by
              cases behindLine with
              | false => rfl
              | true => simp [Posture.sees, Posture.inside, (hBehind rfl).1]
            refine (stands.plain hLine hSees kinds.contains fun kind hKind => ?_).map ?_
            · exact List.all_eq_true.mp hSettles kind (by simpa using hKind)
            · rintro token next token' next' ⟨hSame, hNext⟩
              exact ⟨by rw [hSame.kind, hSame.text], hNext.loosen nofun⟩
        | oneOf rules =>
            refine ih.first hSpots hLine hLined hBehind rules fun child hChild => ?_
            have hHere := List.all_eq_true.mp hSettles child hChild
            simp only [Bool.and_eq_true, Bool.or_eq_true, Bool.not_eq_true'] at hHere
            exact ⟨fun hRule => hHere.1.resolve_left (by simp [hRule]),
              fun hRule => hHere.2.resolve_left (by simp [hRule])⟩
        | sequence standing parts =>
            refine (ih.parts bound _ hLine parts hSettles _ stands).map ?_
            rintro fields next fields' next' ⟨rfl, hNext⟩
            exact ⟨rfl, hNext⟩
      refine hForm.map ?_
      rintro content next content' next' ⟨rfl, hNext⟩
      exact ⟨rfl, hNext⟩

/-- Readings that come to the same: the same document, or failures that are the same but for where
they are. -/
inductive SameOutcome : Except Failure Document → Except Failure Document → Prop
  | ok (document : Document) : SameOutcome (.ok document) (.ok document)
  | error {failure failure' : Failure} (hSame : failure.Same failure') :
      SameOutcome (.error failure) (.error failure')

/-- Two spots that are alike are alike behind a comment at the head of the document, where both may
be behind a line end already. -/
theorem Spot.Alike.behindComment {spot spot' : Spot} (alike : spot.Alike false spot') :
    spot.behindComment.Alike true spot'.behindComment := by
  have stands : Stands spot.nesting ⟨0, false⟩ spot spot' := ⟨rfl, alike⟩
  have hLine : AroundLine none true spot.nesting := nofun
  have hPlain : Kind.comment.isPlain = true := rfl
  have hComment := stands.expectKind hLine rfl hPlain
  unfold Spot.behindComment
  revert hComment
  generalize spot.expectKind none .comment = reply
  generalize spot'.expectKind none .comment = reply'
  intro hComment
  cases hComment with
  | found hRelated => exact (hRelated.2.loosen nofun).alike
  | absent => exact (stands.loosen nofun).alike
  | failed hSame => exact (stands.loosen nofun).alike

/-- A document is found alike in tokens that are alike: both searches find the same tree, or they
fail alike. -/
theorem seekDocument_alike (bound : Nat) {spot spot' : Spot} (alike : spot.Alike false spot') :
    SameOutcome (seekDocument bound spot) (seekDocument bound spot') := by
  have hLine : AroundLine none true spot.nesting := nofun
  have hReply := @alike_seekRule bound .document _ _ _ _ _ alike hLine (fun _ => rfl) nofun
  unfold seekDocument
  revert hReply
  generalize seekRule bound .document none spot = reply
  generalize seekRule bound .document none spot' = reply'
  intro hReply
  cases hReply with
  | absent => exact .error (alike.behindComment.failure .document)
  | failed hSame => exact .error hSame
  | @found document document' commits next next' hRelated =>
      obtain ⟨rfl, hNext⟩ := hRelated
      have hBehind : AlikeNext next.behindLayout.rest next'.behindLayout.rest :=
        hNext.alike.tokens.next_dropLayout
      have hSolid : ∀ token ∈ next.behindLayout.rest.head?, token.kind.isLayout = false :=
        fun token hHead => isLayout_of_head?_dropLayout hHead
      dsimp only
      revert hBehind hSolid
      generalize next.behindLayout.rest = tokens
      generalize next'.behindLayout.rest = tokens'
      intro hBehind hSolid
      cases hBehind with
      | nil => exact .ok document'
      | @cons token token' rest rest' hContent hRest =>
          have hSame := Token.same_of_content hContent (Kind.ne_newline (hSolid token rfl))
          dsimp only
          rw [hSame.kind]
          split
          · exact .error (.lexical hSame)
          · exact .error (.trailing hSame)

/-- Spacing and blank lines do not count: tokens that are the same once spaces are left out and
newlines in a row are one make up the same document, or fail in the same way at the same token. -/
theorem parseTokens_of_condensed_eq {tokens tokens' : List Token}
    (hSame : condensed tokens = condensed tokens') :
    SameOutcome (parseTokens tokens) (parseTokens tokens') := by
  have hAlike : (⟨tokens, 0⟩ : Spot).Alike false ⟨tokens', 0⟩ := ⟨rfl, hSame⟩
  have hBudget : ∀ some : List Token, some = tokens ∨ some = tokens' →
      parseTokens some = seekDocument
        (max (readingBudget tokens.length) (readingBudget tokens'.length)) ⟨some, 0⟩ := by
    rintro some hSome
    have hMore : readingBudget some.length ≤
        max (readingBudget tokens.length) (readingBudget tokens'.length) := by
      rcases hSome with rfl | rfl
      · exact Nat.le_max_left _ _
      · exact Nat.le_max_right _ _
    rw [parseTokens_eq, seekDocument, seekDocument,
      @seekRule_eq_of_lt _ _ .document ⟨some, 0⟩ (needed_lt_readingBudget some .document) hMore]
  rw [hBudget tokens (.inl rfl), hBudget tokens' (.inr rfl)]
  exact seekDocument_alike _ hAlike

/-- A list of one number is read alike when it is written over more lines than it needs. -/
theorem parseTokens_of_condensed_eq_list :
    let tokens : List Token :=
      [⟨.delimiter, .start, "["⟩, ⟨.newline, .start, "\n"⟩, ⟨.number, .start, "1"⟩,
        ⟨.newline, .start, "\n"⟩, ⟨.delimiter, .start, "]"⟩]
    let tokens' : List Token :=
      [⟨.delimiter, .start, "["⟩, ⟨.space, .start, " "⟩, ⟨.newline, .start, "\n"⟩,
        ⟨.newline, .start, "\r\n"⟩, ⟨.space, .start, "  "⟩, ⟨.number, .start, "1"⟩,
        ⟨.newline, .start, "\n"⟩, ⟨.space, .start, " "⟩, ⟨.newline, .start, "\n"⟩,
        ⟨.delimiter, .start, "]"⟩]
    condensed tokens = condensed tokens' ∧ (parseTokens tokens).isOk = true ∧
      SameOutcome (parseTokens tokens) (parseTokens tokens') := by
  intro tokens tokens'
  have hSame : condensed tokens = condensed tokens' := by decide
  exact ⟨hSame, by decide +kernel, parseTokens_of_condensed_eq hSame⟩

end DocumentLanguage
