import DocumentLanguage.Proofs.Parse.Budget
import DocumentLanguage.Proofs.Token.Condensed

/-!
Looking for rules without a budget. A budget that is enough for what lies ahead is taken for every
rule anew, so that what is found of a rule is what is found of its parts. What is seen at a spot
then tells which rules are not there.
-/
namespace DocumentLanguage

/-- Look for a rule with a budget that is enough for all that lies ahead. -/
def look : Seeker := fun rule line spot =>
  seekRule (nestingPerToken * spot.rest.length + rule.rank + 1) rule line spot

/-- Looking without a budget finds what is found within any budget that is enough, and this is what
it was made for. -/
theorem sureWithin_look (bound : Nat) : SureWithin bound look (seekRule bound) := by
  intro rule line spot hLess
  obtain ⟨more, rfl⟩ := Nat.le.dest (Nat.succ_le_of_lt hLess)
  exact sureWithin_seekRule _ more rule line spot (Nat.lt_succ_self _)

theorem sureWithin_look_self (bound : Nat) : SureWithin bound look look := by
  intro rule line spot _
  exact sureWithin_seekRule _ 0 rule line spot (Nat.lt_succ_self _)

/-- What is found of a rule is what is found of its form, under any bound that is large enough. -/
theorem look_eq {bound : Nat} {rule : Rule} {spot : Spot}
    (hBound : nestingPerToken * spot.rest.length + rule.rank ≤ bound) (line : Line) :
    look rule line spot = (seekForm look bound rule line spot rule.form).map .mk := by
  have hSeek := ((sureWithin_look _).form (Nat.le_refl _) (Nat.le_refl _) line :
    (seekForm look _ rule line spot rule.form).Sure _ spot _).same
  have hMore := ((sureWithin_look_self _).form hBound (Nat.le_refl _) line :
    (seekForm look _ rule line spot rule.form).Sure _ spot _).same
  rw [hMore, ← hSeek]
  rfl

/-- What a budget finds that is enough is what is found without one. -/
theorem seekRule_eq_look {bound : Nat} {rule : Rule} {spot : Spot}
    (hLess : nestingPerToken * spot.rest.length + rule.rank < bound) (line : Line) :
    seekRule bound rule line spot = look rule line spot :=
  (sureWithin_look bound rule line spot hLess).same

/-- What is seen at a spot, over newlines or not, has none of some leads. -/
def Spot.Clear (line : Line) (spot : Spot) (leads : List Lead) : Prop :=
  ∀ overLines, ∀ token ∈ (spot.visible line overLines).head?, token.kind ≠ .error ∧ token.lead ∉ leads

/-- What is free of some leads is free of any fewer of them. -/
theorem Spot.Clear.mono {line : Line} {spot : Spot} {leads others : List Lead}
    (clear : spot.Clear line leads) (hLeads : others ⊆ leads) : spot.Clear line others := by
  intro overLines token hToken
  obtain ⟨hError, hLead⟩ := clear overLines token hToken
  exact ⟨hError, fun hMem => hLead (hLeads hMem)⟩

/-- Where no line ends, what lies at a spot is seen. -/
theorem Spot.visible_of_solid {spot : Spot} {token : Token} {rest : List Token}
    (hRest : spot.rest = token :: rest) (hSolid : token.kind.isLayout = false) (line : Line)
    (overLines : Bool) : spot.visible line overLines = token :: rest := by
  rw [visible, hRest]
  refine List.dropWhile_cons_of_neg ?_
  simp [passes, Kind.ne_space hSolid, Kind.ne_newline hSolid]

/-- A spot is clear of all leads but the one that its first token is, if this token is neither
layout nor an error. -/
theorem Spot.clear_of_solid {spot : Spot} {token : Token} {rest : List Token} {leads : List Lead}
    (hRest : spot.rest = token :: rest) (hSolid : token.kind.isLayout = false)
    (hError : token.kind ≠ .error) (hLead : token.lead ∉ leads) (line : Line) :
    spot.Clear line leads := by
  intro overLines first hFirst
  rw [visible_of_solid hRest hSolid] at hFirst
  cases hFirst
  exact ⟨hError, hLead⟩

/-- A delimiter keeps a spot clear of everything that does not begin with that delimiter. -/
theorem Spot.clear_of_delimiter {spot : Spot} {token : Token} {rest : List Token} {leads : List Lead}
    (hRest : spot.rest = token :: rest) (hKind : token.kind = .delimiter)
    (hText : .word token.text ∉ leads) (line : Line) : spot.Clear line leads := by
  refine clear_of_solid hRest (by simp [hKind, Kind.isLayout]) (by simp [hKind]) ?_ line
  rwa [Token.lead_of_delimiter hKind]

/-- At the end of the tokens nothing begins, and so the spot is clear of all leads. -/
theorem Spot.clear_of_nil {spot : Spot} (hRest : spot.rest = []) (line : Line) (leads : List Lead) :
    spot.Clear line leads := by
  intro overLines first hFirst
  simp [visible, hRest] at hFirst

/-- A token that fails the test is not found, and neither is one where no token can be seen. Only a
lexical error would fail the search. -/
theorem Spot.expect_eq_absent {line : Line} {overLines : Bool} {test : Token → Bool} {spot : Spot}
    (hTest : ∀ token ∈ (spot.visible line overLines).head?, token.kind ≠ .error ∧ test token = false) :
    spot.expect line overLines test = .absent := by
  rw [expect]
  cases hVisible : spot.visible line overLines with
  | nil => rfl
  | cons token rest =>
    rw [hVisible] at hTest
    obtain ⟨hError, hFails⟩ := hTest token rfl
    simp [hError, hFails]

/-- The rules that are looked for by the token at their head alone. -/
def Rule.isDirect (rule : Rule) : Bool :=
  !rule.mayBeEmpty && rule != .document && rule != .statementLine && rule != .annotatedStatement

/-- Whether a part is looked for by the token at its head alone. -/
def Part.isDirect : Part → Bool
  | keyword _ | delimiter _ | newline | choice _ _ | token _ _ => true
  | child _ rule | some _ rule => rule.isDirect
  | _ => false

/-- Whether a form is looked for by the token at its head alone. -/
def Form.isDirect : Form → Bool
  | literal _ => true
  | oneOf rules => rules.all Rule.isDirect
  | sequence _ parts => parts.head?.any Part.isDirect

theorem Rule.isDirect_form (rule : Rule) (hDirect : rule.isDirect = true) :
    rule.form.isDirect = true := by
  revert hDirect
  cases rule <;> decide

/-- A sequence that is given up before anything committed it is absent, and no failure comes of it.
-/
theorem Setting.giveUp_uncommitted {α : Type} (setting : Setting) (owner : Bool) (spot : Spot) :
    (setting.giveUp ⟨false, owner⟩ spot : Reply α) = .absent := by
  simp [giveUp, Spot.giveUp]

section

variable {line : Line} {spot : Spot} {leads : List Lead}

/-- None of the delimiters that a spot is clear of is found at it. -/
theorem Spot.Clear.expectOneOf {texts : List String} (clear : spot.Clear line leads)
    (hTexts : ∀ text ∈ texts, .word text ∈ leads) : spot.expectOneOf line texts = .absent := by
  refine expect_eq_absent fun token hToken => ?_
  obtain ⟨hError, hLead⟩ := clear _ token hToken
  refine ⟨hError, ?_⟩
  by_contra hTest
  simp only [Bool.not_eq_false, Bool.and_eq_true, decide_eq_true_eq, List.contains_iff_mem] at hTest
  refine hLead ?_
  rw [Token.lead_of_delimiter hTest.1]
  exact hTexts _ hTest.2

/-- No token is found by a test that only asks for kinds of which the spot is clear. -/
theorem Spot.Clear.expect_kinds {overLines : Bool} {test : Kind → Bool} (clear : spot.Clear line leads)
    (hKinds : ∀ kind, test kind = true → kind ≠ .delimiter ∧ .kind kind ∈ leads) :
    spot.expect line overLines (fun token => test token.kind) = .absent := by
  refine expect_eq_absent fun token hToken => ?_
  obtain ⟨hError, hLead⟩ := clear _ token hToken
  refine ⟨hError, ?_⟩
  by_contra hTest
  obtain ⟨hKind, hMem⟩ := hKinds token.kind (by simpa using hTest)
  refine hLead ?_
  rwa [Token.lead_of_kind rfl hKind]

/-- If no alternative is there then none is found, and the rule with these alternatives is absent.
-/
theorem seekFirst_eq_absent {seek : Seeker} (rules : List Rule)
    (hRules : ∀ rule ∈ rules, seek rule line spot = .absent) :
    seekFirst seek line spot rules = .absent := by
  induction rules with
  | nil => rfl
  | cons rule rules ih =>
    rw [List.forall_mem_cons] at hRules
    rw [seekFirst_cons, hRules.1, Reply.either_absent, ih hRules.2]
    rfl

/-- A sequence is absent if its parts are, whatever the budget: before its first commitment it is
given up without a failure. -/
theorem look_eq_absent_of_parts {rule : Rule} {standing : Standing} {parts : List Part}
    (hForm : rule.form = .sequence standing parts)
    (hParts : ∀ bound, seekParts look bound ⟨rule, standing, line⟩ parts ⟨false, false⟩ spot = .absent) :
    look rule line spot = .absent := by
  have hNone : ∀ bound, seekForm look bound rule line spot rule.form = .absent := by
    rw [hForm]
    intro bound
    rw [seekForm, hParts]
    rfl
  rw [look_eq (Nat.le_refl _), hNone]
  rfl

/-- Of several rules none is there if each of them is not. -/
theorem look_eq_absent_of_rules {rule : Rule} {rules : List Rule} (hForm : rule.form = .oneOf rules)
    (hRules : ∀ child ∈ rules, look child line spot = .absent) : look rule line spot = .absent := by
  have hNone : ∀ bound, seekForm look bound rule line spot rule.form = .absent := by
    rw [hForm]
    exact fun _ => seekFirst_eq_absent rules hRules
  rw [look_eq (Nat.le_refl _), hNone]
  rfl

/-- A sequence that begins with a child is not there if the child is not. -/
theorem seekParts_eq_absent_of_child {bound : Nat} {setting : Setting} {owner : Bool} {label : String}
    {rule : Rule} {parts : List Part} (hChild : look rule setting.line spot = .absent) :
    seekParts look bound setting (.child label rule :: parts) ⟨false, owner⟩ spot = .absent := by
  rw [seekParts_cons, seekPart, hChild, Reply.either_absent, setting.giveUp_uncommitted]
  rfl

/-- A sequence is not there if its first part is not. -/
theorem seekPart_eq_absent {bound : Nat} {setting : Setting} {owner : Bool} (part : Part)
    (hDirect : part.isDirect = true) (clear : spot.Clear setting.line leads)
    (hLeads : part.leads Rule.leads ⊆ leads) (hDelimiter : Lead.kind .delimiter ∉ leads)
    (hRule : ∀ rule ∈ part.rule?, rule.isDirect = true → rule.leads ⊆ leads →
      look rule setting.line spot = .absent) :
    seekPart look bound setting ⟨false, owner⟩ spot part = .absent := by
  have hKind : ∀ kind, Lead.kind kind ∈ leads → ∀ other, decide (other = kind) = true →
      other ≠ .delimiter ∧ Lead.kind other ∈ leads := by
    intro kind hMem other hSame
    rw [of_decide_eq_true hSame]
    exact ⟨fun hEq => hDelimiter (hEq ▸ hMem), hMem⟩
  cases part with
  | keyword text | delimiter text =>
    have hTexts : ∀ other ∈ [text], Lead.word other ∈ leads := by
      simpa using hLeads List.mem_cons_self
    simp only [seekPart]
    rw [clear.expectOneOf hTexts]
    exact setting.giveUp_uncommitted owner spot
  | choice label options =>
    simp only [seekPart]
    rw [clear.expectOneOf fun text hText => hLeads (List.mem_map_of_mem hText)]
    exact setting.giveUp_uncommitted owner spot
  | newline =>
    simp only [seekPart, Spot.expectKind]
    rw [clear.expect_kinds (hKind _ (hLeads List.mem_cons_self))]
    exact setting.giveUp_uncommitted owner spot
  | token label kind =>
    simp only [seekPart, Spot.expectKind]
    rw [clear.expect_kinds (hKind _ (hLeads List.mem_cons_self))]
    exact setting.giveUp_uncommitted owner spot
  | child label rule =>
    simp only [seekPart]
    rw [hRule rule rfl hDirect hLeads]
    exact setting.giveUp_uncommitted owner spot
  | some label rule =>
    simp only [seekPart]
    rw [hRule rule rfl hDirect hLeads]
    exact setting.giveUp_uncommitted owner spot
  | optionalToken | line | optional | many | commit => cases hDirect

/-- A rule is not there where nothing is seen that it begins with. -/
theorem look_eq_absent {rule : Rule} (hDirect : rule.isDirect = true)
    (clear : spot.Clear line rule.leads) : look rule line spot = .absent := by
  induction hRank : rule.rank using Nat.strongRecOn generalizing rule with
  | ind rank ih =>
    subst hRank
    have hForm : ∀ bound, seekForm look bound rule line spot rule.form = .absent := by
      have hOpens := rule.rank_lt_of_opens
      have hLeads := rule.leads_of_form
      have hDirects := rule.isDirect_form hDirect
      have hDelimiter := rule.leads_ne_delimiter
      generalize rule.form = form at hOpens hLeads hDirects ⊢
      intro bound
      cases form with
      | literal kinds =>
        have hKinds : ∀ kind, kinds.contains kind = true →
            kind ≠ .delimiter ∧ Lead.kind kind ∈ rule.leads := by
          intro kind hMem
          have hLead := hLeads (List.mem_map_of_mem (List.contains_iff_mem.mp hMem))
          exact ⟨fun hEq => hDelimiter (hEq ▸ hLead), hLead⟩
        simp only [seekForm, Spot.expectKinds]
        rw [clear.expect_kinds hKinds]
        rfl
      | oneOf rules =>
        refine seekFirst_eq_absent rules fun child hChild => ?_
        refine ih _ (hOpens child hChild) (List.all_eq_true.mp hDirects child hChild) ?_ rfl
        exact clear.mono fun lead hLead => hLeads (List.mem_flatMap.mpr ⟨child, hChild, hLead⟩)
      | sequence standing parts =>
        cases parts with
        | nil => cases hDirects
        | cons part parts =>
          have hPart : seekPart look bound ⟨rule, standing, line⟩ ⟨false, false⟩ spot part = .absent := by
            refine seekPart_eq_absent part hDirects clear
              (List.Subset.trans (List.subset_append_left _ _) hLeads) hDelimiter ?_
            intro child hChild hDirect hSubset
            have hOpen : child ∈ opensOf (part :: parts) := by
              simp [opensOf, Option.mem_def.mp hChild]
            exact ih _ (hOpens child hOpen) hDirect (clear.mono hSubset) rfl
          rw [seekForm, seekParts_cons, hPart]
          rfl
    rw [look_eq (Nat.le_refl _), hForm]
    rfl

end

end DocumentLanguage
