import DocumentLanguage.Proofs.Parse.Inside

/-!
What a failure says about the tokens. No token that the scanner could not make sense of is read or
passed over, so that the first of them ends every reading that comes to it; a failure is about the
first token that was not read and is no layout. If tokens follow a document, those before them make
it up.
-/
namespace DocumentLanguage

open Cursor

/-- A failure to read a rule is about the first token ahead that is no layout. -/
def Failure.Describes (spot : Spot) : Failure → Prop
  | lexical token => spot.behindLayout.rest.head? = some token ∧ token.kind = .error
  | incomplete _ token =>
    spot.behindLayout.rest.head? = token ∧ ∀ other ∈ token, other.kind ≠ .error
  | trailing _ => False
  | exhausted => True

/-- Reading leads from a spot to a later one, and past no token that is an error. -/
def Spot.LeadsTo (spot next : Spot) : Prop :=
  ∃ used, spot.rest = used ++ next.rest ∧ ∀ token ∈ used, token.kind ≠ .error

theorem Spot.LeadsTo.refl (spot : Spot) : spot.LeadsTo spot := ⟨[], rfl, nofun⟩

theorem Spot.LeadsTo.trans {first second third : Spot} (left : first.LeadsTo second)
    (right : second.LeadsTo third) : first.LeadsTo third := by
  obtain ⟨here, hHere, hFirst⟩ := left
  obtain ⟨behind, hBehind, hSecond⟩ := right
  exact ⟨here ++ behind, by rw [hHere, hBehind, List.append_assoc],
    List.forall_mem_append.mpr ⟨hFirst, hSecond⟩⟩

/-- Passing over layout leads on from where it began, since no error is among what is passed. -/
theorem Spot.leadsTo_behindLayout (spot : Spot) : spot.LeadsTo spot.behindLayout := by
  refine ⟨spot.rest.takeWhile (·.kind.isLayout), List.takeWhile_append_dropWhile.symm, ?_⟩
  intro token hToken hError
  have hLayout := List.mem_takeWhile_imp hToken
  rw [hError] at hLayout
  cases hLayout

/-- What is found, and what reading ends for, lies ahead behind no error. -/
def Reply.Honest {α : Type} (spot : Spot) : Reply α → Prop
  | found _ _ next => spot.LeadsTo next
  | absent => True
  | failed failure next => spot.LeadsTo next ∧ failure.Describes next

section

variable {α β : Type} {line : Line} {spot next : Spot} {reply : Reply α}

namespace Reply.Honest

/-- A reply that is honest about where a search came to is honest about where it set out, if only
tokens without errors lie between the two. -/
theorem behind (honest : reply.Honest next) (leads : spot.LeadsTo next) : reply.Honest spot := by
  cases reply with
  | found value commits last => exact leads.trans honest
  | absent => trivial
  | failed failure last => exact ⟨leads.trans honest.1, honest.2⟩

/-- Trying one thing and then another is honest if both are: a failure of the first is told as it
is, and a miss leaves it to the second. -/
theorem either {there : α → Bool → Spot → Reply β} {missing : Reply β} (honest : reply.Honest spot)
    (hThere : ∀ value commits next, reply = .found value commits next →
      (there value commits next).Honest next)
    (hMissing : missing.Honest spot) : (reply.either there missing).Honest spot := by
  cases hReply : reply with
  | found value commits next =>
    rw [hReply] at honest
    exact (hThere value commits next hReply).behind honest
  | absent => exact hMissing
  | failed failure next =>
    rw [hReply] at honest
    exact honest

theorem map (f : α → β) (honest : reply.Honest spot) : (reply.map f).Honest spot := by
  cases reply <;> exact honest

theorem found (value : α) (commits : Bool) (spot : Spot) :
    (Reply.found value commits spot).Honest spot := .refl spot

end Reply.Honest

/-- Looking for a token tells of nothing but what is there. It fails at a lexical error only, and it
is missing where another token or none is ahead. -/
theorem Spot.honest_expect (spot : Spot) (line : Line) (overLines : Bool) (test : Token → Bool) :
    (spot.expect line overLines test).Honest spot := by
  have hRest : spot.rest = spot.rest.takeWhile (spot.passes line overLines) ++
      spot.visible line overLines := List.takeWhile_append_dropWhile.symm
  have hPassed : ∀ token ∈ spot.rest.takeWhile (spot.passes line overLines), token.kind ≠ .error := by
    intro token hToken hError
    have hPasses := List.mem_takeWhile_imp hToken
    simp [passes, hError] at hPasses
  rw [expect]
  cases hVisible : spot.visible line overLines with
  | nil => trivial
  | cons token rest =>
    rw [hVisible] at hRest
    by_cases hError : token.kind = .error
    · simp only [hError, if_true]
      have hSolid : token.kind.isLayout = false := by rw [hError]; rfl
      exact ⟨⟨_, hRest, hPassed⟩, by simp [behindLayout, hSolid], hError⟩
    · simp only [hError, if_false]
      split
      · refine ⟨_ ++ [token], by simpa using hRest, List.forall_mem_append.mpr ⟨hPassed, ?_⟩⟩
        simpa using hError
      · trivial

/-- The failure of a rule names the rule and the first token behind any layout, or the lexical error
if that is what stands there. -/
theorem Spot.describes_failure (spot : Spot) (rule : Rule) : (spot.failure rule).Describes spot := by
  unfold failure
  cases hRest : spot.behindLayout.rest with
  | nil => exact ⟨by simp [hRest], nofun⟩
  | cons token rest =>
    by_cases hError : token.kind = .error
    · simp [hError, Failure.Describes, hRest]
    · simp [hError, Failure.Describes, hRest]

/-- A sequence that is given up is absent, or it fails with a description of what is there. It never
tells of tokens it did not see. -/
theorem Setting.honest_giveUp (setting : Setting) (progress : Progress) (spot : Spot) :
    (setting.giveUp progress spot : Reply α).Honest spot := by
  unfold giveUp Spot.giveUp
  split
  · exact ⟨.refl spot, spot.describes_failure _⟩
  · trivial

/-- A way to look for rules that is honest about what lies ahead. -/
def Seeker.Honest (seek : Seeker) : Prop :=
  ∀ rule line spot, (seek rule line spot).Honest spot

namespace Seeker.Honest

variable {seek : Seeker}

/-- Any number of nodes are found honestly, as each of them is, and what ends them is a miss or an
honest failure. -/
theorem many (honest : seek.Honest) (rule : Rule) (bound : Nat) (spot : Spot) :
    (seekMany seek line rule bound spot).Honest spot := by
  induction bound generalizing spot with
  | zero => exact ⟨.refl spot, trivial⟩
  | succ bound ih =>
    rw [seekMany_succ]
    exact (honest rule line spot).either (fun _ _ next _ => (ih next).map _) (.found _ _ spot)

/-- The first of several rules is found honestly, since the misses before it leave no trace in the
reply. -/
theorem first (honest : seek.Honest) (rules : List Rule) (spot : Spot) :
    (seekFirst seek line spot rules).Honest spot := by
  induction rules with
  | nil => trivial
  | cons rule rules ih =>
    rw [seekFirst_cons]
    exact (honest rule line spot).either (fun _ _ next _ => .found _ _ next) (ih.map _)

/-- A part of a sequence is found honestly, whatever it is, if the nodes inside it are. -/
theorem part (honest : seek.Honest) (bound : Nat) (setting : Setting) (progress : Progress)
    (spot : Spot) (part : Part) : (seekPart seek bound setting progress spot part).Honest spot := by
  cases part with
  | keyword | delimiter | newline | choice | token =>
    exact (spot.honest_expect _ _ _).either (fun _ _ next _ => .found _ _ next)
      (setting.honest_giveUp progress spot)
  | optionalToken =>
    exact (spot.honest_expect _ _ _).either (fun _ _ next _ => .found _ _ next) (.found _ _ spot)
  | child label rule =>
    exact (honest rule _ spot).either (fun _ _ next _ => .found _ _ next)
      (setting.honest_giveUp progress spot)
  | line label rule =>
    exact ((honest rule _ spot.behindLayout).either (fun _ _ next _ => .found _ _ next)
      (setting.honest_giveUp progress spot.behindLayout)).behind spot.leadsTo_behindLayout
  | optional label rule =>
    exact (honest rule _ spot).either (fun _ _ next _ => .found _ _ next) (.found _ _ spot)
  | many label rule =>
    exact (honest.many rule bound spot).either (fun _ _ next _ => .found _ _ next) trivial
  | some label rule =>
    refine (honest rule _ spot).either (fun tree _ next _ => ?_) (setting.honest_giveUp progress spot)
    exact (honest.many rule bound next).either (fun _ _ last _ => .found _ _ last) trivial
  | commit => exact .refl spot

/-- The parts of a sequence are found honestly one after another: what a later one tells is told
from where the earlier ones ended, and that is behind where they began. -/
theorem parts (honest : seek.Honest) (bound : Nat) (setting : Setting) (parts : List Part)
    (progress : Progress) (spot : Spot) :
    (seekParts seek bound setting parts progress spot).Honest spot := by
  induction parts generalizing progress spot with
  | nil => exact .refl spot
  | cons part parts ih =>
    rw [seekParts_cons]
    exact (honest.part bound setting progress spot part).either
      (fun kept _ next _ => (ih kept.2 next).map _) trivial

end Seeker.Honest

/-- Whatever is looked for, the answer is honest about what lies ahead. -/
theorem honest_seekRule (bound : Nat) : (seekRule bound).Honest := by
  induction bound with
  | zero => exact fun _ _ spot => ⟨.refl spot, trivial⟩
  | succ bound ih =>
    intro rule line spot
    refine Reply.Honest.map _ ?_
    cases rule.form with
    | literal kinds => exact (spot.honest_expect _ _ _).map _
    | oneOf rules => exact ih.first rules spot
    | sequence standing parts => exact (ih.parts bound _ parts _ spot).map _

end

/-! ### Failures of whole documents -/

/-- A token is met at an index: so many tokens and layout come before it, and no error. -/
structure Met (tokens : List Token) (position index : Nat) (token : Token) : Prop where
  behind : position ≤ index
  here : tokens[index]? = some token
  layout : ∀ other ∈ (tokens.take index).drop position, other.kind.isLayout = true
  noError : ∀ other ∈ tokens.take index, other.kind ≠ .error

/-- What a failure says about the tokens, of which so many have been read. -/
def Failure.Means (tokens : List Token) (position : Nat) : Failure → Prop
  | lexical token =>
    (∃ index, Met tokens position index token) ∧ tokens.find? (·.kind = .error) = some token
  | incomplete _ (some token) =>
    ∃ index, Met tokens position index token ∧ token.kind ∉ [.space, .newline, .error]
  | incomplete _ none =>
    (∀ token ∈ tokens, token.kind ≠ .error) ∧
      ∀ token ∈ tokens.drop position, token.kind = .space ∨ token.kind = .newline
  | trailing token =>
    ∃ index, Met tokens position index token ∧ token.kind ∉ [.space, .newline, .error] ∧
      ∃ document, parseTokens (tokens.take index) = .ok document
  | exhausted => False

section

variable {tokens : List Token} {position : Nat} {next : Spot}

def Spot.layout (spot : Spot) : List Token := spot.rest.takeWhile (·.kind.isLayout)

/-- The layout at a spot and what stands behind it are all the tokens from there on. -/
theorem Spot.layout_append_behindLayout (spot : Spot) :
    spot.layout ++ spot.behindLayout.rest = spot.rest := List.takeWhile_append_dropWhile

theorem Spot.isLayout_of_mem_layout {spot : Spot} {token : Token} (hToken : token ∈ spot.layout) :
    token.kind.isLayout = true := by
  simpa using List.mem_takeWhile_imp hToken

theorem Spot.isLayout_of_head {spot : Spot} {token : Token}
    (hHead : spot.behindLayout.rest.head? = some token) : token.kind.isLayout = false := by
  have hFirst := List.head?_dropWhile_not (fun token : Token => token.kind.isLayout) spot.rest
  rw [show (spot.rest.dropWhile _).head? = some token from hHead] at hFirst
  simpa using hFirst

/-- The token ahead behind any layout is neither a space nor a newline, and if it is no error
either, then it is one that a rule can be asked for. -/
theorem Spot.kind_of_head {spot : Spot} {token : Token}
    (hHead : spot.behindLayout.rest.head? = some token) (hError : token.kind ≠ .error) :
    token.kind ∉ [.space, .newline, .error] := by
  have hSolid := Spot.isLayout_of_head hHead
  simp [Kind.ne_space hSolid, Kind.ne_newline hSolid, hError]

/-- None of the tokens before a spot that a search led to is an error, since an error would have
ended the search where it stood. -/
theorem Spot.LeadsTo.take (leads : Spot.LeadsTo ⟨tokens, 0⟩ next)
    (hRest : tokens.drop position = next.rest) :
    ∀ token ∈ tokens.take position, token.kind ≠ .error := by
  obtain ⟨used, hUsed, hSound⟩ := leads
  have hTake : tokens.take position = used := by
    refine (List.append_left_inj next.rest).mp ?_
    rw [← hRest, List.take_append_drop, hRest]
    exact hUsed
  rwa [hTake]

/-- The first token behind a spot that is no layout is met behind the layout. -/
theorem Spot.LeadsTo.met (leads : Spot.LeadsTo ⟨tokens, 0⟩ next)
    (hRest : tokens.drop position = next.rest) (hPosition : position ≤ tokens.length) {token : Token}
    (hHead : next.behindLayout.rest.head? = some token) :
    Met tokens position (position + next.layout.length) token ∧
      tokens.take (position + next.layout.length) = tokens.take position ++ next.layout := by
  have hTake : tokens.take (position + next.layout.length) = tokens.take position ++ next.layout := by
    rw [List.take_add, hRest, ← next.layout_append_behindLayout, List.take_left]
  have hLength : (tokens.take position).length = position := List.length_take_of_le hPosition
  refine ⟨⟨Nat.le_add_right _ _, ?_, ?_, ?_⟩, hTake⟩
  · rw [← List.getElem?_drop, hRest, ← next.layout_append_behindLayout,
      List.getElem?_append_right (Nat.le_refl _), Nat.sub_self, ← List.head?_eq_getElem?, hHead]
  · rw [hTake, List.drop_left' hLength]
    exact fun other hOther => Spot.isLayout_of_mem_layout hOther
  · rw [hTake]
    refine List.forall_mem_append.mpr ⟨leads.take hRest, fun other hOther hError => ?_⟩
    have hLayout := Spot.isLayout_of_mem_layout hOther
    rw [hError] at hLayout
    cases hLayout

/-- Tokens up to where a document was found and the layout behind it make up a document. -/
theorem parseTokens_take {document : Document} {commits : Bool} {index : Nat}
    (hRest : tokens.drop position = next.rest) (hIndex : index = position + next.layout.length)
    (hFound : seekRule (readingBudget tokens.length) .document none ⟨tokens, 0⟩ =
      .found document commits next) : parseTokens (tokens.take index) = .ok document := by
  have hDrop : tokens.drop index = next.behindLayout.rest := by
    rw [hIndex, ← List.drop_drop, hRest, ← next.layout_append_behindLayout, List.drop_left]
  have hNext : next = (⟨next.layout, next.nesting⟩ : Spot).followedBy (tokens.drop index) := by
    rw [hDrop]
    exact congrArg (Spot.mk · next.nesting) next.layout_append_behindLayout.symm
  have hStart : (⟨tokens, 0⟩ : Spot) = (⟨tokens.take index, 0⟩ : Spot).followedBy (tokens.drop index) :=
    congrArg (Spot.mk · 0) (List.take_append_drop index tokens).symm
  rw [hStart, hNext] at hFound
  have hHere := document_of_followedBy (fun _ => Spot.isLayout_of_mem_layout) hFound
  have hEnough := needed_lt_readingBudget tokens .document
  have hShorter : nestingPerToken * (tokens.take index).length ≤ nestingPerToken * tokens.length :=
    Nat.mul_le_mul_left _ (List.length_take_le' index tokens)
  rw [seekRule_eq_look (by dsimp only; omega),
    ← seekRule_eq_look (needed_lt_readingBudget (tokens.take index) .document)] at hHere
  exact parseTokens_eq_ok.mpr ⟨commits, _, hHere, List.dropWhile_eq_nil_iff.mpr
    fun _ => Spot.isLayout_of_mem_layout⟩

theorem Spot.leadsTo_behindComment (spot : Spot) : spot.LeadsTo spot.behindComment := by
  have honest := spot.honest_expect none (Kind.comment != .newline && Kind.comment != .note)
    (·.kind = .comment)
  rw [behindComment, expectKind]
  revert honest
  cases spot.expect none _ (·.kind = .comment) with
  | found token commits next => exact id
  | absent | failed => exact fun _ => .refl spot

/-- Looking for a document fails where a rule does, or at an error or another token behind it. -/
theorem describes_of_seekDocument {bound : Nat} {spot : Spot} {failure : Failure}
    (hFails : seekDocument bound spot = .error failure) :
    spot.LeadsTo (leftBehind bound spot) ∧ (failure.Describes (leftBehind bound spot) ∨
      ∃ token document commits, failure = .trailing token ∧ token.kind ≠ .error ∧
        (leftBehind bound spot).behindLayout.rest.head? = some token ∧
        seekRule bound .document none spot = .found document commits (leftBehind bound spot)) := by
  have honest := honest_seekRule bound .document none spot
  rw [seekDocument] at hFails
  unfold leftBehind
  cases hReply : seekRule bound .document none spot with
  | found document commits next =>
    rw [hReply] at hFails honest
    refine ⟨honest, ?_⟩
    dsimp only at hFails ⊢
    cases hAhead : next.behindLayout.rest with
    | nil =>
      rw [hAhead] at hFails
      cases hFails
    | cons token rest =>
      rw [hAhead] at hFails
      dsimp only at hFails
      by_cases hError : token.kind = .error
      · rw [if_pos hError] at hFails
        cases hFails
        exact .inl ⟨by rw [hAhead]; rfl, hError⟩
      · rw [if_neg hError] at hFails
        cases hFails
        exact .inr ⟨token, document, commits, rfl, hError, rfl, rfl⟩
  | absent =>
    rw [hReply] at hFails
    cases hFails
    exact ⟨spot.leadsTo_behindComment, .inl (Spot.describes_failure _ _)⟩
  | failed failure next =>
    rw [hReply] at hFails honest
    cases hFails
    exact ⟨honest.1, .inl honest.2⟩

/-- What a failure describes of what is ahead it says of the tokens. -/
theorem Failure.Describes.means {failure : Failure} (describes : failure.Describes next)
    (leads : Spot.LeadsTo ⟨tokens, 0⟩ next) (hRest : tokens.drop position = next.rest)
    (hPosition : position ≤ tokens.length) (hEnough : failure ≠ .exhausted) :
    failure.Means tokens position := by
  cases failure with
  | lexical token =>
    obtain ⟨hHead, hError⟩ := describes
    have hMet := (leads.met hRest hPosition hHead).1
    refine ⟨⟨_, hMet⟩, List.find?_eq_some_iff_append.mpr ⟨by simpa using hError, ?_⟩⟩
    obtain ⟨hLess, hToken⟩ := List.getElem?_eq_some_iff.mp hMet.here
    refine ⟨tokens.take (position + next.layout.length),
      tokens.drop (position + next.layout.length + 1), ?_,
      fun other hOther => by simpa using hMet.noError other hOther⟩
    rw [← hToken, List.getElem_cons_drop, List.take_append_drop]
  | incomplete rule token =>
    obtain ⟨hHead, hError⟩ := describes
    cases token with
    | none =>
      have hLayout : ∀ token ∈ tokens.drop position, token.kind.isLayout = true := by
        rw [hRest]
        simpa using List.dropWhile_eq_nil_iff.mp (List.head?_eq_none_iff.mp hHead)
      refine ⟨fun token hToken => ?_, fun token hToken => Kind.isLayout_iff.mp (hLayout token hToken)⟩
      rw [← List.take_append_drop position tokens, List.mem_append] at hToken
      rcases hToken with hRead | hAhead
      · exact leads.take hRest token hRead
      · intro hError
        have hLayout := hLayout token hAhead
        rw [hError] at hLayout
        cases hLayout
    | some token =>
      exact ⟨_, (leads.met hRest hPosition hHead).1, Spot.kind_of_head hHead (hError token rfl)⟩
  | trailing token => exact describes.elim
  | exhausted => exact absurd rfl hEnough

end

/-- Whatever a reading ends for, it says so of the tokens: the first error among them, or the first
token that was not read and is no layout, with no error before it. Before a token that follows a
document, the tokens make up a document; and reading comes to the end of the tokens only where only
layout is left. -/
theorem means_of_parseDocument {tokens : List Token} {failure : Failure} {after : Cursor}
    (hRun : (start tokens).parseDocument = (.error failure, after)) :
    failure.Means tokens after.position := by
  have hReads := ends_readDocument (at_start tokens) (steady_start tokens)
  rw [Reading.Ends, show readDocument.exec (start tokens) = _ from hRun] at hReads
  obtain ⟨hOutcome, rests⟩ := hReads
  have hRest : tokens.drop after.position =
      (leftBehind (readingBudget tokens.length) ⟨tokens, 0⟩).rest := by
    have hRest := rests.stands.rest
    rwa [rests.tokens] at hRest
  have hPosition : after.position ≤ tokens.length := by
    have hWithin := rests.stands.within
    rwa [rests.tokens] at hWithin
  obtain ⟨leads, describes | ⟨token, document, commits, rfl, hError, hHead, hFound⟩⟩ :=
    describes_of_seekDocument hOutcome.symm
  · refine describes.means leads hRest hPosition ?_
    rintro rfl
    exact seekDocument_ne_exhausted (needed_lt_readingBudget tokens .document) hOutcome.symm
  · exact ⟨_, (leads.met hRest hPosition hHead).1, Spot.kind_of_head hHead hError, document,
      parseTokens_take hRest rfl hFound⟩

/-- A run whose result shows a failure, whatever value it would otherwise have given, ends with just
that failure and leaves a reader behind. -/
theorem exists_run_eq_error {α : Type} (run : Except Failure α × Cursor) (failure : Failure)
    (hFails : (run.1.map fun _ => ()) = .error failure) : ∃ after, run = (.error failure, after) := by
  obtain ⟨outcome, after⟩ := run
  cases outcome with
  | ok value => cases hFails
  | error other =>
    cases hFails
    exact ⟨after, rfl⟩

/-- A bracket behind a number could begin parameters, but these do not, so that it follows a
document that is the number. -/
theorem means_of_parseDocument_number :
    let tokens : List Token :=
      [⟨.number, .start, "1"⟩, ⟨.space, .start, " "⟩, ⟨.delimiter, .start, "("⟩,
        ⟨.number, .start, "2"⟩, ⟨.delimiter, .start, "]"⟩]
    let failure : Failure := .trailing ⟨.delimiter, .start, "("⟩
    ∃ after, (start tokens).parseDocument = (.error failure, after) ∧
      failure.Means tokens after.position := by
  intro tokens failure
  obtain ⟨after, hRun⟩ := exists_run_eq_error (start tokens).parseDocument failure
    (by decide +kernel)
  exact ⟨after, hRun, means_of_parseDocument hRun⟩

end DocumentLanguage
