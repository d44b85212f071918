import DocumentLanguage.Proofs.Parse.Budget
import DocumentLanguage.Proofs.Parse.Spelt

/-!
Brackets on the way. Whatever is found closes all brackets that it opens and no others, on whatever
line it is looked for, so that as many brackets are open behind it as before it.
-/
namespace DocumentLanguage

/-- The brackets of a sequence that are open behind a part, if that is told and it closes none of
those opened before. -/
def Part.depthBehind? (depth : Nat) : Part → Option Nat
  | keyword text | delimiter text => bracketsBehind text depth
  | choice _ options =>
    (options.delimiters.head?.bind (bracketsBehind · depth)).filter fun behind =>
      options.delimiters.all (bracketsBehind · depth = Option.some behind)
  | token _ kind | optionalToken _ kind => if kind = .delimiter then none else Option.some depth
  | newline | child _ _ | line _ _ | optional _ _ | many _ _ | some _ _ | commit => Option.some depth

/-- The brackets of a sequence that are open behind some of its parts. -/
def depthBehind? (depth : Nat) (parts : List Part) : Option Nat :=
  parts.foldlM Part.depthBehind? depth

def Form.closes : Form → Bool
  | literal kinds => !kinds.contains .delimiter
  | oneOf _ => true
  | sequence _ parts => depthBehind? 0 parts = some 0

theorem Rule.closes_form (rule : Rule) : rule.form.closes = true := by
  cases rule <;> decide

/-- The first of several rules that is there is one of them. -/
theorem exists_of_seekFirst {seek : Seeker} {line : Line} {spot next : Spot} {commits : Bool}
    (rules : List Rule) {content : Content (.oneOf rules)}
    (hFound : seekFirst seek line spot rules = .found content commits next) :
    ∃ rule ∈ rules, ∃ tree, seek rule line spot = .found tree commits next := by
  induction rules with
  | nil => cases hFound
  | cons rule rules ih =>
    rw [seekFirst_cons, Reply.either_eq_found] at hFound
    rcases hFound with ⟨tree, _, _, hTree, hThere⟩ | ⟨-, hMore⟩
    · cases hThere
      exact ⟨rule, List.mem_cons_self, tree, hTree⟩
    · obtain ⟨content, hRest, rfl⟩ := Reply.of_map_eq_found hMore
      obtain ⟨other, hOther, tree, hTree⟩ := ih hRest
      exact ⟨other, List.mem_cons_of_mem _ hOther, tree, hTree⟩

/-- A way to look for rules that finds what closes the brackets it opens. -/
def Levels (seek : Seeker) : Prop :=
  ∀ {rule : Rule} {line : Line} {spot next : Spot} {tree : Tree rule} {commits : Bool},
    seek rule line spot = .found tree commits next →
      ∃ used, Stretch none spot.nesting 0 0 spot next used

section

variable {line : Line} {start depth depth' : Nat} {spot next : Spot} {commits : Bool}

/-- Behind one of some delimiters that all do the same to the brackets. -/
theorem stretch_of_brackets {texts : List String} {token : Token}
    (hSpot : spot.nesting = start + depth)
    (hTexts : ∀ text ∈ texts, bracketsBehind text depth = some depth')
    (hFound : spot.expectOneOf line texts = .found token commits next) :
    ∃ used, Stretch none start depth depth' spot next used := by
  obtain ⟨hKind, hChosen⟩ := Spot.chosen_of_expectOneOf hFound
  obtain ⟨gap, hRest, layout, -, hNesting⟩ := Spot.gap_of_expect hFound
  have hText := hTexts _ hChosen
  refine ⟨_, .token hRest layout nofun hSpot ?_ (token.turn_of_bracketsBehind hKind hText) nofun⟩
  rw [hNesting, hSpot]
  exact Stands.nestingAfter_of_bracketsBehind hKind hText start

/-- Behind a token that is no bracket the depth is what it was, and the tokens up to there keep to
it. -/
theorem stretch_of_plain {overLines : Bool} {test : Token → Bool} {token : Token}
    (hSpot : spot.nesting = start + depth)
    (hFound : spot.expect line overLines test = .found token commits next)
    (hKind : token.kind ≠ .delimiter) :
    ∃ used, Stretch none start depth depth spot next used := by
  obtain ⟨gap, hRest, layout, -, hNesting⟩ := Spot.gap_of_expect hFound
  have hTurn := Token.turn_of_kind hKind
  refine ⟨_, .token hRest layout nofun hSpot ?_ (by rw [hTurn, Int.add_zero]) nofun⟩
  rw [hNesting, hSpot, Cursor.nestingAfter, if_neg hKind]

namespace Levels

variable {seek : Seeker}

/-- A node that is found keeps to its own brackets at any depth, not only at the one where it is not
inside any. -/
theorem ask (levels : Levels seek) {rule : Rule} {tree : Tree rule}
    (hSpot : spot.nesting = start + depth)
    (hFound : seek rule line spot = .found tree commits next) :
    ∃ used, Stretch none start depth depth spot next used := by
  obtain ⟨used, hStretch⟩ := levels hFound
  exact ⟨used, hStretch.of_child hSpot⟩

/-- Any number of nodes keep to their own brackets, one after another at the same depth. -/
theorem many (levels : Levels seek) {rule : Rule} (bound : Nat)
    (hSpot : spot.nesting = start + depth) {trees : Trees rule}
    (hFound : seekMany seek line rule bound spot = .found trees commits next) :
    ∃ used, Stretch none start depth depth spot next used := by
  induction bound generalizing spot trees with
  | zero => cases hFound
  | succ bound ih =>
    rw [seekMany_succ, Reply.either_eq_found] at hFound
    rcases hFound with ⟨tree, _, middle, hTree, hMore⟩ | ⟨-, hNone⟩
    · obtain ⟨rest, hRest, rfl⟩ := Reply.of_map_eq_found hMore
      obtain ⟨here, hHere⟩ := levels.ask hSpot hTree
      obtain ⟨behind, hBehind⟩ := ih hHere.nesting hRest
      exact ⟨_, hHere.trans hBehind⟩
    · cases hNone
      exact ⟨[], .none hSpot⟩

/-- A part that is found changes the depth by what it says: a bracket by one, and a node or a loop
of nodes not at all. -/
theorem part (levels : Levels seek) (bound : Nat) (setting : Setting) (progress : Progress)
    (hSpot : spot.nesting = start + depth) (part : Part)
    (hDepth : part.depthBehind? depth = some depth') {kept : part.Kept × Progress}
    (hFound : seekPart seek bound setting progress spot part = .found kept commits next) :
    ∃ used, Stretch none start depth depth' spot next used := by
  obtain ⟨kept, progress'⟩ := kept
  cases foundBy_of_seekPart hFound with
  | keyword hToken | delimiter hToken =>
    exact stretch_of_brackets hSpot (fun other hOther => by rwa [List.mem_singleton.mp hOther]) hToken
  | choice hToken =>
    simp only [Part.depthBehind?, Option.filter_eq_some_iff, List.all_eq_true,
      decide_eq_true_eq] at hDepth
    exact stretch_of_brackets hSpot hDepth.2 hToken
  | newline hToken =>
    cases hDepth
    exact stretch_of_plain hSpot hToken (by simp [Spot.kind_of_expectKind hToken])
  | token hToken | someToken hToken =>
    simp only [Part.depthBehind?, Option.ite_none_left_eq_some, Option.some.injEq] at hDepth
    obtain ⟨hKind, rfl⟩ := hDepth
    exact stretch_of_plain hSpot hToken (Spot.kind_of_expectKind hToken ▸ hKind)
  | noToken =>
    simp only [Part.depthBehind?, Option.ite_none_left_eq_some, Option.some.injEq] at hDepth
    obtain ⟨-, rfl⟩ := hDepth
    exact ⟨[], .none hSpot⟩
  | commit | absent =>
    cases hDepth
    exact ⟨[], .none hSpot⟩
  | child hTree | present hTree =>
    cases hDepth
    exact levels.ask hSpot hTree
  | line hTree =>
    cases hDepth
    have hBehind : spot.behindLayout.nesting = start + depth := hSpot
    obtain ⟨used, hStretch⟩ := levels.ask hBehind hTree
    exact ⟨_, (Stretch.layout hSpot (Option.some_ne_none start).symm).2.trans hStretch⟩
  | many hTrees =>
    cases hDepth
    exact levels.many bound hSpot hTrees
  | some hTree hTrees =>
    cases hDepth
    obtain ⟨here, hHere⟩ := levels.ask hSpot hTree
    obtain ⟨behind, hBehind⟩ := levels.many bound hHere.nesting hTrees
    exact ⟨_, hHere.trans hBehind⟩

/-- The parts of a sequence change the depth one after another, and what each of them says adds up
to what the sequence says. -/
theorem parts (levels : Levels seek) (bound : Nat) (setting : Setting) (parts : List Part)
    (progress : Progress) (hSpot : spot.nesting = start + depth)
    (hDepth : depthBehind? depth parts = some depth') {fields : Fields (fieldsOf parts)}
    (hFound : seekParts seek bound setting parts progress spot = .found fields commits next) :
    ∃ used, Stretch none start depth depth' spot next used := by
  induction parts generalizing depth progress spot with
  | nil =>
    cases hDepth
    cases hFound
    exact ⟨[], .none hSpot⟩
  | cons part parts ih =>
    simp only [depthBehind?, List.foldlM_cons, Option.bind_eq_bind, Option.bind_eq_some_iff] at hDepth
    obtain ⟨middle, hPart, hParts⟩ := hDepth
    rw [seekParts_cons, Reply.either_eq_found] at hFound
    rcases hFound with ⟨kept, _, behind, hHere, hMore⟩ | ⟨-, hMissing⟩
    · obtain ⟨rest, hRest, rfl⟩ := Reply.of_map_eq_found hMore
      obtain ⟨here, hStretch⟩ := levels.part bound setting progress hSpot part hPart hHere
      obtain ⟨last, hStretch'⟩ := ih kept.2 hStretch.nesting hParts hRest
      exact ⟨_, hStretch.trans hStretch'⟩
    · cases hMissing

/-- What a rule is found to hold ends at the depth where it began, since every rule closes the
brackets that it opens. -/
theorem form (levels : Levels seek) (bound : Nat) {rule : Rule} (form : Form)
    (hCloses : form.closes = true) {content : Content form}
    (hFound : seekForm seek bound rule line spot form = .found content commits next) :
    ∃ used, Stretch none spot.nesting 0 0 spot next used := by
  cases form with
  | literal kinds =>
    obtain ⟨token, hToken, rfl⟩ := Reply.of_map_eq_found hFound
    have hKind := Spot.kind_of_expectKinds hToken
    have hPlain : Kind.delimiter ∉ kinds := by simpa [Form.closes] using hCloses
    exact stretch_of_plain (Nat.add_zero _).symm hToken fun hEq => hPlain (hEq ▸ hKind)
  | oneOf rules =>
    obtain ⟨_, -, tree, hTree⟩ := exists_of_seekFirst rules hFound
    exact levels hTree
  | sequence standing parts =>
    obtain ⟨fields, hFields, rfl⟩ := Reply.of_map_eq_found hFound
    exact levels.parts bound _ parts _ (Nat.add_zero _).symm (by simpa [Form.closes] using hCloses)
      hFields

end Levels

end

/-- Whatever is found closes the brackets that it opens and no others. -/
theorem levels_seekRule (bound : Nat) : Levels (seekRule bound) := by
  induction bound with
  | zero =>
    intro rule line spot next tree commits hFound
    cases hFound
  | succ bound ih =>
    intro rule line spot next tree commits hFound
    obtain ⟨content, hContent, rfl⟩ := Reply.of_map_eq_found hFound
    exact ih.form bound rule.form rule.closes_form hContent

end DocumentLanguage
