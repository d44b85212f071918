import DocumentLanguage.Proofs.Parse.Step

/-!
What is found spells out what was read. Whatever is found at a spot, its terminals are the tokens
from there to the next spot, one for one and in order, but for layout.
-/
namespace DocumentLanguage

/-- Tokens up to a place say what terminals say, once those of some kinds are passed over. -/
inductive Along (passes : Kind → Bool) : List Terminal → List Token → List Token → Prop
  | stop (rest : List Token) : Along passes [] rest rest
  | pass {terminals : List Terminal} {token : Token} {rest after : List Token}
      (hPass : passes token.kind = true) (along : Along passes terminals rest after) :
      Along passes terminals (token :: rest) after
  | read {terminal : Terminal} {terminals : List Terminal} {token : Token}
      {rest after : List Token} (hReads : terminal.reads token) (hSpace : token.kind ≠ .space)
      (hError : token.kind ≠ .error) (along : Along passes terminals rest after) :
      Along passes (terminal :: terminals) (token :: rest) after

namespace Along

variable {passes : Kind → Bool} {first second : List Terminal} {start middle last : List Token}

/-- Two runs of terminals that are read one behind the other are one run along the same tokens. -/
theorem append (left : Along passes first start middle) (right : Along passes second middle last) :
    Along passes (first ++ second) start last := by
  induction left with
  | stop => exact right
  | pass hPass _ ih => exact .pass hPass (ih right)
  | read hReads hSpace hError _ ih => exact .read hReads hSpace hError (ih right)

/-- Passed tokens may be added in front: what is read behind them is read from before them as well.
-/
theorem dropWhile {test : Token → Bool} (hTest : ∀ token, test token = true → passes token.kind = true)
    (along : Along passes first (start.dropWhile test) last) : Along passes first start last := by
  induction start with
  | nil => exact along
  | cons token rest ih =>
      rw [List.dropWhile_cons] at along
      by_cases hPasses : test token = true
      · rw [if_pos hPasses] at along
        exact .pass (hTest token hPasses) (ih along)
      · rwa [if_neg hPasses] at along

end Along

namespace Spot

/-- Only layout is ever passed over in looking for a token. -/
theorem passes_isLayout {line : Line} {overLines : Bool} {spot : Spot} {token : Token}
    (hPasses : spot.passes line overLines token = true) : token.kind.isLayout = true := by
  simp only [passes, Bool.or_eq_true, Bool.and_eq_true, decide_eq_true_eq] at hPasses
  rcases hPasses with hSpace | ⟨⟨hNewline, -⟩, -⟩
  · rw [hSpace]
    rfl
  · rw [hNewline]
    rfl

/-- A token that is found is the first one in sight. It passed the test, and it is neither a space
nor an error. -/
theorem of_expect_eq_found {line : Line} {overLines : Bool} {test : Token → Bool}
    {spot next : Spot} {token : Token} {commits : Bool}
    (hFound : spot.expect line overLines test = .found token commits next) :
    spot.visible line overLines = token :: next.rest ∧ token.kind ≠ .error ∧
      token.kind ≠ .space ∧ test token = true := by
  simp only [expect] at hFound
  cases hVisible : spot.visible line overLines with
  | nil =>
      rw [hVisible] at hFound
      cases hFound
  | cons head rest =>
      have hHead : spot.passes line overLines head = false := by
        have hDropped := List.head?_dropWhile_not (spot.passes line overLines) spot.rest
        rw [← visible, hVisible] at hDropped
        simpa using hDropped
      simp only [hVisible] at hFound
      split at hFound
      · cases hFound
      · split at hFound
        · rename_i hError hTest
          cases hFound
          refine ⟨rfl, hError, ?_, hTest⟩
          intro hSpace
          simp [passes, hSpace] at hHead
        · cases hFound

theorem kind_of_expectKind {line : Line} {kind : Kind} {spot next : Spot} {token : Token}
    {commits : Bool} (hFound : spot.expectKind line kind = .found token commits next) :
    token.kind = kind := by
  simpa using (of_expect_eq_found hFound).2.2.2

theorem kind_of_expectKinds {line : Line} {kinds : List Kind} {spot next : Spot} {token : Token}
    {commits : Bool} (hFound : spot.expectKinds line kinds = .found token commits next) :
    token.kind ∈ kinds := by
  simpa using (of_expect_eq_found hFound).2.2.2

theorem chosen_of_expectOneOf {line : Line} {texts : List String} {spot next : Spot} {token : Token}
    {commits : Bool} (hFound : spot.expectOneOf line texts = .found token commits next) :
    token.kind = .delimiter ∧ token.text ∈ texts := by
  simpa using (of_expect_eq_found hFound).2.2.2

/-- A token that is found lies behind nothing but layout, so that its terminal is read along the
tokens up to there. -/
theorem along_expect {line : Line} {overLines : Bool} {test : Token → Bool} {spot next : Spot}
    {token : Token} {commits : Bool} {terminal : Terminal}
    (hFound : spot.expect line overLines test = .found token commits next)
    (hReads : terminal.reads token) :
    Along Kind.isLayout [terminal] spot.rest next.rest := by
  obtain ⟨hVisible, hError, hSpace, -⟩ := of_expect_eq_found hFound
  have hAlong : Along Kind.isLayout [terminal] (spot.visible line overLines) next.rest := by
    rw [hVisible]
    exact .read hReads hSpace hError (.stop _)
  exact hAlong.dropWhile fun token hPasses => passes_isLayout hPasses

end Spot

/-- What a way to look for rules finds is spelt out by what lies there. -/
def Sound (seek : Seeker) : Prop :=
  ∀ {rule : Rule} {line : Line} {spot next : Spot} {tree : Tree rule} {commits : Bool},
    seek rule line spot = .found tree commits next →
      Along Kind.isLayout tree.terminals spot.rest next.rest ∧ tree.Made

/-- The text that is kept of a token stands for that token. -/
theorem reads_keptText {token : Token} {kind : Kind} (hKind : token.kind = kind) :
    (Terminal.kept kind (keptText token)).reads token := by
  simp only [Terminal.kept, keptText, hKind]
  split
  · exact ⟨hKind, rfl⟩
  · exact ⟨hKind, rfl⟩

section

variable {seek : Seeker}

/-- An alternative that is found is read along its tokens, and it is one of those that were allowed.
-/
theorem Sound.first (sound : Sound seek) {line : Line} {spot next : Spot} {commits : Bool}
    (rules : List Rule) {content : Content (.oneOf rules)}
    (hFound : seekFirst seek line spot rules = .found content commits next) :
    Along Kind.isLayout content.terminals spot.rest next.rest ∧
      ∀ child ∈ content.children, child.tree.Made := by
  induction rules with
  | nil => cases hFound
  | cons rule rules ih =>
      rw [seekFirst_cons] at hFound
      rcases Reply.either_eq_found.mp hFound with ⟨tree, _, _, hTree, hThere⟩ | ⟨-, hMissing⟩
      · cases hThere
        obtain ⟨hAlong, hMade⟩ := sound hTree
        exact ⟨hAlong, List.forall_mem_singleton.mpr hMade⟩
      · obtain ⟨⟨chosen, allowed, tree⟩, hRest, rfl⟩ := Reply.of_map_eq_found hMissing
        exact ih hRest

/-- A run of nodes that are found is read along its tokens, node behind node. -/
theorem Sound.many (sound : Sound seek) {line : Line} {rule : Rule} (bound : Nat)
    {spot next : Spot} {trees : Trees rule} {commits : Bool}
    (hFound : seekMany seek line rule bound spot = .found trees commits next) :
    Along Kind.isLayout trees.terminals spot.rest next.rest ∧
      ∀ child ∈ trees.asNodes, child.tree.Made := by
  induction bound generalizing spot trees with
  | zero => cases hFound
  | succ bound ih =>
      rw [seekMany_succ] at hFound
      rcases Reply.either_eq_found.mp hFound with ⟨tree, _, _, hTree, hMore⟩ | ⟨-, hNone⟩
      · obtain ⟨rest, hRest, rfl⟩ := Reply.of_map_eq_found hMore
        obtain ⟨hAlong, hMade⟩ := sound hTree
        obtain ⟨hAlongRest, hMadeRest⟩ := ih hRest
        exact ⟨hAlong.append hAlongRest, List.forall_mem_cons.mpr ⟨hMade, hMadeRest⟩⟩
      · cases hNone
        exact ⟨.stop _, nofun⟩

/-- A part that is found is read along its tokens, with its terminals in their order and its nodes
sound. -/
theorem Sound.part (sound : Sound seek) (bound : Nat) {setting : Setting} {progress : Progress}
    {spot next : Spot} (part : Part) {kept : part.Kept × Progress} {commits : Bool}
    (hFound : seekPart seek bound setting progress spot part = .found kept commits next) :
    Along Kind.isLayout (part.terminals kept.1) spot.rest next.rest ∧ part.suits kept.1 = true ∧
      ∀ child ∈ part.nodes kept.1, child.tree.Made := by
  obtain ⟨kept, progress'⟩ := kept
  cases foundBy_of_seekPart hFound with
  | @keyword text token _ _ hToken | @delimiter text token _ _ hToken =>
      have hReads : (Terminal.verbatim .delimiter text).reads token := by
        simpa [Terminal.reads] using Spot.chosen_of_expectOneOf hToken
      exact ⟨Spot.along_expect hToken hReads, rfl, nofun⟩
  | newline hToken =>
      exact ⟨Spot.along_expect hToken (Spot.kind_of_expectKind hToken), rfl, nofun⟩
  | commit | noToken | absent => exact ⟨.stop _, rfl, nofun⟩
  | @choice label options token _ _ hToken =>
      obtain ⟨hKind, hText⟩ := Spot.chosen_of_expectOneOf hToken
      have hReads : (Terminal.verbatim .delimiter token.text).reads token := ⟨hKind, rfl⟩
      exact ⟨Spot.along_expect hToken hReads, List.contains_iff_mem.mpr hText, nofun⟩
  | token hToken | someToken hToken =>
      exact ⟨Spot.along_expect hToken (reads_keptText (Spot.kind_of_expectKind hToken)), rfl, nofun⟩
  | child hTree | present hTree =>
      obtain ⟨hAlong, hMade⟩ := sound hTree
      exact ⟨hAlong, rfl, List.forall_mem_singleton.mpr hMade⟩
  | line hTree =>
      obtain ⟨hAlong, hMade⟩ := sound hTree
      exact ⟨hAlong.dropWhile fun _ hLayout => hLayout, rfl, List.forall_mem_singleton.mpr hMade⟩
  | many hTrees =>
      obtain ⟨hAlong, hMade⟩ := sound.many bound hTrees
      exact ⟨hAlong, rfl, hMade⟩
  | some hTree hTrees =>
      obtain ⟨hAlong, hMade⟩ := sound hTree
      obtain ⟨hAlongTrees, hMadeTrees⟩ := sound.many bound hTrees
      exact ⟨hAlong.append hAlongTrees, rfl, List.forall_mem_cons.mpr ⟨hMade, hMadeTrees⟩⟩

/-- The parts of a sequence are read along their tokens one behind the other, each from where the
last one ended. -/
theorem Sound.parts (sound : Sound seek) (bound : Nat) {setting : Setting} (parts : List Part)
    {progress : Progress} {spot next : Spot} {fields : Fields (fieldsOf parts)} {commits : Bool}
    (hFound : seekParts seek bound setting parts progress spot = .found fields commits next) :
    Along Kind.isLayout (weave parts fields.marks) spot.rest next.rest ∧
      aligned Part.admits parts fields.stored = true ∧
        ∀ child ∈ fields.stored.flatMap Stored.nodes, child.tree.Made := by
  induction parts generalizing progress spot with
  | nil =>
      cases hFound
      exact ⟨.stop _, rfl, by simp [Fields.stored]⟩
  | cons part parts ih =>
      rw [seekParts_cons] at hFound
      rcases Reply.either_eq_found.mp hFound with ⟨kept, _, middle, hPart, hMore⟩ | ⟨-, hMissing⟩
      · obtain ⟨rest, hRest, rfl⟩ := Reply.of_map_eq_found hMore
        obtain ⟨hAlong, hSuits, hMade⟩ := sound.part bound part hPart
        obtain ⟨hAlongRest, hFits, hMadeRest⟩ := ih hRest
        rw [Part.weave_keep, Part.aligned_keep, Part.nodes_keep]
        exact ⟨hAlong.append hAlongRest, Bool.and_eq_true_iff.mpr ⟨hSuits, hFits⟩,
          List.forall_mem_append.mpr ⟨hMade, hMadeRest⟩⟩
      · cases hMissing

/-- What a rule is found to hold is read along its tokens, if the rules that it asks for are. -/
theorem Sound.form (sound : Sound seek) (bound : Nat) {rule : Rule} {line : Line}
    {spot next : Spot} (form : Form) {content : Content form} {commits : Bool}
    (hFound : seekForm seek bound rule line spot form = .found content commits next) :
    Along Kind.isLayout content.terminals spot.rest next.rest ∧ content.made = true ∧
      ∀ child ∈ content.children, child.tree.Made := by
  cases form with
  | literal kinds =>
      obtain ⟨token, hToken, rfl⟩ := Reply.of_map_eq_found hFound
      have hTest := (Spot.of_expect_eq_found hToken).2.2.2
      exact ⟨Spot.along_expect hToken ⟨rfl, rfl⟩, hTest, nofun⟩
  | oneOf rules =>
      obtain ⟨hAlong, hMade⟩ := sound.first rules hFound
      exact ⟨hAlong, by cases content; rfl, hMade⟩
  | sequence standing parts =>
      obtain ⟨fields, hFields, rfl⟩ := Reply.of_map_eq_found hFound
      exact sound.parts bound parts hFields

end

/-- A node that is found is spelt out by the tokens up to the next spot. -/
theorem sound_seekRule (bound : Nat) : Sound (seekRule bound) := by
  induction bound with
  | zero =>
      intro rule line spot next tree commits hFound
      cases hFound
  | succ bound ih =>
      intro rule line spot next tree commits hFound
      obtain ⟨content, hContent, rfl⟩ := Reply.of_map_eq_found hFound
      obtain ⟨hAlong, hMade, hChildren⟩ := Sound.form ih bound rule.form hContent
      exact ⟨hAlong, Tree.made_mk.mpr ⟨hMade, hChildren⟩⟩

end DocumentLanguage
