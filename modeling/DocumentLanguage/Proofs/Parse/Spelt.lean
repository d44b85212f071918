import DocumentLanguage.Proofs.Parse.Derivation
import DocumentLanguage.Proofs.Parse.Spacing
import DocumentLanguage.Proofs.Token.Bracket

/-!
The tokens that a tree is read from, node by node. All brackets in the tokens of a node are closed
there, and no newline outside of brackets stands among the tokens of a node that ends with its
line.
-/
namespace DocumentLanguage

/-- Tokens hold one token that is as a terminal says, behind a gap. -/
def Terminal.Spelt (overLines : Bool) (terminal : Terminal) (tokens : List Token) : Prop :=
  ∃ gap token, tokens = gap ++ [token] ∧ Gap overLines gap ∧ token.kind ≠ .space ∧
    terminal.reads token

/-- Whether a token of a kind is looked for over newlines. -/
def Kind.overLines (kind : Kind) : Bool := kind != .newline && kind != .note

mutual

/-- A node is read from tokens. -/
inductive Tree.Spelt : {rule : Rule} → Tree rule → List Token → Prop
  | mk {rule : Rule} {content : Content rule.form} {tokens : List Token}
      (content_spelt : Content.Spelt content tokens) (balanced : Balanced tokens) :
      Tree.Spelt (.mk content) tokens

/-- What a node holds is read from tokens. -/
inductive Content.Spelt : {form : Form} → Content form → List Token → Prop
  | literal {kinds : List Kind} {kind : Kind} {text : String} {tokens : List Token}
      (token_spelt : Terminal.Spelt true (.dedented kind text) tokens) :
      Content.Spelt (.literal kind text : Content (.literal kinds)) tokens
  | oneOf {rules : List Rule} {rule : Rule} {allowed : rule ∈ rules} {tree : Tree rule}
      {tokens : List Token} (tree_spelt : Tree.Spelt tree tokens) :
      Content.Spelt (.oneOf rule allowed tree) tokens
  | sequence {standing : Standing} {parts : List Part} {fields : Fields (fieldsOf parts)}
      {tokens : List Token} (fields_spelt : Fields.Spelt parts fields tokens) :
      Content.Spelt (.sequence fields : Content (.sequence standing parts)) tokens

/-- The parts of a sequence are read from tokens. -/
inductive Fields.Spelt : (parts : List Part) → Fields (fieldsOf parts) → List Token → Prop
  | nil : Fields.Spelt [] .nil []
  | cons {part : Part} {parts : List Part} {kept : part.Kept} {fields : Fields (fieldsOf parts)}
      {here behind : List Token} (part_spelt : Part.Spelt part kept here)
      (rest_spelt : Fields.Spelt parts fields behind) :
      Fields.Spelt (part :: parts) (part.keep kept fields) (here ++ behind)

/-- A part is read from tokens. -/
inductive Part.Spelt : (part : Part) → part.Kept → List Token → Prop
  | keyword {text : String} {tokens : List Token}
      (token_spelt : Terminal.Spelt true (.verbatim .delimiter text) tokens) :
      Part.Spelt (.keyword text) () tokens
  | delimiter {text : String} {tokens : List Token}
      (token_spelt : Terminal.Spelt true (.verbatim .delimiter text) tokens) :
      Part.Spelt (.delimiter text) () tokens
  | newline {tokens : List Token} (token_spelt : Terminal.Spelt false .newline tokens) :
      Part.Spelt .newline () tokens
  | commit : Part.Spelt .commit () []
  | choice {label text : String} {choice : Choice} {tokens : List Token}
      (chosen : text ∈ choice.delimiters)
      (token_spelt : Terminal.Spelt true (.verbatim .delimiter text) tokens) :
      Part.Spelt (.choice label choice) text tokens
  | token {label text : String} {kind : Kind} {tokens : List Token}
      (token_spelt : Terminal.Spelt kind.overLines (.kept kind text) tokens) :
      Part.Spelt (.token label kind) text tokens
  | noToken {label : String} {kind : Kind} : Part.Spelt (.optionalToken label kind) none []
  | someToken {label text : String} {kind : Kind} {tokens : List Token}
      (token_spelt : Terminal.Spelt kind.overLines (.kept kind text) tokens) :
      Part.Spelt (.optionalToken label kind) (some text) tokens
  | child {label : String} {rule : Rule} {tree : Tree rule} {tokens : List Token}
      (tree_spelt : Tree.Spelt tree tokens) : Part.Spelt (.child label rule) tree tokens
  | line {label : String} {rule : Rule} {tree : Tree rule} {gap tokens : List Token}
      (layout : Gap true gap) (tree_spelt : Tree.Spelt tree tokens)
      (unbroken : Unbroken 0 tokens) : Part.Spelt (.line label rule) tree (gap ++ tokens)
  | absent {label : String} {rule : Rule} : Part.Spelt (.optional label rule) none []
  | present {label : String} {rule : Rule} {tree : Tree rule} {tokens : List Token}
      (tree_spelt : Tree.Spelt tree tokens) :
      Part.Spelt (.optional label rule) (Option.some tree) tokens
  | many {label : String} {rule : Rule} {trees : Trees rule} {tokens : List Token}
      (trees_spelt : Trees.Spelt trees tokens) : Part.Spelt (.many label rule) trees tokens
  | some {label : String} {rule : Rule} {trees : Trees rule} {tokens : List Token}
      (trees_spelt : Trees.Spelt trees tokens) : Part.Spelt (.some label rule) trees tokens

/-- Nodes are read from tokens, one after another. -/
inductive Trees.Spelt : {rule : Rule} → Trees rule → List Token → Prop
  | nil {rule : Rule} : Trees.Spelt (.nil : Trees rule) []
  | cons {rule : Rule} {tree : Tree rule} {trees : Trees rule} {here behind : List Token}
      (tree_spelt : Tree.Spelt tree here) (trees_spelt : Trees.Spelt trees behind) :
      Trees.Spelt (.cons tree trees) (here ++ behind)

end

/-! ### What is found is read from tokens -/

/-- Tokens read in a sequence that began with so many brackets open, from one depth of its own
brackets to another. -/
structure Stretch (line : Line) (start before after : Nat) (spot next : Spot)
    (used : List Token) : Prop where
  rest : spot.rest = used ++ next.rest
  nesting : next.nesting = start + after
  stays : Stays before used
  turns : (before : Int) + turns used = after
  unbroken : line = some start → Unbroken before used

namespace Stretch

variable {line : Line} {start before middle after : Nat} {spot next last : Spot}
  {used behind : List Token}

/-- No tokens at all stretch from a spot to itself. -/
theorem none (hNesting : spot.nesting = start + before) :
    Stretch line start before before spot spot [] where
  rest := rfl
  nesting := hNesting
  stays := Int.natCast_nonneg before
  turns := Int.add_zero _
  unbroken _ := trivial

/-- Tokens up to a spot and tokens from it on are one stretch, with the brackets of the first still
open in the second. -/
theorem trans (left : Stretch line start before middle spot next used)
    (right : Stretch line start middle after next last behind) :
    Stretch line start before after spot last (used ++ behind) where
  rest := by rw [left.rest, right.rest, List.append_assoc]
  nesting := right.nesting
  stays := stays_append.mpr ⟨left.stays, by rw [left.turns]; exact right.stays⟩
  turns := by rw [turns_append, ← Int.add_assoc, left.turns, right.turns]
  unbroken hLine :=
    unbroken_append.mpr ⟨left.unbroken hLine, by rw [left.turns]; exact right.unbroken hLine⟩

/-- Where the line began elsewhere, newlines on it do not count. -/
theorem elsewhere (stretch : Stretch line start before after spot next used) {other : Line}
    (hOther : other ≠ some start) : Stretch other start before after spot next used :=
  { stretch with unbroken := fun hLine => absurd hLine hOther }

/-- Layout is a stretch at one depth, since there is no bracket in it. -/
theorem gap {overLines : Bool} (hRest : spot.rest = used ++ next.rest)
    (hNesting : next.nesting = spot.nesting) (layout : Gap overLines used)
    (hSpot : spot.nesting = start + before) (hOther : line ≠ some start) :
    Stretch line start before before spot next used where
  rest := hRest
  nesting := hNesting.trans hSpot
  stays := layout.stays (Int.natCast_nonneg before)
  turns := by rw [layout.turns, Int.add_zero]
  unbroken hLine := absurd hLine hOther

/-- All the layout ahead is a gap, and passing over it changes neither the depth nor the line. -/
theorem layout (hSpot : spot.nesting = start + before) (hOther : line ≠ some start) :
    Gap true (spot.rest.takeWhile (·.kind.isLayout)) ∧
      Stretch line start before before spot spot.behindLayout
        (spot.rest.takeWhile (·.kind.isLayout)) := by
  have layout : Gap true (spot.rest.takeWhile (·.kind.isLayout)) := fun token hToken =>
    (Kind.isLayout_iff.mp (by simpa using List.mem_takeWhile_imp hToken)).imp_right
      fun h => ⟨rfl, h⟩
  exact ⟨layout, gap List.takeWhile_append_dropWhile.symm rfl layout hSpot hOther⟩

/-- A gap and a token behind it are a stretch from the depth before the token to the depth behind
it. -/
theorem token {overLines : Bool} {gap : List Token} {token : Token}
    (hRest : spot.rest = gap ++ token :: next.rest) (layout : Gap overLines gap)
    (hGap : line = some spot.nesting → Gap false gap)
    (hSpot : spot.nesting = start + before) (hNesting : next.nesting = start + after)
    (hTurn : (before : Int) + token.turn = after) (hNewline : token.kind = .newline →
      line = some start → before ≠ 0) :
    Stretch line start before after spot next (gap ++ [token]) where
  rest := by rw [hRest, List.append_assoc, List.singleton_append]
  nesting := hNesting
  stays := by
    refine stays_append.mpr ⟨layout.stays (Int.natCast_nonneg _), ?_⟩
    rw [layout.turns, Int.add_zero]
    exact ⟨Int.natCast_nonneg _, by rw [hTurn]; exact Int.natCast_nonneg _⟩
  turns := by
    rw [turns_append, layout.turns, turns_cons, turns_nil, Int.zero_add, Int.add_zero, hTurn]
  unbroken hLine := by
    refine unbroken_append.mpr ⟨?_, ?_, trivial⟩
    · cases Nat.eq_zero_or_pos before with
      | inl hZero =>
        rw [hZero, Nat.add_zero] at hSpot
        exact (hGap (by rw [hLine, hSpot])).unbroken
      | inr hInside => exact (layout.stays (Int.le_refl 0)).unbroken (Int.natCast_pos.mpr hInside)
    · intro hKind
      have hInside := hNewline hKind hLine
      rw [layout.turns]
      omega

end Stretch

/-- A way to look for rules that finds what tokens spell. Only inside brackets may a rule end
behind its line. -/
def Spells (seek : Seeker) : Prop :=
  ∀ {rule : Rule} {line : Line} {inner : Bool} {spot next : Spot} {tree : Tree rule}
    {commits : Bool},
    AroundLine line inner spot.nesting → (rule.lined = true → inner = true) →
      seek rule line spot = .found tree commits next →
        ∃ used, tree.Spelt used ∧ Stretch line spot.nesting 0 0 spot next used

namespace Spot

/-- A token that is found lies behind a gap, which holds no newline where newlines end the line. -/
theorem gap_of_expect {line : Line} {overLines : Bool} {test : Token → Bool} {spot next : Spot}
    {token : Token} {commits : Bool}
    (hFound : spot.expect line overLines test = .found token commits next) :
    ∃ gap, spot.rest = gap ++ token :: next.rest ∧ Gap overLines gap ∧
      (line = some spot.nesting → Gap false gap) ∧
        next.nesting = Cursor.nestingAfter token spot.nesting := by
  have hVisible := (of_expect_eq_found hFound).1
  have hGap : ∀ token ∈ spot.rest.takeWhile (spot.passes line overLines),
      spot.passes line overLines token = true := fun token hToken => by
    simpa using List.mem_takeWhile_imp hToken
  refine ⟨spot.rest.takeWhile (spot.passes line overLines), ?_, ?_, ?_, ?_⟩
  · rw [← hVisible]
    exact List.takeWhile_append_dropWhile.symm
  · intro other hOther
    have hPasses := hGap other hOther
    simp only [passes, Bool.or_eq_true, Bool.and_eq_true, decide_eq_true_eq] at hPasses
    exact hPasses.imp_right fun h => ⟨h.1.2, h.1.1⟩
  · rintro hLine other hOther
    have hPasses := hGap other hOther
    simp only [passes, hLine, Bool.or_eq_true, Bool.and_eq_true, decide_eq_true_eq] at hPasses
    exact hPasses.imp_right fun h => absurd h.2 (by simp)
  · simp only [expect, hVisible] at hFound
    split at hFound
    · cases hFound
    · split at hFound
      · injection hFound with _ _ hNext
        rw [← hNext]
      · cases hFound

end Spot

/-- What a delimiter turns the depth by is what its brackets tell. -/
theorem Token.turn_of_bracketsBehind {token : Token} (hKind : token.kind = .delimiter)
    {depth depth' : Nat} (hText : bracketsBehind token.text depth = some depth') :
    (depth : Int) + token.turn = depth' := by
  unfold bracketsBehind at hText
  unfold turn
  rw [if_pos hKind]
  split_ifs at hText ⊢ <;> simp_all <;> omega

namespace Stretch

variable {line : Line} {inner : Bool} {start : Nat} {posture after : Posture} {spot next : Spot}

/-- A delimiter that is found leads to the posture behind it. -/
theorem of_delimiter {texts : List String} {token : Token} {commits : Bool}
    (hSpot : spot.nesting = start + posture.depth)
    (hAfter : posture.behind? inner texts = some after)
    (hFound : spot.expectOneOf line texts = .found token commits next) :
    token.text ∈ texts ∧ ∃ used, Terminal.Spelt true (.verbatim .delimiter token.text) used ∧
      Stretch line start posture.depth after.depth spot next used := by
  obtain ⟨-, -, hSpace, -⟩ := Spot.of_expect_eq_found hFound
  obtain ⟨hKind, hChosen⟩ := Spot.chosen_of_expectOneOf hFound
  obtain ⟨gap, hRest, layout, hGap, hNesting⟩ := Spot.gap_of_expect hFound
  have hText : bracketsBehind token.text posture.depth = some after.depth := by
    unfold Posture.behind? at hAfter
    split at hAfter
    · split at hAfter
      · rename_i hAll
        obtain rfl := Option.some.inj hAfter
        simp only [Bool.and_eq_true, List.all_eq_true, decide_eq_true_eq] at hAll
        exact hAll.2 token.text hChosen
      · cases hAfter
    · cases hAfter
  refine ⟨hChosen, _, ⟨gap, token, rfl, layout, hSpace, hKind, rfl⟩,
    .token hRest layout hGap hSpot ?_ (token.turn_of_bracketsBehind hKind hText) ?_⟩
  · rw [hNesting, hSpot]
    exact Stands.nestingAfter_of_bracketsBehind hKind hText start
  · intro hNewline
    rw [hKind] at hNewline
    cases hNewline

/-- A delimiter that is asked for by its text is spelt by the token that is found and the layout
before that token. -/
theorem of_verbatim {text : String} {token : Token} {commits : Bool}
    (hSpot : spot.nesting = start + posture.depth)
    (hAfter : posture.behind? inner [text] = some after)
    (hFound : spot.expectOneOf line [text] = .found token commits next) :
    ∃ used, Terminal.Spelt true (.verbatim .delimiter text) used ∧
      Stretch line start posture.depth after.depth spot next used := by
  obtain ⟨hText, used, hSpelt, hStretch⟩ := of_delimiter hSpot hAfter hFound
  rw [List.mem_singleton.mp hText] at hSpelt
  exact ⟨used, hSpelt, hStretch⟩

/-- A token of another kind leaves all brackets as they are. -/
theorem of_kind {overLines : Bool} {test : Token → Bool} {token : Token} {commits : Bool}
    (terminal : Terminal) (hSpot : spot.nesting = start + posture.depth)
    (hFound : spot.expect line overLines test = .found token commits next)
    (hKind : token.kind ≠ .delimiter)
    (hNewline : token.kind = .newline → line = some start → posture.depth ≠ 0)
    (hReads : terminal.reads token) :
    ∃ used, Terminal.Spelt overLines terminal used ∧
      Stretch line start posture.depth posture.depth spot next used := by
  obtain ⟨-, -, hSpace, -⟩ := Spot.of_expect_eq_found hFound
  obtain ⟨gap, hRest, layout, hGap, hNesting⟩ := Spot.gap_of_expect hFound
  have hTurn := Token.turn_of_kind hKind
  refine ⟨_, ⟨gap, token, rfl, layout, hSpace, hReads⟩,
    .token hRest layout hGap hSpot ?_ (by rw [hTurn, Int.add_zero]) hNewline⟩
  rw [hNesting, hSpot, Cursor.nestingAfter, if_neg hKind]

/-- A kept token that is neither a delimiter nor a newline leaves the reader on its line, with as
many brackets open as before. -/
theorem of_kept {kind : Kind} {token : Token} {commits : Bool}
    (hSpot : spot.nesting = start + posture.depth)
    (hFound : spot.expectKind line kind = .found token commits next)
    (hOther : kind ≠ .delimiter ∧ kind ≠ .newline) :
    ∃ used, Terminal.Spelt kind.overLines (.kept kind (keptText token)) used ∧
      Stretch line start posture.depth posture.depth spot next used := by
  have hKind := Spot.kind_of_expectKind hFound
  exact of_kind _ hSpot hFound (by simp [hKind, hOther])
    (fun hNewline => absurd hNewline (by simp [hKind, hOther])) (reads_keptText hKind)

/-- What a child is read from, as a part of a sequence. -/
theorem of_child {used : List Token} {depth : Nat}
    (below : Stretch line spot.nesting 0 0 spot next used)
    (hSpot : spot.nesting = start + depth) : Stretch line start depth depth spot next used where
  rest := below.rest
  nesting := below.nesting.trans hSpot
  stays := below.stays.mono (Int.natCast_nonneg depth)
  turns := by
    have hTurns := below.turns
    omega
  unbroken hLine := by
    cases Nat.eq_zero_or_pos depth with
    | inl hZero =>
      rw [hZero, Nat.add_zero] at hSpot
      rw [hZero]
      exact below.unbroken (by rw [hLine, hSpot])
    | inr hInside => exact below.stays.unbroken (Int.natCast_pos.mpr hInside)

theorem balanced {used : List Token} {before : Nat}
    (stretch : Stretch line start before before spot next used) (hStays : Stays 0 used) :
    Balanced used :=
  ⟨hStays, by have hTurns := stretch.turns; omega⟩

end Stretch

/-- Where brackets are open that were opened on the line, the line began with fewer. -/
theorem AroundLine.ne {line : Line} {start : Nat} (hLine : AroundLine line true start) :
    line ≠ some start := by
  rintro rfl
  have hLess := hLine start rfl
  simp at hLess

/-- Whether a part is a child on a line of its own. -/
def Part.isLine : Part → Bool
  | line _ _ => true
  | _ => false

namespace Spells

variable {seek : Seeker} {line : Line} {inner : Bool} {start : Nat} {posture after : Posture}
  {spot next : Spot} {commits : Bool}

/-- A rule that is found is spelt by tokens that keep to the depth at which it was asked for. -/
theorem ask (spells : Spells seek) (hLine : AroundLine line inner start)
    (hSpot : spot.nesting = start + posture.depth) {rule : Rule} {tree : Tree rule}
    (hAdmits : posture.admits inner rule = true)
    (hFound : seek rule line spot = .found tree commits next) :
    ∃ used, tree.Spelt used ∧ Stretch line start posture.depth posture.depth spot next used := by
  simp only [Posture.admits, Bool.and_eq_true, Bool.or_eq_true, Bool.not_eq_true'] at hAdmits
  have hAround : AroundLine line (posture.inside inner) spot.nesting := by
    rw [hSpot]
    exact hLine.inside posture
  obtain ⟨used, hSpelt, hStretch⟩ :=
    spells hAround (fun hLined => hAdmits.1.2.resolve_left (by simp [hLined])) hFound
  exact ⟨used, hSpelt, hStretch.of_child hSpot⟩

/-- A run of nodes is spelt by tokens that keep to one depth, node behind node. -/
theorem many (spells : Spells seek) (hLine : AroundLine line inner start) {rule : Rule}
    (hOpens : rule.opensLine = false) (bound : Nat) (hSpot : spot.nesting = start + posture.depth)
    (hAdmits : posture.admits inner rule = true) {trees : Trees rule}
    (hFound : seekMany seek line rule bound spot = .found trees commits next) :
    ∃ used, trees.Spelt used ∧ Stretch line start posture.depth posture.depth spot next used := by
  induction bound generalizing posture spot trees with
  | zero => cases hFound
  | succ bound ih =>
    rw [seekMany_succ, Reply.either_eq_found] at hFound
    rcases hFound with ⟨tree, _, middle, hTree, hMore⟩ | ⟨-, hNone⟩
    · obtain ⟨rest, hRest, rfl⟩ := Reply.of_map_eq_found hMore
      obtain ⟨here, hHere, hStretch⟩ := spells.ask hLine hSpot hAdmits hTree
      obtain ⟨behind, hBehind, hStretch'⟩ :=
        @ih ⟨posture.depth, rule.lined⟩ _ hStretch.nesting (Posture.admits_lined hAdmits hOpens) _ hRest
      exact ⟨_, .cons hHere hBehind, hStretch.trans hStretch'⟩
    · cases hNone
      exact ⟨[], .nil, .none hSpot⟩

/-- Where one child must come and others may follow, each begins where the one before it ended. -/
theorem oneOrMore (spells : Spells seek) (hLine : AroundLine line inner start) {rule : Rule}
    (hOpens : rule.opensLine = false) (bound : Nat) (hSpot : spot.nesting = start + posture.depth)
    (hAdmits : posture.admits inner rule = true) {tree : Tree rule} {trees : Trees rule}
    {middle : Spot} {passes : Bool} (hTree : seek rule line spot = .found tree commits middle)
    (hTrees : seekMany seek line rule bound middle = .found trees passes next) :
    ∃ used, (Trees.cons tree trees).Spelt used ∧
      Stretch line start posture.depth posture.depth spot next used := by
  obtain ⟨here, hHere, hStretch⟩ := spells.ask hLine hSpot hAdmits hTree
  obtain ⟨behind, hBehind, hStretch'⟩ :=
    @many seek _ _ start ⟨posture.depth, rule.lined⟩ _ _ _ spells hLine rule hOpens bound
      hStretch.nesting (Posture.admits_lined hAdmits hOpens) _ hTrees
  exact ⟨_, .cons hHere hBehind, hStretch.trans hStretch'⟩

/-- A newline is read only inside brackets that were opened on the line, and so it does not end it.
-/
theorem newline (hLine : AroundLine line inner start) (hSpot : spot.nesting = start + posture.depth)
    (hInside : posture.inside inner = true) {token : Token}
    (hToken : spot.expectKind line .newline = .found token commits next) :
    ∃ used, Part.Spelt .newline () used ∧
      Stretch line start posture.depth posture.depth spot next used := by
  have hKind := Spot.kind_of_expectKind hToken
  have hOpen : line = some start → posture.depth ≠ 0 := by
    rintro hStart hZero
    have hInner : inner = true := by simpa [Posture.inside, hZero] using hInside
    rw [hInner] at hLine
    exact hLine.ne hStart
  obtain ⟨used, hSpelt, hStretch⟩ :=
    Stretch.of_kind .newline hSpot hToken (by simp [hKind]) (fun _ => hOpen) hKind
  exact ⟨used, .newline hSpelt, hStretch⟩

/-- A child on a line of its own is read behind the layout ahead. -/
theorem behindLayout (spells : Spells seek) {setting : Setting} {label : String} {rule : Rule}
    {tree : Tree rule} (hSpot : spot.nesting = start + posture.depth) (hRule : rule.lined = false)
    (hOther : setting.line ≠ some start)
    (hTree : seek rule (some spot.nesting) spot.behindLayout = .found tree commits next) :
    ∃ used, (Part.line label rule).Spelt tree used ∧
      Stretch setting.line start posture.depth posture.depth spot next used := by
  obtain ⟨layout, hLayout⟩ := Stretch.layout hSpot hOther
  have hAround : AroundLine (some spot.nesting) false spot.behindLayout.nesting := by
    rintro outer ⟨⟩
    simp [Spot.behindLayout]
  obtain ⟨used, hSpelt, hStretch⟩ :=
    spells hAround (fun hLined => by rw [hRule] at hLined; cases hLined) hTree
  exact ⟨_, .line layout hSpelt (hStretch.unbroken rfl),
    hLayout.trans ((hStretch.of_child hSpot).elsewhere hOther)⟩

/-- A part that is found is spelt by the tokens that it used up, and they end at the depth at which
the part leaves the sequence. -/
theorem part (spells : Spells seek) (bound : Nat) (setting : Setting) (progress : Progress)
    (hLine : AroundLine setting.line inner start) (hSpot : spot.nesting = start + posture.depth)
    (part : Part) (hAfter : part.posture? inner posture = some after)
    (hInner : part.isLine = true → inner = true) {kept : part.Kept × Progress}
    (hFound : seekPart seek bound setting progress spot part = .found kept commits next) :
    ∃ used, part.Spelt kept.1 used ∧
      Stretch setting.line start posture.depth after.depth spot next used := by
  obtain ⟨kept, progress'⟩ := kept
  cases foundBy_of_seekPart hFound with
  | keyword hToken =>
    obtain ⟨used, hSpelt, hStretch⟩ := Stretch.of_verbatim hSpot hAfter hToken
    exact ⟨used, .keyword hSpelt, hStretch⟩
  | delimiter hToken =>
    obtain ⟨used, hSpelt, hStretch⟩ := Stretch.of_verbatim hSpot hAfter hToken
    exact ⟨used, .delimiter hSpelt, hStretch⟩
  | choice hToken =>
    obtain ⟨hText, used, hSpelt, hStretch⟩ := Stretch.of_delimiter hSpot hAfter hToken
    exact ⟨used, .choice hText hSpelt, hStretch⟩
  | commit =>
    obtain rfl := Option.some.inj hAfter
    exact ⟨[], .commit, .none hSpot⟩
  | newline hToken =>
    obtain ⟨hHere, ⟨⟩⟩ := Option.ite_none_right_eq_some.mp hAfter
    exact newline hLine hSpot (Bool.and_eq_true_iff.mp hHere).2 hToken
  | token hToken =>
    obtain ⟨hHere, ⟨⟩⟩ := Option.ite_none_right_eq_some.mp hAfter
    simp only [Kind.isPlain, Bool.and_eq_true, bne_iff_ne] at hHere
    obtain ⟨used, hSpelt, hStretch⟩ := Stretch.of_kept hSpot hToken ⟨hHere.2.2, hHere.2.1.1⟩
    exact ⟨used, .token hSpelt, hStretch⟩
  | @someToken label kind _ _ _ hToken =>
    obtain ⟨hHere, ⟨⟩⟩ := Option.ite_none_right_eq_some.mp hAfter
    have hOther : kind ≠ .delimiter ∧ kind ≠ .newline := by
      simp only [Kind.isPlain, Bool.and_eq_true, Bool.or_eq_true, bne_iff_ne, Bool.not_eq_true',
        decide_eq_true_eq] at hHere
      rcases hHere with ⟨-, hPlain⟩ | ⟨rfl, -⟩
      · exact ⟨hPlain.2, hPlain.1.1⟩
      · decide
    obtain ⟨used, hSpelt, hStretch⟩ := Stretch.of_kept hSpot hToken hOther
    exact ⟨used, .someToken hSpelt, hStretch⟩
  | noToken =>
    obtain ⟨-, ⟨⟩⟩ := Option.ite_none_right_eq_some.mp hAfter
    exact ⟨[], .noToken, .none hSpot⟩
  | child hTree =>
    obtain ⟨hAdmits, ⟨⟩⟩ := Option.ite_none_right_eq_some.mp hAfter
    obtain ⟨used, hSpelt, hStretch⟩ := spells.ask hLine hSpot hAdmits hTree
    exact ⟨used, .child hSpelt, hStretch⟩
  | line hTree =>
    obtain ⟨hRule, ⟨⟩⟩ := Option.ite_none_right_eq_some.mp hAfter
    simp only [Bool.and_eq_true, Bool.not_eq_true'] at hRule
    have hOther : setting.line ≠ some start := by
      rw [hInner rfl] at hLine
      exact hLine.ne
    exact spells.behindLayout hSpot hRule.1 hOther hTree
  | present hTree =>
    obtain ⟨hAdmits, ⟨⟩⟩ := Option.ite_none_right_eq_some.mp hAfter
    obtain ⟨used, hSpelt, hStretch⟩ :=
      spells.ask hLine hSpot (Bool.and_eq_true_iff.mp hAdmits).1 hTree
    exact ⟨used, .present hSpelt, hStretch⟩
  | absent =>
    obtain ⟨-, ⟨⟩⟩ := Option.ite_none_right_eq_some.mp hAfter
    exact ⟨[], .absent, .none hSpot⟩
  | many hTrees =>
    obtain ⟨hAdmits, ⟨⟩⟩ := Option.ite_none_right_eq_some.mp hAfter
    simp only [Bool.and_eq_true, Bool.not_eq_true'] at hAdmits
    obtain ⟨used, hSpelt, hStretch⟩ := spells.many hLine hAdmits.2 bound hSpot hAdmits.1 hTrees
    exact ⟨used, .many hSpelt, hStretch⟩
  | some hTree hTrees =>
    obtain ⟨hAdmits, ⟨⟩⟩ := Option.ite_none_right_eq_some.mp hAfter
    simp only [Bool.and_eq_true, Bool.not_eq_true'] at hAdmits
    obtain ⟨used, hSpelt, hStretch⟩ :=
      spells.oneOrMore hLine hAdmits.2 bound hSpot hAdmits.1 hTree hTrees
    exact ⟨used, .some hSpelt, hStretch⟩

/-- The parts of a sequence are spelt one behind the other, each from the posture that the one
before it left. -/
theorem parts (spells : Spells seek) (bound : Nat) (setting : Setting)
    (hLine : AroundLine setting.line inner start) {lined : Bool} (parts : List Part)
    (progress : Progress) (hSpot : spot.nesting = start + posture.depth)
    (hSettles : settles inner lined posture parts = true)
    (hInner : ∀ part ∈ parts, part.isLine = true → inner = true) {fields : Fields (fieldsOf parts)}
    (hFound : seekParts seek bound setting parts progress spot = .found fields commits next) :
    ∃ used, Fields.Spelt parts fields used ∧
      Stretch setting.line start posture.depth 0 spot next used := by
  induction parts generalizing posture progress spot with
  | nil =>
    cases hFound
    simp only [settles, Bool.and_eq_true, decide_eq_true_eq] at hSettles
    rw [hSettles.1] at hSpot ⊢
    exact ⟨[], .nil, .none hSpot⟩
  | cons part parts ih =>
    rw [seekParts_cons] at hFound
    simp only [settles] at hSettles
    split at hSettles
    · rename_i after hAfter
      rw [List.forall_mem_cons] at hInner
      rcases Reply.either_eq_found.mp hFound with ⟨kept, _, middle, hPart, hMore⟩ | ⟨-, hMissing⟩
      · obtain ⟨rest, hRest, rfl⟩ := Reply.of_map_eq_found hMore
        obtain ⟨here, hHere, hStretch⟩ :=
          spells.part bound setting progress hLine hSpot part hAfter hInner.1 hPart
        obtain ⟨behind, hBehind, hStretch'⟩ :=
          ih kept.2 hStretch.nesting hSettles hInner.2 hRest
        exact ⟨_, .cons hHere hBehind, hStretch.trans hStretch'⟩
      · cases hMissing
    · cases hSettles

/-- An alternative that is found is spelt by the tokens of the node that was chosen. -/
theorem first (spells : Spells seek) (hLine : AroundLine line inner spot.nesting) (rules : List Rule)
    (hLined : ∀ rule ∈ rules, rule.lined = true → inner = true) {content : Content (.oneOf rules)}
    (hFound : seekFirst seek line spot rules = .found content commits next) :
    ∃ used, content.Spelt used ∧ Stretch line spot.nesting 0 0 spot next used := by
  induction rules with
  | nil => cases hFound
  | cons rule rules ih =>
    rw [List.forall_mem_cons] at hLined
    rw [seekFirst_cons] at hFound
    rcases Reply.either_eq_found.mp hFound with ⟨tree, _, _, hTree, hThere⟩ | ⟨-, hMore⟩
    · cases hThere
      obtain ⟨used, hSpelt, hStretch⟩ := spells hLine hLined.1 hTree
      exact ⟨used, .oneOf hSpelt, hStretch⟩
    · obtain ⟨⟨chosen, allowed, tree⟩, hRest, rfl⟩ := Reply.of_map_eq_found hMore
      obtain ⟨used, hSpelt, hStretch⟩ := ih hLined.2 hRest
      cases hSpelt with
      | oneOf hTree => exact ⟨used, .oneOf hTree, hStretch⟩

/-- What a rule holds is spelt by the tokens that it used up. A rule leaves the depth as it was,
which is decided once for all forms. -/
theorem form (spells : Spells seek) (bound : Nat) {rule : Rule}
    (hLine : AroundLine line inner spot.nesting) (hLined : rule.lined = true → inner = true)
    (form : Form) (hSettles : form.settles rule inner false = true)
    (hLines : ∀ part ∈ form.steps, part.isLine = true → rule.lined = true) {content : Content form}
    (hFound : seekForm seek bound rule line spot form = .found content commits next) :
    ∃ used, content.Spelt used ∧ Stretch line spot.nesting 0 0 spot next used := by
  cases form with
  | literal kinds =>
    obtain ⟨token, hToken, rfl⟩ := Reply.of_map_eq_found hFound
    have hKind := Spot.kind_of_expectKinds hToken
    have hPlain : token.kind.isPlain = true := List.all_eq_true.mp hSettles _ hKind
    simp only [Kind.isPlain, Bool.and_eq_true, bne_iff_ne] at hPlain
    obtain ⟨used, hSpelt, hStretch⟩ :=
      @Stretch.of_kind line spot.nesting ⟨0, false⟩ _ _ _ _ _ _
        (.dedented token.kind (Text.dedent token.text)) (Nat.add_zero _).symm hToken hPlain.2
        (fun hNewline => absurd hNewline hPlain.1.1) ⟨rfl, rfl⟩
    exact ⟨used, .literal hSpelt, hStretch⟩
  | oneOf rules =>
    refine spells.first hLine rules (fun child hChild hChildLined => hLined ?_) hFound
    have hHere := List.all_eq_true.mp hSettles child hChild
    simp only [hChildLined, Bool.not_true, Bool.false_or, Bool.and_eq_true] at hHere
    exact hHere.1
  | sequence standing parts =>
    obtain ⟨fields, hFields, rfl⟩ := Reply.of_map_eq_found hFound
    obtain ⟨used, hSpelt, hStretch⟩ :=
      spells.parts bound ⟨rule, standing, line⟩ hLine parts _ (Nat.add_zero _).symm hSettles
        (fun part hPart hIsLine => hLined (hLines part hPart hIsLine)) hFields
    exact ⟨used, .sequence hSpelt, hStretch⟩

end Spells

/-- Only a rule that may end behind its line has a child on a line of its own. -/
theorem Rule.lined_of_isLine (rule : Rule) :
    ∀ part ∈ rule.form.steps, part.isLine = true → rule.lined = true := by
  cases rule <;> decide

/-- Whatever is found is spelt by the tokens between the two spots, for every rule and under every
budget. -/
theorem spells_seekRule (bound : Nat) : Spells (seekRule bound) := by
  induction bound with
  | zero =>
    intro rule line inner spot next tree commits _ _ hFound
    cases hFound
  | succ bound ih =>
    intro rule line inner spot next tree commits hLine hLined hFound
    obtain ⟨content, hContent, rfl⟩ := Reply.of_map_eq_found hFound
    obtain ⟨used, hSpelt, hStretch⟩ :=
      ih.form bound hLine hLined rule.form (rule.settles_form inner false hLined (by simp))
        rule.lined_of_isLine hContent
    exact ⟨used, .mk hSpelt (hStretch.balanced hStretch.stays), hStretch⟩

end DocumentLanguage
