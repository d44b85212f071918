import DocumentLanguage.Proofs.Grammar.Kept
import DocumentLanguage.Proofs.Parse.Spot

/-!
A sequence is read part by part, and looked for part by part. One part is read in the same way
wherever it stands, so that what holds of each part holds of the parts of a sequence by one
induction.
-/
namespace DocumentLanguage

/-- One part of a sequence is read: what is kept of it, if it is there, and the stage behind it. -/
def readPart (read : RuleReader) (bound : Nat) (stage : Stage) :
    (part : Part) → Reading (Option part.Kept × Stage)
  | .keyword text => do
    match ← Reading.expectOneOf [text] with
    | some _ => return (some (), ← stage.commit)
    | none => return (none, stage)
  | .delimiter text => return ((← Reading.expectOneOf [text]).map fun _ => (), stage)
  | .newline => return ((← Reading.expectKind .newline).map fun _ => (), stage)
  | .choice _ choice => return ((← Reading.expectOneOf choice.delimiters).map Token.text, stage)
  | .token _ kind => return ((← Reading.expectKind kind).map keptText, stage)
  | .optionalToken _ kind => return (some ((← Reading.expectKind kind).map keptText), stage)
  | .child _ rule => do
    let (tree, own) ← read rule stage.own
    return (tree, { stage with own := own })
  | .line _ rule => do
    Reading.skipLayout
    let (tree, _) ← Reading.withinLine (read rule none)
    return (tree, stage)
  | .optional _ rule => do
    match ← read rule none with
    | (some tree, _) => return (some (some tree), ← stage.commit)
    | (none, _) => return (some none, stage)
  | .many _ rule => return (some (← readMany read rule bound), stage)
  | .some _ rule => do
    match ← read rule none with
    | (some tree, _) =>
      let stage ← stage.commit
      return (some (.cons tree (← readMany read rule bound)), stage)
    | (none, _) => return (none, stage)
  | .commit => return (some (), ← stage.commit)

/-- To keep a value as it is changes nothing about its reading. -/
theorem keeping_id {α : Type} (reading : Reading (Outcome α)) :
    keeping (fun value => value) reading = reading := by
  have hSame : (fun outcome : Outcome α => (outcome.1.map fun value => value, outcome.2)) = id := by
    funext ⟨value, owner⟩
    simp
  exact (map_eq_pure_bind _ reading).symm.trans (by rw [hSame, id_map])

/-- The parts of a sequence are the first part, and then the others if it is there. -/
theorem readParts_cons (read : RuleReader) (bound : Nat) (part : Part) (parts : List Part)
    (stage : Stage) :
    readParts read bound (part :: parts) stage = (do
      match ← readPart read bound stage part with
      | (some kept, stage) => keeping (part.keep kept) (readParts read bound parts stage)
      | (none, stage) => stage.giveUp) := by
  have hOthers : ∀ stage, readParts read bound parts stage =
      keeping (fun fields => fields) (readParts read bound parts stage) :=
    fun stage => (keeping_id _).symm
  cases part with
  | keyword text =>
      simp only [readParts, readPart, Reading.expectDelimiter, bind_assoc, pure_bind]
      refine bind_congr fun token => ?_
      cases token with
      | none => rfl
      | some token =>
          simp only [bind_assoc, pure_bind]
          exact bind_congr hOthers
  | delimiter text =>
      simp only [readParts, readPart, Reading.expectDelimiter, bind_assoc, pure_bind]
      refine bind_congr fun token => ?_
      cases token with
      | none => rfl
      | some token => exact hOthers stage
  | newline =>
      simp only [readParts, readPart, bind_assoc, pure_bind]
      refine bind_congr fun token => ?_
      cases token with
      | none => rfl
      | some token => exact hOthers stage
  | choice label choice | token label kind | optionalToken label kind =>
      simp only [readParts, readPart, bind_assoc, pure_bind]
      refine bind_congr fun token => ?_
      cases token <;> rfl
  | child label rule =>
      simp only [readParts, readPart, bind_assoc, pure_bind]
      refine bind_congr fun outcome => ?_
      obtain ⟨tree, own⟩ := outcome
      cases tree <;> rfl
  | line label rule =>
      simp only [readParts, readPart, bind_assoc, pure_bind]
      refine bind_congr fun _ => ?_
      refine bind_congr fun outcome => ?_
      obtain ⟨tree, own⟩ := outcome
      cases tree <;> rfl
  | optional label rule | some label rule =>
      simp only [readParts, readPart, bind_assoc]
      refine bind_congr fun outcome => ?_
      obtain ⟨tree, own⟩ := outcome
      cases tree with
      | none => rfl
      | some tree =>
          simp only [bind_assoc]
          rfl
  | many label rule =>
      simp only [readParts, readPart, bind_assoc, pure_bind]
      rfl
  | commit =>
      simp only [readParts, readPart, bind_assoc, pure_bind]
      exact bind_congr hOthers

namespace Reply

variable {α β γ : Type}

/-- Go on where something is found, or do something else where it is absent. -/
def either (reply : Reply α) (there : α → Bool → Spot → Reply β) (missing : Reply β) : Reply β :=
  match reply with
  | found value commits next => there value commits next
  | failed failure next => failed failure next
  | absent => missing

@[simp] theorem either_found (value : α) (commits : Bool) (next : Spot)
    (there : α → Bool → Spot → Reply β) (missing : Reply β) :
    (found value commits next).either there missing = there value commits next := rfl

@[simp] theorem either_failed (failure : Failure) (next : Spot)
    (there : α → Bool → Spot → Reply β) (missing : Reply β) :
    (failed failure next).either there missing = failed failure next := rfl

@[simp] theorem either_absent (there : α → Bool → Spot → Reply β) (missing : Reply β) :
    absent.either there missing = missing := rfl

/-- Going on twice is going on once: what comes behind the second step comes behind both ways out of
the first. -/
theorem either_either (reply : Reply α) (there : α → Bool → Spot → Reply β) (missing : Reply β)
    (behind : β → Bool → Spot → Reply γ) (otherwise : Reply γ) :
    (reply.either there missing).either behind otherwise =
      reply.either (fun value commits next => (there value commits next).either behind otherwise)
        (missing.either behind otherwise) := by
  cases reply <;> rfl

theorem map_eq_either (f : α → β) (reply : Reply α) :
    reply.map f = reply.either (fun value commits next => found (f value) commits next) absent := by
  cases reply <;> rfl

/-- A value that is found under a function comes from a value that was found without it. -/
theorem of_map_eq_found {f : α → β} {reply : Reply α} {value : β}
    {commits : Bool} {next : Spot} (hFound : reply.map f = .found value commits next) :
    ∃ found, reply = .found found commits next ∧ value = f found := by
  cases reply with
  | found found commits next =>
      cases hFound
      exact ⟨found, rfl, rfl⟩
  | absent => cases hFound
  | failed failure next => cases hFound

/-- There are two ways for a choice to find something: behind what was found first, or where that
was missing. -/
theorem either_eq_found {reply : Reply α} {there : α → Bool → Spot → Reply β}
    {missing : Reply β} {value : β} {commits : Bool} {next : Spot} :
    reply.either there missing = .found value commits next ↔
      (∃ first passes middle, reply = .found first passes middle ∧
        there first passes middle = .found value commits next) ∨
      reply = .absent ∧ missing = .found value commits next := by
  constructor
  · intro hFound
    cases reply with
    | found first passes middle => exact .inl ⟨first, passes, middle, rfl, hFound⟩
    | absent => exact .inr ⟨rfl, hFound⟩
    | failed failure next => cases hFound
  · rintro (⟨first, passes, middle, rfl, hThere⟩ | ⟨rfl, hMissing⟩)
    · exact hThere
    · exact hMissing

@[simp] theorem map_id (reply : Reply α) : reply.map (fun value => value) = reply := by
  cases reply <;> rfl

end Reply

theorem Setting.giveUp_ne_found {α : Type} {setting : Setting} {progress : Progress}
    {spot next : Spot} {value : α} {commits : Bool} :
    setting.giveUp progress spot ≠ .found value commits next := by
  simp only [giveUp, Spot.giveUp]
  split <;> simp

@[simp] theorem Setting.either_giveUp {α β : Type} (setting : Setting) (progress : Progress)
    (spot : Spot) (there : α → Bool → Spot → Reply β) :
    (setting.giveUp progress spot).either there .absent = setting.giveUp progress spot := by
  unfold giveUp Spot.giveUp
  split <;> rfl

/-- One part of a sequence, and how far the sequence has got behind it. -/
def seekPart (seek : Seeker) (bound : Nat) (setting : Setting) (progress : Progress)
    (spot : Spot) : (part : Part) → Reply (part.Kept × Progress)
  | .keyword text =>
    (spot.expectOneOf setting.line [text]).either
      (fun _ _ next => .found ((), setting.commit progress) false next)
      (setting.giveUp progress spot)
  | .delimiter text =>
    (spot.expectOneOf setting.line [text]).either
      (fun _ _ next => .found ((), progress) false next) (setting.giveUp progress spot)
  | .newline =>
    (spot.expectKind setting.line .newline).either
      (fun _ _ next => .found ((), progress) false next) (setting.giveUp progress spot)
  | .choice _ choice =>
    (spot.expectOneOf setting.line choice.delimiters).either
      (fun token _ next => .found (token.text, progress) false next) (setting.giveUp progress spot)
  | .token _ kind =>
    (spot.expectKind setting.line kind).either
      (fun token _ next => .found (keptText token, progress) false next)
      (setting.giveUp progress spot)
  | .optionalToken _ kind =>
    (spot.expectKind setting.line kind).either
      (fun token _ next => .found (some (keptText token), progress) false next)
      (.found (none, progress) false spot)
  | .child _ rule =>
    (seek rule setting.line spot).either
      (fun tree commits next => .found (tree, ⟨progress.own || commits, progress.owner⟩) false next)
      (setting.giveUp progress spot)
  | .line _ rule =>
    (seek rule (some spot.nesting) spot.behindLayout).either
      (fun tree _ next => .found (tree, progress) false next)
      (setting.giveUp progress spot.behindLayout)
  | .optional _ rule =>
    (seek rule setting.line spot).either
      (fun tree _ next => .found (some tree, setting.commit progress) false next)
      (.found (none, progress) false spot)
  | .many _ rule =>
    (seekMany seek setting.line rule bound spot).either
      (fun trees _ next => .found (trees, progress) false next) .absent
  | .some _ rule =>
    (seek rule setting.line spot).either
      (fun tree _ next =>
        (seekMany seek setting.line rule bound next).either
          (fun trees _ next => .found (.cons tree trees, setting.commit progress) false next)
          .absent)
      (setting.giveUp progress spot)
  | .commit => .found ((), setting.commit progress) false spot

section

variable (seek : Seeker) (bound : Nat) (setting : Setting) (line : Line) (spot : Spot)

/-- The parts of a sequence are the first part and then the others. -/
theorem seekParts_cons (part : Part) (parts : List Part) (progress : Progress) :
    seekParts seek bound setting (part :: parts) progress spot =
      (seekPart seek bound setting progress spot part).either
        (fun kept _ next => (seekParts seek bound setting parts kept.2 next).map (part.keep kept.1))
        .absent := by
  cases part <;>
    simp only [seekParts, seekPart, Reply.either_either, Reply.either_found, Reply.either_absent,
      Setting.either_giveUp]
  case keyword text | delimiter text =>
      cases spot.expectOneOf setting.line [text] with
      | found => exact (Reply.map_id _).symm
      | absent => rfl
      | failed => rfl
  case newline =>
      cases spot.expectKind setting.line .newline with
      | found => exact (Reply.map_id _).symm
      | absent => rfl
      | failed => rfl
  case commit => exact (Reply.map_id _).symm
  case choice label choice => cases spot.expectOneOf setting.line choice.delimiters <;> rfl
  case token label kind | optionalToken label kind =>
      cases spot.expectKind setting.line kind <;> rfl
  case child label rule | optional label rule => cases seek rule setting.line spot <;> rfl
  case line label rule => cases seek rule (some spot.nesting) spot.behindLayout <;> rfl
  case many label rule => cases seekMany seek setting.line rule bound spot <;> rfl
  case some label rule =>
      cases seek rule setting.line spot with
      | found tree commits next =>
          simp only [Reply.either_found]
          cases seekMany seek setting.line rule bound next <;> rfl
      | absent => rfl
      | failed failure next => rfl

/-- The first of several rules is the first one, or else the first of the others. -/
theorem seekFirst_cons (rule : Rule) (rules : List Rule) :
    seekFirst seek line spot (rule :: rules) =
      (seek rule line spot).either
        (fun tree commits next => .found (.oneOf rule List.mem_cons_self tree) commits next)
        ((seekFirst seek line spot rules).map fun
          | .oneOf chosen allowed tree =>
            .oneOf chosen (List.mem_cons_of_mem rule allowed) tree) := by
  simp only [seekFirst]
  cases seek rule line spot <;> rfl

/-- A rule as often as it is there is one of it and then more, or none. -/
theorem seekMany_succ (rule : Rule) :
    seekMany seek line rule (bound + 1) spot =
      (seek rule line spot).either
        (fun tree _ next => (seekMany seek line rule bound next).map (.cons tree))
        (.found .nil false spot) := by
  simp only [seekMany]
  cases seek rule line spot <;> rfl

end

/-- What a part is found by: a token or nodes that are there, or nothing where it may be missing.
The last index is the spot behind it. -/
inductive Part.FoundBy (seek : Seeker) (bound : Nat) (line : Line) (spot : Spot) :
    (part : Part) → part.Kept → Spot → Prop
  | keyword {text : String} {token : Token} {commits : Bool} {next : Spot}
      (hToken : spot.expectOneOf line [text] = .found token commits next) :
      FoundBy seek bound line spot (.keyword text) () next
  | delimiter {text : String} {token : Token} {commits : Bool} {next : Spot}
      (hToken : spot.expectOneOf line [text] = .found token commits next) :
      FoundBy seek bound line spot (.delimiter text) () next
  | newline {token : Token} {commits : Bool} {next : Spot}
      (hToken : spot.expectKind line .newline = .found token commits next) :
      FoundBy seek bound line spot .newline () next
  | commit : FoundBy seek bound line spot .commit () spot
  | choice {label : String} {options : Choice} {token : Token} {commits : Bool} {next : Spot}
      (hToken : spot.expectOneOf line options.delimiters = .found token commits next) :
      FoundBy seek bound line spot (.choice label options) token.text next
  | token {label : String} {kind : Kind} {token : Token} {commits : Bool} {next : Spot}
      (hToken : spot.expectKind line kind = .found token commits next) :
      FoundBy seek bound line spot (.token label kind) (keptText token) next
  | noToken {label : String} {kind : Kind} :
      FoundBy seek bound line spot (.optionalToken label kind) none spot
  | someToken {label : String} {kind : Kind} {token : Token} {commits : Bool} {next : Spot}
      (hToken : spot.expectKind line kind = .found token commits next) :
      FoundBy seek bound line spot (.optionalToken label kind) (Option.some (keptText token)) next
  | child {label : String} {rule : Rule} {tree : Tree rule} {commits : Bool} {next : Spot}
      (hTree : seek rule line spot = .found tree commits next) :
      FoundBy seek bound line spot (.child label rule) tree next
  | line {label : String} {rule : Rule} {tree : Tree rule} {commits : Bool} {next : Spot}
      (hTree : seek rule (Option.some spot.nesting) spot.behindLayout = .found tree commits next) :
      FoundBy seek bound line spot (.line label rule) tree next
  | absent {label : String} {rule : Rule} :
      FoundBy seek bound line spot (.optional label rule) none spot
  | present {label : String} {rule : Rule} {tree : Tree rule} {commits : Bool} {next : Spot}
      (hTree : seek rule line spot = .found tree commits next) :
      FoundBy seek bound line spot (.optional label rule) (Option.some tree) next
  | many {label : String} {rule : Rule} {trees : Trees rule} {commits : Bool} {next : Spot}
      (hTrees : seekMany seek line rule bound spot = .found trees commits next) :
      FoundBy seek bound line spot (.many label rule) trees next
  | some {label : String} {rule : Rule} {tree : Tree rule} {trees : Trees rule}
      {commits passes : Bool} {middle next : Spot}
      (hTree : seek rule line spot = .found tree commits middle)
      (hTrees : seekMany seek line rule bound middle = .found trees passes next) :
      FoundBy seek bound line spot (.some label rule) (.cons tree trees) next

/-- Each part that is found was found in the way that is proper to it: a token by its test, a child
by its rule, and a run of nodes by one search behind the other. -/
theorem foundBy_of_seekPart {seek : Seeker} {bound : Nat} {setting : Setting} {progress : Progress}
    {spot next : Spot} {part : Part} {kept : part.Kept × Progress} {commits : Bool}
    (hFound : seekPart seek bound setting progress spot part = .found kept commits next) :
    part.FoundBy seek bound setting.line spot kept.1 next := by
  cases part with
  | commit =>
      cases hFound
      exact .commit
  | keyword | delimiter | newline | choice | token | child | line =>
      rcases Reply.either_eq_found.mp hFound with ⟨_, _, _, hHere, ⟨⟩⟩ | ⟨-, hMissing⟩
      · constructor
        exact hHere
      · exact absurd hMissing Setting.giveUp_ne_found
  | optionalToken | optional =>
      rcases Reply.either_eq_found.mp hFound with ⟨_, _, _, hHere, ⟨⟩⟩ | ⟨-, ⟨⟩⟩
      · constructor
        exact hHere
      · constructor
  | many =>
      rcases Reply.either_eq_found.mp hFound with ⟨_, _, _, hHere, ⟨⟩⟩ | ⟨-, ⟨⟩⟩
      exact .many hHere
  | some =>
      rcases Reply.either_eq_found.mp hFound with ⟨tree, _, _, hTree, hMore⟩ | ⟨-, hMissing⟩
      · rcases Reply.either_eq_found.mp hMore with ⟨trees, _, _, hTrees, ⟨⟩⟩ | ⟨-, ⟨⟩⟩
        exact .some hTree hTrees
      · exact absurd hMissing Setting.giveUp_ne_found

end DocumentLanguage
