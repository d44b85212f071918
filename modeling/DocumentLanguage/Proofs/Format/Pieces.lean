import DocumentLanguage.Proofs.Format.Fusing
import DocumentLanguage.Proofs.Format.Seams

/-!
The pieces of a node show its terminals if those of its children do, once the gaps of the rule fit
its parts.
-/
namespace DocumentLanguage

open Canonical

/-- The terminals of a node in the order in which they are written. A line that has a node of its
own is begun by it and ended by what comes behind. -/
def shownTerminals (rule : Rule) (terminals : List Terminal) : List Terminal :=
  (if hasLine rule then [.newline] else []) ++
    if rule.follow = .lineEnd then terminals.dropLast else terminals

/-- Whether a node shows its terminals before all that may come behind it. -/
def Node.Shown (node : Node) : Prop :=
  ∀ depth ending, node.rule.follow.admits ending = true →
    Shows node.tree.Faithful (node.tree.written depth)
      (shownTerminals node.rule node.tree.terminals) ending

/-- A rule whose nodes are not ended by a line end shows its terminals, and nothing is put off to
what follows. -/
theorem shownTerminals_eq {rule : Rule} (hFollow : rule.follow ≠ .lineEnd)
    (terminals : List Terminal) : shownTerminals rule terminals = terminals := by
  have hLine : hasLine rule = false := by
    revert hFollow
    cases rule <;> decide
  simp [shownTerminals, hLine, hFollow]

/-- A node that shows its terminals does so before every ending that its rule puts up with. -/
theorem Node.Shown.shows {node : Node} (shown : node.Shown) (hFollow : node.rule.follow ≠ .lineEnd)
    {ending : List Char} (hEnding : node.rule.follow = .anything ∨ clears ending = true)
    (depth : Nat) :
    Shows node.tree.Faithful (node.tree.written depth) node.tree.terminals ending := by
  have hAdmits : node.rule.follow.admits ending = true := by
    cases hRule : node.rule.follow with
    | anything => rfl
    | ender => exact hEnding.resolve_left (by simp [hRule])
    | lineEnd => exact absurd hRule hFollow
  have hShows := shown depth ending hAdmits
  rwa [shownTerminals_eq hFollow] at hShows

/-- A node that opens clear of what precedes it keeps its predecessors apart from whatever comes
later. -/
theorem clears_written {rule : Rule} (hOpens : opensClear rule = true) (tree : Tree rule)
    (depth : Nat) (ending : List Char) : clears (tree.written depth ++ ending) = true := by
  obtain ⟨content⟩ := tree
  simp only [opensClear, Bool.and_eq_true, Bool.not_eq_true', List.isEmpty_eq_false_iff] at hOpens
  obtain ⟨⟨⟨hSpans, hLine⟩, hFilled⟩, hClears⟩ := hOpens
  simp only [Tree.written, hSpans, hLine, Bool.false_eq_true, if_false, List.append_assoc]
  rwa [clears_append hFilled]

/-- A run of nodes that open clear keeps its predecessor apart, and an empty run leaves that to the
ending. -/
theorem clears_trees {rule : Rule} (hOpens : opensClear rule = true) (trees : Trees rule)
    (depth : Nat) {ending : List Char} (hEnding : clears ending = true) :
    clears (trees.written depth ++ ending) = true := by
  cases trees with
  | nil => exact hEnding
  | cons tree trees =>
      rw [Trees.written, List.append_assoc]
      exact clears_written hOpens tree depth _

/-- Nodes of a rule one after another, each of which ends the one before. -/
theorem Trees.shows {rule : Rule} (hFollow : rule.follow = .ender) (hOpens : opensClear rule = true)
    {ending : List Char} (hEnding : clears ending = true) (depth : Nat) : (trees : Trees rule) →
      (∀ node ∈ trees.asNodes, node.Shown) →
        Shows (∀ node ∈ trees.asNodes, node.tree.Faithful) (trees.written depth) trees.terminals ending
  | .nil, _ => (Shows.spaces rfl).congr (by simp)
  | .cons tree trees, hNodes => by
      simp only [asNodes_cons, List.mem_cons, forall_eq_or_imp] at hNodes
      have hTree : Shows tree.Faithful (tree.written depth) tree.terminals
          (trees.written depth ++ ending) :=
        hNodes.1.shows (by simp [hFollow]) (.inr (clears_trees hOpens trees depth hEnding)) depth
      have hTrees := trees.shows hFollow hOpens hEnding depth hNodes.2
      refine (hTree.append hTrees).congr ?_
      simp

section

variable {node : Node}

/-- What a piece is written behind, and what is written behind it. -/
theorem body_cons (hPlain : node.rule.gapsPlain = true) (depth index : Nat) (piece : List Char)
    (parts : List Part) (fields : Fields (fieldsOf parts)) :
    body node index (piece :: fields.pieces depth) =
      (if node.tree.content.holds index then leadIn node.rule index else []) ++ piece ++
        (gapBehind node.rule (index + 1) parts ++ body node (index + 1) (fields.pieces depth)) := by
  rw [body, spread_closing_eq hPlain]

/-- What is written of what is kept of a part. -/
def Part.piece (depth : Nat) : (part : Part) → part.Kept → List Char
  | choice _ _, text | token _ _, text => (Text.indent text depth).toList
  | optionalToken _ _, text => (text.map (Text.indent · depth)).elim [] String.toList
  | child _ _, tree | line _ _, tree | optional _ _, Option.some tree => tree.written depth
  | many _ _, trees | some _ _, trees => trees.written depth
  | _, _ => []

section

variable {part : Part} {parts : List Part} {kept : part.Kept} {rest : Fields (fieldsOf parts)}

/-- The pieces of a sequence are that of its first part and those of the others. -/
theorem Part.pieces_keep (hKeeps : part.fixed? = none) (depth : Nat) :
    (part.keep kept rest).pieces depth = part.piece depth kept :: rest.pieces depth := by
  cases part with
  | keyword | delimiter | newline | commit => cases hKeeps
  | optional => cases kept <;> rfl
  | _ => rfl

/-- Behind a field come those from the next place on, so that a gap before one of them is told from
its own place. -/
theorem Part.holds_behind (hKeeps : part.fixed? = none) {index : Nat}
    (hHolds : ∀ place, node.tree.content.holds (index + place) = (part.keep kept rest).holds place)
    (place : Nat) : node.tree.content.holds (index + 1 + place) = rest.holds place := by
  rw [Nat.add_right_comm, Nat.add_assoc, hHolds]
  cases part with
  | keyword | delimiter | newline | commit => cases hKeeps
  | optional | optionalToken => cases kept <;> rfl
  | _ => rfl

end

/-- What is written behind a field ends it where the parts behind it say so. -/
theorem clears_of_endsBehind (hPlain : node.rule.gapsPlain = true) {ending : List Char}
    (hEnding : node.rule.follow ≠ .anything → clears ending = true) (depth : Nat)
    (parts : List Part) (index : Nat) (text : List Char)
    (hEnds : endsBehind node.rule index parts text = true) (fields : Fields (fieldsOf parts))
    (hHolds : ∀ place, node.tree.content.holds (index + place) = fields.holds place) :
    clears (text ++ (body node index (fields.pieces depth) ++ ending)) = true := by
  induction parts generalizing index text with
  | nil =>
      cases text with
      | cons c text => exact hEnds
      | nil =>
          cases fields
          exact hEnding (by simpa [endsBehind] using hEnds)
  | cons part parts ih =>
      cases text with
      | cons c text =>
          simp only [endsBehind] at hEnds
          exact hEnds
      | nil =>
          obtain ⟨kept, rest, rfl⟩ := part.exists_keep fields
          have hHere := hHolds 0
          rw [Nat.add_zero] at hHere
          rw [List.nil_append]
          cases part with
          | newline =>
              cases parts with
              | nil =>
                  cases rest
                  exact hEnding (by simpa [endsBehind] using hEnds)
              | cons => cases hEnds
          | commit => exact ih index [] hEnds rest hHolds
          | optionalToken label kind =>
              simp only [endsBehind, Bool.and_eq_true, Bool.not_eq_true',
                List.isEmpty_eq_false_iff] at hEnds
              have hRest := ih (index + 1) _ hEnds.2 rest (Part.holds_behind rfl hHolds)
              rw [Part.pieces_keep rfl, body_cons hPlain, hHere]
              cases kept with
              | none => simpa [Part.keep, Part.piece, Fields.holds] using hRest
              | some kept =>
                  simp only [Part.keep, Fields.holds, if_true, List.append_assoc]
                  rw [clears_append hEnds.1.1]
                  exact hEnds.1.2
          | optional label child =>
              simp only [endsBehind, Bool.and_eq_true] at hEnds
              have hRest := ih (index + 1) _ hEnds.2 rest (Part.holds_behind rfl hHolds)
              rw [Part.pieces_keep rfl, body_cons hPlain, hHere]
              cases kept with
              | none => simpa [Part.keep, Part.piece, Fields.holds] using hRest
              | some tree =>
                  simp only [Part.keep, Fields.holds, if_true, List.append_assoc]
                  have hFirst := hEnds.1
                  split at hFirst
                  · rename_i hNone
                    rw [List.isEmpty_iff.mp hNone, List.nil_append]
                    exact clears_written hFirst tree depth _
                  · rename_i hSome
                    rw [clears_append (by simpa using hSome)]
                    exact hFirst
          | many label child | some label child =>
              simp only [endsBehind, Bool.and_eq_true] at hEnds
              have hRest := ih (index + 1) _ hEnds.2 rest (Part.holds_behind rfl hHolds)
              rw [Part.pieces_keep rfl, body_cons hPlain, hHere]
              simp only [List.isEmpty_iff.mp hEnds.1.1, ite_self, List.nil_append, List.append_assoc]
              exact clears_trees hEnds.1.2 kept depth (by simpa using hRest)
          | _ => simp [endsBehind] at hEnds

/-- What a rule admits behind its nodes keeps them apart from what follows, unless it admits
anything at all. -/
theorem clears_of_admits {follow : Follow} {ending : List Char}
    (hEnding : follow.admits ending = true) (hFollow : follow ≠ .anything) :
    clears ending = true := by
  cases follow with
  | anything => exact absurd rfl hFollow
  | ender => exact hEnding
  | lineEnd =>
      have hHead : ending.head? = some '\n' := by simpa [Follow.admits] using hEnding
      rw [clears, hHead]
      decide

/-- A delimiter ends before what is written behind it, whether this is another fixed word, a field
or the end of the node. -/
theorem delimiterEnds_of_fixedEnds {ending : List Char}
    (hEnding : node.rule.follow.admits ending = true) {word text : List Char} {parts : List Part}
    (hEnds : fixedEnds node.rule.follow word text parts = true) (depth index : Nat)
    (fields : Fields (fieldsOf parts)) :
    delimiterEnds word (text ++ (body node index (fields.pieces depth) ++ ending)) = true := by
  rw [fixedEnds] at hEnds
  split at hEnds
  · rename_i hText
    simp only [Bool.or_eq_true, Bool.and_eq_true, bne_iff_ne, List.isEmpty_iff] at hEnds hText
    rcases hEnds with hSolid | ⟨⟨hNone, hFollow⟩, hClear⟩
    · exact delimiterEnds_of_isSolid hSolid _
    · rw [hText, (fields.pieces_nil_iff depth parts).mpr hNone]
      exact delimiterEnds_of_clears hClear (clears_of_admits hEnding hFollow)
  · rename_i hText
    rwa [delimiterEnds_append (by simpa using hText)]

/-- A word is found at the start of a fixed text behind nothing but spaces. -/
theorem strip?_eq_some {word : String} {text rest : List Char} (hStrip : strip? word text = some rest) :
    ∃ spaces, spaces.all (· = ' ') = true ∧ text = spaces ++ (word.toList ++ rest) := by
  simp only [strip?] at hStrip
  split at hStrip
  · rename_i hPrefix
    cases hStrip
    obtain ⟨rest, hRest⟩ := List.isPrefixOf_iff_prefix.mp hPrefix
    refine ⟨text.takeWhile (· = ' '), ?_, ?_⟩
    · refine List.all_eq_true.mpr ?_
      intro c hMem
      exact List.mem_takeWhile_imp (p := fun c => decide (c = ' ')) hMem
    · rw [← hRest, List.drop_left, hRest, List.takeWhile_append_dropWhile]
  · cases hStrip

theorem alone_eq_delimiter {text : String} (alone : Alone .delimiter text.toList) :
    text ∈ delimiters := by
  obtain ⟨word, hWord, hText⟩ := mem_delimiters_of_lexeme? alone rfl
  rwa [String.ext hText]

section

variable {part : Part} {parts : List Part} {kept : part.Kept} {rest : Fields (fieldsOf parts)}

/-- A field stands between spaces, and the others fit behind it if the whole sequence does. -/
theorem Part.fits_behind {rule : Rule} {index : Nat} {text : List Char}
    (hFits : fits rule index (part :: parts) text = true) (hKeeps : part.fixed? = none)
    (hSure : ∀ label kind, part ≠ .optionalToken label kind) :
    text.all (· = ' ') = true ∧ (leadIn rule index).all (· = ' ') = true ∧
      fits rule (index + 1) parts (gapBehind rule (index + 1) parts) = true := by
  cases part with
  | keyword | delimiter | newline | commit => cases hKeeps
  | optionalToken label kind => exact absurd rfl (hSure label kind)
  | choice | token | child | line | many | some =>
      simp only [fits, Bool.and_eq_true, List.isEmpty_iff] at hFits
      exact ⟨by simp [hFits], by simp [hFits], by simp [hFits]⟩
  | optional =>
      simp only [fits, Bool.and_eq_true] at hFits
      exact ⟨hFits.1.1.1.1, hFits.1.1.1.2, hFits.2⟩

/-- What is kept of a part shows its terminals before what is written behind. -/
theorem Part.shows (hPlain : node.rule.gapsPlain = true) {ending : List Char}
    (hEnding : node.rule.follow.admits ending = true) (depth index : Nat) {text : List Char}
    (hFits : fits node.rule index (part :: parts) text = true) (hKeeps : part.fixed? = none)
    (hSure : ∀ label kind, part ≠ .optionalToken label kind)
    (hBehind : ∀ place, node.tree.content.holds (index + 1 + place) = rest.holds place)
    (hSuits : part.suits kept = true)
    (hTokens : ∀ held ∈ part.tokens index kept,
      Alone held.kind held.text.toList ∧ Text.endsFlush held.text = true)
    (hNodes : ∀ child ∈ part.nodes kept, child.Shown) :
    Shows (∀ child ∈ part.nodes kept, child.tree.Faithful) (part.piece depth kept)
      (part.terminals kept) (gapBehind node.rule (index + 1) parts ++
        (body node (index + 1) (rest.pieces depth) ++ ending)) := by
  have hClears := fun hEnds => clears_of_endsBehind hPlain (clears_of_admits hEnding) depth parts
    (index + 1) (gapBehind node.rule (index + 1) parts) hEnds rest hBehind
  cases part with
  | keyword | delimiter | newline | commit => cases hKeeps
  | optionalToken label kind => exact absurd rfl (hSure label kind)
  | choice label options =>
      simp only [fits, Bool.and_eq_true] at hFits
      have alone : Alone .delimiter kept.toList :=
        (hTokens ⟨index, .delimiter, kept⟩ List.mem_cons_self).1
      have hEnd := List.all_eq_true.mp hFits.1.2 kept (by simpa [suits] using hSuits)
      rw [piece, Text.indent_of_not_mem (alone.not_mem_feed (by decide) rfl)]
      exact (Shows.delimiter (alone_eq_delimiter alone)
        (delimiterEnds_of_fixedEnds hEnding hEnd depth (index + 1) rest)).congr (by simp [nodes])
  | token label kind =>
      simp only [fits, Bool.and_eq_true, bne_iff_ne] at hFits
      obtain ⟨⟨⟨⟨-, hKind⟩, hNote⟩, hEnds⟩, -⟩ := hFits
      obtain ⟨alone, hFlush⟩ := hTokens ⟨index, kind, kept⟩ List.mem_cons_self
      have hAll : ∀ kind ∈ keptKinds, kind ∈ literalOrder ∧ kind.isLayout = false ∧
          (kind = .comment ∨ kind ∉ spanningKinds) := by decide
      obtain ⟨hLiteral, hLayout, hSpanning⟩ := hAll kind (by simpa using hKind)
      exact (Shows.kept alone hLiteral hLayout hSpanning hFlush
        (endsBefore_of_clears hNote (hClears hEnds)) depth).congr (by simp [nodes])
  | child label rule | line label rule =>
      simp only [fits, Bool.and_eq_true, Bool.or_eq_true, bne_iff_ne, decide_eq_true_eq] at hFits
      obtain ⟨⟨⟨-, hFollow⟩, hEnds⟩, -⟩ := hFits
      exact ((hNodes ⟨rule, kept⟩ List.mem_cons_self).shows hFollow (hEnds.imp_right hClears)
        depth).congr (by simp [nodes])
  | optional label rule =>
      simp only [fits, Bool.and_eq_true, decide_eq_true_eq] at hFits
      obtain ⟨⟨⟨-, hFollow⟩, hEnds⟩, -⟩ := hFits
      cases kept with
      | none => exact (Shows.spaces rfl).congr (by simp [nodes])
      | some tree =>
          exact ((hNodes ⟨rule, tree⟩ List.mem_cons_self).shows (by simp [hFollow])
            (.inr (hClears hEnds)) depth).congr (by simp [nodes])
  | many label rule | some label rule =>
      simp only [fits, Bool.and_eq_true, decide_eq_true_eq] at hFits
      obtain ⟨⟨⟨⟨-, hFollow⟩, hOpens⟩, hEnds⟩, -⟩ := hFits
      exact kept.shows hFollow hOpens (hClears hEnds) depth hNodes

end

/-- A note at the end of a line shows its terminal. The newline behind it is no part of what is
written. -/
theorem shows_note {ending : List Char} (hEnding : node.rule.follow.admits ending = true)
    (depth : Nat) {label : String} {kind : Kind} {parts : List Part} {index : Nat} {text : List Char}
    (hFits : fits node.rule index (.optionalToken label kind :: parts) text = true)
    {kept : Option String} {rest : Fields (fieldsOf parts)}
    (hHere : node.tree.content.holds index = kept.isSome)
    (hTokens : ∀ held ∈ (Part.optionalToken label kind).tokens index kept,
      Alone held.kind held.text.toList ∧ Text.endsFlush held.text = true) :
    ∃ shown, (Part.optionalToken label kind).terminals kept ++ weave parts rest.marks =
        shown ++ (if node.rule.follow = .lineEnd then [.newline] else []) ∧
      Shows (∀ child ∈ (Part.optionalToken label kind).nodes kept ++
          rest.stored.flatMap Stored.nodes, child.tree.Faithful)
        (text ++ body node index (((Part.optionalToken label kind).keep kept rest).pieces depth))
        shown ending := by
  simp only [fits, Bool.and_eq_true, decide_eq_true_eq, List.isEmpty_iff] at hFits
  obtain ⟨⟨⟨⟨⟨hSpaces, hLead⟩, rfl⟩, hFollow⟩, rfl⟩, hClosing⟩ := hFits
  cases rest
  have hHead : ending.head? = some '\n' := by simpa [hFollow, Follow.admits] using hEnding
  refine ⟨(Part.optionalToken label .note).terminals kept, by simp [weave, Part.fixed?, hFollow], ?_⟩
  cases kept with
  | none =>
      simpa [Part.keep, Part.terminals, Part.nodes, Fields.pieces, Fields.stored, body, spread,
        hClosing, hHere] using @Shows.spaces _ ending hSpaces
  | some kept =>
      have hHeld : Alone .note kept.toList ∧ Text.endsFlush kept = true :=
        hTokens ⟨index, .note, kept⟩ List.mem_cons_self
      have hToken : Shows True (Text.indent kept depth).toList [.kept .note kept] ending :=
        Shows.kept hHeld.1 (by decide) rfl (.inr (by decide)) hHeld.2 (by simp [endsBefore, hHead])
          depth
      simpa [Part.keep, Part.terminals, Part.nodes, Fields.pieces, Fields.stored, body, spread,
        hClosing, hHere] using (Shows.spaces hSpaces).behind ((Shows.spaces hLead).behind hToken)

/-- The fields of a rule show its terminals, each piece of them before what is written behind. -/
theorem Fields.shows (hPlain : node.rule.gapsPlain = true) {ending : List Char}
    (hEnding : node.rule.follow.admits ending = true) (depth : Nat) (parts : List Part)
    (index : Nat) (text : List Char) (hFits : fits node.rule index parts text = true)
    (fields : Fields (fieldsOf parts))
    (hHolds : ∀ place, node.tree.content.holds (index + place) = fields.holds place)
    (hMade : aligned Part.admits parts fields.stored = true)
    (hTokens : ∀ held ∈ tokensFrom index fields.stored,
      Alone held.kind held.text.toList ∧ Text.endsFlush held.text = true)
    (hNodes : ∀ child ∈ fields.stored.flatMap Stored.nodes, child.Shown) :
    ∃ shown, weave parts fields.marks =
        shown ++ (if node.rule.follow = .lineEnd then [.newline] else []) ∧
      Shows (∀ child ∈ fields.stored.flatMap Stored.nodes, child.tree.Faithful)
        (text ++ body node index (fields.pieces depth)) shown ending := by
  induction parts generalizing index text with
  | nil =>
      cases fields
      simp only [fits, Bool.and_eq_true, bne_iff_ne] at hFits
      refine ⟨[], by simp [weave, hFits.1], ?_⟩
      simp only [Fields.pieces, body, List.append_nil]
      exact (Shows.spaces hFits.2).congr (by simp [Fields.stored])
  | cons part parts ih =>
      obtain ⟨kept, rest, rfl⟩ := part.exists_keep fields
      rw [Part.aligned_keep, Bool.and_eq_true] at hMade
      rw [Part.nodes_keep, List.forall_mem_append] at hNodes
      rw [Part.weave_keep, Part.nodes_keep]
      cases part with
      | keyword word | delimiter word =>
          simp only [fits, Bool.and_eq_true, Option.any_eq_true] at hFits
          obtain ⟨hWord, behind, hStrip, hEnds, hRest⟩ := hFits
          obtain ⟨spaces, hSpaces, rfl⟩ := strip?_eq_some hStrip
          obtain ⟨shown, hWeave, hShows⟩ :=
            ih index behind hRest rest hHolds hMade.2 hTokens hNodes.2
          refine ⟨.verbatim .delimiter word :: shown,
            congrArg (Terminal.verbatim .delimiter word :: ·) hWeave, ?_⟩
          have hDelimiter := Shows.delimiter (by simpa using hWord)
            (delimiterEnds_of_fixedEnds hEnding hEnds depth index rest)
          rw [List.append_assoc, List.append_assoc]
          rw [← List.append_assoc behind] at hDelimiter
          exact (Shows.spaces hSpaces).behind (hDelimiter.behind hShows)
      | newline =>
          simp only [fits, Bool.and_eq_true, List.isEmpty_iff, decide_eq_true_eq] at hFits
          obtain ⟨⟨hFollow, rfl⟩, hSpaces⟩ := hFits
          cases rest
          refine ⟨[], by simp [Part.terminals, weave, hFollow], ?_⟩
          simp only [Part.keep, Fields.pieces, body, List.append_nil]
          exact (Shows.spaces hSpaces).congr (by simp [Part.nodes, Fields.stored])
      | commit => exact ih index text hFits rest hHolds hMade.2 hTokens hNodes.2
      | optionalToken label kind =>
          rw [Part.tokens_keep rest rfl, List.forall_mem_append] at hTokens
          refine shows_note hEnding depth hFits ?_ hTokens.1
          cases kept <;> exact hHolds 0
      | choice | token | child | line | optional | many | some =>
          have hBehind := Part.holds_behind rfl hHolds
          rw [Part.tokens_keep rest rfl, List.forall_mem_append] at hTokens
          obtain ⟨hSpaces, hLead, hRest⟩ := Part.fits_behind hFits rfl (by simp)
          obtain ⟨shown, hWeave, hShows⟩ :=
            ih (index + 1) _ hRest rest hBehind hMade.2 hTokens.2 hNodes.2
          have hPiece := Part.shows hPlain hEnding depth index hFits rfl (by simp) hBehind
            hMade.1 hTokens.1 hNodes.1
          refine ⟨_ ++ shown, by rw [hWeave, List.append_assoc], ?_⟩
          rw [Part.pieces_keep rfl, body_cons hPlain]
          rw [← List.append_assoc] at hPiece
          exact (Shows.piece hSpaces (by split <;> first | exact hLead | rfl) hPiece hShows).congr
            List.forall_mem_append.symm

end

end DocumentLanguage
