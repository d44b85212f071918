import DocumentLanguage.Proofs.Format.Shown
import DocumentLanguage.Proofs.Parse.Found
import DocumentLanguage.Proofs.Validation.Spelled
import DocumentLanguage.Tree.Build

/-!
The canonical text is read back. Scanned, it gives the tokens that the terminals of the tree stand
for, and these are read as that tree and no other.
-/
namespace DocumentLanguage

/-- What is found does not depend on layout that does not count. -/
theorem alike_look : AlikeSeeker look := by
  intro rule line inner behindLine spot spot' hSpots hLine hLined hBehind
  have hHere : nestingPerToken * spot.rest.length + rule.rank <
      max (readingBudget spot.rest.length) (readingBudget spot'.rest.length) :=
    Nat.lt_of_lt_of_le (needed_lt_readingBudget spot.rest rule) (Nat.le_max_left _ _)
  have hThere : nestingPerToken * spot'.rest.length + rule.rank <
      max (readingBudget spot.rest.length) (readingBudget spot'.rest.length) :=
    Nat.lt_of_lt_of_le (needed_lt_readingBudget spot'.rest rule) (Nat.le_max_right _ _)
  rw [← seekRule_eq_look hHere, ← seekRule_eq_look hThere]
  exact alike_seekRule _ hSpots hLine hLined hBehind

/-- Whether a tree is all that is found at a spot where no line ends, but for layout. -/
def Spot.HoldsOnly {rule : Rule} (spot : Spot) (tree : Tree rule) : Prop :=
  ∃ commits next, look rule none spot = .found tree commits next ∧ next.behindLayout.rest = []

/-- What is all that is found at a spot is so at every spot that is alike. -/
theorem Spot.HoldsOnly.alike {rule : Rule} {tree : Tree rule} {spot spot' : Spot} {behindLine : Bool}
    (holds : spot.HoldsOnly tree) (hSpots : spot.Alike behindLine spot')
    (hRule : rule.opensLine = false) : spot'.HoldsOnly tree := by
  obtain ⟨commits, next, hFound, hEnd⟩ := holds
  have hReply := @alike_look rule none true _ _ _ hSpots nofun (fun _ => rfl) fun _ => ⟨rfl, hRule⟩
  rw [hFound] at hReply
  generalize hOther : look rule none spot' = reply at hReply
  cases hReply with
  | found hRelated =>
    obtain ⟨rfl, stands⟩ := hRelated
    refine ⟨_, _, hOther, ?_⟩
    have hNext : AlikeNext (dropLayout next.rest) (dropLayout _) := stands.alike.tokens.next_dropLayout
    rw [show dropLayout next.rest = [] from hEnd] at hNext
    generalize hTokens : dropLayout _ = tokens at hNext
    cases hNext
    exact hTokens

/-- Nothing goes on with what ends at the end of the tokens. -/
theorem Tail.absent_of_nil {tail : Tail} (hTail : tail ∈ Rule.componentTails) {line : Line}
    {spot : Spot} (hRest : spot.rest = []) : tail.Absent line spot := by
  have clear := Spot.clear_of_nil hRest line tail.leads
  cases tail with
  | word text => exact clear
  | rule other =>
    obtain rfl : other = .parameters := by simpa [Rule.componentTails] using hTail
    exact look_eq_absent (by decide) clear

/-- A component is all that is found where the tokens are its terminals. -/
theorem Component.holdsOnly (component : Tree .component) (made : component.Made) {tokens : List Token}
    (exactly : Exactly component.terminals tokens []) :
    (⟨tokens, 0⟩ : Spot).HoldsOnly component := by
  have hBetween : Between component.terminals ⟨tokens, 0⟩ ⟨[], 0⟩ := ⟨exactly, rfl⟩
  obtain ⟨commits, hFound⟩ := (component.ready made (by decide)).complete hBetween
    fun tail hTail => Tail.absent_of_nil hTail rfl
  exact ⟨commits, _, hFound, rfl⟩

/-- A document is all that is found where its comment is, if it has one, and behind that its
component. -/
theorem Document.holdsOnly (document : Document) (made : document.Made) {tokens : List Token}
    (exactly : Exactly (Document.laidOut document) tokens []) :
    (⟨tokens, 0⟩ : Spot).HoldsOnly document := by
  obtain ⟨content⟩ := document
  obtain ⟨-, hChildren⟩ := Tree.made_mk.mp made
  cases content with
  | sequence fields =>
    cases fields with
    | optionalText comment fields =>
      cases fields with
      | child component fields =>
        cases fields
        have hComponent : component.Made := hChildren ⟨.component, component⟩ List.mem_cons_self
        -- Once the comment is found, or is not there, the component is what is left.
        have hFields : ∀ {spot : Spot}, spot.HoldsOnly component →
            (∀ bound progress, seekPart look bound ⟨.document, .plain, none⟩ progress ⟨tokens, 0⟩
              (.optionalToken "comment" .comment) = .found (comment, progress) false spot) →
            (⟨tokens, 0⟩ : Spot).HoldsOnly
              (.mk (.sequence (.optionalText comment (.child component .nil))) : Document) := by
          rintro spot ⟨commits, next, hFound, hEnd⟩ hComment
          obtain ⟨commits, hDocument⟩ : ∃ commits, look .document none ⟨tokens, 0⟩ =
              .found (.mk (.sequence (.optionalText comment (.child component .nil)))) commits next := by
            refine look_eq_found fun bound _ => seekForm_sequence ⟨false, ?_⟩
            rw [seekParts_cons, hComment, Reply.either_found, seekParts_cons, seekPart, hFound]
            rfl
          exact ⟨commits, next, hDocument, hEnd⟩
        cases comment with
        | none =>
          have hTokens : Exactly component.terminals tokens [] := exactly
          refine hFields (Component.holdsOnly component hComponent hTokens) fun bound progress => ?_
          obtain ⟨token, rest, hRest, hSolid, hError, hLead⟩ :=
            component.exists_head hComponent (by decide) (by decide) hTokens
          have hNone : (⟨tokens, 0⟩ : Spot).expectKind none .comment = .absent := by
            refine Spot.expect_eq_absent fun first hFirst => ?_
            rw [Spot.visible_of_solid hRest hSolid] at hFirst
            cases hFirst
            refine ⟨hError, decide_eq_false fun hKind => ?_⟩
            rw [Token.lead_of_kind hKind (by decide)] at hLead
            revert hLead
            decide
          rw [seekPart, hNone, Reply.either_absent]
        | some text =>
          have hTokens : Exactly (.kept .comment text :: .newline :: component.terminals) tokens [] :=
            exactly
          obtain ⟨token, rest, rfl, hReads, -, -, hLine⟩ := hTokens.exists_cons
          obtain ⟨newline, behind, rfl, hNewline, -, -, hBehind⟩ := hLine.exists_cons
          obtain ⟨hKind, rfl⟩ := keptText_of_reads hReads
          have hLayout : newline.kind.isLayout = true := by
            rw [show newline.kind = .newline from hNewline]
            rfl
          have hAlike : (⟨behind, 0⟩ : Spot).Alike true ⟨newline :: behind, 0⟩ :=
            ⟨rfl, by rw [AlikeTokens, if_pos rfl, dropLayout_of_isLayout hLayout]⟩
          refine hFields ((Component.holdsOnly component hComponent hBehind).alike hAlike rfl) ?_
          intro bound progress
          rw [seekPart, Spot.expectKind_eq_found rfl hKind (by decide) (by decide) (by decide),
            Reply.either_found]

/-- Tokens that are what was laid out of a document, but for spaces, make up that document. -/
theorem parseTokens_of_laidOut {document : Document} (made : document.Made) {tokens : List Token}
    (exactly : Exactly (Document.laidOut document) (unspaced tokens) []) :
    parseTokens tokens = .ok document := by
  have hAlike : (⟨unspaced tokens, 0⟩ : Spot).Alike false ⟨tokens, 0⟩ :=
    ⟨rfl, by simp [AlikeTokens, condensed, unspaced]⟩
  obtain ⟨commits, next, hFound, hEnd⟩ := (document.holdsOnly made exactly).alike hAlike rfl
  refine parseTokens_eq_ok.mpr ⟨commits, next, ?_, hEnd⟩
  rwa [seekRule_eq_look (needed_lt_readingBudget tokens .document)]

/-- A text without tabs is left as it is, so that scanning it is scanning the text itself. -/
theorem expandTabs_of_not_mem {text : String} (hTab : '\t' ∉ text.toList) :
    Text.expandTabs text = text := by
  have hSame : ∀ chars : List Char, '\t' ∉ chars → (chars.flatMap fun c =>
      if c = '\t' then List.replicate Text.indentationWidth ' ' else [c]) = chars := by
    intro chars hChars
    induction chars with
    | nil => rfl
    | cons c chars ih =>
      rw [List.mem_cons, not_or] at hChars
      rw [List.flatMap_cons, if_neg (Ne.symm hChars.1), ih hChars.2]
      rfl
  rw [Text.expandTabs, hSame _ hTab, String.ofList_toList]

/-- Where no token has a tab, the canonical text is scanned as it is. -/
theorem Document.parse_canonical_eq (document : Document) (untabbed : document.Untabbed) :
    parse document.canonical = parseTokens (scan document.canonical) := by
  have hTab : '\t' ∉ document.canonical.toList := by
    rw [Tree.toList_canonical]
    exact document.not_mem_written untabbed 0
  rw [parse_eq, expandTabs_of_not_mem hTab]

/-- The canonical text of a document is read as that document, wherever it comes from: if it passes
the validator, has a line or a handler wherever one is asked for, no token of it has a tab or ends
in an indented line, and no two of its tokens run into each other. -/
theorem parse_canonical {document : Document} (hValid : document.validate = .ok ())
    (filled : document.Filled) (untabbed : document.Untabbed)
    (hFlush : ∀ node ∈ document.nodes, ∀ held ∈ node.tree.content.tokens,
      Text.endsFlush held.text = true) (faithful : document.Faithful) :
    parse document.canonical = .ok document := by
  obtain ⟨spelled, made⟩ := Tree.passesAll_iff.mp ⟨Tree.validate_eq_ok.mp hValid, filled⟩
  have settled : document.Settled := fun node hNode => ⟨made node hNode, fun held hHeld =>
    ⟨spelled node hNode held hHeld, hFlush node hNode held hHeld⟩⟩
  rw [document.parse_canonical_eq untabbed]
  exact parseTokens_of_laidOut made (document.along_scan settled faithful)

/-- A list that was built by hand behind a comment, with a range on a line of its own, is read again
from its canonical text. -/
theorem parse_canonical_list :
    let number (text : String) := Primitive.ofElement (Element.ofText .number text)
    let range := Collection.ofRange (Range.of "(" (number "1") (number "2") "]")
    let document := Document.ofComponent (some "!>\n    two\n    lines\n<!")
      (Component.ofCollection (Collection.ofValues (Values.ofList (.multiline (some "! a note"))
        [Component.ofElement (Element.ofText .symbol "$key"), Component.ofCollection range])))
    parse document.canonical = .ok document := by
  intro number range document
  refine parse_canonical ?valid ?filled ?untabbed ?flush ?faithful
  case valid => decide +kernel
  case filled => exact (by decide : ∀ node ∈ document.nodes, node.tree.content.filled = true)
  case untabbed =>
    exact (by decide : ∀ node ∈ document.nodes, ∀ held ∈ node.tree.content.tokens,
      '\t' ∉ held.text.toList)
  case flush => decide
  case faithful => exact (by decide : ∀ node ∈ document.nodes, node.fuses = false)

end DocumentLanguage
