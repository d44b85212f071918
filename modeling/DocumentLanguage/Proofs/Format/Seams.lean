import DocumentLanguage.Proofs.Format.Shows
import DocumentLanguage.Proofs.Grammar.Adjacent

/-!
Where the pieces of a node meet. What is written between the fields of a rule spells the delimiters
that stand there, and what comes behind a field does not run into it. For most rules both can be
read off their parts.
-/
namespace DocumentLanguage

open Canonical

def nodeEnders : List Char := [' ', '\n', '(', ')', '[', ']', ':', ',', ';', '|']

/-- Whether a node may end before an ending. -/
def clears (ending : List Char) : Bool :=
  ending.head?.all nodeEnders.contains

/-- Before what keeps a node apart every token ends that is no note, as a note goes on to the end of
its line. -/
theorem endsBefore_of_clears {kind : Kind} {ending : List Char} (hKind : kind ≠ .note)
    (hEnding : clears ending = true) : endsBefore kind ending = true := by
  have hSeparates : separates ending = true ∧ ending.head? ≠ some '.' := by
    cases ending with
    | nil => exact ⟨rfl, by simp⟩
    | cons c ending =>
        have hAll : ∀ c ∈ nodeEnders, c ∈ separators ∧ c ≠ '.' := by decide
        obtain ⟨hMem, hPoint⟩ := hAll c (by simpa [clears] using hEnding)
        refine ⟨?_, by simpa using hPoint⟩
        simp [separates, hMem, Pattern.endsNumber_of_ne hPoint]
  cases kind with
  | note => exact absurd rfl hKind
  | moniker => simp [endsBefore, hSeparates.1, hSeparates.2]
  | _ => exact hSeparates.1

theorem clears_append {front back : List Char} (hFront : front ≠ []) :
    clears (front ++ back) = clears front := by
  cases front with
  | nil => exact absurd rfl hFront
  | cons c front => rfl

theorem delimiterEnds_append {word front back : List Char} (hFront : front ≠ []) :
    delimiterEnds word (front ++ back) = delimiterEnds word front := by
  cases front with
  | nil => exact absurd rfl hFront
  | cons c front => rfl

/-- Whether a delimiter ends whatever follows. -/
def isSolid (word : List Char) : Bool :=
  delimiters.all (fun other => !word.isPrefixOf other.toList || other.toList = word) &&
    !word.getLast?.any Unicode.isAlphanumeric && !([['-'], ['.'], ['<'], ['/']].contains word)

/-- A solid word ends whatever is behind it, since no delimiter goes on from it and it is no word of
letters. -/
theorem delimiterEnds_of_isSolid {word : List Char} (hSolid : isSolid word = true)
    (ending : List Char) : delimiterEnds word ending = true := by
  simp only [isSolid, Bool.and_eq_true, Bool.not_eq_true'] at hSolid
  obtain ⟨⟨hWords, hLast⟩, hOpens⟩ := hSolid
  cases ending with
  | nil => rfl
  | cons c ending =>
      have hLonger : delimiters.any (fun other => (word ++ [c]).isPrefixOf other.toList) = false := by
        refine List.any_eq_false.mpr ?_
        intro other hOther hPrefix
        have hMore := List.isPrefixOf_iff_prefix.mp hPrefix
        have hWord : word.isPrefixOf other.toList = true :=
          List.isPrefixOf_iff_prefix.mpr ((List.prefix_append word [c]).trans hMore)
        have hSame := List.all_eq_true.mp hWords other hOther
        simp only [hWord, Bool.not_true, Bool.false_or, decide_eq_true_eq] at hSame
        rw [hSame] at hMore
        have hLength := hMore.length_le
        rw [List.length_append, List.length_singleton] at hLength
        omega
      have hLiteral : opensLiteral word c = false := by
        unfold opensLiteral
        split <;> first | rfl | simp at hOpens
      simp [delimiterEnds, lengthens, splitsWord, hLonger, hLast, hLiteral]

/-- Whether a delimiter ends before every text that may come behind a node. -/
def endsClear (word : List Char) : Bool :=
  nodeEnders.all fun c => delimiterEnds word [c]

/-- A word that ends clear ends before whatever keeps a node apart. -/
theorem delimiterEnds_of_clears {word ending : List Char} (hWord : endsClear word = true)
    (hEnding : clears ending = true) : delimiterEnds word ending = true := by
  cases ending with
  | nil => rfl
  | cons c ending =>
      refine List.all_eq_true.mp hWord c ?_
      simpa [clears] using hEnding

/-- What is written before an optional field only where it is there. -/
def leadIn (rule : Rule) (index : Nat) : List Char :=
  match optionalSeparator? rule index with
  | some (place, text) => if place = index then text.toList else []
  | none => []

/-- What is always written before a field. -/
def firmGap (rule : Rule) (index : Nat) : List Char :=
  match optionalSeparator? rule index with
  | some _ => []
  | none => (separator rule index).toList

/-- What is always written before the field at an index and behind the one before it. -/
def gapBehind (rule : Rule) (index : Nat) (parts : List Part) : List Char :=
  if (fieldsOf parts).isEmpty then (closing rule).toList else firmGap rule index

/-- A text without a delimiter that it begins with but for spaces. -/
def strip? (word : String) (text : List Char) : Option (List Char) :=
  if word.toList.isPrefixOf (text.dropWhile (· = ' ')) then
    some ((text.dropWhile (· = ' ')).drop word.toList.length)
  else none

/-- What may come right behind what is written of a rule. -/
inductive Follow
  | anything
  /-- What may come behind a node. -/
  | ender
  /-- A line feed. -/
  | lineEnd
deriving DecidableEq

/-- Whether a text is what may come. -/
def Follow.admits : Follow → List Char → Bool
  | anything, _ => true
  | ender, ending => clears ending
  | lineEnd, ending => ending.head? = some '\n'

/-- What may come behind a rule. Statements leave a blank behind them. -/
def Rule.follow (rule : Rule) : Follow :=
  if rule.endsLine then .lineEnd
  else if [.statements, .multilineStatements, .inlineStatements, .noStatements].contains rule then
    .anything
  else .ender

/-- Whether a delimiter ends before a text that goes on with what is kept next. -/
def fixedEnds (follow : Follow) (word text : List Char) (parts : List Part) : Bool :=
  if text.isEmpty then
    isSolid word || ((fieldsOf parts).isEmpty && follow != .anything && endsClear word)
  else delimiterEnds word text

/-- Whether what a rule is opened with ends what stands before it. -/
def opensClear (rule : Rule) : Bool :=
  !spansLines rule && !hasLine rule && !(opening rule).toList.isEmpty &&
    clears (opening rule).toList

/-- Whether what parts leave behind a text ends what stands before it. -/
def endsBehind (rule : Rule) : Nat → List Part → List Char → Bool
  | _, _, c :: _ => clears [c]
  | _, [], [] | _, [.newline], [] => rule.follow != .anything
  | index, .commit :: parts, [] => endsBehind rule index parts []
  | index, .optionalToken _ _ :: parts, [] =>
    !(leadIn rule index).isEmpty && clears (leadIn rule index) &&
      endsBehind rule (index + 1) parts (gapBehind rule (index + 1) parts)
  | index, .optional _ child :: parts, [] =>
    (if (leadIn rule index).isEmpty then opensClear child else clears (leadIn rule index)) &&
      endsBehind rule (index + 1) parts (gapBehind rule (index + 1) parts)
  | index, .many _ child :: parts, [] | index, .some _ child :: parts, [] =>
    (leadIn rule index).isEmpty && opensClear child &&
      endsBehind rule (index + 1) parts (gapBehind rule (index + 1) parts)
  | _, _, [] => false

/-- The kinds of token that nodes keep besides delimiters and literals. -/
def keptKinds : List Kind := [.identifier, .symbol, .comment, .note]

/-- Whether a text and what is written behind it spell the parts of a rule from an index on, piece
by piece, each ended by what comes next. -/
def fits (rule : Rule) : Nat → List Part → List Char → Bool
  | _, [], text => rule.follow != .lineEnd && text.all (· = ' ')
  | index, .keyword word :: parts, text | index, .delimiter word :: parts, text =>
    delimiters.contains word && (strip? word text).any fun rest =>
      fixedEnds rule.follow word.toList rest parts && fits rule index parts rest
  | _, .newline :: parts, text => rule.follow = .lineEnd && parts.isEmpty && text.all (· = ' ')
  | index, .commit :: parts, text => fits rule index parts text
  | index, .choice _ options :: parts, text =>
    text.all (· = ' ') && (leadIn rule index).isEmpty &&
      options.delimiters.all
        (fixedEnds rule.follow ·.toList (gapBehind rule (index + 1) parts) parts) &&
      fits rule (index + 1) parts (gapBehind rule (index + 1) parts)
  | index, .token _ kind :: parts, text =>
    text.all (· = ' ') && (leadIn rule index).isEmpty && keptKinds.contains kind &&
      kind != .note &&
      endsBehind rule (index + 1) parts (gapBehind rule (index + 1) parts) &&
      fits rule (index + 1) parts (gapBehind rule (index + 1) parts)
  | index, .optionalToken _ kind :: parts, text =>
    text.all (· = ' ') && (leadIn rule index).all (· = ' ') && kind = .note &&
      rule.follow = .lineEnd && parts = [.newline] && (closing rule).toList.isEmpty
  | index, .child _ child :: parts, text | index, .line _ child :: parts, text =>
    text.all (· = ' ') && (leadIn rule index).isEmpty && child.follow != .lineEnd &&
      (child.follow = .anything ||
        endsBehind rule (index + 1) parts (gapBehind rule (index + 1) parts)) &&
      fits rule (index + 1) parts (gapBehind rule (index + 1) parts)
  | index, .optional _ child :: parts, text =>
    text.all (· = ' ') && (leadIn rule index).all (· = ' ') && child.follow = .ender &&
      endsBehind rule (index + 1) parts (gapBehind rule (index + 1) parts) &&
      fits rule (index + 1) parts (gapBehind rule (index + 1) parts)
  | index, .many _ child :: parts, text | index, .some _ child :: parts, text =>
    text.all (· = ' ') && (leadIn rule index).isEmpty && child.follow = .ender &&
      opensClear child &&
      endsBehind rule (index + 1) parts (gapBehind rule (index + 1) parts) &&
      fits rule (index + 1) parts (gapBehind rule (index + 1) parts)

/-- What is written of the pieces from an index on, but for what always stands before them. -/
def body (node : Node) (index : Nat) : List (List Char) → List Char
  | [] => []
  | piece :: pieces =>
    (if node.tree.content.holds index then leadIn node.rule index else []) ++ piece ++
      (spread (gapBefore node) (index + 1) pieces ++ (closing node.rule).toList)

/-- The rules whose gaps follow from more than what they stand before. -/
def Rule.gapsPlain (rule : Rule) : Bool :=
  rule != .document && rule != .inversion

theorem optionalSeparator?_place {rule : Rule} {place index : Nat} {text : String}
    (hText : optionalSeparator? rule place = some (index, text)) (hRule : rule ≠ .document) :
    index = place := by
  unfold optionalSeparator? at hText
  split at hText <;> cases hText <;> first | rfl | exact absurd rfl hRule

/-- What stands before a field is the firm gap and, if there is something in the field, what leads
into it. -/
theorem gapBefore_eq {node : Node} (hPlain : node.rule.gapsPlain = true) (index : Nat) :
    gapBefore node (index + 1) = firmGap node.rule (index + 1) ++
      if node.tree.content.holds (index + 1) then leadIn node.rule (index + 1) else [] := by
  obtain ⟨rule, tree⟩ := node
  simp only [Rule.gapsPlain, Bool.and_eq_true, bne_iff_ne] at hPlain
  have hBetween : between ⟨rule, tree⟩ (index + 1) =
      match optionalSeparator? rule (index + 1) with
      | some (place, text) => if tree.content.holds place then text else ""
      | none => separator rule (index + 1) := by
    cases rule <;> first | rfl | exact absurd rfl hPlain.2
  rw [gapBefore, hBetween]
  simp only [firmGap, leadIn]
  cases hText : optionalSeparator? rule (index + 1) with
  | none => simp
  | some pair =>
      obtain ⟨place, text⟩ := pair
      obtain rfl := optionalSeparator?_place hText hPlain.1
      cases hHolds : tree.content.holds (index + 1) <;> simp [hHolds]

theorem Fields.pieces_nil_iff (depth : Nat) (parts : List Part) (fields : Fields (fieldsOf parts)) :
    fields.pieces depth = [] ↔ fieldsOf parts = [] := by
  generalize fieldsOf parts = kept at fields
  cases fields <;> simp [Fields.pieces]

/-- What is written behind a field is written piece by piece, and the closing of the rule is at its
end. -/
theorem spread_closing_eq {node : Node} (hPlain : node.rule.gapsPlain = true) (depth index : Nat)
    (parts : List Part) (fields : Fields (fieldsOf parts)) :
    spread (gapBefore node) (index + 1) (fields.pieces depth) ++ (closing node.rule).toList =
      gapBehind node.rule (index + 1) parts ++ body node (index + 1) (fields.pieces depth) := by
  have hNone := fields.pieces_nil_iff depth parts
  cases hPieces : fields.pieces depth with
  | nil => simp [spread, body, gapBehind, hNone.mp hPieces]
  | cons piece pieces =>
      have hSome : fieldsOf parts ≠ [] := fun hEmpty => by simp [hNone.mpr hEmpty] at hPieces
      simp [spread, body, gapBehind, hSome, gapBefore_eq hPlain]

/-- What is written in front of the first field of a rule that begins no line. -/
def openingOf (rule : Rule) (parts : List Part) : List Char :=
  (if hasLine rule then [] else (opening rule).toList) ++
    if (fieldsOf parts).isEmpty then (closing rule).toList else []

def Form.fits (rule : Rule) : Form → Bool
  | sequence _ parts => DocumentLanguage.fits rule 0 parts (openingOf rule parts)
  | literal _ | oneOf _ => true

def Rule.fitsPlain (rule : Rule) : Bool :=
  rule.gapsPlain && rule != .range && rule != .method && !spansLines rule

theorem Rule.fits_form (rule : Rule) (hPlain : rule.fitsPlain = true) :
    rule.form.fits rule = true := by
  revert hPlain
  cases rule <;> decide

end DocumentLanguage
