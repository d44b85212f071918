import DocumentLanguage.Token.Basic
import Mathlib.Algebra.BigOperators.Group.List.Basic
import Mathlib.Algebra.Ring.Int.Defs

/-!
Brackets and lines among tokens: what stands inside a pair of braces, and the lines that the
newlines outside of brackets divide it into. Every bracket counts alike, whether round, square or
curly.
-/
namespace DocumentLanguage

/-- What a token adds to the number of brackets that are open. -/
def Token.turn (token : Token) : Int :=
  if token.kind = .delimiter then
    if ["(", "[", "\x7b"].contains token.text then 1
    else if [")", "]", "\x7d"].contains token.text then -1
    else 0
  else 0

/-- What tokens add to the number of brackets that are open. -/
def turns (tokens : List Token) : Int := (tokens.map Token.turn).sum

/-- The tokens up to the bracket that closes one more than are open. -/
def upToClose : Int → List Token → List Token
  | _, [] => []
  | depth, token :: rest =>
    if depth + token.turn < 0 then [] else token :: upToClose (depth + token.turn) rest

/-- What stands behind each opening brace up to the bracket that closes it, in the order of the
opening braces. -/
def bracedIn : List Token → List (List Token)
  | [] => []
  | token :: rest =>
    if token.isDelimiter "\x7b" then upToClose 0 rest :: bracedIn rest else bracedIn rest

/-- The tokens divided at the newlines where no bracket is open. -/
def linesFrom : Int → List Token → List (List Token)
  | _, [] => [[]]
  | depth, token :: rest =>
    if token.kind = .newline ∧ depth = 0 then [] :: linesFrom 0 rest
    else (linesFrom (depth + token.turn) rest).modifyHead (token :: ·)

def unspaced (tokens : List Token) : List Token := tokens.filter (·.kind ≠ .space)

/-- The lines that tokens are divided into, without those that are empty or hold only spaces. -/
def linesOf (tokens : List Token) : List (List Token) :=
  (linesFrom 0 tokens).filter fun line => !(unspaced line).isEmpty

/-- From so many open brackets on, no more are closed than are open. -/
def Stays : Int → List Token → Prop
  | depth, [] => 0 ≤ depth
  | depth, token :: rest => 0 ≤ depth ∧ Stays (depth + token.turn) rest

/-- From so many open brackets on, there is no newline where none is open. -/
def Unbroken : Int → List Token → Prop
  | _, [] => True
  | depth, token :: rest =>
    (token.kind = .newline → depth ≠ 0) ∧ Unbroken (depth + token.turn) rest

/-- All brackets that are opened are closed, and no others. -/
structure Balanced (tokens : List Token) : Prop where
  stays : Stays 0 tokens
  even : turns tokens = 0

@[simp] theorem turns_nil : turns [] = 0 := rfl

@[simp] theorem turns_cons (token : Token) (rest : List Token) :
    turns (token :: rest) = token.turn + turns rest := by
  simp [turns]

@[simp] theorem turns_append (first second : List Token) :
    turns (first ++ second) = turns first + turns second := by
  simp [turns]

theorem Token.turn_of_kind {token : Token} (hKind : token.kind ≠ .delimiter) : token.turn = 0 := by
  simp [turn, hKind]

/-- Tokens among which there are only spaces, and perhaps newlines. -/
def Gap (overLines : Bool) (tokens : List Token) : Prop :=
  ∀ token ∈ tokens, token.kind = .space ∨ overLines = true ∧ token.kind = .newline

namespace Gap

variable {overLines : Bool} {gap : List Token}

theorem tail {token : Token} (layout : Gap overLines (token :: gap)) : Gap overLines gap :=
  fun other hOther => layout other (List.mem_cons_of_mem _ hOther)

theorem turn {token : Token} (layout : Gap overLines (token :: gap)) : token.turn = 0 := by
  refine Token.turn_of_kind ?_
  rcases layout token List.mem_cons_self with hSpace | ⟨-, hNewline⟩
  · simp [hSpace]
  · simp [hNewline]

theorem turns (layout : Gap overLines gap) : turns gap = 0 := by
  induction gap with
  | nil => rfl
  | cons token gap ih => rw [turns_cons, layout.turn, ih layout.tail, Int.add_zero]

/-- Layout closes no more brackets than are open, since there is none in it. -/
theorem stays {depth : Int} (hDepth : 0 ≤ depth) (layout : Gap overLines gap) : Stays depth gap := by
  induction gap with
  | nil => exact hDepth
  | cons token gap ih =>
    refine ⟨hDepth, ?_⟩
    rw [layout.turn, Int.add_zero]
    exact ih layout.tail

/-- The layout inside a line has no newline in it. -/
theorem unbroken {depth : Int} (layout : Gap false gap) : Unbroken depth gap := by
  induction gap generalizing depth with
  | nil => trivial
  | cons token gap ih =>
    refine ⟨fun hNewline => ?_, ih layout.tail⟩
    rcases layout token List.mem_cons_self with hSpace | ⟨hOver, -⟩
    · rw [hNewline] at hSpace
      cases hSpace
    · cases hOver

theorem unspaced (layout : Gap false gap) : unspaced gap = [] := by
  refine List.filter_eq_nil_iff.mpr fun token hToken => ?_
  rcases layout token hToken with hSpace | ⟨hOver, -⟩
  · simp [hSpace]
  · cases hOver

end Gap

/-- Where no more brackets are closed than are open, the number of open ones is not negative to
begin with. -/
theorem Stays.nonneg {depth : Int} {tokens : List Token} (stays : Stays depth tokens) : 0 ≤ depth := by
  cases tokens with
  | nil => exact stays
  | cons => exact stays.1

/-- Two runs of tokens close no more brackets than are open if the first one does not, and the
second one closes no more than the first one leaves open. -/
theorem stays_append {depth : Int} {first second : List Token} :
    Stays depth (first ++ second) ↔ Stays depth first ∧ Stays (depth + turns first) second := by
  induction first generalizing depth with
  | nil =>
    rw [List.nil_append, turns_nil, Int.add_zero]
    exact ⟨fun hStays => ⟨hStays.nonneg, hStays⟩, And.right⟩
  | cons token first ih =>
    rw [List.cons_append, Stays, Stays, ih, turns_cons, ← Int.add_assoc, and_assoc]

/-- Tokens that close no more brackets than are open do not do so where further ones are open. -/
theorem Stays.mono {depth deeper : Int} {tokens : List Token} (stays : Stays depth tokens)
    (hDeeper : depth ≤ deeper) : Stays deeper tokens := by
  induction tokens generalizing depth deeper with
  | nil => exact Int.le_trans stays hDeeper
  | cons token tokens ih =>
    exact ⟨Int.le_trans stays.1 hDeeper, ih stays.2 (Int.add_le_add_right hDeeper _)⟩

/-- Two runs of tokens are unbroken if the first one is and the second one is from the depth behind
it. -/
theorem unbroken_append {depth : Int} {first second : List Token} :
    Unbroken depth (first ++ second) ↔
      Unbroken depth first ∧ Unbroken (depth + turns first) second := by
  induction first generalizing depth with
  | nil => simp [Unbroken]
  | cons token first ih =>
    rw [List.cons_append, Unbroken, Unbroken, ih, turns_cons, ← Int.add_assoc, and_assoc]

/-- Behind an open bracket no newline breaks the line, since all of them stand inside that bracket.
-/
theorem Stays.unbroken {depth deeper : Int} {tokens : List Token} (stays : Stays depth tokens)
    (hDeeper : depth < deeper) : Unbroken deeper tokens := by
  induction tokens generalizing depth deeper with
  | nil => trivial
  | cons token tokens ih =>
    have hHere : 0 ≤ depth := stays.1
    exact ⟨fun _ => by omega, ih stays.2 (by omega)⟩

namespace Balanced

variable {first second : List Token}

/-- Balanced tokens behind balanced ones are balanced together. -/
theorem append (left : Balanced first) (right : Balanced second) : Balanced (first ++ second) where
  stays := stays_append.mpr ⟨left.stays, by rw [left.even]; exact right.stays⟩
  even := by rw [turns_append, left.even, right.even, Int.add_zero]

theorem gap {overLines : Bool} (layout : Gap overLines first) : Balanced first :=
  ⟨layout.stays (Int.le_refl 0), layout.turns⟩

theorem single {token : Token} (hTurn : token.turn = 0) : Balanced [token] :=
  ⟨⟨Int.le_refl 0, by simp [Stays, hTurn]⟩, by simp [hTurn]⟩

end Balanced

/-- What comes up to the closing bracket begins with all tokens that close no more than is open. -/
theorem upToClose_append {depth : Int} {first : List Token} (stays : Stays depth first)
    (second : List Token) :
    upToClose depth (first ++ second) = first ++ upToClose (depth + turns first) second := by
  induction first generalizing depth with
  | nil => simp
  | cons token first ih =>
    have hHere := stays.2.nonneg
    rw [List.cons_append, upToClose, if_neg (by omega), ih stays.2, turns_cons, ← Int.add_assoc,
      List.cons_append]

/-- Where no brace is opened nothing is inside of one, and the tokens behind are looked at by
themselves. -/
theorem bracedIn_append_of_forall_not {tokens : List Token}
    (hNone : ∀ token ∈ tokens, token.isDelimiter "\x7b" = false) (behind : List Token) :
    bracedIn (tokens ++ behind) = bracedIn behind := by
  induction tokens with
  | nil => rfl
  | cons token tokens ih =>
    rw [List.forall_mem_cons] at hNone
    rw [List.cons_append, bracedIn, hNone.1, ih hNone.2]
    rfl

/-- What comes before a newline outside of all brackets is one line. -/
theorem linesFrom_append_newline {depth : Int} {tokens : List Token} (unbroken : Unbroken depth tokens)
    (hClosed : depth + turns tokens = 0) {newline : Token} (hNewline : newline.kind = .newline)
    (rest : List Token) :
    linesFrom depth (tokens ++ newline :: rest) = tokens :: linesFrom 0 rest := by
  induction tokens generalizing depth with
  | nil =>
    rw [turns_nil, Int.add_zero] at hClosed
    rw [List.nil_append, linesFrom, if_pos ⟨hNewline, hClosed⟩]
  | cons token tokens ih =>
    rw [turns_cons, ← Int.add_assoc] at hClosed
    rw [List.cons_append, linesFrom, if_neg fun h => unbroken.1 h.1 h.2, ih unbroken.2 hClosed]
    rfl

/-- A gap adds empty lines and perhaps spaces at the start of the next line. -/
theorem linesFrom_gap_append {gap line : List Token} {lines : List (List Token)}
    (layout : Gap true gap) (behind : List Token) (hBehind : linesFrom 0 behind = line :: lines) :
    ∃ blanks spaces, linesFrom 0 (gap ++ behind) = blanks ++ (spaces ++ line) :: lines ∧
      (∀ blank ∈ blanks, Gap false blank) ∧ Gap false spaces := by
  induction gap with
  | nil => exact ⟨[], [], hBehind, nofun, nofun⟩
  | cons token gap ih =>
    obtain ⟨blanks, spaces, hLines, hBlanks, hSpaces⟩ := ih layout.tail
    rw [List.cons_append, linesFrom, layout.turn, Int.add_zero, hLines]
    rcases layout token List.mem_cons_self with hSpace | ⟨-, hNewline⟩
    · have hHead : ∀ {spaces}, Gap false spaces → Gap false (token :: spaces) :=
        fun hSpaces => List.forall_mem_cons.mpr ⟨.inl hSpace, hSpaces⟩
      rw [if_neg (by simp [hSpace])]
      cases blanks with
      | nil => exact ⟨[], token :: spaces, rfl, nofun, hHead hSpaces⟩
      | cons blank blanks =>
        rw [List.forall_mem_cons] at hBlanks
        exact ⟨(token :: blank) :: blanks, spaces, rfl,
          List.forall_mem_cons.mpr ⟨hHead hBlanks.1, hBlanks.2⟩, hSpaces⟩
    · rw [if_pos ⟨hNewline, rfl⟩]
      exact ⟨[] :: blanks, spaces, rfl, List.forall_mem_cons.mpr ⟨nofun, hBlanks⟩, hSpaces⟩

/-- Lines with nothing but spaces are left out of the lines of a block. -/
theorem filter_blanks {blanks : List (List Token)} (hBlanks : ∀ blank ∈ blanks, Gap false blank) :
    (blanks.filter fun line => !(unspaced line).isEmpty) = [] :=
  List.filter_eq_nil_iff.mpr fun blank hBlank => by simp [(hBlanks blank hBlank).unspaced]

/-- A gap holds no lines, since all that stands on its lines is space. -/
theorem linesOf_gap {gap : List Token} (layout : Gap true gap) : linesOf gap = [] := by
  obtain ⟨blanks, spaces, hLines, hBlanks, hSpaces⟩ := linesFrom_gap_append layout [] rfl
  rw [List.append_nil] at hLines
  rw [linesOf, hLines]
  exact filter_blanks (List.forall_mem_append.mpr ⟨hBlanks, by simpa using hSpaces⟩)

/-- Behind a gap the first line is what comes before the next newline outside of all brackets,
perhaps with spaces before it. -/
theorem linesOf_gap_append {gap line : List Token} (layout : Gap true gap) (balanced : Balanced line)
    (unbroken : Unbroken 0 line) (hSolid : unspaced line ≠ []) {newline : Token}
    (hNewline : newline.kind = .newline) (rest : List Token) :
    ∃ spaces, Gap false spaces ∧
      linesOf (gap ++ (line ++ newline :: rest)) = (spaces ++ line) :: linesOf rest := by
  have hBehind : linesFrom 0 (line ++ newline :: rest) = line :: linesFrom 0 rest :=
    linesFrom_append_newline unbroken (by rw [balanced.even]; rfl) hNewline rest
  obtain ⟨blanks, spaces, hLines, hBlanks, hSpaces⟩ := linesFrom_gap_append layout _ hBehind
  refine ⟨spaces, hSpaces, ?_⟩
  have hLine : (!(unspaced (spaces ++ line)).isEmpty) = true := by
    have hUnspaced : unspaced (spaces ++ line) = unspaced spaces ++ unspaced line :=
      List.filter_append ..
    rw [hUnspaced, hSpaces.unspaced]
    simpa using hSolid
  rw [linesOf, hLines, List.filter_append, filter_blanks hBlanks, List.nil_append,
    List.filter_cons, if_pos hLine, linesOf]

/-- A newline outside of all brackets with only spaces before it ends no line. -/
theorem linesOf_spaces_newline {spaces : List Token} (layout : Gap false spaces) {newline : Token}
    (hNewline : newline.kind = .newline) (rest : List Token) :
    linesOf (spaces ++ newline :: rest) = linesOf rest := by
  have hLines : linesFrom 0 (spaces ++ newline :: rest) = spaces :: linesFrom 0 rest :=
    linesFrom_append_newline layout.unbroken (by rw [layout.turns]; rfl) hNewline rest
  rw [linesOf, hLines, List.filter_cons_of_neg (by simp [layout.unspaced]), linesOf]

end DocumentLanguage
