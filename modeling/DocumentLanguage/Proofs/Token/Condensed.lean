import DocumentLanguage.Proofs.Parse.Derivation
import Mathlib.Data.List.DropRight

/-!
Tokens without what does not count. Spaces do not, and of newlines in a row and between spaces only
that there are some. Lists of tokens that agree but for that go on alike wherever they are read.
-/
namespace DocumentLanguage

/-- What counts of a token: its kind, and its text unless it is a newline. -/
def Token.content (token : Token) : Kind × String :=
  (token.kind, if token.kind = .newline then "" else token.text)

def joinNewlines : List (Kind × String) → List (Kind × String)
  | first :: second :: rest =>
    if first.1 = .newline ∧ second.1 = .newline then joinNewlines (second :: rest)
    else first :: joinNewlines (second :: rest)
  | short => short

/-- What counts of tokens. -/
def condensed (tokens : List Token) : List (Kind × String) :=
  joinNewlines ((tokens.filter (·.kind ≠ .space)).map Token.content)

def dropLayout (tokens : List Token) : List Token :=
  tokens.dropWhile (·.kind.isLayout)

/-- A token is a space, a newline or no layout at all. -/
theorem Kind.layout_cases (kind : Kind) :
    kind = .space ∨ kind = .newline ∨ kind.isLayout = false := by
  cases kind <;> decide

theorem Kind.ne_newline {kind : Kind} (hSolid : kind.isLayout = false) : kind ≠ .newline := by
  rintro rfl
  cases hSolid

theorem Kind.ne_space {kind : Kind} (hSolid : kind.isLayout = false) : kind ≠ .space := by
  rintro rfl
  cases hSolid

section

variable {token : Token} {rest : List Token}

theorem dropLayout_of_isLayout (hLayout : token.kind.isLayout = true) :
    dropLayout (token :: rest) = dropLayout rest :=
  List.dropWhile_cons_of_pos hLayout

theorem dropLayout_of_not_isLayout (hSolid : token.kind.isLayout = false) :
    dropLayout (token :: rest) = token :: rest :=
  List.dropWhile_cons_of_neg (by simp [hSolid])

@[simp] theorem condensed_nil : condensed [] = [] := rfl

/-- A space does not show in what is left of tokens. -/
theorem condensed_space (hKind : token.kind = .space) :
    condensed (token :: rest) = condensed rest := by
  simp [condensed, hKind]

/-- A token that is no layout shows in what is left of tokens with its kind and its text. -/
theorem condensed_solid (hSolid : token.kind.isLayout = false) :
    condensed (token :: rest) = token.content :: condensed rest := by
  have hNewline := Kind.ne_newline hSolid
  simp only [condensed, List.filter_cons, Kind.ne_space hSolid, ne_eq, not_false_eq_true, decide_true, if_true,
    List.map_cons]
  cases (rest.filter (·.kind ≠ .space)).map Token.content with
  | nil => rfl
  | cons second rest => simp [joinNewlines, Token.content, hNewline]

/-- A newline shows once, and the layout behind it does not. -/
theorem condensed_newline (hKind : token.kind = .newline) :
    condensed (token :: rest) = (.newline, "") :: condensed (dropLayout rest) := by
  induction rest generalizing token with
  | nil => simp [condensed, joinNewlines, Token.content, hKind, dropLayout]
  | cons second rest ih =>
      rcases second.kind.layout_cases with hSpace | hNewline | hSolid
      · have hSkip : condensed (token :: second :: rest) = condensed (token :: rest) := by
          simp [condensed, hKind, hSpace]
        rw [hSkip, ih hKind, dropLayout_of_isLayout (by rw [hSpace]; rfl)]
      · have hJoin : condensed (token :: second :: rest) = condensed (second :: rest) := by
          simp [condensed, hKind, hNewline, joinNewlines, Token.content]
        rw [hJoin, ih hNewline, dropLayout_of_isLayout (by rw [hNewline]; rfl)]
      · rw [dropLayout_of_not_isLayout hSolid, condensed_solid hSolid]
        have hJoin : joinNewlines (token.content ::
            ((second :: rest).filter (·.kind ≠ .space)).map Token.content) =
              token.content :: condensed (second :: rest) := by
          simp [condensed, Kind.ne_space hSolid, joinNewlines, Token.content,
            Kind.ne_newline hSolid]
        rw [condensed_solid hSolid] at hJoin
        simpa [condensed, hKind, Token.content] using hJoin

end

/-- Leaving out the spaces in front changes nothing about what is left. -/
theorem condensed_dropSpaces (tokens : List Token) :
    condensed (tokens.dropWhile (·.kind = .space)) = condensed tokens := by
  induction tokens with
  | nil => rfl
  | cons token tokens ih =>
      by_cases hSpace : token.kind = .space
      · rw [List.dropWhile_cons_of_pos (by simpa using hSpace), ih, condensed_space hSpace]
      · rw [List.dropWhile_cons_of_neg (by simpa using hSpace)]

/-- Of what counts, only a newline in front is lost with the layout in front of tokens. -/
theorem condensed_dropLayout (tokens : List Token) :
    condensed (dropLayout tokens) = (condensed tokens).dropWhile (·.1 = .newline) := by
  induction tokens with
  | nil => rfl
  | cons token tokens ih =>
      rcases token.kind.layout_cases with hSpace | hNewline | hSolid
      · rw [dropLayout_of_isLayout (by rw [hSpace]; rfl), condensed_space hSpace, ih]
      · rw [dropLayout_of_isLayout (by rw [hNewline]; rfl), condensed_newline hNewline, ih,
          List.dropWhile_cons_of_pos (by simp), List.dropWhile_idempotent]
      · rw [dropLayout_of_not_isLayout hSolid, condensed_solid hSolid,
          List.dropWhile_cons_of_neg (by simp [Token.content, Kind.ne_newline hSolid])]

/-- Tokens that say the same to a reader, which may be behind a newline already and then does not
see how many there are. -/
def AlikeTokens (behindLine : Bool) (tokens tokens' : List Token) : Prop :=
  if behindLine then condensed (dropLayout tokens) = condensed (dropLayout tokens')
  else condensed tokens = condensed tokens'

/-- Two tokens of the same kind and text. -/
structure Token.Same (token token' : Token) : Prop where
  kind : token'.kind = token.kind
  text : token'.text = token.text

theorem Token.kind_of_content {token token' : Token} (hContent : token'.content = token.content) :
    token'.kind = token.kind :=
  congrArg Prod.fst hContent

/-- Tokens with the same kind and text are the same but for where they stand, if they are no
newlines. -/
theorem Token.same_of_content {token token' : Token} (hContent : token'.content = token.content)
    (hKind : token.kind ≠ .newline) : token.Same token' where
  kind := kind_of_content hContent
  text := by
    have hText := congrArg Prod.snd hContent
    simpa only [content, kind_of_content hContent, if_neg hKind] using hText

/-- Tokens that go on alike. Behind a newline the layout may not be the same. -/
inductive AlikeNext : List Token → List Token → Prop
  | nil : AlikeNext [] []
  | cons {token token' : Token} {rest rest' : List Token}
      (hContent : token'.content = token.content)
      (hRest : AlikeTokens (token.kind = .newline) rest rest') :
      AlikeNext (token :: rest) (token' :: rest')

theorem isLayout_of_head?_dropLayout {tokens : List Token} {token : Token}
    (hHead : token ∈ (dropLayout tokens).head?) : token.kind.isLayout = false := by
  have hNot := List.head?_dropWhile_not (fun token : Token => token.kind.isLayout) tokens
  rw [dropLayout, Option.mem_def] at hHead
  rw [hHead] at hNot
  exact hNot

/-- Where tokens do not begin with a space, what counts of them is what counts of the first, and
then of those behind it. -/
theorem condensed_cons {token : Token} (hSpace : token.kind ≠ .space) (rest : List Token) :
    condensed (token :: rest) = token.content ::
      condensed (if token.kind = .newline then dropLayout rest else rest) := by
  rcases token.kind.layout_cases with hKind | hNewline | hSolid
  · exact absurd hKind hSpace
  · simp [condensed_newline hNewline, Token.content, hNewline]
  · rw [condensed_solid hSolid, if_neg (Kind.ne_newline hSolid)]

namespace AlikeTokens

variable {behindLine : Bool} {tokens tokens' : List Token}

/-- Tokens that are alike are alike to a reader behind a newline, too, which does not see how many
more there are. -/
theorem loosen (alike : AlikeTokens behindLine tokens tokens') : AlikeTokens true tokens tokens' := by
  cases behindLine with
  | true => exact alike
  | false =>
      have hSame : condensed tokens = condensed tokens' := alike
      show condensed (dropLayout tokens) = condensed (dropLayout tokens')
      rw [condensed_dropLayout, condensed_dropLayout, hSame]

/-- Behind their layout tokens that are alike are alike from a token on. -/
theorem behindLayout (alike : AlikeTokens behindLine tokens tokens') :
    AlikeTokens false (dropLayout tokens) (dropLayout tokens') :=
  alike.loosen

/-- Tokens that do not begin with a space go on alike if all that counts is the same. -/
theorem next (hTokens : ∀ token ∈ tokens.head?, token.kind ≠ .space)
    (hTokens' : ∀ token ∈ tokens'.head?, token.kind ≠ .space)
    (alike : AlikeTokens false tokens tokens') : AlikeNext tokens tokens' := by
  have hSame : condensed tokens = condensed tokens' := alike
  cases tokens with
  | nil =>
      cases tokens' with
      | nil => exact .nil
      | cons token' rest' => simp [condensed_cons (hTokens' token' rfl)] at hSame
  | cons token rest =>
      cases tokens' with
      | nil => simp [condensed_cons (hTokens token rfl)] at hSame
      | cons token' rest' =>
          rw [condensed_cons (hTokens token rfl), condensed_cons (hTokens' token' rfl),
            List.cons.injEq] at hSame
          refine .cons hSame.1.symm ?_
          have hRest := hSame.2
          rw [Token.kind_of_content hSame.1.symm] at hRest
          by_cases hNewline : token.kind = .newline
          · simpa [AlikeTokens, hNewline] using hRest
          · simpa [AlikeTokens, hNewline] using hRest

/-- Behind their spaces tokens that are alike go on alike: the next token is the same, and so is
what counts behind it. -/
theorem next_dropSpaces (alike : AlikeTokens false tokens tokens') :
    AlikeNext (tokens.dropWhile (·.kind = .space)) (tokens'.dropWhile (·.kind = .space)) := by
  have hHead : ∀ tokens : List Token,
      ∀ token ∈ (tokens.dropWhile (·.kind = .space)).head?, token.kind ≠ .space := by
    intro tokens token hToken
    have hNot := List.head?_dropWhile_not (fun token : Token => decide (token.kind = .space)) tokens
    rw [Option.mem_def.mp hToken] at hNot
    simpa using hNot
  refine next (hHead tokens) (hHead tokens') ?_
  show condensed _ = condensed _
  rw [condensed_dropSpaces, condensed_dropSpaces]
  exact alike

/-- Behind layout tokens go on with the same token, if with any. -/
theorem next_dropLayout (alike : AlikeTokens behindLine tokens tokens') :
    AlikeNext (dropLayout tokens) (dropLayout tokens') :=
  next (fun _ hHead => Kind.ne_space (isLayout_of_head?_dropLayout hHead))
    (fun _ hHead => Kind.ne_space (isLayout_of_head?_dropLayout hHead)) alike.behindLayout

end AlikeTokens

end DocumentLanguage
