import DocumentLanguage.Yaml.Gap

/-! Plain scalars: words without quotes, which may go on over several lines. -/
namespace DocumentLanguage.Yaml

def endsInFlow (c : Char) : Bool := [',', '[', ']', '{', '}'].contains c

/-- The length of the word at the start of a plain scalar, unless it holds a colon that may not
stand there. -/
def plainWord? (flow : Bool) : List Char → Option Nat
  | [] => some 0
  | c :: rest =>
    if isBlank c || isBreak c then some 0
    else if c = ':' && flow && rest.head?.any fun d => endsInFlow d || d = '?' then none
    else if c = ':' && atBlank rest then some 0
    else if flow && endsInFlow c then some 0
    else (plainWord? flow rest).map (· + 1)

/-- A plain scalar from a place on, behind a gap: the place at its end, its text and whether a
line has ended behind it. The bound counts characters. -/
def readPlain (flow : Bool) (indent : Nat) :
    Nat → Place → Gap → List Char → Option (Place × List Char × Bool)
  | 0, place, gap, text => some (place, text, gap.broken)
  | bound + 1, place, gap, text =>
    if place.atMark || place.at? '#' then some (place, text, gap.broken)
    else do
      let length ← plainWord? flow place.rest
      let word := place.rest.take length
      let (text, gap) :=
        if word.isEmpty then (text, gap) else (text ++ gap.text ++ word, ({} : Gap))
      let place := place.skipMany length
      if place.rest.isEmpty || !atBlank place.rest then pure (place, text, gap.broken)
      else
        let (place, gap) ← passGap indent bound place gap
        if !flow && place.column < indent then pure (place, text, gap.broken)
        else readPlain flow indent bound place gap text

end DocumentLanguage.Yaml
