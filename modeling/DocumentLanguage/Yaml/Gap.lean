import DocumentLanguage.Yaml.Place

/-!
The gaps between the words of a scalar that is no block. The end of a line counts as a space, and
empty lines behind it count instead of it.
-/
namespace DocumentLanguage.Yaml

/-- Blanks and ends of lines that stand between two words of a scalar. -/
structure Gap where
  /-- Blanks before the end of the line. -/
  blanks : List Char := []
  /-- Whether a line has ended, and how. -/
  broken : Bool := false
  first : List Char := []
  /-- The ends of the empty lines behind it. -/
  more : List Char := []

def Gap.text (gap : Gap) : List Char :=
  if !gap.broken then gap.blanks
  else if gap.first = ['\n'] then (if gap.more.isEmpty then [' '] else gap.more)
  else gap.first ++ gap.more

/-- Pass a gap. A tab may not stand left of a certain column on a new line. The bound counts
characters. -/
def passGap (column : Nat) : Nat → Place → Gap → Option (Place × Gap)
  | 0, place, gap => some (place, gap)
  | bound + 1, place, gap =>
    match place.rest with
    | [] => some (place, gap)
    | c :: _ =>
      if isBlank c then
        if gap.broken && place.column < column && c = '\t' then none
        else
          passGap column bound place.skip
            (if gap.broken then gap else { gap with blanks := gap.blanks ++ [c] })
      else if isBreak c then
        passGap column bound place.skipLine
          (if gap.broken then { gap with more := gap.more ++ place.lineEnd }
           else { broken := true, first := place.lineEnd })
      else some (place, gap)

end DocumentLanguage.Yaml
