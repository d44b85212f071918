/-! Classes of characters in YAML. -/
namespace DocumentLanguage.Yaml

def isAllowed (c : Char) : Bool :=
  c = '\t' ∨ c = '\n' ∨ c = '\r' ∨ (' ' ≤ c ∧ c ≤ '~') ∨ c = '\x85' ∨
    ('\u00a0' ≤ c ∧ c ≤ '\ufffd') ∨ 0x10000 ≤ c.toNat

def byteOrderMark : Char := '\ufeff'

def isPrintable (c : Char) : Bool :=
  c = '\n' ∨ (' ' ≤ c ∧ c ≤ '~') ∨
    ('\u00a0' ≤ c ∧ c ≤ '\ufffd' ∧ c ≠ byteOrderMark) ∨ 0x10000 ≤ c.toNat

def isBlank (c : Char) : Bool := c = ' ' ∨ c = '\t'

def isBreak (c : Char) : Bool :=
  c = '\r' ∨ c = '\n' ∨ c = '\x85' ∨ c = '\u2028' ∨ c = '\u2029'

/-- Whether a blank, the end of a line or the end of the stream comes first. -/
def atBlank : List Char → Bool
  | [] => true
  | c :: _ => isBlank c || isBreak c

def isNameChar (c : Char) : Bool := c.isAlphanum || c = '_' || c = '-'

def isIndicator (c : Char) : Bool :=
  [',', '[', ']', '{', '}', '#', '&', '*', '!', '|', '>', '\'', '"', '%', '@', '`'].contains c

end DocumentLanguage.Yaml
