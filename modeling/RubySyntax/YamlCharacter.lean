/-!
# Characters of YAML

YAML sorts characters into line breaks, blanks and the rest, and does not admit
control characters at all.
-/

namespace RubySyntax

namespace YamlCharacter

/-- A character that a YAML text may hold. -/
def isAdmitted (character : Char) : Bool :=
  let codePoint := character.toNat
  codePoint == 0x09 || codePoint == 0x0A || codePoint == 0x0D ||
    (0x20 ≤ codePoint && codePoint ≤ 0x7E) || codePoint == 0x85 ||
    (0xA0 ≤ codePoint && codePoint ≤ 0xD7FF) || (0xE000 ≤ codePoint && codePoint ≤ 0xFFFD) ||
    0x10000 ≤ codePoint

def isBreak (character : Char) : Bool :=
  [0x0A, 0x0D, 0x85, 0x2028, 0x2029].contains character.toNat

def isSpaceOrTab (character : Char) : Bool :=
  character == ' ' || character == '\t'

/-- A space, a tab or a line break. -/
def isSeparator (character : Char) : Bool :=
  isSpaceOrTab character || isBreak character

def isSpaceOrBreak (character : Char) : Bool :=
  character == ' ' || isBreak character

/-- Whether a text ends here or goes on with a character that passes a test. -/
def endsOr (test : Char → Bool) (text : List Char) : Bool :=
  text.head?.all test

/-- Whether a text ends here or goes on with a separator. -/
def atSeparator (text : List Char) : Bool :=
  endsOr isSeparator text

/-- The mark that some texts have in front. -/
def byteOrderMark : Char :=
  Char.ofNat 0xFEFF

end YamlCharacter

end RubySyntax
