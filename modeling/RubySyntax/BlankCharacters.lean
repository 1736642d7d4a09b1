/-!
# Blank characters

A blank is a character of the Unicode property `White_Space` or one of the four
information separators U+001C to U+001F.  Blanks separate tokens, and they are
the characters removed at both ends of a line that is read interactively.
-/

namespace RubySyntax

/-- What holds of every member of a list is decided along the list, also where everything of the
members' type could be tried. -/
instance (priority := high) decidableForallMem {α : Type} {property : α → Prop} [DecidablePred property]
    (members : List α) : Decidable (∀ member ∈ members, property member) :=
  List.decidableBAll property members

instance (priority := high) decidableForallMemOption {α : Type} {property : α → Prop}
    [DecidablePred property] (held : Option α) : Decidable (∀ member ∈ held, property member) :=
  inferInstance

/-- The code points of the blank characters, in increasing order. -/
def blankCodePoints : List Nat :=
  [0x09, 0x0A, 0x0B, 0x0C, 0x0D, 0x1C, 0x1D, 0x1E, 0x1F, 0x20, 0x85, 0xA0, 0x1680,
    0x2000, 0x2001, 0x2002, 0x2003, 0x2004, 0x2005, 0x2006, 0x2007, 0x2008, 0x2009,
    0x200A, 0x2028, 0x2029, 0x202F, 0x205F, 0x3000]

/-- A character that only separates tokens. -/
def isBlank (character : Char) : Bool :=
  blankCodePoints.contains character.toNat

def dropLeadingBlanks (text : List Char) : List Char :=
  text.dropWhile isBlank

def trimBlanks (text : List Char) : List Char :=
  (dropLeadingBlanks (dropLeadingBlanks text).reverse).reverse

end RubySyntax
