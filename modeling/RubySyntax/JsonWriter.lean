import RubySyntax.ValueDisplay

/-!
# Writing JSON

Texts are written with their characters as they are, apart from the quote, the
backslash and control characters.  A document stands on one line, or each item
and entry stands on a line of its own, two blanks further in than its holder.
Integers are written here whatever their length; a tree that holds one with too
many digits is refused before it is written.
-/

namespace RubySyntax

namespace JsonWriter

def escaped (character : Char) : List Char :=
  if character.toNat = 0x22 then ['\\', character]
  else if character = '\\' then ['\\', '\\']
  else if character.toNat = 0x08 then ['\\', 'b']
  else if character.toNat = 0x0C then ['\\', 'f']
  else if character = '\n' then ['\\', 'n']
  else if character = '\r' then ['\\', 'r']
  else if character = '\t' then ['\\', 't']
  else if character.toNat < 0x20 then '\\' :: 'u' :: hexDigits 4 character.toNat
  else [character]

def stringText (text : String) : String :=
  "\"" ++ String.ofList (text.toList.flatMap escaped) ++ "\""

/-- A floating-point number; words stand for those that are not finite. -/
def numberText (number : Float) : String :=
  if number.isNaN then "NaN"
  else if number.isInf then if number < 0.0 then "-Infinity" else "Infinity"
  else floatText number

/-- Whether items stand on lines of their own. -/
structure Layout where
  pretty : Bool

namespace Layout

def lineBreak (level : Nat) : String :=
  "\n" ++ String.ofList (List.replicate (2 * level) ' ')

/-- What stands between the opening bracket and the first item of a level. -/
def opening (layout : Layout) (level : Nat) : String :=
  if layout.pretty then lineBreak level else ""

def between (layout : Layout) (level : Nat) : String :=
  if layout.pretty then "," ++ lineBreak level else ", "

end Layout

mutual

def valueText (layout : Layout) (level : Nat) : Value → String
  | .null => "null"
  | .bool value => if value then "true" else "false"
  | .int value => toString value
  | .float value => numberText value
  | .text value => stringText value
  | .list [] => "[]"
  | .list (item :: items) =>
    "[" ++ layout.opening (level + 1) ++ valueText layout (level + 1) item ++
      itemTexts layout (level + 1) items ++ layout.opening level ++ "]"
  | .record [] => "\x7b\x7d"
  | .record ((key, value) :: entries) =>
    "\x7b" ++ layout.opening (level + 1) ++ stringText key.toText ++ ": " ++
      valueText layout (level + 1) value ++ entryTexts layout (level + 1) entries ++
      layout.opening level ++ "\x7d"
  | value => stringText value.toText

def itemTexts (layout : Layout) (level : Nat) : List Value → String
  | [] => ""
  | item :: items =>
    layout.between level ++ valueText layout level item ++ itemTexts layout level items

def entryTexts (layout : Layout) (level : Nat) : List (Value × Value) → String
  | [] => ""
  | (key, value) :: entries =>
    layout.between level ++ stringText key.toText ++ ": " ++ valueText layout level value ++
      entryTexts layout level entries

end

end JsonWriter

def writeJson (pretty : Bool) (value : Value) : String :=
  JsonWriter.valueText ⟨pretty⟩ 0 value

end RubySyntax
