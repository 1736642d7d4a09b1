import RubySyntax.TextLines

/-!
# Source excerpts

An excerpt shows one line of a text with its neighbours.  The lines are
numbered from one, the shown line is marked, and a caret may point into it.
-/

namespace RubySyntax

namespace SourceExcerpt

/-- The lines that an excerpt can show.  A text that ends in a line feed has an empty line
behind it, which is only there for those who ask for it. -/
def shownLines (text : List Char) (line : Int) : List (List Char) :=
  let lines := splitLines text
  if line = lines.length + 1 ∧ text.getLast? = some '\n' then lines ++ [[]] else lines

def rightAligned (width : Nat) (number : Int) : String :=
  let digits := toString number
  String.ofList (List.replicate (width - digits.length) ' ') ++ digits

/-- One line of an excerpt with its number, and the caret below it if it has one. -/
def row (width : Nat) (line : Int) (column : Option Int) (number : Int) (content : List Char) :
    List String :=
  let mark := if number = line then ">" else " "
  let shown := mark ++ " " ++ rightAligned width number ++ " | " ++ String.ofList content
  match column with
  | some column =>
    if number = line then
      let margin := String.ofList (List.replicate width ' ')
      let indent := String.ofList (List.replicate (column - 1).toNat ' ')
      [shown, "  " ++ margin ++ " | " ++ indent ++ "^"]
    else [shown]
  | none => [shown]

def numbersBetween (first last : Int) : List Int :=
  (List.range (last + 1 - first).toNat).map fun (index : Nat) => first + (index : Int)

/-- The rows around a line, none if the text has no such line. -/
def rows (text : List Char) (line : Int) (column : Option Int) (radius : Int) : List String :=
  let lines := shownLines text line
  if line < 1 ∨ lines.length < line then []
  else
    let first := max 1 (line - radius)
    let last := min (lines.length : Int) (line + radius)
    let width := (toString last).length
    (numbersBetween first last).flatMap fun number =>
      row width line column number (lines[(number - 1).toNat]?.getD [])

end SourceExcerpt

/-- The lines of a text around a given one, as one text. -/
def sourceExcerpt (text : List Char) (line : Int) (column : Option Int) (radius : Int) : String :=
  "\n".intercalate (SourceExcerpt.rows text line column radius)

end RubySyntax
