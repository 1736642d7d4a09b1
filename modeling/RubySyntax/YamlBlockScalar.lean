import RubySyntax.YamlCursor

/-!
# Block scalars of YAML

A block scalar takes its lines as they are indented.  Its header says whether
line breaks are folded, what becomes of those at its end, and how far the lines
are indented if the first one does not show it.
-/

namespace RubySyntax

namespace YamlBlockScalar

/-- What becomes of the line breaks at the end of a scalar. -/
inductive Chomping where
  /-- One is kept. -/
  | clip
  /-- None is kept. -/
  | strip
  /-- All are kept. -/
  | keep
deriving DecidableEq, Repr

/-- The marks behind the indicator of a block scalar. -/
structure Header where
  chomping : Chomping
  increment : Option Nat
deriving DecidableEq, Repr

/-- A sign that says what becomes of the line breaks at the end. -/
def chomping? : Option Char → Option Chomping
  | some '+' => some .keep
  | some '-' => some .strip
  | _ => none

/-- A digit that gives the indentation. -/
def increment? : Option Char → Option Nat
  | some character => if character.isDigit then some (character.toNat - 0x30) else none
  | none => none

/-- The marks in one of their two orders, and the place behind them. -/
def readMarks (cursor : YamlCursor) : Header × YamlCursor :=
  match chomping? cursor.peek? with
  | some chomping =>
    let behind := cursor.step
    match increment? behind.peek? with
    | some increment => (⟨chomping, some increment⟩, behind.step)
    | none => (⟨chomping, none⟩, behind)
  | none =>
    match increment? cursor.peek? with
    | none => (⟨.clip, none⟩, cursor)
    | some increment =>
      let behind := cursor.step
      match chomping? behind.peek? with
      | some chomping => (⟨chomping, some increment⟩, behind.step)
      | none => (⟨.clip, some increment⟩, behind)

/-- The header whose marks are next, and the start of the line behind it. -/
def readHeader (cursor : YamlCursor) : Except YamlFault (Header × YamlCursor) := do
  let (header, behind) := readMarks cursor
  if header.increment = some 0 ∨ !behind.atSpaceOrLineEnd then throw .malformed
  let next ← behind.finishLine
  return (header, next)

/-- The empty lines in front of a scalar, the greatest indentation among them, and the place
behind them. -/
def leadingBreaks (greatest : Nat) : Nat → YamlCursor → List Char × Nat × YamlCursor
  | 0, cursor => ([], greatest, cursor)
  | bound + 1, cursor =>
    if cursor.isAt ' ' then leadingBreaks (max greatest cursor.step.column) bound cursor.step
    else
      match cursor.takeBreak? with
      | none => ([], greatest, cursor)
      | some (character, next) =>
        let (breaks, indent, last) := leadingBreaks greatest bound next
        (character :: breaks, indent, last)

/-- The place behind the spaces in front of a column. -/
def skipIndent (indent : Nat) : Nat → YamlCursor → YamlCursor
  | 0, cursor => cursor
  | bound + 1, cursor =>
    if cursor.column < indent && cursor.isAt ' ' then skipIndent indent bound cursor.step
    else cursor

/-- The empty lines between two lines of a scalar, and the place behind the indentation of the
next one. -/
def innerBreaks (indent : Nat) : Nat → YamlCursor → List Char × YamlCursor
  | 0, cursor => ([], cursor)
  | bound + 1, cursor =>
    let cursor := skipIndent indent cursor.rest.length cursor
    match cursor.takeBreak? with
    | none => ([], cursor)
    | some (character, next) =>
      let (breaks, last) := innerBreaks indent bound next
      (character :: breaks, last)

/-- Whether a line of the scalar starts here. -/
def atContent (indent : Nat) (cursor : YamlCursor) : Bool :=
  cursor.column == indent && !cursor.rest.isEmpty

/-- Whether the next character is neither a space nor a tab. -/
def atNonSpace (cursor : YamlCursor) : Bool :=
  !(cursor.peek?.any YamlCharacter.isSpaceOrTab)

/-- The line breaks at the end of a scalar, the first of which may be missing at the end of the
text. -/
def chomped (chomping : Chomping) (first : Option Char) (more : List Char) : List Char :=
  match chomping with
  | .strip => []
  | .clip => first.toList
  | .keep => first.toList ++ more

/-- The lines of a scalar from a place on.  A break between two lines that are not indented
further is folded into a space. -/
def linesFrom (folded : Bool) (chomping : Chomping) (indent : Nat) :
    Nat → YamlCursor → List Char × YamlCursor
  | 0, cursor => ([], cursor)
  | bound + 1, cursor =>
    let (line, behind) := cursor.takeWhile fun character => !YamlCharacter.isBreak character
    let (first, next) := match behind.takeBreak? with
      | some (character, next) => (some character, next)
      | none => (none, behind)
    let (breaks, next) := innerBreaks indent (next.rest.length + 1) next
    if atContent indent next then
      let isFolded := folded && first == some '\n' && atNonSpace cursor && atNonSpace next
      let joint := if isFolded then (if breaks.isEmpty then [' '] else []) else first.toList
      let (lines, last) := linesFrom folded chomping indent bound next
      (line ++ joint ++ breaks ++ lines, last)
    else (line ++ chomped chomping first breaks, next)

/-- The block scalar whose indicator is next, inside a block of the given indentation. -/
def read (folded : Bool) (blockIndent : Int) (cursor : YamlCursor) :
    Except YamlFault (List Char × YamlCursor) := do
  let (header, start) ← readHeader cursor.step
  let least := (max 1 (blockIndent + 1)).toNat
  let (breaks, indent, start) := match header.increment with
    | none =>
      let (breaks, greatest, start) := leadingBreaks 0 (start.rest.length + 1) start
      (breaks, max least greatest, start)
    | some increment =>
      let indent := least + increment - 1
      let (breaks, start) := innerBreaks indent (start.rest.length + 1) start
      (breaks, indent, start)
  if atContent indent start then
    let (lines, last) := linesFrom folded header.chomping indent (start.rest.length + 1) start
    return (breaks ++ lines, last)
  else return (chomped header.chomping none breaks, start)

end YamlBlockScalar

end RubySyntax
