import RubySyntax.TextLines

/-!
# Source positions

A position table answers where each offset of a text lies.  Lines and columns
start at zero.  A line feed already belongs to the line that it opens and has
column minus one, so the character after it has column zero.
-/

namespace RubySyntax

/-- A resolved place in a source text. -/
structure Position where
  line : Int
  column : Int
deriving DecidableEq, Repr

/-- The position of every offset of a text, its end included. -/
structure PositionTable where
  entries : Array Position

namespace PositionTable

/-- The position of a character that would stand at the given line and column. -/
def place (character : Char) (line column : Int) : Position :=
  if character = '\n' then ⟨line + 1, -1⟩ else ⟨line, column⟩

/-- The positions of a text that starts at the given line and column, and of its end. -/
def positionsFrom (line column : Int) : List Char → List Position
  | [] => [⟨line, column⟩]
  | character :: rest =>
    let position := place character line column
    position :: positionsFrom position.line (position.column + 1) rest

/-- A text has one position for each character and one for its end. -/
@[simp] theorem length_positionsFrom (line column : Int) (text : List Char) :
    (positionsFrom line column text).length = text.length + 1 := by
  induction text generalizing line column with
  | nil => rfl
  | cons character rest ih => simp [positionsFrom, ih]

def ofText (text : List Char) : PositionTable where
  entries := (positionsFrom 0 0 text).toArray

/-- The number of offsets that the table covers. -/
def size (table : PositionTable) : Nat :=
  table.entries.size

/-- The table covers every offset from zero to the length of the text. -/
@[simp] theorem size_ofText (text : List Char) :
    (ofText text).size = text.length + 1 := by
  simp [ofText, size]

def get? (table : PositionTable) (offset : Int) : Option Position :=
  if offset < 0 then none else table.entries[offset.toNat]?

/-- The position of the nearest offset inside the table. -/
def clamped (table : PositionTable) (offset : Int) : Position :=
  (table.entries[min offset.toNat (table.size - 1)]?).getD ⟨0, 0⟩

theorem get?_nearest (text : List Char) (offset : Int) :
    (ofText text).get? (max 0 (min offset text.length)) = some ((ofText text).clamped offset) := by
  have size_eq := size_ofText text
  have nearest : (max 0 (min offset (text.length : Int))).toNat =
      min offset.toNat ((ofText text).size - 1) := by
    rw [size_eq]
    omega
  have inside : min offset.toNat ((ofText text).size - 1) < (ofText text).entries.size := by
    rw [size] at size_eq ⊢
    omega
  rw [get?, clamped, if_neg (by omega), nearest, Array.getElem?_eq_getElem inside,
    Option.getD_some]

theorem get?_eq_clamped {text : List Char} {offset : Nat} (within : offset ≤ text.length) :
    (ofText text).get? offset = some ((ofText text).clamped offset) := by
  have nearest : max 0 (min (offset : Int) text.length) = offset := by omega
  rw [← nearest, get?_nearest, nearest]

end PositionTable

end RubySyntax
