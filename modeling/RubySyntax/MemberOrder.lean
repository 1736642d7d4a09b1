import RubySyntax.FloatText
import RubySyntax.Value

/-!
# Order of the members of a set

A set keeps its members in a table with open addressing and lists them in the
order of its slots.  Equal numbers have the same residue, whatever their kind,
and the residue of a member says where it is looked for first.  A set whose
members are not all numbers lists them as they came.
-/

namespace RubySyntax

namespace MemberOrder

def modulus : Nat :=
  Nat.pow 2 61 - 1

/-- The size of a word, modulo which negative residues count. -/
def wordSize : Nat :=
  Nat.pow 2 64

/-- The residue of a number with the given sign and the residue of its magnitude; minus one is
set apart. -/
def signedResidue (negative : Bool) (residue : Nat) : Nat :=
  if negative then (if residue = 1 then wordSize - 2 else (wordSize - residue) % wordSize)
  else residue

def infinityResidue : Nat := 314159

/-- The residue of the floating-point number with the given bits, unless it is no number. -/
def residueOfBits? (bits : Nat) : Option Nat :=
  let significand := bits % Nat.pow 2 52
  let biasedExponent := bits / Nat.pow 2 52 % Nat.pow 2 11
  let negative := bits / Nat.pow 2 63 = 1
  if biasedExponent = Nat.pow 2 11 - 1 then
    if significand = 0 then some (signedResidue negative infinityResidue) else none
  else
    let number := FloatText.fractionOfFields biasedExponent significand
    let power := Nat.pow 2 (number.exponent.emod 61).toNat
    some (signedResidue negative (number.significand * power % modulus))

def residue? : Value → Option Nat
  | .bool value => some (if value then 1 else 0)
  | .int value => some (signedResidue (value < 0) (value.natAbs % modulus))
  | .float value => residueOfBits? value.toBits.toNat
  | _ => none

/-- The slots of a table, each with a member and its residue if it is taken. -/
abbrev Slots (α : Type) := Array (Option (Nat × α))

/-- The least number of slots. -/
def leastSize : Nat := 8

/-- How many slots behind the first one are looked at before the next jump. -/
def reach : Nat := 9

def free {α : Type} (size : Nat) : Slots α :=
  Array.replicate size none

/-- The least power of two that is more than a number and at least a given one. -/
def sizeAbove (number : Nat) : Nat → Nat → Nat
  | 0, size => size
  | bound + 1, size => if size ≤ number then sizeAbove number bound (size * 2) else size

def tableSize (count : Nat) : Nat :=
  sizeAbove count (count + 1) leastSize

def firstFree? {α : Type} (slots : Slots α) (start count : Nat) : Option Nat :=
  ((List.range count).map (start + ·)).find? fun index => (slots[index]?).any Option.isNone

/-- The free slot for a member.  Each jump depends on what is left of its residue. -/
def freeSlot {α : Type} (slots : Slots α) : Nat → Nat → Nat → Nat
  | 0, _, index => index
  | bound + 1, residue, index =>
    let count := if index + reach < slots.size then reach + 1 else 1
    match firstFree? slots index count with
    | some found => found
    | none =>
      let residue := residue / 32
      freeSlot slots bound residue ((index * 5 + 1 + residue) % slots.size)

def place {α : Type} (slots : Slots α) (member : Nat × α) : Slots α :=
  let index := freeSlot slots (slots.size + 16) member.1 (member.1 % slots.size)
  slots.setIfInBounds index (some member)

def members {α : Type} (slots : Slots α) : List (Nat × α) :=
  slots.toList.filterMap id

/-- The slots of a larger table with the same members. -/
def grow {α : Type} (slots : Slots α) (size : Nat) : Slots α :=
  (members slots).foldl place (free size)

/-- The slots with one more member, of which three fifths may be taken.  The given number of
members includes the new one. -/
def insert {α : Type} (slots : Slots α) (count : Nat) (member : Nat × α) : Slots α :=
  let slots := place slots member
  if count * 5 < (slots.size - 1) * 3 then slots
  else grow slots (tableSize (if 50000 < count then count * 2 else count * 4))

/-- The slots of a table that gets a number of members at once. -/
def initial {α : Type} (count : Nat) : Slots α :=
  free (if count * 5 < (leastSize - 1) * 3 then leastSize else tableSize (count * 2))

def tableOrder {α : Type} (entries : List (Nat × α)) : List α :=
  let slots := entries.zipIdx.foldl
    (fun slots (entry, index) => insert slots (index + 1) entry) (initial entries.length)
  (members slots).map Prod.snd

end MemberOrder

/-- The members of a set in order, given how the value of a member is known; they are put in as
they come. -/
def orderedMembers {α : Type} (value? : α → Option Value) (members : List α) : List α :=
  let residues := members.map fun member => (value? member).bind MemberOrder.residue?
  if residues.all Option.isSome then
    MemberOrder.tableOrder ((residues.filterMap id).zip members)
  else members

end RubySyntax
