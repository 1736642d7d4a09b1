import RubySyntax.Value

/-!
# Shared values

A container that is referred to from several places is one container, and it
may be a part of itself.  A shared value keeps its containers under numbers; it
is unfolded into a tree from any of its parts, and where a container recurs
inside itself, the tree only notes that.
-/

namespace RubySyntax

inductive SharedPart where
  /-- A value that holds no others. -/
  | plain (value : Value)
  /-- A floating-point number that is no number, and the place that it comes from, unless it is
  the common one. -/
  | notANumber (place : Option Nat)
  /-- The container with a number. -/
  | container (number : Nat)

instance : Inhabited SharedPart := ⟨.plain .null⟩

inductive SharedContainer where
  | list (items : List SharedPart)
  /-- A list of pairs. -/
  | pairs (entries : List (SharedPart × SharedPart))
  | record (entries : List (SharedPart × SharedPart))
  | set (members : List SharedPart)

/-- A value with its containers under their numbers. -/
structure SharedValue where
  containers : Array SharedContainer
  root : SharedPart

namespace SharedPart

/-- Whether a part can be a key or a member of a set. -/
def isKey : SharedPart → Bool
  | container _ => false
  | _ => true

/-- Whether two keys of a record are the same; what is no number is the same as itself only. -/
def sameKey : SharedPart → SharedPart → Bool
  | plain left, plain right => left.sameKey right
  | notANumber left, notANumber right => left == right
  | _, _ => false

/-- A record with one more entry, which replaces the value of an equal key. -/
def putEntry (entries : List (SharedPart × SharedPart)) (key value : SharedPart) :
    List (SharedPart × SharedPart) :=
  if entries.any fun entry => sameKey entry.1 key then
    entries.map fun entry => if sameKey entry.1 key then (entry.1, value) else entry
  else entries ++ [(key, value)]

/-- The value of the entry under a textual key. -/
def field? (entries : List (SharedPart × SharedPart)) (name : String) : Option SharedPart :=
  entries.findSome? fun
    | (plain (.text key), value) => if key == name then some value else none
    | _ => none

end SharedPart

/-- A place that a tree may recur to: a container, or one of its pairs. -/
structure SharedPlace where
  container : Nat
  pair : Option Nat
deriving DecidableEq, Repr

namespace SharedValue

/-- What is no number, as a value. -/
def notANumber : Value :=
  .float (0.0 / 0.0)

/-- A pair of a container as a tree, given the places around it and how parts are unfolded. -/
def unfoldPair (unfold : List SharedPlace → SharedPart → Value) (around : List SharedPlace)
    (number index : Nat) (entry : SharedPart × SharedPart) : Value :=
  let place : SharedPlace := ⟨number, some index⟩
  if around.contains place then .recurrence .pair
  else .pair (unfold (place :: around) entry.1) (unfold (place :: around) entry.2)

def unfoldPairs (unfold : List SharedPlace → SharedPart → Value) (around : List SharedPlace)
    (number : Nat) (entries : List (SharedPart × SharedPart)) : List Value :=
  entries.zipIdx.map fun (entry, index) => unfoldPair unfold around number index entry

/-- A part as a tree, given the places around it.  The bound is more than the number of
containers that are not around it. -/
def unfoldWithin (shared : SharedValue) :
    Nat → List SharedPlace → SharedPart → Value
  | _, _, .plain value => value
  | _, _, .notANumber _ => notANumber
  | 0, _, .container _ => .null
  | bound + 1, around, .container number =>
    let place : SharedPlace := ⟨number, none⟩
    let unfold := shared.unfoldWithin bound
    let recurs := around.contains place
    match shared.containers[number]? with
    | some (.list items) =>
      if recurs then .recurrence .list else .list (items.map (unfold (place :: around)))
    | some (.pairs entries) =>
      if recurs then .recurrence .list
      else .list (unfoldPairs unfold (place :: around) number entries)
    | some (.record entries) =>
      if recurs then .recurrence .record
      else .record (entries.map fun entry =>
        (unfold (place :: around) entry.1, unfold (place :: around) entry.2))
    | some (.set members) => .set (members.map (unfold around))
    | none => .null

/-- A part as a tree, given the places around it. -/
def unfold (shared : SharedValue) (around : List SharedPlace) (part : SharedPart) : Value :=
  shared.unfoldWithin (shared.containers.size + 2) around part

/-! ### Values that stand for syntax trees -/

/-- The parts of a record that stand for syntax trees, given how each of them is unfolded.  Of
the entries of a record only the keys count. -/
def partTrees (shared : SharedValue) (tree : SharedPart → Value) : SharedPart → Value
  | .container number =>
    match shared.containers[number]? with
    | some (.list items) => .list (items.map tree)
    | some (.pairs entries) => .list (unfoldPairs shared.unfold [] number entries)
    | some (.record entries) => .record (entries.map fun entry => (shared.unfold [] entry.1, .null))
    | _ => shared.unfold [] (.container number)
  | part => shared.unfold [] part

/-- The record of a syntax tree with the given entries, of which other ones do not count, given
how the trees among its parts are unfolded. -/
def treeRecord (shared : SharedValue) (tree : SharedPart → Value)
    (entries : List (SharedPart × SharedPart)) : Value :=
  let entry := fun (name : String) (value : SharedPart → Value) =>
    ((SharedPart.field? entries name).map fun part => (Value.text name, value part)).toList
  .record (entry "data" (shared.unfold []) ++ entry "position" (shared.unfold []) ++
    entry "children" (shared.partTrees tree) ++ entry "comments" (shared.partTrees tree))

/-- A part as the tree of a syntax tree, given the records around it.  What stands for no syntax
tree is unfolded on its own.  The bound is more than the number of containers that are not
around it. -/
def treeWithin (shared : SharedValue) : Nat → List Nat → SharedPart → Value
  | bound + 1, around, .container number =>
    match shared.containers[number]? with
    | some (.record entries) =>
      if (SharedPart.field? entries "data").isNone then shared.unfold [] (.container number)
      else if around.contains number then .recurrence .record
      else shared.treeRecord (shared.treeWithin bound (number :: around)) entries
    | _ => shared.unfold [] (.container number)
  | _, _, part => shared.unfold [] part

def toTree (shared : SharedValue) : Value :=
  shared.treeWithin (shared.containers.size + 1) [] shared.root

end SharedValue

end RubySyntax
