import RubySyntax.MemberOrder
import RubySyntax.SharedValue
import RubySyntax.YamlDocument
import RubySyntax.YamlMerge
import RubySyntax.YamlScalarValue

/-!
# Construction of YAML values

Each node denotes one part of a shared value.  A scalar is read where it is first
met.  A collection gets an empty container there, and the containers are filled
in the order in which they were met, so of several faults the one nearest to the
root counts, and of those on one level the first.  A text is read by composing it
into a graph, whose root denotes the value.
-/

namespace RubySyntax

inductive YamlCollectionKind where
  | list
  /-- A list of pairs. -/
  | pairs
  | record
  | set
deriving DecidableEq, Repr

namespace YamlCollectionKind

def ofName? (name : String) : Option YamlCollectionKind :=
  [("seq", list), ("omap", pairs), ("pairs", pairs), ("map", record), ("set", set)].lookup name

def emptyContainer : YamlCollectionKind → SharedContainer
  | list => .list []
  | pairs => .pairs []
  | record => .record []
  | set => .set []

end YamlCollectionKind

structure YamlConstruction where
  graph : YamlGraph
  /-- More than the number of merge keys of the document. -/
  mergeBound : Nat
  /-- What the nodes denote, as far as it is known. -/
  denoted : Array (Option SharedPart)
  containers : Array SharedContainer
  /-- The kind of each container and the node that it comes from. -/
  origins : Array (YamlCollectionKind × Nat)

abbrev Constructing := StateT YamlConstruction (Except YamlFault)

namespace YamlConstruction

def nodeAt (number : Nat) : Constructing YamlNode := do
  match (← get).graph.node? number with
  | some node => return node
  | none => throw .malformed

/-- The part that a scalar of a given kind denotes.  A mapping stands for its default value,
except where a date is asked for. -/
def scalarPart (kind : String) (read : List Nat → Except YamlFault Value) (number : Nat) :
    Constructing SharedPart := do
  let graph := (← get).graph
  let content ← graph.scalarContent graph.size number
  if let (.mapping _ _, "timestamp") := (← nodeAt number, kind) then throw .notText
  match ← read content with
  | .float value =>
    if value.isNaN then
      return .notANumber (if YamlScalarValue.isNotANumberWord content then none else some number)
    else return .plain (.float value)
  | value => return .plain value

/-- A new container, to be filled from a node. -/
def newContainer (kind : YamlCollectionKind) (number : Nat) : Constructing SharedPart :=
  modifyGet fun state =>
    (.container state.containers.size,
      { state with
        containers := state.containers.push kind.emptyContainer
        origins := state.origins.push (kind, number) })

/-- The part that a node denotes where it is first met. -/
def newPart (number : Nat) : Constructing SharedPart := do
  match YamlTag.kind? (← nodeAt number).tag with
  | none => throw .malformed
  | some kind =>
    match YamlScalarValue.reader? kind, YamlCollectionKind.ofName? kind with
    | some read, _ => scalarPart kind read number
    | none, some collection => newContainer collection number
    | none, none => throw .malformed

def part (number : Nat) : Constructing SharedPart := do
  match (← get).denoted[number]? with
  | some (some part) => return part
  | _ =>
    let part ← newPart number
    modify fun state =>
      { state with denoted := state.denoted.setIfInBounds number (some part) }
    return part

def items (number : Nat) : Constructing (List SharedPart) := do
  match ← nodeAt number with
  | .sequence _ items => items.mapM part
  | _ => throw .malformed

/-- The pair that a mapping with one entry denotes. -/
def pair (number : Nat) : Constructing (SharedPart × SharedPart) := do
  match ← nodeAt number with
  | .mapping _ [(key, value)] => return (← part key, ← part value)
  | _ => throw .malformed

/-- The pairs that a sequence of mappings with one entry each denotes. -/
def pairs (number : Nat) : Constructing (List (SharedPart × SharedPart)) := do
  match ← nodeAt number with
  | .sequence _ items => items.mapM pair
  | _ => throw .malformed

/-- The entries of a record with one more, whose key may not be a container. -/
def addEntry (entries : List (SharedPart × SharedPart)) (entry : Nat × Nat) :
    Constructing (List (SharedPart × SharedPart)) := do
  let key ← part entry.1
  if !key.isKey then throw .malformed
  return SharedPart.putEntry entries key (← part entry.2)

/-- The entries of a mapping behind those that its merge keys take over. -/
def entries (number : Nat) : Constructing (List (SharedPart × SharedPart)) := do
  match ← nodeAt number with
  | .mapping _ _ =>
    let state ← get
    let graph ← state.graph.flatten state.mergeBound number
    set { state with graph := graph }
    (graph.entries number).foldlM addEntry []
  | _ => throw .malformed

def plainValue? : SharedPart → Option Value
  | .plain value => some value
  | _ => none

def filled (kind : YamlCollectionKind) (number : Nat) : Constructing SharedContainer := do
  match kind with
  | .list => return .list (← items number)
  | .pairs => return .pairs (← pairs number)
  | .record => return .record (← entries number)
  | .set => return .set (orderedMembers plainValue? ((← entries number).map Prod.fst))

/-- Fills the containers from a number on; the bound is more than the number of nodes. -/
def fillFrom : Nat → Nat → Constructing Unit
  | 0, _ => return ()
  | bound + 1, index => do
    match (← get).origins[index]? with
    | none => return ()
    | some (kind, number) =>
      let container ← filled kind number
      modify fun state =>
        { state with containers := state.containers.setIfInBounds index container }
      fillFrom bound (index + 1)

def value (graph : YamlGraph) (root : Nat) : Except YamlFault SharedValue := do
  let start : YamlConstruction :=
    { graph := graph, mergeBound := graph.entryCount + 1
      denoted := Array.replicate graph.size none, containers := #[], origins := #[] }
  let construct : Constructing SharedPart := do
    let root ← part root
    fillFrom (graph.size + 1) 0
    return root
  let (root, state) ← construct.run start
  return { containers := state.containers, root := root }

end YamlConstruction

/-- The value of a YAML text, null if the text has no document. -/
def readYaml (text : List Char) : Except YamlFault SharedValue := do
  match ← readYamlDocument text with
  | none => return { containers := #[], root := .plain .null }
  | some (graph, root) => YamlConstruction.value graph root

end RubySyntax
