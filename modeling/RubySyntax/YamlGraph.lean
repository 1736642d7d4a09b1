import RubySyntax.YamlCursor
import RubySyntax.YamlTag

/-!
# Nodes of YAML documents

The nodes of a document are numbered, and a collection refers to its parts by
their numbers.  So a node may be a part of several others, and of itself.
-/

namespace RubySyntax

inductive YamlNode where
  | scalar (tag : List Nat) (content : List Nat)
  | sequence (tag : List Nat) (items : List Nat)
  | mapping (tag : List Nat) (entries : List (Nat × Nat))
deriving DecidableEq, Repr

namespace YamlNode

def tag : YamlNode → List Nat
  | scalar tag _ => tag
  | sequence tag _ => tag
  | mapping tag _ => tag

def withTag (newTag : List Nat) : YamlNode → YamlNode
  | scalar _ content => scalar newTag content
  | sequence _ items => sequence newTag items
  | mapping _ entries => mapping newTag entries

end YamlNode

/-- The nodes of a YAML document under their numbers. -/
structure YamlGraph where
  nodes : Array YamlNode
deriving Repr

namespace YamlGraph

def empty : YamlGraph :=
  ⟨#[]⟩

/-- The number that the next node gets. -/
def size (graph : YamlGraph) : Nat :=
  graph.nodes.size

def node? (graph : YamlGraph) (number : Nat) : Option YamlNode :=
  graph.nodes[number]?

def push (graph : YamlGraph) (node : YamlNode) : YamlGraph :=
  ⟨graph.nodes.push node⟩

def replace (graph : YamlGraph) (number : Nat) (node : YamlNode) : YamlGraph :=
  ⟨graph.nodes.setIfInBounds number node⟩

/-- The tag of the node with a number, empty if there is none. -/
def tag (graph : YamlGraph) (number : Nat) : List Nat :=
  ((graph.node? number).map YamlNode.tag).getD []

/-- The entries of the mapping with a number, none if it is no mapping. -/
def entries (graph : YamlGraph) (number : Nat) : List (Nat × Nat) :=
  match graph.node? number with
  | some (.mapping _ entries) => entries
  | _ => []

def setEntries (graph : YamlGraph) (number : Nat) (entries : List (Nat × Nat)) : YamlGraph :=
  match graph.node? number with
  | some (.mapping tag _) => graph.replace number (.mapping tag entries)
  | _ => graph

/-- The number of entries of all mappings together. -/
def entryCount (graph : YamlGraph) : Nat :=
  graph.nodes.foldl
    (fun count node =>
      match node with
      | .mapping _ entries => count + entries.length
      | _ => count)
    0

/-- The content of the scalar with a number.  A mapping stands for the scalar under its key of a
default value; the bound is the number of nodes, so a mapping that is still left stands for
itself. -/
def scalarContent (graph : YamlGraph) : Nat → Nat → Except YamlFault (List Nat)
  | 0, _ => .error .endless
  | bound + 1, number =>
    match graph.node? number with
    | some (.scalar _ content) => .ok content
    | some (.mapping _ entries) =>
      match entries.find? fun entry => graph.tag entry.1 == YamlTag.value with
      | some (_, value) => graph.scalarContent bound value
      | none => .error .malformed
    | _ => .error .malformed

end YamlGraph

end RubySyntax
