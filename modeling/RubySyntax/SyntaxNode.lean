import RubySyntax.SourcePosition

/-!
# Syntax trees

A node is one production or one token of a source text.  A leaf has no
children and holds the text of its token; a composite names an operator, a
keyword form or a structural tag.  A node also carries the comments that stood
in front of it, the offset at which it began and, once resolved, its position.
-/

namespace RubySyntax

/-- A syntax tree. -/
structure Node where
  data : String
  children : List Node := []
  comments : List Node := []
  offset : Option Int := none
  position : Option Position := none

instance : Inhabited Node := ⟨{ data := "" }⟩

/-! ### The structural tags of composite nodes -/

namespace Tag

/-- A call with its arguments. -/
def invoke : String := "()"

/-- A receiver with the arguments between its square brackets. -/
def index : String := "[]"

/-- A brace block with its parameters and body. -/
def block : String := "\x7b\x7d"

/-- A parenthesized body. -/
def group : String := "("

/-- A list of arguments, parameters or elements. -/
def list : String := ","

/-- A sequence of statements. -/
def sequence : String := ";"

/-- A label with its value, if it has one. -/
def pair : String := ":"

/-- The placeholder of something that the source leaves out. -/
def empty : String := ""

/-- A comment up to the end of its line. -/
def lineComment : String := "#"

/-- A comment between two marker lines. -/
def blockComment : String := "=begin"

end Tag

namespace Node

def isLeaf (node : Node) : Bool :=
  node.children.isEmpty

/-- Whether a node is the placeholder of something left out. -/
def isEmpty (node : Node) : Bool :=
  node.data == Tag.empty && node.children.isEmpty

def withChildren (node : Node) (children : List Node) : Node :=
  { node with children := children }

/-- The node with comments placed before the ones that it has. -/
def withComments (node : Node) (comments : List Node) : Node :=
  { node with comments := comments ++ node.comments }

/-- The node with comments placed after the ones that it has. -/
def appendComments (node : Node) (comments : List Node) : Node :=
  { node with comments := node.comments ++ comments }

def atOffset (node : Node) (offset : Int) : Node :=
  { node with offset := some offset }

def retag (node : Node) (data : String) : Node :=
  { node with data := data }

def resolved (node : Node) (position : Option Position) (children comments : List Node) : Node :=
  { node with position := position, children := children, comments := comments }

/-- The placeholder of something that the source leaves out at an offset. -/
def emptyAt (offset : Int) : Node :=
  { data := Tag.empty, offset := some offset }

/-- A comment node, which holds its text as its only child. -/
def comment (kind text : String) (offset textOffset : Int) : Node :=
  { data := kind, children := [{ data := text, offset := some textOffset }],
    offset := some offset }

mutual

/-- The number of nodes of a tree, those of its comments included. -/
def size : Node → Nat
  | ⟨_, children, comments, _, _⟩ => 1 + sizeOfAll children + sizeOfAll comments

def sizeOfAll : List Node → Nat
  | [] => 0
  | node :: nodes => node.size + sizeOfAll nodes

end

@[simp] theorem sizeOfAll_append (front back : List Node) :
    sizeOfAll (front ++ back) = sizeOfAll front + sizeOfAll back := by
  induction front with
  | nil => simp [sizeOfAll]
  | cons node nodes ih => simp [sizeOfAll, ih, Nat.add_assoc]

end Node

end RubySyntax
