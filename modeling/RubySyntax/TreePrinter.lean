import RubySyntax.BlankCharacters
import RubySyntax.QuotedText
import RubySyntax.SyntaxNode

/-!
# Printed trees

A tree is printed as nested parentheses around a quoted tag and its children.
A composite stands on one line if it fits into the width at its indentation;
otherwise each child starts on a line of its own, one level further in.  Children
are printed before their parent, by a stack of tasks beside a stack of printed
trees.  A description writes a tree as the nested constructor calls that would
build it, without comments, offsets and positions.
-/

namespace RubySyntax

/-- The choices of the printer. -/
structure PrintStyle where
  /-- The number of blanks per level. -/
  indentWidth : Int
  /-- The number of characters that a line may have. -/
  width : Int
  /-- Whether positions are shown. -/
  showPositions : Bool
  /-- Whether comments are shown. -/
  showComments : Bool

namespace PrintStyle

/-- The usual style: two blanks per level and lines of eighty characters. -/
def standard : PrintStyle where
  indentWidth := 2
  width := 80
  showPositions := false
  showComments := false

/-- The number of blanks at the start of a line on a level. -/
def indentAt (style : PrintStyle) (level : Int) : Nat :=
  (style.indentWidth.toNat * level).toNat

end PrintStyle

/-- The failure to print a comment that holds no text. -/
inductive PrintFailure where
  | commentWithoutText
deriving DecidableEq, Repr

/-- A step of the printing that is still to be done. -/
inductive PrintTask where
  /-- Print a tree at a level. -/
  | visit (node : Node) (level : Int)
  /-- Print a node at a level over its printed children. -/
  | assemble (node : Node) (level : Int)

namespace PrintTask

def cost : PrintTask → Nat
  | visit node _ => 2 * node.size
  | assemble _ _ => 1

def totalCost : List PrintTask → Nat
  | [] => 0
  | task :: tasks => task.cost + totalCost tasks

def visitAll (level : Int) (nodes : List Node) : List PrintTask :=
  nodes.map (visit · level)

/-- Printing several trees takes two steps for each of their nodes. -/
theorem totalCost_visitAll (level : Int) (nodes : List Node) (tasks : List PrintTask) :
    totalCost (visitAll level nodes ++ tasks) = 2 * Node.sizeOfAll nodes + totalCost tasks := by
  induction nodes with
  | nil => simp [Node.sizeOfAll, visitAll]
  | cons node nodes ih =>
    simp only [totalCost, visitAll, List.map_cons, List.cons_append, cost,
      Node.sizeOfAll] at ih ⊢
    omega

end PrintTask

namespace TreePrinter

def quotedCharacter (character : Char) : List Char :=
  if character = '\\' then ['\\', '\\']
  else if character = Char.ofNat 0x22 then ['\\', character]
  else if character = '\n' then ['\\', 'n']
  else [character]

def quotedData (data : String) : String :=
  "\"" ++ String.ofList (data.toList.flatMap quotedCharacter) ++ "\""

/-- A character that can stand in an atom without quotes. -/
def isBare (character : Char) : Bool :=
  !isBlank character && !"()\"\\\x7b\x7d".toList.contains character

/-- Data as an atom, quoted only if it would not read back as a single one. -/
def atom (data : String) : String :=
  if !data.isEmpty && data.toList.all isBare then data else quotedData data

def positionMark (style : PrintStyle) (node : Node) : String :=
  match node.position with
  | some position =>
    if style.showPositions then
      "@" ++ toString position.line ++ ":" ++ toString position.column
    else ""
  | none => ""

def commentText (comment : Node) : Except PrintFailure String :=
  match comment.children with
  | text :: _ => .ok (comment.data ++ " " ++ quotedData text.data)
  | [] => .error .commentWithoutText

/-- The comments of a node in front of its own text, if they are shown. -/
def withComments (style : PrintStyle) (node : Node) (text : String) :
    Except PrintFailure String :=
  if style.showComments && !node.comments.isEmpty then do
    let parts ← node.comments.mapM commentText
    return "\x7b" ++ ", ".intercalate parts ++ "\x7d" ++ " " ++ text
  else .ok text

/-- The head of a composite: its tag and its position. -/
def head (style : PrintStyle) (node : Node) : String :=
  "(" ++ quotedData node.data ++ positionMark style node

def composite (style : PrintStyle) (level : Int) (node : Node) (children : List String) :
    String :=
  let flat := head style node ++ " " ++ " ".intercalate children ++ ")"
  if !flat.toList.contains '\n' &&
      style.indentWidth.toNat * level + (flat.length : Int) ≤ style.width then flat
  else
    let margin := String.ofList (List.replicate (style.indentAt (level + 1)) ' ')
    "\n".intercalate (head style node :: children.map (margin ++ ·)) ++ ")"

/-- A node over its printed children, without its comments. -/
def bodyText (style : PrintStyle) (level : Int) (node : Node) (children : List String) : String :=
  if node.isEmpty then "()"
  else if node.isLeaf then atom node.data ++ positionMark style node
  else composite style level node children

def nodeText (style : PrintStyle) (level : Int) (node : Node) (children : List String) :
    Except PrintFailure String :=
  withComments style node (bodyText style level node children)

/-- Does the tasks in order; `finished` holds the printed trees, the latest first. -/
def run (style : PrintStyle) (tasks : List PrintTask) (finished : List String) :
    Except PrintFailure (List String) :=
  match tasks with
  | [] => .ok finished
  | .visit node level :: rest =>
    let visits := PrintTask.visitAll (level + 1) node.children
    run style (visits ++ .assemble node level :: rest) finished
  | .assemble node level :: rest =>
    let count := node.children.length
    match nodeText style level node (finished.take count).reverse with
    | .ok text => run style rest (text :: finished.drop count)
    | .error failure => .error failure
termination_by PrintTask.totalCost tasks
decreasing_by
  · simp only [PrintTask.totalCost_visitAll]
    cases node
    simp only [PrintTask.totalCost, PrintTask.cost, Node.size]
    omega
  · simp [PrintTask.totalCost, PrintTask.cost]

end TreePrinter

/-- A tree as text, its root at the given level. -/
def Node.print (node : Node) (style : PrintStyle) (level : Int) : Except PrintFailure String :=
  (TreePrinter.run style [.visit node level] []).map fun finished => finished.headD ""

/-! ### Descriptions -/

namespace Node

mutual

/-- The constructor calls that build a tree. -/
def describe : Node → String
  | ⟨data, [], _, _, _⟩ => "Node(" ++ quoted data ++ ")"
  | ⟨data, child :: children, _, _, _⟩ =>
    "Node(" ++ quoted data ++ ", [" ++ child.describe ++ describeRest children ++ "])"

/-- The descriptions of the children after the first, each after a comma. -/
def describeRest : List Node → String
  | [] => ""
  | child :: children => ", " ++ child.describe ++ describeRest children

end

end Node

end RubySyntax
