import RubySyntax.SyntaxNode

/-!
# Resolution of positions

Resolution gives every node of a tree, comments included, the position of its
offset.  A node that already has a position keeps it, and one without an offset
stays without.  Parts are resolved before the node that holds them, by a stack
of tasks beside a stack of finished nodes.
-/

namespace RubySyntax

inductive ResolutionTask where
  /-- Resolve a tree. -/
  | visit (node : Node)
  /-- Put a node together from its finished parts. -/
  | assemble (node : Node)

namespace ResolutionTask

def cost : ResolutionTask → Nat
  | visit node => 2 * node.size
  | assemble _ => 1

def totalCost : List ResolutionTask → Nat
  | [] => 0
  | task :: tasks => task.cost + totalCost tasks

def visitAll (nodes : List Node) : List ResolutionTask :=
  nodes.map visit

/-- Resolving several trees takes two steps for each of their nodes. -/
theorem totalCost_visitAll (nodes : List Node) (tasks : List ResolutionTask) :
    totalCost (visitAll nodes ++ tasks) = 2 * Node.sizeOfAll nodes + totalCost tasks := by
  induction nodes with
  | nil => simp [Node.sizeOfAll, visitAll]
  | cons node nodes ih =>
    simp only [totalCost, visitAll, List.map_cons, List.cons_append, cost,
      Node.sizeOfAll] at ih ⊢
    omega

end ResolutionTask

namespace Node

/-- The position that a node has, or else the one of its offset. -/
def positionIn (table : PositionTable) (node : Node) : Option Position :=
  node.position <|> node.offset.map table.clamped

/-- Does the tasks in order; `finished` holds the resolved nodes, the latest first. -/
def runResolution (table : PositionTable) (tasks : List ResolutionTask)
    (finished : List Node) : List Node :=
  match tasks with
  | [] => finished
  | .visit node :: rest =>
    runResolution table
      (ResolutionTask.visitAll node.children ++
        (ResolutionTask.visitAll node.comments ++ .assemble node :: rest)) finished
  | .assemble node :: rest =>
    let count := node.children.length + node.comments.length
    let parts := (finished.take count).reverse
    runResolution table rest
      (node.resolved (node.positionIn table) (parts.take node.children.length)
        (parts.drop node.children.length) :: finished.drop count)
termination_by ResolutionTask.totalCost tasks
decreasing_by
  · simp only [ResolutionTask.totalCost_visitAll]
    cases node
    simp only [ResolutionTask.totalCost, ResolutionTask.cost, size]
    omega
  · simp [ResolutionTask.totalCost, ResolutionTask.cost]

/-- The tree with the position of every offset that has none yet. -/
def resolve (table : PositionTable) (node : Node) : Node :=
  (runResolution table [.visit node] []).headD node

end Node

end RubySyntax
