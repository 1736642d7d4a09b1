import RubySyntax.PositionResolution

/-!
# Resolution as a recursion

The stack machine of the resolution computes a plain recursion over the tree.
A node keeps its data, its offset and the order of its parts; one that has no
position yet takes the entry of its offset, or of the nearest offset that the
text has.  A resolved tree is settled: no text moves any of its nodes again.
-/

namespace RubySyntax

namespace Node

mutual

/-- The tree with the position of every offset that has none yet, part by part. -/
def located (table : PositionTable) : Node → Node
  | ⟨data, children, comments, offset, position⟩ =>
    ⟨data, locatedAll table children, locatedAll table comments, offset,
      position <|> offset.map table.clamped⟩

def locatedAll (table : PositionTable) : List Node → List Node
  | [] => []
  | node :: others => node.located table :: locatedAll table others

end

theorem locatedAll_eq_map (table : PositionTable) (nodes : List Node) :
    locatedAll table nodes = nodes.map (located table) := by
  induction nodes with
  | nil => rfl
  | cons node others ih => rw [locatedAll, ih, List.map_cons]

theorem located_eq (table : PositionTable) (node : Node) :
    node.located table =
      node.resolved (node.positionIn table) (node.children.map (located table))
        (node.comments.map (located table)) := by
  cases node
  rw [located, locatedAll_eq_map, locatedAll_eq_map]
  rfl

private theorem runResolution_visitAll (table : PositionTable) {nodes : List Node}
    (each : ∀ node ∈ nodes, ∀ (tasks : List ResolutionTask) (finished : List Node),
      runResolution table (.visit node :: tasks) finished =
        runResolution table tasks (node.located table :: finished))
    (tasks : List ResolutionTask) (finished : List Node) :
    runResolution table (ResolutionTask.visitAll nodes ++ tasks) finished =
      runResolution table tasks ((nodes.map (located table)).reverse ++ finished) := by
  induction nodes generalizing finished with
  | nil => rfl
  | cons node others ih =>
      have first := each node List.mem_cons_self
        (ResolutionTask.visitAll others ++ tasks) finished
      rw [ResolutionTask.visitAll, List.map_cons, List.cons_append]
      rw [show others.map ResolutionTask.visit = ResolutionTask.visitAll others from rfl, first,
        ih fun node member => each node (List.mem_cons_of_mem _ member)]
      simp

/-- Visiting a tree leaves the located tree on the stack of finished nodes. -/
theorem runResolution_visit (table : PositionTable) (node : Node)
    (tasks : List ResolutionTask) (finished : List Node) :
    runResolution table (.visit node :: tasks) finished =
      runResolution table tasks (node.located table :: finished) := by
  have children : ∀ child ∈ node.children, ∀ (tasks : List ResolutionTask)
      (finished : List Node), runResolution table (.visit child :: tasks) finished =
        runResolution table tasks (child.located table :: finished) :=
    fun child _ => runResolution_visit table child
  have comments : ∀ comment ∈ node.comments, ∀ (tasks : List ResolutionTask)
      (finished : List Node), runResolution table (.visit comment :: tasks) finished =
        runResolution table tasks (comment.located table :: finished) :=
    fun comment _ => runResolution_visit table comment
  rw [runResolution, runResolution_visitAll table children,
    runResolution_visitAll table comments, runResolution, located_eq]
  -- The parts on the stack are the comments over the children, each in reverse.
  have parts : ((node.comments.map (located table)).reverse ++
      ((node.children.map (located table)).reverse ++ finished)).take
        (node.children.length + node.comments.length) =
      (node.children.map (located table) ++ node.comments.map (located table)).reverse := by
    rw [← List.append_assoc, ← List.reverse_append]
    exact List.take_left' (by simp [Nat.add_comm])
  have rest : ((node.comments.map (located table)).reverse ++
      ((node.children.map (located table)).reverse ++ finished)).drop
        (node.children.length + node.comments.length) = finished := by
    rw [← List.append_assoc, ← List.reverse_append]
    exact List.drop_left' (by simp [Nat.add_comm])
  simp only [parts, rest, List.reverse_reverse]
  rw [List.take_left' (by simp), List.drop_left' (by simp)]
termination_by sizeOf node
decreasing_by
  all_goals
    cases node
    rename_i member
    have smaller := List.sizeOf_lt_of_mem member
    simp only [Node.mk.sizeOf_spec] at smaller ⊢
    omega

theorem resolve_eq_located (table : PositionTable) (node : Node) :
    node.resolve table = node.located table := by
  rw [resolve, runResolution_visit, runResolution]
  rfl

@[simp]
theorem located_data (table : PositionTable) (node : Node) :
    (node.located table).data = node.data := by
  rw [located_eq]
  rfl

@[simp]
theorem located_offset (table : PositionTable) (node : Node) :
    (node.located table).offset = node.offset := by
  rw [located_eq]
  rfl

@[simp]
theorem located_children (table : PositionTable) (node : Node) :
    (node.located table).children = node.children.map (located table) := by
  rw [located_eq]
  rfl

@[simp]
theorem located_comments (table : PositionTable) (node : Node) :
    (node.located table).comments = node.comments.map (located table) := by
  rw [located_eq]
  rfl

@[simp]
theorem located_position (table : PositionTable) (node : Node) :
    (node.located table).position = node.positionIn table := by
  rw [located_eq]
  rfl

theorem located_appendComments (table : PositionTable) (node : Node) (comments : List Node) :
    (node.appendComments comments).located table =
      (node.located table).appendComments (comments.map (located table)) := by
  rw [located_eq, located_eq]
  simp [appendComments, resolved, positionIn]

theorem located_withComments (table : PositionTable) (node : Node) (comments : List Node) :
    (node.withComments comments).located table =
      (node.located table).withComments (comments.map (located table)) := by
  rw [located_eq, located_eq]
  simp [withComments, resolved, positionIn]

/-! ### Settled trees -/

mutual

/-- Once a tree is located, no other table moves it. -/
theorem located_located (table other : PositionTable) (node : Node) :
    (node.located table).located other = node.located table := by
  obtain ⟨data, children, comments, offset, position⟩ := node
  have settled : ((position <|> offset.map table.clamped) <|> offset.map other.clamped) =
      (position <|> offset.map table.clamped) := by
    cases position <;> cases offset <;> rfl
  rw [located, located, locatedAll_locatedAll table other children,
    locatedAll_locatedAll table other comments, settled]

theorem locatedAll_locatedAll (table other : PositionTable) (nodes : List Node) :
    locatedAll other (locatedAll table nodes) = locatedAll table nodes := by
  cases nodes with
  | nil => rfl
  | cons node others =>
      rw [locatedAll, locatedAll, located_located table other node,
        locatedAll_locatedAll table other others]

end

/-- The stack machine leaves one tree, which is the one that the recursion gives; the position of
an offset is the entry of the nearest offset inside the text; and a second resolution, with the
table of any text, changes nothing. -/
theorem resolution_settles (text : List Char) (node : Node) :
    runResolution (.ofText text) [.visit node] [] = [node.located (.ofText text)] ∧
      node.resolve (.ofText text) = node.located (.ofText text) ∧
      (∀ offset : Int, (PositionTable.ofText text).get? (max 0 (min offset text.length)) =
        some ((PositionTable.ofText text).clamped offset)) ∧
      ∀ other : List Char, (node.resolve (.ofText text)).resolve (.ofText other) =
        node.resolve (.ofText text) := by
  refine ⟨?machine, resolve_eq_located _ node, PositionTable.get?_nearest text, fun other => ?_⟩
  case machine => rw [runResolution_visit, runResolution]
  rw [resolve_eq_located, resolve_eq_located, located_located]

end Node

end RubySyntax
