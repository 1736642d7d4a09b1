import RubySyntax.Proofs.ArgumentComposition
import RubySyntax.Proofs.NodeLayout
import RubySyntax.TreePrinter

/-!
# Printing as a recursion

The stack machine of the printer computes a plain recursion over the tree, as long as
each comment that is shown holds a text.  A composite is printed as its head and, behind
one and the same gap each, its children: a blank where it stays on one line, else a line
feed with the indentation of the next level.
-/

namespace RubySyntax

namespace TreePrinter

variable {style : PrintStyle} {level : Int} {node : Node}

/-! ### The recursion -/

/-- One comment with its kind and its text, none counting as the empty one. -/
def shownComment (comment : Node) : String :=
  comment.data ++ " " ++ quotedData (comment.children.headD { data := "" }).data

def commentMark (style : PrintStyle) (node : Node) : String :=
  if style.showComments && !node.comments.isEmpty then
    "\x7b" ++ ", ".intercalate (node.comments.map shownComment) ++ "\x7d" ++ " "
  else ""

mutual

/-- A tree at a level, its children printed one level further in. -/
def printed (style : PrintStyle) (level : Int) : Node → String
  | ⟨data, children, comments, offset, position⟩ =>
    commentMark style ⟨data, children, comments, offset, position⟩ ++
      bodyText style level ⟨data, children, comments, offset, position⟩
        (printedAll style (level + 1) children)

def printedAll (style : PrintStyle) (level : Int) : List Node → List String
  | [] => []
  | node :: others => printed style level node :: printedAll style level others

end

theorem printedAll_eq_map (style : PrintStyle) (level : Int) (nodes : List Node) :
    printedAll style level nodes = nodes.map (printed style level) := by
  induction nodes with
  | nil => rfl
  | cons node others ih => rw [printedAll, ih, List.map_cons]

theorem printed_eq (style : PrintStyle) (level : Int) (node : Node) :
    printed style level node = commentMark style node ++
      bodyText style level node (node.children.map (printed style (level + 1))) := by
  cases node
  rw [printed, printedAll_eq_map]

/-! ### The stack machine -/

/-- Where comments are shown, each one of the node holds a text. -/
def Shows (style : PrintStyle) (node : Node) : Prop :=
  style.showComments = true → ∀ comment ∈ node.comments, comment.children ≠ []

theorem commentText_eq_ok {comment : Node} (holds : comment.children ≠ []) :
    commentText comment = .ok (shownComment comment) := by
  unfold commentText shownComment
  cases children_eq : comment.children with
  | nil => exact absurd children_eq holds
  | cons text others => rfl

theorem mapM_commentText {comments : List Node}
    (hold : ∀ comment ∈ comments, comment.children ≠ []) :
    comments.mapM commentText = .ok (comments.map shownComment) := by
  induction comments with
  | nil => rfl
  | cons comment others ih =>
      rw [List.forall_mem_cons] at hold
      rw [List.mapM_cons, commentText_eq_ok hold.1, ih hold.2]
      rfl

theorem nodeText_eq_ok (shows : Shows style node) (children : List String) :
    nodeText style level node children =
      .ok (commentMark style node ++ bodyText style level node children) := by
  unfold nodeText withComments commentMark
  split
  · rename_i shown
    rw [Bool.and_eq_true] at shown
    rw [mapM_commentText (shows shown.1)]
    rfl
  · rw [String.empty_append]

private theorem run_visitAll {nodes : List Node}
    (each : ∀ node ∈ nodes, ∀ (tasks : List PrintTask) (finished : List String),
      run style (.visit node level :: tasks) finished =
        run style tasks (printed style level node :: finished))
    (tasks : List PrintTask) (finished : List String) :
    run style (PrintTask.visitAll level nodes ++ tasks) finished =
      run style tasks ((nodes.map (printed style level)).reverse ++ finished) := by
  induction nodes generalizing finished with
  | nil => rfl
  | cons node others ih =>
      have first := each node List.mem_cons_self (PrintTask.visitAll level others ++ tasks) finished
      rw [PrintTask.visitAll, List.map_cons, List.cons_append]
      rw [show others.map (PrintTask.visit · level) = PrintTask.visitAll level others from rfl,
        first, ih fun node member => each node (List.mem_cons_of_mem _ member)]
      simp

/-- Visiting a tree leaves its text on the stack of printed trees. -/
theorem run_visit (node : Node) (shows : ∀ part ∈ node.nodes, Shows style part)
    (level : Int) (tasks : List PrintTask) (finished : List String) :
    run style (.visit node level :: tasks) finished =
      run style tasks (printed style level node :: finished) := by
  induction node using Node.inductionOnChildren generalizing level tasks finished with
  | step node ih =>
      have children : ∀ child ∈ node.children, ∀ (tasks : List PrintTask)
          (finished : List String), run style (.visit child (level + 1) :: tasks) finished =
            run style tasks (printed style (level + 1) child :: finished) :=
        fun child member => ih child member
          (fun part inside => shows part
            (Node.mem_nodes_iff.mpr (Or.inr ⟨child, member, inside⟩))) (level + 1)
      have own : Shows style node := shows node (Node.mem_nodes_iff.mpr (Or.inl rfl))
      have parts : ((node.children.map (printed style (level + 1))).reverse ++ finished).take
          node.children.length = (node.children.map (printed style (level + 1))).reverse :=
        List.take_left' (by simp)
      have rest : ((node.children.map (printed style (level + 1))).reverse ++ finished).drop
          node.children.length = finished :=
        List.drop_left' (by simp)
      rw [run, run_visitAll children, run]
      simp only [parts, rest, List.reverse_reverse, nodeText_eq_ok own]
      rw [← printed_eq]

/-! ### Composites -/

/-- A composite over its printed children with blanks between them. -/
def flatText (style : PrintStyle) (node : Node) (children : List String) : String :=
  head style node ++ " " ++ " ".intercalate children ++ ")"

/-- Whether a composite over its printed children stays on one line. -/
def staysOnLine (style : PrintStyle) (level : Int) (node : Node) (children : List String) : Bool :=
  !(flatText style node children).toList.contains '\n' &&
    style.indentWidth.toNat * level + ((flatText style node children).length : Int) ≤ style.width

/-- What stands in front of each child of a composite. -/
def gap (style : PrintStyle) (level : Int) (onLine : Bool) : List Char :=
  if onLine then [' '] else '\n' :: List.replicate (style.indentAt (level + 1)) ' '

/-- Children behind their head, each behind the same gap, up to the closing parenthesis. -/
def assembled (head gap : List Char) (children : List (List Char)) : List Char :=
  head ++ (children.flatMap (gap ++ ·) ++ [')'])

theorem toList_flatText (style : PrintStyle) (node : Node) {children : List String}
    (filled : children ≠ []) :
    (flatText style node children).toList =
      assembled (head style node).toList [' '] (children.map String.toList) := by
  cases children with
  | nil => exact absurd rfl filled
  | cons first others =>
      have joined := intercalate_cons_flatMap [' '] (head style node).toList
        ((first :: others).map String.toList)
      rw [List.map_cons, List.intercalate_cons_cons] at joined
      rw [assembled, ← List.append_assoc, List.map_cons, ← joined]
      simp only [flatText, String.toList_append, String.toList_intercalate, List.map_cons]
      rfl

/-- A composite is its head and its children, each behind a blank if it stays on one line, and
else behind a line feed and the indentation of the next level. -/
theorem toList_composite (style : PrintStyle) (level : Int) (node : Node) {children : List String}
    (filled : children ≠ []) :
    (composite style level node children).toList =
      assembled (head style node).toList (gap style level (staysOnLine style level node children))
        (children.map String.toList) := by
  have composite_eq : composite style level node children =
      if staysOnLine style level node children then flatText style node children
      else "\n".intercalate (head style node :: children.map
        (String.ofList (List.replicate (style.indentAt (level + 1)) ' ') ++ ·)) ++ ")" := rfl
  rw [composite_eq]
  cases staysOnLine style level node children with
  | true => exact toList_flatText style node filled
  | false =>
      simp only [Bool.false_eq_true, if_false, String.toList_append, String.toList_intercalate,
        List.map_cons, assembled, gap]
      rw [intercalate_cons_flatMap, List.append_assoc]
      simp only [List.map_map, List.flatMap_map, Function.comp_apply, String.toList_append,
        String.toList_ofList]
      rfl

end TreePrinter

open TreePrinter in
/-- The stack machine prints a tree as the recursion does, where all comments to be shown hold
a text. -/
theorem Node.print_eq_printed {tree : Node} {style : PrintStyle}
    (shows : ∀ part ∈ tree.nodes, Shows style part) (level : Int) :
    tree.print style level = .ok (printed style level tree) := by
  rw [Node.print, run_visit tree shows, run]
  rfl

end RubySyntax
