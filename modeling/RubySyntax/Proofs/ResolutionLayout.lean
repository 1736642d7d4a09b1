import RubySyntax.Proofs.ExpressionLayout
import RubySyntax.Proofs.TreeResolution
import RubySyntax.Parse

/-!
# Layouts of resolved trees

Resolution changes no data, offset or shape, so a tree keeps its layout, and
what a parse answers has the layout that its program was read with.
-/

namespace RubySyntax

/-! ### Layouts of located trees -/

section

open Node

variable {text : List Char} {start stop : Nat} (table : PositionTable)

theorem IsComment.located {offset : Nat} {span : CommentSpan} {comment : Node}
    (isComment : IsComment text offset span comment) :
    IsComment text offset span (comment.located table) := by
  obtain ⟨body, children_eq, bodyChildren, bodyComments, bodyOffset, bodyData⟩ :=
    isComment.children_eq
  refine ⟨isComment.found, by simpa using isComment.kind, by simpa using isComment.offset_eq, by simp [isComment.comments_eq],
    body.located table, by simp [children_eq], by simp [bodyChildren], by simp [bodyComments],
    by simpa using bodyOffset, by simpa using bodyData⟩

theorem CommentRun.located {place : Nat} {comments : List Node}
    (run : CommentRun text start comments place) :
    CommentRun text start (comments.map (Node.located table)) place := by
  induction run with
  | settled within settles => exact .settled within settles
  | gap present isGap rest ih => exact .gap present isGap ih
  | comment isComment rest ih => exact .comment (isComment.located table) ih

theorem Lead.located {place : Nat} {comments : List Node}
    (lead : Lead text start comments place) :
    Lead text start (comments.map (Node.located table)) place := by
  cases lead with
  | run run => exact .run (run.located table)
  | spacing spacing => exact .spacing spacing

theorem LeafToken.located {place : Nat} {node : Node} (token : LeafToken text place node) :
    LeafToken text place (node.located table) := by
  refine ⟨by simp [token.children_eq], by simpa using token.offset_eq, ?_, ?_, ?_⟩
  · simpa using token.spelled
  · simpa using token.starts
  · simpa using token.regexp_of_sign

theorem IsVacant.located {data : String} {offset : Nat} {node : Node}
    (isVacant : IsVacant data offset node) : IsVacant data offset (node.located table) :=
  ⟨by simpa using isVacant.data_eq, by simp [isVacant.children_eq],
    by simp [isVacant.comments_eq], by simpa using isVacant.offset_eq⟩

theorem ChildFollows.located {parts : List Part} {children : List Node}
    (follows : ChildFollows parts children) :
    ChildFollows parts (children.map (Node.located table)) := by
  cases children with
  | nil => exact (follows.ne_nil rfl).elim
  | cons child children =>
      rcases parts with _ | ⟨_ | _ | _ | _ | _ | _ | _, _⟩ <;>
        first | exact follows.elim | exact trivial

/-- A tree, or several children, with their positions. -/
def Layer.located : Layer → Layer
  | .tree node => .tree (node.located table)
  | .parts forms children => .parts forms (children.map (Node.located table))

/-- A tree keeps its layout when its positions are resolved. -/
theorem Laid.located {layer : Layer} (laid : Laid text start layer stop) :
    Laid text start (layer.located table) stop := by
  induction laid with
  | @leaf start place node lead token =>
      rw [← located_data table node]
      exact .leaf (by simpa using lead.located table) (token.located table)
  | vacant within tag isVacant => exact .vacant within tag (isVacant.located table)
  | leading form lead offset_eq spelled rest ih =>
      exact .leading (by simpa using form) (by simpa using lead.located table)
        (by simpa using offset_eq) spelled (by simpa [Layer.located] using ih)
  | linking form children_eq front filled lead offset_eq spelled rest frontIH restIH =>
      exact .linking (by simpa using form) (by rw [located_children, children_eq, List.map_cons]) frontIH
        filled (by simpa using lead.located table) (by simpa using offset_eq) spelled restIH
  | bare form comments_eq offset_eq after before shared rest ih =>
      refine .bare (by simpa using form) (by simp [comments_eq]) (by simpa using offset_eq) after
        before ?_ (by simpa [Layer.located] using ih)
      intro invoke
      obtain ⟨child, member, same⟩ := shared (by simpa using invoke)
      exact ⟨child.located table, by simpa using ⟨child, member, rfl⟩, by simpa using same⟩
  | nil within => exact .nil within
  | child spacing tree filled rest treeIH restIH => exact .child spacing treeIH filled restIH
  | absent isVacant rest ih => exact .absent (isVacant.located table) ih
  | vacantList isVacant after before followed rest ih =>
      exact .vacantList (isVacant.located table) after before (followed.located table) ih
  | closed member listed spacing tree comma run spelled rest treeIH restIH =>
      rw [Layer.located, List.map_cons, located_appendComments]
      exact .closed member (by simpa using listed) spacing treeIH comma (run.located table)
        spelled restIH
  | unclosed list spacing tree filled free rest treeIH restIH =>
      exact .unclosed (by simpa using list) spacing treeIH filled free restIH
  | opened run spelled tree filled rest treeIH restIH =>
      rw [Layer.located, List.map_cons, located_withComments]
      exact .opened (run.located table) spelled treeIH filled restIH
  | dropped member spacing spelled followed rest ih =>
      exact .dropped member spacing spelled (followed.located table) ih

theorem ProgramLaid.located {root : Node} (laid : ProgramLaid text root) :
    ProgramLaid text (root.located table) := by
  obtain ⟨statements, trailing, before, stop, spacing, statementsLaid, run, rfl⟩ := laid
  exact ⟨statements.located table, trailing.map (Node.located table), before, stop, spacing,
    statementsLaid.located table, run.located table, located_appendComments table _ _⟩

end

/-- Whether a text is a program. -/
def accepts (tables : OperatorTables) (text : List Char) : Bool :=
  match Matcher.program tables (Cursor.ofText text) with
  | .matched _ _ _ => true
  | .failed _ => false
  | .aborted _ => false

theorem accepts_iff {tables : OperatorTables} {text : List Char} :
    accepts tables text = true ↔ ∃ tree, parse tables text = .ok tree := by
  unfold accepts parse parseAfter
  generalize Matcher.program tables (Cursor.ofText text) = outcome
  cases outcome <;> simp

/-- Whether a text is a program whose tree passes a test before its places are resolved. -/
def acceptsWhere (tables : OperatorTables) (test : Node → Bool) (text : List Char) : Bool :=
  match Matcher.program tables (Cursor.ofText text) with
  | .matched tree _ _ => test tree
  | .failed _ => false
  | .aborted _ => false

theorem exists_parse_of_acceptsWhere {text : List Char} {test : Node → Bool}
    (passes : acceptsWhere .standard test text = true) :
    ∃ tree, parse .standard text = .ok (tree.located (.ofText text)) ∧ test tree = true := by
  unfold acceptsWhere at passes
  cases run : Matcher.program .standard (Cursor.ofText text) with
  | matched tree next trace =>
      rw [run] at passes
      exact ⟨tree, (parseAfter_of_matched run).trans (by rw [Node.resolve_eq_located]), passes⟩
  | failed trace =>
      rw [run] at passes
      cases passes
  | aborted fault =>
      rw [run] at passes
      cases passes

/-- What a parse answers lies in the text. -/
theorem parse_laid {text : List Char} {tree : Node} (parsed : parse .standard text = .ok tree) :
    ProgramLaid text tree := by
  unfold parse parseAfter at parsed
  split at parsed
  · rename_i root next trace run
    cases parsed
    rw [Node.resolve_eq_located]
    exact (Matcher.reads_program ⟨trace, run⟩).located _
  · cases parsed
  · cases parsed

end RubySyntax
