import RubySyntax.Proofs.CommentRun
import RubySyntax.Proofs.MappedTrees

/-!
# Runs at another place

What a run answers depends on the text behind its cursor alone: at another offset
the same run answers the same tree, moved by as much.  The same holds of a run
that may nest deeper, unless the bound of the first one was too small.  There is
one rule for each way to put matchers together.
-/

namespace RubySyntax

/-! ### Moved values -/

namespace Node

mutual

def moved (distance : Nat) : Node → Node
  | ⟨data, children, comments, offset, position⟩ =>
    ⟨data, movedAll distance children, movedAll distance comments,
      offset.map (· + (distance : Int)), position⟩

def movedAll (distance : Nat) : List Node → List Node
  | [] => []
  | node :: others => node.moved distance :: movedAll distance others

end

variable (distance : Nat)

@[simp]
theorem movedAll_eq_map (nodes : List Node) :
    movedAll distance nodes = nodes.map (moved distance) := by
  induction nodes with
  | nil => rfl
  | cons node others ih => rw [movedAll, ih, List.map_cons]

theorem moved_eq (node : Node) :
    node.moved distance = ⟨node.data, node.children.map (moved distance),
      node.comments.map (moved distance), node.offset.map (· + (distance : Int)),
      node.position⟩ := by
  cases node
  rw [moved, movedAll_eq_map, movedAll_eq_map]

@[simp]
theorem moved_data (node : Node) : (node.moved distance).data = node.data := by
  rw [moved_eq]

@[simp]
theorem moved_children (node : Node) :
    (node.moved distance).children = node.children.map (moved distance) := by
  rw [moved_eq]

@[simp]
theorem moved_comments (node : Node) :
    (node.moved distance).comments = node.comments.map (moved distance) := by
  rw [moved_eq]

@[simp]
theorem moved_offset (node : Node) :
    (node.moved distance).offset = node.offset.map (· + (distance : Int)) := by
  rw [moved_eq]

@[simp]
theorem withChildren_moved (node : Node) (children : List Node) :
    (node.withChildren children).moved distance =
      (node.moved distance).withChildren (children.map (moved distance)) := by
  simp [moved_eq, withChildren]

@[simp]
theorem withComments_moved (node : Node) (comments : List Node) :
    (node.withComments comments).moved distance =
      (node.moved distance).withComments (comments.map (moved distance)) := by
  simp [moved_eq, withComments]

@[simp]
theorem appendComments_moved (node : Node) (comments : List Node) :
    (node.appendComments comments).moved distance =
      (node.moved distance).appendComments (comments.map (moved distance)) := by
  simp [moved_eq, appendComments]

@[simp]
theorem retag_moved (node : Node) (data : String) :
    (node.retag data).moved distance = (node.moved distance).retag data := by
  simp [moved_eq, retag]

theorem moved_keepsShape : KeepsShape (moved distance) where
  data := moved_data distance
  children := moved_children distance
  withChildren := withChildren_moved distance
  made data children node := by simp [moved_eq]

mutual

theorem moved_zero (node : Node) : node.moved 0 = node := by
  obtain ⟨data, children, comments, offset, position⟩ := node
  rw [moved, movedAll_zero children, movedAll_zero comments]
  simp

theorem movedAll_zero (nodes : List Node) : movedAll 0 nodes = nodes := by
  cases nodes with
  | nil => rfl
  | cons node others => rw [movedAll, moved_zero node, movedAll_zero others]

end

end Node

def Cursor.moved (distance : Nat) (cursor : Cursor) : Cursor :=
  { cursor with offset := cursor.offset + distance }

@[simp]
theorem Cursor.rest_moved (distance : Nat) (cursor : Cursor) :
    (cursor.moved distance).rest = cursor.rest :=
  rfl

theorem Cursor.advance_moved (distance count : Nat) (cursor : Cursor) :
    (cursor.moved distance).advance count = (cursor.advance count).moved distance := by
  induction count generalizing cursor with
  | zero => rfl
  | succ count ih =>
      obtain ⟨offset, atLineStart, rest⟩ := cursor
      cases rest with
      | nil => rfl
      | cons character rest =>
          have := ih ⟨offset + 1, character == '\n', rest⟩
          simp only [Cursor.moved, advance] at this ⊢
          rw [← this, Nat.add_right_comm]

def Attempt.moved (distance : Nat) (attempt : Attempt) : Attempt :=
  { attempt with offset := attempt.offset + distance }

/-- The outcome in a text with more characters in front, its value moved likewise. -/
def Outcome.moved {α : Type} (distance : Nat) (move : α → α) : Outcome α → Outcome α
  | .matched value next trace =>
    .matched (move value) (next.moved distance) (trace.map (Attempt.moved distance))
  | .failed trace => .failed (trace.map (Attempt.moved distance))
  | .aborted fault => .aborted fault

namespace Matcher

variable {α β : Type} {distance : Nat}

/-- A run of the second matcher further on in a text answers what the first one does, moved by
the distance, unless the first one is aborted. -/
def Moves (distance : Nat) (move : α → α) (matcher other : Matcher α) : Prop :=
  ∀ cursor, (∃ fault, matcher cursor = .aborted fault) ∨
    other (cursor.moved distance) = (matcher cursor).moved distance move

namespace Moves

variable {move : α → α} {matcher other : Matcher α}

theorem reads (moves : Moves distance move matcher other) {cursor next : Cursor} {value : α}
    (read : matcher.Reads cursor value next) :
    other.Reads (cursor.moved distance) (move value) (next.moved distance) := by
  obtain ⟨trace, run⟩ := read
  rcases moves cursor with ⟨fault, aborted⟩ | moved
  · rw [run] at aborted
    cases aborted
  · exact ⟨_, by rw [moved, run]; rfl⟩

theorem rejects (moves : Moves distance move matcher other) {cursor : Cursor}
    (rejects : matcher.Rejects cursor) : other.Rejects (cursor.moved distance) := by
  obtain ⟨trace, run⟩ := rejects
  rcases moves cursor with ⟨fault, aborted⟩ | moved
  · rw [run] at aborted
    cases aborted
  · exact ⟨_, by rw [moved, run]; rfl⟩

/-! ### Values and sequences -/

theorem pure {value moved : α} (moved_eq : moved = move value) :
    Moves distance move (pure value) (pure moved) :=
  fun _ => Or.inr (by rw [moved_eq]; rfl)

theorem abort {fault : Fault} : Moves distance move (abort fault) other :=
  fun _ => Or.inl ⟨fault, rfl⟩

theorem bind {moveAnswer : β → β} {continuation continued : α → Matcher β}
    (first : Moves distance move matcher other)
    (continues : ∀ value, Moves distance moveAnswer (continuation value)
      (continued (move value))) :
    Moves distance moveAnswer (matcher >>= continuation) (other >>= continued) := by
  intro cursor
  rw [bind_apply, bind_apply]
  cases run : matcher cursor with
  | matched value next trace =>
      rcases first cursor with ⟨fault, aborted⟩ | moved
      · rw [run] at aborted
        cases aborted
      · rw [run] at moved
        rw [moved]
        rcases continues value next with ⟨fault, aborted⟩ | movedOn
        · exact Or.inl ⟨fault, by simp only [aborted, Outcome.after]⟩
        · right
          simp only [Outcome.moved, movedOn]
          cases continuation value next <;> simp [Outcome.after]
  | failed trace =>
      rcases first cursor with ⟨fault, aborted⟩ | moved
      · rw [run] at aborted
        cases aborted
      · rw [moved, run]
        exact Or.inr rfl
  | aborted fault => exact Or.inl ⟨fault, rfl⟩

theorem ofReduction {reduction reduced : Except MissingOperator α}
    (moved : ∀ value, reduction = .ok value → reduced = .ok (move value)) :
    Moves distance move (ofReduction reduction) (ofReduction reduced) := by
  cases reduction with
  | ok value =>
      rw [moved value rfl]
      exact pure rfl
  | error missing => exact abort

/-! ### Choices -/

theorem orElse {second otherwise : Matcher α} (first : Moves distance move matcher other)
    (alternative : Moves distance move second otherwise) :
    Moves distance move (matcher.orElse second) (other.orElse otherwise) := by
  intro cursor
  rw [Matcher.orElse, Matcher.orElse]
  cases run : matcher cursor with
  | matched value next trace =>
      rcases first cursor with ⟨fault, aborted⟩ | moved
      · rw [run] at aborted
        cases aborted
      · rw [moved, run]
        exact Or.inr rfl
  | failed trace =>
      rcases first cursor with ⟨fault, aborted⟩ | moved
      · rw [run] at aborted
        cases aborted
      · rw [run] at moved
        rw [moved]
        rcases alternative cursor with ⟨fault, aborted⟩ | movedToo
        · exact Or.inl ⟨fault, by simp only [aborted, Outcome.after]⟩
        · right
          simp only [Outcome.moved, movedToo]
          cases second cursor <;> simp [Outcome.after]
  | aborted fault => exact Or.inl ⟨fault, rfl⟩

theorem firstOfNil : Moves distance move (firstOf []) (firstOf []) :=
  fun _ => Or.inr rfl

theorem firstOfCons {matchers others : List (Matcher α)} (head : Moves distance move matcher other)
    (tail : Moves distance move (firstOf matchers) (firstOf others)) :
    Moves distance move (firstOf (matcher :: matchers)) (firstOf (other :: others)) :=
  head.orElse tail

theorem optional (moves : Moves distance move matcher other) :
    Moves distance (Option.map move) (optional matcher) (optional other) := by
  intro cursor
  rw [Matcher.optional, Matcher.optional]
  cases run : matcher cursor with
  | matched value next trace =>
      rcases moves cursor with ⟨fault, aborted⟩ | moved
      · rw [run] at aborted
        cases aborted
      · rw [moved, run]
        exact Or.inr rfl
  | failed trace =>
      rcases moves cursor with ⟨fault, aborted⟩ | moved
      · rw [run] at aborted
        cases aborted
      · rw [moved, run]
        exact Or.inr rfl
  | aborted fault => exact Or.inl ⟨fault, rfl⟩

/-! ### Repetitions -/

theorem manyUpTo (moves : Moves distance move matcher other) (limit : Nat) :
    Moves distance (List.map move) (manyUpTo matcher limit) (manyUpTo other limit) := by
  induction limit with
  | zero => exact abort
  | succ limit ih =>
      intro cursor
      rw [manyUpTo_succ, manyUpTo_succ]
      cases run : matcher cursor with
      | matched value next trace =>
          rcases moves cursor with ⟨fault, aborted⟩ | moved
          · rw [run] at aborted
            cases aborted
          · rw [run] at moved
            rw [moved]
            rcases ih next with ⟨fault, aborted⟩ | movedOn
            · exact Or.inl ⟨fault, by simp only [aborted]⟩
            · right
              simp only [Outcome.moved, movedOn]
              cases Matcher.manyUpTo matcher limit next <;> simp
      | failed trace =>
          rcases moves cursor with ⟨fault, aborted⟩ | moved
          · rw [run] at aborted
            cases aborted
          · rw [moved, run]
            exact Or.inr rfl
      | aborted fault => exact Or.inl ⟨fault, rfl⟩

theorem many (moves : Moves distance move matcher other) :
    Moves distance (List.map move) (many matcher) (many other) :=
  fun cursor => moves.manyUpTo (cursor.rest.length + 1) cursor

/-! ### Skips, scanners and terminals -/

theorem here : Moves distance (· + distance) here here :=
  fun _ => Or.inr rfl

theorem skip (kind : Skip) : Moves distance id (skip kind) (skip kind) := by
  intro cursor
  right
  simp [Matcher.skip, Outcome.moved, Cursor.advance_moved]

theorem scan (scanner : Scanner) : Moves distance id (scan scanner) (scan scanner) := by
  intro cursor
  right
  rw [Matcher.scan, Matcher.scan, Cursor.rest_moved]
  cases scanner cursor.rest <;> simp [Outcome.moved, Cursor.advance_moved]

theorem afterSkip {kind : Skip} (moves : Moves distance move matcher other) :
    Moves distance move (afterSkip kind matcher) (afterSkip kind other) :=
  (skip kind).bind fun _ => moves

theorem terminal (kind : Terminal) :
    Moves distance (Node.moved distance) (terminal kind) (terminal kind) := by
  intro cursor
  right
  rw [Matcher.terminal, Matcher.terminal, Cursor.rest_moved]
  cases kind.scanner cursor.rest with
  | some length =>
      simp only [Outcome.moved, Cursor.advance_moved]
      simp [Node.moved_eq, Cursor.moved, Attempt.moved]
  | none => rfl

/-! ### Comments -/

private theorem commentOf (kind : String) (span? : List Char → Option CommentSpan) :
    Moves distance (Node.moved distance) (commentOf kind span?) (commentOf kind span?) := by
  intro cursor
  right
  rw [Matcher.commentOf, Matcher.commentOf, Cursor.rest_moved]
  cases span? cursor.rest with
  | some span =>
      simp only [Outcome.moved, Cursor.advance_moved]
      simp [Node.moved_eq, Node.comment, Cursor.moved, Int.add_right_comm]
  | none => rfl

private theorem blockComment :
    Moves distance (Node.moved distance) blockComment blockComment := by
  intro cursor
  rw [Matcher.blockComment, Matcher.blockComment]
  by_cases lineStart : cursor.atLineStart = true
  · have moves : Moves distance (Node.moved distance)
        (Matcher.commentOf Tag.blockComment CommentSpan.ofBlock?) _ := commentOf _ _
    simpa [lineStart, Cursor.moved] using moves cursor
  · right
    simp [lineStart, Cursor.moved, Outcome.moved]

theorem anyComment : Moves distance (Node.moved distance) anyComment anyComment :=
  blockComment.orElse (commentOf _ _)

theorem commentsBefore (kind : Skip) :
    Moves distance (List.map (Node.moved distance)) (commentsBefore kind)
      (commentsBefore kind) :=
  anyComment.afterSkip.many

theorem spaced {node : Matcher Node} {another : Matcher Node} {kind : Skip}
    (moves : Moves distance (Node.moved distance) node another) :
    Moves distance (Node.moved distance) (spaced node kind) (spaced another kind) :=
  (commentsBefore kind).bind fun _ => moves.afterSkip.bind fun _ =>
    pure (Node.withComments_moved _ _ _).symm

end Moves

end Matcher

end RubySyntax
