import RubySyntax.Proofs.LineEndings
import RubySyntax.Proofs.RelatedRules

/-!
# Runs over other line endings

Two texts that differ in their line endings alone are read alike: the grammar answers the same
tree for both, but for offsets and for the texts of block comments.
-/

namespace RubySyntax

/-! ### What does not depend on line endings -/

namespace Node

/-- A comment without its places.  The text of a block comment holds line endings and is left
out. -/
def noted (comment : Node) : Node where
  data := comment.data
  children :=
    if comment.data = Tag.lineComment then comment.children.map fun text => { data := text.data }
    else []

mutual

/-- The tree without its places and without the texts of block comments. -/
def content : Node → Node
  | ⟨data, children, comments, _, _⟩ =>
    { data := data, children := contentAll children, comments := comments.map noted }

/-- Several trees without their places and without the texts of block comments. -/
def contentAll : List Node → List Node
  | [] => []
  | node :: others => node.content :: contentAll others

end

@[simp]
theorem contentAll_eq_map (nodes : List Node) : contentAll nodes = nodes.map content := by
  induction nodes with
  | nil => rfl
  | cons node others ih => rw [contentAll, ih, List.map_cons]

theorem content_eq (node : Node) : node.content =
    { data := node.data, children := node.children.map content,
      comments := node.comments.map noted } := by
  cases node
  rw [content, contentAll_eq_map]

@[simp]
theorem content_withChildren (node : Node) (children : List Node) :
    (node.withChildren children).content = node.content.withChildren (children.map content) := by
  simp [content_eq, withChildren]

theorem content_inj {node other : Node} : node.content = other.content ↔
    node.data = other.data ∧ node.children.map content = other.children.map content ∧
      node.comments.map noted = other.comments.map noted := by
  rw [content_eq, content_eq, mk.injEq]
  simp

theorem content_keepsShape : KeepsShape content where
  data node := by rw [content_eq]
  children node := by rw [content_eq]
  withChildren := content_withChildren
  made data children node := by simp [content_eq]

end Node

/-! ### Corresponding places -/

/-- Places of two texts that go on with the same lines. -/
abbrev AtSameLines : PlaceRelation :=
  TextRelation.At SameLines

theorem AtSameLines.advance {cursor other : Cursor} {count further : Nat}
    (alike : AtSameLines cursor other) (strides : Strides cursor.rest count other.rest further) :
    AtSameLines (cursor.advance count) (other.advance further) := by
  obtain ⟨offset, atLineStart, first⟩ := cursor
  obtain ⟨otherOffset, otherStart, second⟩ := other
  dsimp only at strides
  induction strides generalizing offset atLineStart otherOffset otherStart with
  | stay _ => exact alike
  | halfway same => exact ⟨.feed same, Or.inr (by simp)⟩
  | feed rest ih => exact ih _ _ _ _ ⟨rest.same, Or.inl rfl⟩
  | returnFeed rest ih => exact ih _ _ _ _ ⟨rest.same, Or.inl rfl⟩
  | cons _ rest ih => exact ih _ _ _ _ ⟨rest.same, Or.inl rfl⟩

theorem AtSameLines.skip {cursor other : Cursor} (alike : AtSameLines cursor other)
    (kind : Skip) : PlaceRelation.behind AtSameLines kind cursor other :=
  AtSameLines.advance alike (kind.strides alike.rest)

/-! ### Scanners and comments -/

namespace Matcher

namespace Alike

theorem scanLines {scanner : Scanner}
    (scans : ∀ {first second}, SameLines first second →
      AnswersAlike first second (scanner first) (scanner second)) :
    Alike AtSameLines AtSameLines id (scan scanner) (scan scanner) := by
  intro cursor onward alike
  have answers := scans alike.rest
  rw [Matcher.scan, Matcher.scan]
  generalize scanner cursor.rest = answer at answers
  generalize scanner onward.rest = otherAnswer at answers
  cases answers with
  | none => exact .failed
  | some strides => exact .matched rfl (AtSameLines.advance alike strides)

theorem terminalAt {kind : Terminal} {cursor onward : Cursor} (alike : AtSameLines cursor onward)
    (scans : ScansAlike kind.scanner kind.dataOf cursor.rest onward.rest) :
    (terminal kind cursor).Alike AtSameLines Node.content (terminal kind onward) := by
  obtain ⟨answers, data⟩ := scans
  generalize answer_eq : kind.scanner cursor.rest = answer at answers data
  generalize other_eq : kind.scanner onward.rest = otherAnswer at answers data
  cases answers with
  | none => exact .noToken answer_eq other_eq
  | some strides =>
      refine .token answer_eq other_eq ?_ (AtSameLines.advance alike strides)
      simp [Node.content_eq, leafAt, data _ rfl _ rfl]

/-- A separator is looked for behind the carriage return of its line ending. -/
theorem separatorLines : Alike AtSameLines AtSameLines Node.content
    (onSameLine (terminal .separator)) (onSameLine (terminal .separator)) := by
  intro cursor onward alike
  have landed := AtSameLines.skip alike .horizontal
  have whole : (onward.advance (Skip.horizontal.length onward.rest)).rest.head? ≠ some '\r' := by
    rw [Cursor.rest_advance]
    exact Lexeme.head_drop_horizontalLength onward.rest
  exact (terminalAt landed ⟨Lexeme.separator_alike landed.rest whole, fun _ _ _ _ => rfl⟩).after _ _

theorem lineCommentLines : Alike AtSameLines AtSameLines Node.noted lineComment lineComment := by
  intro cursor onward alike
  refine lineComment_alike sameLines_keepsLines alike ?_ fun span found other foundToo _ _ => ?_
  · have signs {first second : List Char} (same : SameLines first second) :
        first.head? = some '#' ↔ second.head? = some '#' := by
      cases same <;> simp
    exact signs alike.rest
  · rw [CommentSpan.ofLine?_text alike.rest span found other foundToo]
    rfl

theorem blockCommentLines : Alike AtSameLines AtSameLines Node.noted blockComment blockComment :=
  fun _ _ alike => blockComment_alike sameLines_keepsLines (fun _ _ _ _ _ _ => rfl) alike

end Alike

end Matcher

/-! ### The likeness -/

theorem atSameLines_sharesWord : PlaceRelation.SharesWord AtSameLines := by
  intro cursor onward alike
  obtain ⟨line, behind, other, rest_eq, other_eq, inner, ends⟩ := alike.rest.exists_line
  refine ⟨line, behind, other, rest_eq, other_eq, ends.endsLines.1, ends.endsLines.2,
    fun count within => AtSameLines.advance alike ?_⟩
  rw [rest_eq, other_eq]
  exact .line inner ends.same within

private theorem punctuationLines {symbol excluded : String} (inner : Lexeme.IsInLine symbol)
    (innerToo : Lexeme.IsInLine excluded) : Matcher.Alike AtSameLines AtSameLines Node.content
      (Matcher.punctuation symbol excluded) (Matcher.punctuation symbol excluded) :=
  atSameLines_sharesWord.terminal (Lexeme.punctuation_staysOnLine inner innerToo) fun _ _ _ =>
    Node.content_inj.mpr ⟨rfl, rfl, rfl⟩

/-- Texts that differ in their line endings are read alike. -/
def lineEndingLikeness : Likeness where
  near := AtSameLines
  far := AtSameLines
  view := Node.content
  notes := List.map Node.noted
  keepsShape := Node.content_keepsShape
  view_inj := Node.content_inj
  notes_append _ _ := List.map_append
  far_of_near := id
  sharesWord := atSameLines_sharesWord
  near_horizontal alike := AtSameLines.skip alike .horizontal
  far_gap alike := AtSameLines.skip alike .gap
  commentsBefore kind _ :=
    (((Matcher.Alike.blockCommentLines.orElse Matcher.Alike.lineCommentLines).afterSkip).mono
      (fun alike => AtSameLines.skip alike kind) id).many.mono id fun alike =>
        AtSameLines.skip alike kind
  separator := Matcher.Alike.separatorLines
  punctuationBehind symbol listed := by
    have inner : ∀ symbol ∈ [",", "|"], Lexeme.IsInLine symbol := by decide
    exact (punctuationLines (inner symbol listed) (by decide)).afterSkip.mono
      (fun alike => AtSameLines.skip alike .blanks) id
  dot := ((punctuationLines (by decide) (by decide)).orElse
    (punctuationLines (by decide) (by decide))).mono id fun alike => AtSameLines.skip alike .blanks
  commandStart := .scanLines Lexeme.commandStart_alike
  sameLineValue := .scanLines Lexeme.sameLineValue_alike
  endOfInput _ _ alike :=
    Matcher.Alike.terminalAt alike (Lexeme.endOfInput_scansAlike _ alike.rest)

end RubySyntax
