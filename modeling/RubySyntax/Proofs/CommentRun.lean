import RubySyntax.Proofs.SourcePlace

/-!
# Runs of comments

In front of a token stands a run of comments with blanks and semicolons between
them.  This file says what such a run is in terms of the source, shows that the
matchers of comments read exactly such runs, and that the token behind a run is
the first token behind each of its comments.
-/

namespace RubySyntax

namespace Node

/-- The offset of a node as a place in the source. -/
def start (node : Node) : Nat :=
  (node.offset.getD 0).toNat

theorem start_eq {node : Node} {place : Nat} (offset : node.offset = some (place : Int)) :
    node.start = place := by
  simp [start, offset]

@[simp]
theorem withComments_nil (node : Node) : node.withComments [] = node := by
  cases node
  rfl

@[simp]
theorem appendComments_nil (node : Node) : node.appendComments [] = node := by
  cases node
  simp [Node.appendComments]

end Node

/-- A node for the comment of the given extent at an offset: its only child holds the text
of the comment. -/
structure IsComment (text : List Char) (offset : Nat) (span : CommentSpan) (comment : Node) :
    Prop where
  found : commentSpan? text offset = some span
  kind : comment.data = Tag.lineComment ∧ text[offset]? = some '#' ∨
    comment.data = Tag.blockComment ∧ text[offset]? = some '='
  offset_eq : comment.offset = some (offset : Int)
  comments_eq : comment.comments = []
  children_eq : ∃ body, comment.children = [body] ∧ body.children = [] ∧ body.comments = [] ∧
    body.offset = some ((offset + span.textStart : Nat) : Int) ∧
    body.data = String.ofList ((text.drop (offset + span.textStart)).take span.textLength)

def commentEnd (text : List Char) (comment : Node) : Nat :=
  comment.start + ((commentSpan? text comment.start).map CommentSpan.length).getD 0

theorem IsComment.commentEnd_eq {text : List Char} {offset : Nat} {span : CommentSpan}
    {comment : Node} (isComment : IsComment text offset span comment) :
    commentEnd text comment = offset + span.length := by
  simp [commentEnd, Node.start_eq isComment.offset_eq, isComment.found]

/-- The comments from an offset up to the place of the next token. -/
inductive CommentRun (text : List Char) : Nat → List Node → Nat → Prop
  | settled {offset : Nat} (within : offset ≤ text.length)
      (settles : tokenPlace text offset = offset) : CommentRun text offset [] offset
  | gap {offset place : Nat} {comments : List Node} {character : Char}
      (present : text[offset]? = some character) (isGap : Lexeme.isGap character = true)
      (rest : CommentRun text (offset + 1) comments place) : CommentRun text offset comments place
  | comment {offset place : Nat} {comment : Node} {comments : List Node} {span : CommentSpan}
      (isComment : IsComment text offset span comment)
      (rest : CommentRun text (offset + span.length) comments place) :
      CommentRun text offset (comment :: comments) place

namespace CommentRun

variable {text : List Char} {start place : Nat} {comments : List Node}

theorem tokenPlace_eq (run : CommentRun text start comments place) :
    tokenPlace text start = place := by
  induction run with
  | settled within settles => exact settles
  | gap present isGap rest ih => rw [tokenPlace_of_gap present isGap, ih]
  | comment isComment rest ih => rw [tokenPlace_of_comment isComment.found, ih]

theorem settles (run : CommentRun text start comments place) : tokenPlace text place = place := by
  induction run with
  | settled within settles => exact settles
  | gap present isGap rest ih => exact ih
  | comment isComment rest ih => exact ih

theorem bounds (run : CommentRun text start comments place) :
    start ≤ place ∧ place ≤ text.length := by
  induction run with
  | settled within settles => exact ⟨Nat.le_refl _, within⟩
  | gap present isGap rest ih => exact ⟨by omega, ih.2⟩
  | comment isComment rest ih => exact ⟨by omega, ih.2⟩

/-- Every comment of a run lies inside it, and the first token behind it ends the run. -/
theorem comment_spec (run : CommentRun text start comments place) {comment : Node}
    (member : comment ∈ comments) :
    ∃ offset span, IsComment text offset span comment ∧ start ≤ offset ∧
      offset + span.length ≤ place ∧ tokenPlace text (commentEnd text comment) = place := by
  induction run with
  | settled within settles => cases member
  | gap present isGap rest ih =>
      obtain ⟨offset, span, isComment, after, before, ends⟩ := ih member
      exact ⟨offset, span, isComment, by omega, before, ends⟩
  | @comment offset place head others span isComment rest ih =>
      rcases List.mem_cons.mp member with rfl | later
      · refine ⟨offset, span, isComment, Nat.le_refl _, rest.bounds.1, ?_⟩
        rw [isComment.commentEnd_eq, rest.tokenPlace_eq]
      · obtain ⟨other, otherSpan, otherIs, after, before, ends⟩ := ih later
        exact ⟨other, otherSpan, otherIs, by omega, before, ends⟩

/-- The comments of a run stand in the order of the source. -/
theorem pairwise_start_lt (run : CommentRun text start comments place) :
    comments.Pairwise fun earlier later => earlier.start < later.start := by
  induction run with
  | settled within settles => exact List.Pairwise.nil
  | gap present isGap rest ih => exact ih
  | @comment offset place head others span isComment rest ih =>
      refine List.Pairwise.cons (fun later member => ?_) ih
      obtain ⟨other, otherSpan, otherIs, after, -, -⟩ := rest.comment_spec member
      have positive := commentSpan?_length_pos isComment.found
      rw [Node.start_eq isComment.offset_eq, Node.start_eq otherIs.offset_eq]
      omega

theorem spacing (run : CommentRun text start [] place) : Spacing text start place := by
  generalize none_eq : ([] : List Node) = comments at run
  induction run with
  | settled within settles => exact .refl within
  | @gap offset place comments character present isGap rest ih =>
      refine Spacing.trans ⟨Nat.le_succ _, ?_, fun other after before => ?_⟩ (ih none_eq)
      · exact (List.getElem?_eq_some_iff.mp present).1
      · obtain rfl : other = offset := by omega
        exact isSpacingAt_of_isGap present isGap
  | comment isComment rest ih => cases none_eq

theorem afterGaps {middle : Nat} (run : CommentRun text middle comments place)
    (le : start ≤ middle)
    (gaps : ∀ offset, start ≤ offset → offset < middle →
      ∃ character, text[offset]? = some character ∧ Lexeme.isGap character = true) :
    CommentRun text start comments place := by
  induction hidden : middle - start generalizing start with
  | zero =>
      obtain rfl : start = middle := by omega
      exact run
  | succ count ih =>
      obtain ⟨character, present, isGap⟩ := gaps start (Nat.le_refl _) (by omega)
      exact .gap present isGap
        (ih (by omega) (fun offset after before => gaps offset (by omega) before) (by omega))

end CommentRun

/-! ### Reading comments -/

/-- The skips that may stand between comments: blanks, with or without semicolons. -/
def Skip.PassesLines (kind : Skip) : Prop :=
  kind = .blanks ∨ kind = .gap

private theorem isGap_of_lt_length {kind : Skip} (passes : kind.PassesLines) {text : List Char}
    {index : Nat} (inside : index < kind.length text) :
    ∃ character, text[index]? = some character ∧ Lexeme.isGap character = true := by
  rcases passes with rfl | rfl
  · obtain ⟨character, present, blank⟩ := test_of_lt_countWhile inside
    exact ⟨character, present, Lexeme.isGap_of_isBlank blank⟩
  · exact test_of_lt_countWhile inside

private theorem isGap_behind {kind : Skip} (passes : kind.PassesLines) {text : List Char}
    {character : Char} (behind : text[kind.length text]? = some character)
    (notSemicolon : character ≠ ';') : Lexeme.isGap character = false := by
  rcases passes with rfl | rfl
  · have blank := test_countWhile behind
    simp [Lexeme.isGap, blank, notSemicolon]
  · exact test_countWhile behind

namespace Matcher

theorem advance_skip (kind : Skip) {text : List Char} {offset : Nat}
    (inside : offset ≤ text.length) :
    offset + kind.length (text.drop offset) ≤ text.length ∧
      (Cursor.within text offset).advance (kind.length (text.drop offset)) =
        Cursor.within text (offset + kind.length (text.drop offset)) := by
  have bound := (kind.length_spacingPrefix (text.drop offset)).within
  rw [List.length_drop] at bound
  exact ⟨by omega, Cursor.advance_within (by omega)⟩

theorem skip_gaps {kind : Skip} (passes : kind.PassesLines) {text : List Char} {start : Nat} :
    ∀ offset, start ≤ offset → offset < start + kind.length (text.drop start) →
      ∃ character, text[offset]? = some character ∧ Lexeme.isGap character = true := by
  intro offset after before
  have inside : offset - start < kind.length (text.drop start) := by omega
  obtain ⟨character, present, gap⟩ := isGap_of_lt_length passes inside
  rw [List.getElem?_drop, Nat.add_sub_cancel' after] at present
  exact ⟨character, present, gap⟩

def anyComment : Matcher Node :=
  blockComment.orElse lineComment

theorem reads_commentOf {kind : String} {span? : List Char → Option CommentSpan}
    {cursor next : Cursor} {comment : Node} :
    (commentOf kind span?).Reads cursor comment next ↔
      ∃ span, span? cursor.rest = some span ∧ next = cursor.advance span.length ∧
        comment = Node.comment kind
          (String.ofList ((cursor.rest.drop span.textStart).take span.textLength))
          cursor.offset ((cursor.offset + span.textStart : Nat) : Int) := by
  constructor
  · rintro ⟨trace, run⟩
    cases found : span? cursor.rest with
    | none => simp [commentOf, found] at run
    | some span =>
        simp only [commentOf, found, Outcome.matched.injEq] at run
        exact ⟨span, rfl, run.2.1.symm, run.1.symm⟩
  · rintro ⟨span, found, rfl, rfl⟩
    exact ⟨[], by simp [commentOf, found]⟩

theorem rejects_commentOf {kind : String} {span? : List Char → Option CommentSpan}
    {cursor : Cursor} : (commentOf kind span?).Rejects cursor ↔ span? cursor.rest = none := by
  cases found : span? cursor.rest <;> simp [Rejects, commentOf, found]

theorem reads_blockComment {cursor next : Cursor} {comment : Node} :
    blockComment.Reads cursor comment next ↔
      cursor.atLineStart = true ∧
        (commentOf Tag.blockComment CommentSpan.ofBlock?).Reads cursor comment next := by
  by_cases lineStart : cursor.atLineStart = true <;> simp [Reads, blockComment, lineStart]

theorem rejects_blockComment {cursor : Cursor} :
    blockComment.Rejects cursor ↔
      cursor.atLineStart = true → CommentSpan.ofBlock? cursor.rest = none := by
  by_cases lineStart : cursor.atLineStart = true
  · rw [← @rejects_commentOf Tag.blockComment]
    simp [Rejects, blockComment, lineStart]
  · simp [Rejects, blockComment, lineStart]

theorem anyComment_progresses {kind : Skip} : (afterSkip kind anyComment).Progresses := by
  intro cursor comment next reads
  rw [reads_afterSkip] at reads
  generalize skipped : cursor.advance (kind.length cursor.rest) = behind at reads
  have shrinks : behind.rest.length ≤ cursor.rest.length := by
    rw [← skipped, Cursor.rest_advance, List.length_drop]
    omega
  rcases reads_orElse.mp reads with block | ⟨-, line⟩
  · obtain ⟨span, found, rfl, -⟩ := reads_commentOf.mp (reads_blockComment.mp block).2
    obtain ⟨-, start, inner, outer⟩ := CommentSpan.ofBlock?_bounds found
    rw [Cursor.rest_advance, List.length_drop]
    omega
  · obtain ⟨span, found, rfl, -⟩ := reads_commentOf.mp line
    obtain ⟨-, start, inner, outer⟩ := CommentSpan.ofLine?_bounds found
    rw [Cursor.rest_advance, List.length_drop]
    omega

private theorem isComment_of_node {text : List Char} {offset : Nat} {span : CommentSpan}
    (found : commentSpan? text offset = some span) {kind : String}
    (marked : kind = Tag.lineComment ∧ text[offset]? = some '#' ∨
      kind = Tag.blockComment ∧ text[offset]? = some '=') :
    IsComment text offset span
      (Node.comment kind
        (String.ofList (((text.drop offset).drop span.textStart).take span.textLength))
        offset ((offset + span.textStart : Nat) : Int)) := by
  refine ⟨found, marked, rfl, rfl, ⟨_, rfl, rfl, rfl, rfl, ?_⟩⟩
  simp [List.drop_drop]

theorem reads_anyComment {text : List Char} {offset : Nat} {comment : Node} {next : Cursor}
    (reads : anyComment.Reads (Cursor.within text offset) comment next) :
    ∃ span, IsComment text offset span comment ∧
      next = Cursor.within text (offset + span.length) := by
  rcases reads_orElse.mp reads with block | ⟨noBlock, line⟩
  · obtain ⟨lineStart, block⟩ := reads_blockComment.mp block
    obtain ⟨span, found, rfl, rfl⟩ := reads_commentOf.mp block
    have spanned : commentSpan? text offset = some span := by
      rw [Cursor.atLineStart_within] at lineStart
      rw [Cursor.rest_within] at found
      simp [commentSpan?, lineStart, found]
    have marked : text[offset]? = some '=' := by
      obtain ⟨⟨rest, begins⟩, -⟩ := CommentSpan.ofBlock?_bounds found
      rw [← List.head?_drop]
      exact congrArg List.head? begins
    refine ⟨span, isComment_of_node spanned (Or.inr ⟨rfl, marked⟩), ?_⟩
    exact Cursor.advance_within (commentSpan?_bounds spanned).2.2.2
  · obtain ⟨span, found, rfl, rfl⟩ := reads_commentOf.mp line
    have spanned : commentSpan? text offset = some span := by
      rw [rejects_blockComment, Cursor.atLineStart_within, Cursor.rest_within] at noBlock
      rw [Cursor.rest_within] at found
      by_cases lineStart : startsLine text offset = true
      · simp [commentSpan?, lineStart, noBlock lineStart, found]
      · simp [commentSpan?, lineStart, found]
    have marked : text[offset]? = some '#' := by
      obtain ⟨⟨rest, begins⟩, -⟩ := CommentSpan.ofLine?_bounds found
      rw [← List.head?_drop]
      exact congrArg List.head? begins
    refine ⟨span, isComment_of_node spanned (Or.inl ⟨rfl, marked⟩), ?_⟩
    exact Cursor.advance_within (commentSpan?_bounds spanned).2.2.2

theorem commentSpan?_of_rejects {text : List Char} {offset : Nat}
    (rejects : anyComment.Rejects (Cursor.within text offset)) :
    commentSpan? text offset = none := by
  obtain ⟨noBlock, noLine⟩ := rejects_orElse.mp rejects
  rw [rejects_blockComment, Cursor.atLineStart_within, Cursor.rest_within] at noBlock
  rw [lineComment, rejects_commentOf, Cursor.rest_within] at noLine
  by_cases lineStart : startsLine text offset = true
  · simp [commentSpan?, lineStart, noBlock lineStart, noLine]
  · simp [commentSpan?, lineStart, noLine]

private theorem commentRun_of_each {kind : Skip} (passes : kind.PassesLines) {text : List Char}
    {cursor last : Cursor} {comments : List Node}
    (each : (afterSkip kind anyComment).ReadsEach cursor comments last) :
    ∀ {start : Nat}, start ≤ text.length → cursor = Cursor.within text start →
      ∃ stop, stop ≤ text.length ∧ last = Cursor.within text stop ∧
        ∀ {place : Nat}, CommentRun text stop [] place →
          CommentRun text start comments place := by
  induction each with
  | nil =>
      intro start inside here
      exact ⟨start, inside, here, fun run => run⟩
  | @cons cursor middle last comment comments head tail ih =>
      intro start inside here
      subst here
      obtain ⟨skipWithin, skipped⟩ := advance_skip kind inside
      rw [reads_afterSkip, Cursor.rest_within, skipped] at head
      obtain ⟨span, isComment, rfl⟩ := reads_anyComment head
      have commentWithin := (commentSpan?_bounds isComment.found).2.2.2
      obtain ⟨stop, stopWithin, rfl, extend⟩ := ih commentWithin rfl
      refine ⟨stop, stopWithin, rfl, fun run => ?_⟩
      exact (CommentRun.comment isComment (extend run)).afterGaps (Nat.le_add_right _ _)
        (skip_gaps passes)

/-- Comments and the skip behind them run up to the place of a token that is no semicolon. -/
theorem reads_commentsBefore {kind : Skip} (passes : kind.PassesLines) {text : List Char}
    {start : Nat} (inside : start ≤ text.length) {comments : List Node} {next : Cursor}
    (reads : (commentsBefore kind).Reads (Cursor.within text start) comments next) :
    ∃ stop place, next = Cursor.within text stop ∧ place ≤ text.length ∧
      next.advance (kind.length next.rest) = Cursor.within text place ∧
      (text[place]? ≠ some ';' → CommentRun text start comments place) := by
  obtain ⟨stop, stopWithin, rfl, extend⟩ :=
    commentRun_of_each passes reads.each_of_many inside rfl
  obtain ⟨placeWithin, skipped⟩ := advance_skip kind stopWithin
  have rejects : (afterSkip kind anyComment).Rejects (Cursor.within text stop) :=
    reads.rejects_of_many
  rw [rejects_afterSkip, Cursor.rest_within, skipped] at rejects
  refine ⟨stop, _, rfl, placeWithin, skipped, fun notSemicolon => extend ?_⟩
  refine CommentRun.afterGaps ?_ (Nat.le_add_right _ _) (skip_gaps passes)
  refine .settled placeWithin (tokenPlace_eq_self (fun character present => ?_)
    (commentSpan?_of_rejects rejects))
  rw [← List.getElem?_drop] at present
  refine isGap_behind passes present ?_
  rintro rfl
  rw [List.getElem?_drop] at present
  exact notSemicolon present

end Matcher

end RubySyntax
