import Mathlib.Data.List.Infix
import RubySyntax.Proofs.CommentRun
import RubySyntax.Proofs.SeamScanning

/-!
# Comments in front of a seam

Where no line begins a block comment, a comment ends with its line.  The comments of
a source are then read alike in a longer text, unless the last one runs up to the end
of the source and so into what follows.
-/

namespace RubySyntax

/-- A text none of whose lines begins a block comment. -/
def IsUnmarked (text : List Char) : Prop :=
  ∀ offset, startsLine text offset = true →
    CommentSpan.startsMarker "=begin" (text.drop offset) = false

/-- A text without any sign that starts a comment. -/
structure IsPlain (text : List Char) : Prop where
  noSign : '#' ∉ text
  noMarker : ¬ "=begin".toList <:+: text

instance (text : List Char) : Decidable (IsPlain text) :=
  decidable_of_iff ('#' ∉ text ∧ ¬ "=begin".toList <:+: text)
    ⟨fun ⟨noSign, noMarker⟩ => ⟨noSign, noMarker⟩, fun plain => ⟨plain.noSign, plain.noMarker⟩⟩

theorem IsPlain.unmarked {text : List Char} (plain : IsPlain text) : IsUnmarked text := by
  intro offset _
  rw [CommentSpan.startsMarker, Bool.and_eq_false_imp]
  intro marked
  exact absurd ((List.isPrefixOf_iff_prefix.mp marked).isInfix.trans
    (List.drop_suffix offset text).isInfix) plain.noMarker

theorem IsPlain.of_append {source tail : List Char} (plain : IsPlain (source ++ tail)) :
    IsPlain source ∧ IsPlain tail :=
  ⟨⟨fun member => plain.noSign (List.mem_append_left _ member),
      fun marked => plain.noMarker (marked.trans (List.prefix_append _ _).isInfix)⟩,
    ⟨fun member => plain.noSign (List.mem_append_right _ member),
      fun marked => plain.noMarker (marked.trans (List.suffix_append _ _).isInfix)⟩⟩

theorem prefix_of_append_cons {mark : Char} {word first second : List Char} (absent : mark ∉ word)
    (begins : word <+: first ++ mark :: second) : word <+: first := by
  have longer : first ++ [mark] <+: first ++ mark :: second := ⟨second, by simp⟩
  have held : ¬ first ++ [mark] <+: word := fun within =>
    absent (within.subset (by simp))
  rcases List.prefix_concat_iff.mp
    ((List.prefix_or_prefix_of_prefix begins longer).resolve_right held) with rfl | within
  · exact absurd (by simp) absent
  · exact within

/-- A word without a character lies on one side of it. -/
theorem infix_of_append_cons {mark : Char} {word first second : List Char} (absent : mark ∉ word)
    (within : word <:+: first ++ mark :: second) : word <:+: first ∨ word <:+: second := by
  induction first with
  | nil =>
      rcases List.infix_cons_iff.mp within with begins | within
      · have begins : word <+: [] ++ mark :: second := begins
        exact Or.inl (prefix_of_append_cons absent begins).isInfix
      · exact Or.inr within
  | cons character first ih =>
      rcases List.infix_cons_iff.mp within with begins | within
      · have begins : word <+: (character :: first) ++ mark :: second := begins
        exact Or.inl (prefix_of_append_cons absent begins).isInfix
      · exact (ih within).imp_left fun inside => List.infix_cons inside

/-- No comment starts across a character that stands in no sign of one. -/
theorem IsPlain.append_cons {mark : Char} (apart : mark ∉ '#' :: "=begin".toList)
    {first second : List Char} (plain : IsPlain first) (plainToo : IsPlain second) :
    IsPlain (first ++ mark :: second) where
  noSign member := by
    rcases List.mem_append.mp member with inside | behind
    · exact plain.noSign inside
    · refine plainToo.noSign ((List.mem_cons.mp behind).resolve_left ?_)
      rintro rfl
      exact apart List.mem_cons_self
  noMarker within :=
    (infix_of_append_cons (fun member => apart (List.mem_cons_of_mem _ member)) within).elim
      plain.noMarker plainToo.noMarker

theorem startsLine_append {source : List Char} {offset : Nat} (inside : offset ≤ source.length)
    (tail : List Char) : startsLine (source ++ tail) offset = startsLine source offset := by
  cases offset with
  | zero => rfl
  | succ offset => rw [startsLine, startsLine, List.getElem?_append_left inside]

theorem CommentSpan.startsMarker_append_break {marker : String} (solid : IsSolid marker.toList)
    {tail : List Char} (isBreak : IsBreak tail) (rest : List Char) :
    startsMarker marker (rest ++ tail) = startsMarker marker rest := by
  rw [startsMarker, startsMarker, isPrefixOf_append_break isBreak solid]
  cases begins : marker.toList.isPrefixOf rest with
  | false => rfl
  | true =>
      have within := length_le_of_isPrefixOf begins
      rw [String.length_toList] at within
      rw [List.drop_append_of_le_length within,
        startsWithChar_append_break isBreak isWordCharacter_of_mem_breakCharacters]

theorem IsUnmarked.of_append {source tail : List Char} (isBreak : IsBreak tail)
    (unmarked : IsUnmarked (source ++ tail)) : IsUnmarked source := by
  intro offset starts
  rcases Nat.le_total offset source.length with inside | beyond
  · have clean := unmarked offset ((startsLine_append inside tail).trans starts)
    rwa [List.drop_append_of_le_length inside,
      CommentSpan.startsMarker_append_break (by decide) isBreak] at clean
  · rw [List.drop_of_length_le beyond]
    decide

namespace CommentSpan

theorem ofBlock?_eq_none {text : List Char} (unmarked : startsMarker "=begin" text = false) :
    ofBlock? text = none := by
  rw [ofBlock?, if_neg (by simp [unmarked])]

/-- A line comment that ends in front of something ends there in a longer text too. -/
theorem ofLine?_append {rest : List Char} {span : CommentSpan} (found : ofLine? rest = some span)
    (inside : span.length < rest.length) (tail : List Char) :
    ofLine? (rest ++ tail) = some span := by
  cases rest with
  | nil => cases found
  | cons character rest =>
      by_cases sign : character = '#'
      · subst sign
        have shorter : (rest.takeWhile (· != '\n')).length ≠ rest.length := by
          rw [ofLine?, Option.some.injEq] at found
          have length_eq := congrArg CommentSpan.length found
          simp only [List.length_cons] at length_eq inside
          omega
        rw [List.cons_append, ofLine?, List.takeWhile_append, if_neg shorter]
        exact found
      · rw [ofLine?.eq_2 _ (by simp [sign])] at found
        cases found

theorem ofLine?_append_of_none {rest : List Char} (filled : rest ≠ [])
    (missing : ofLine? rest = none) (tail : List Char) : ofLine? (rest ++ tail) = none := by
  cases rest with
  | nil => exact absurd rfl filled
  | cons character rest =>
      have noSign : character ≠ '#' := by
        rintro rfl
        cases missing
      rw [List.cons_append, ofLine?.eq_2 _ (by simp [noSign])]

theorem ofLine?_eq_none {text : List Char} (noSign : '#' ∉ text) : ofLine? text = none := by
  cases text with
  | nil => rfl
  | cons character rest =>
      have apart : character ≠ '#' := by
        rintro rfl
        exact noSign List.mem_cons_self
      rw [ofLine?.eq_2 _ (by simp [apart])]

end CommentSpan

namespace Matcher

variable {source tail : List Char}

theorem blockComment_rejects {text : List Char} (unmarked : IsUnmarked text) (offset : Nat) :
    blockComment.Rejects (.within text offset) :=
  rejects_blockComment.mpr fun starts => CommentSpan.ofBlock?_eq_none (unmarked offset starts)

theorem anyComment_rejects_within {text : List Char} (unmarked : IsUnmarked text) {offset : Nat} :
    anyComment.Rejects (.within text offset) ↔ CommentSpan.ofLine? (text.drop offset) = none := by
  rw [anyComment, rejects_orElse, lineComment, rejects_commentOf]
  exact and_iff_right (blockComment_rejects unmarked offset)

section

variable (isBreak : IsBreak tail) (unmarked : IsUnmarked (source ++ tail))
include isBreak unmarked

/-- A comment that does not reach the end of the source is read alike in the longer text. -/
theorem anyComment_append {offset : Nat} (inside : offset ≤ source.length) {comment : Node}
    {next : Cursor} (read : anyComment.Reads (.within source offset) comment next) :
    ∃ stop, offset < stop ∧ stop ≤ source.length ∧ next = .within source stop ∧
      (stop < source.length → anyComment.Reads (.within (source ++ tail) offset) comment
        (.within (source ++ tail) stop)) := by
  rcases reads_orElse.mp read with block | ⟨-, line⟩
  · exact absurd (blockComment_rejects (unmarked.of_append isBreak) offset) block.not_rejects
  · obtain ⟨span, found, rfl, rfl⟩ := reads_commentOf.mp line
    rw [Cursor.rest_within] at found
    obtain ⟨-, start, inner, outer⟩ := CommentSpan.ofLine?_bounds found
    rw [List.length_drop] at outer
    refine ⟨offset + span.length, by omega, by omega, Cursor.advance_within (by omega),
      fun ends => ?_⟩
    have longer : (source ++ tail).drop offset = source.drop offset ++ tail :=
      List.drop_append_of_le_length inside
    have foundToo : CommentSpan.ofLine? ((source ++ tail).drop offset) = some span := by
      rw [longer]
      refine CommentSpan.ofLine?_append found ?_ tail
      rw [List.length_drop]
      omega
    refine reads_orElse.mpr (Or.inr ⟨blockComment_rejects unmarked offset,
      reads_commentOf.mpr ⟨span, foundToo, ?_, ?_⟩⟩)
    · refine (Cursor.advance_within ?_).symm
      rw [List.length_append]
      omega
    · have text_eq : ((source.drop offset ++ tail).drop span.textStart).take span.textLength =
          ((source.drop offset).drop span.textStart).take span.textLength := by
        rw [List.drop_append_of_le_length (by rw [List.length_drop]; omega),
          List.take_append_of_le_length (by simp only [List.length_drop]; omega)]
      rw [Cursor.rest_within, Cursor.rest_within, Cursor.offset_within, Cursor.offset_within,
        longer, text_eq]

private theorem comments_append {kind : Skip} (counts : kind ≠ .horizontal) {cursor last : Cursor}
    {comments : List Node} (each : (afterSkip kind anyComment).ReadsEach cursor comments last) :
    ∀ {offset : Nat}, offset ≤ source.length → cursor = .within source offset →
      ∃ stop, offset + comments.length ≤ stop ∧ stop ≤ source.length ∧
        last = .within source stop ∧ (stop < source.length →
          (afterSkip kind anyComment).ReadsEach (.within (source ++ tail) offset) comments
            (.within (source ++ tail) stop)) := by
  induction each with
  | nil =>
      rintro offset inside rfl
      exact ⟨offset, Nat.le_refl _, inside, rfl, fun _ => .nil⟩
  | @cons cursor middle last comment comments head others ih =>
      rintro offset inside rfl
      obtain ⟨within, skipped⟩ := advance_skip kind inside
      rw [reads_afterSkip, Cursor.rest_within, skipped] at head
      obtain ⟨behind, further, ends, rfl, readToo⟩ := anyComment_append isBreak unmarked within head
      obtain ⟨stop, onward, last_le, last_eq, eachToo⟩ := ih ends rfl
      refine ⟨stop, by simp only [List.length_cons]; omega, last_le, last_eq, fun open_ => ?_⟩
      refine .cons (reads_afterSkip.mpr ?_) (eachToo open_)
      have landing : kind.length ((source ++ tail).drop offset) =
          kind.length (source.drop offset) := by
        rw [List.drop_append_of_le_length inside]
        refine Skip.length_append_of_filled counts (fun ended => ?_) tail
        rw [List.drop_drop, List.drop_eq_nil_iff] at ended
        omega
      rw [Cursor.rest_within, landing, Cursor.advance_within (by
        rw [List.length_append]
        omega)]
      exact readToo (by omega)

/-- Where the source has no further comment, the longer text has none either. -/
private theorem noComment_append (noComment : ∀ kind : Skip,
      CommentSpan.ofLine? (tail.drop (kind.length tail)) = none)
    {kind : Skip} (counts : kind ≠ .horizontal) {offset : Nat} (inside : offset ≤ source.length)
    (missing : (afterSkip kind anyComment).Rejects (.within source offset)) :
    (afterSkip kind anyComment).Rejects (.within (source ++ tail) offset) := by
  obtain ⟨landing, skipped⟩ := advance_skip kind inside
  rw [rejects_afterSkip, Cursor.rest_within, skipped,
    anyComment_rejects_within (unmarked.of_append isBreak)] at missing
  have longer : (source ++ tail).drop offset = source.drop offset ++ tail :=
    List.drop_append_of_le_length inside
  have inText : offset ≤ (source ++ tail).length := by
    rw [List.length_append]
    omega
  rw [rejects_afterSkip, Cursor.rest_within, (advance_skip kind inText).2,
    anyComment_rejects_within unmarked, longer]
  by_cases ended : (source.drop offset).drop (kind.length (source.drop offset)) = []
  · -- the skip goes on behind the source
    have all : kind.length (source.drop offset) = (source.drop offset).length := by
      rw [List.drop_eq_nil_iff] at ended
      rw [List.length_drop] at ended ⊢
      omega
    have place : offset + kind.length (source.drop offset ++ tail) =
        source.length + kind.length tail := by
      rw [Skip.length_append_of_all all, List.length_drop]
      omega
    rw [place, ← List.drop_drop, List.drop_left]
    exact noComment kind
  · rw [Skip.length_append_of_filled counts ended, ← List.drop_drop, longer,
      List.drop_append_of_le_length (by rw [List.length_drop]; omega)]
    rw [← List.drop_drop] at missing
    exact CommentSpan.ofLine?_append_of_none ended missing tail

/-- The comments of a source are read alike in the longer text, unless they run up to the end of
the source. -/
theorem commentsBefore_append (noComment : ∀ kind : Skip,
      CommentSpan.ofLine? (tail.drop (kind.length tail)) = none)
    {kind : Skip} (counts : kind ≠ .horizontal) {offset : Nat} (inside : offset ≤ source.length)
    {comments : List Node} {next : Cursor}
    (read : (commentsBefore kind).Reads (.within source offset) comments next) :
    ∃ stop, offset ≤ stop ∧ stop ≤ source.length ∧ next = .within source stop ∧
      ((stop = source.length → comments = []) →
        (commentsBefore kind).Reads (.within (source ++ tail) offset) comments
          (.within (source ++ tail) stop)) := by
  obtain ⟨stop, onward, within, rfl, each⟩ :=
    comments_append isBreak unmarked counts read.each_of_many inside rfl
  refine ⟨stop, by omega, within, rfl, fun unopened => reads_many ?_ ?_ ?_⟩
  · rcases Nat.lt_or_eq_of_le within with inner | ended
    · exact each inner
    · obtain rfl := unopened ended
      cases read.each_of_many
      exact .nil
  · exact noComment_append isBreak unmarked noComment counts within read.rejects_of_many
  · simp only [Cursor.rest_within, List.length_drop, List.length_append]
    omega

end

/-- Whether only blanks follow the comments in front of what stands behind an offset. -/
def endsInComment (text : List Char) (offset : Nat) : Bool :=
  match commentsBefore .blanks (.within text offset) with
  | .matched (_ :: _) next _ => next.rest.all isBlank
  | _ => false

theorem eq_nil_of_endsInComment {text : List Char} {offset : Nat}
    (closed : endsInComment text offset = false) {comments : List Node} {stop : Nat}
    (read : (commentsBefore .blanks).Reads (.within text offset) comments (.within text stop))
    (ended : ∀ character ∈ text.drop stop, isBlank character = true) : comments = [] := by
  obtain ⟨trace, run⟩ := read
  cases comments with
  | nil => rfl
  | cons comment comments =>
      rw [endsInComment, run] at closed
      dsimp only at closed
      rw [Cursor.rest_within, List.all_eq_true.mpr ended] at closed
      cases closed

/-- Where no comment starts, nothing is read in front of a token. -/
theorem commentsBefore_plain {text : List Char} (plain : IsPlain text) (kind : Skip)
    {offset : Nat} (inside : offset ≤ text.length) :
    commentsBefore kind (.within text offset) = .matched [] (.within text offset) [] := by
  have missing : ∀ place, anyComment (.within text place) = .failed [] := by
    intro place
    have noLine : CommentSpan.ofLine? (text.drop place) = none :=
      CommentSpan.ofLine?_eq_none fun member => plain.noSign (List.mem_of_mem_drop member)
    simp only [anyComment, orElse, blockComment, lineComment, commentOf, Cursor.rest_within,
      Cursor.atLineStart_within, noLine]
    by_cases starts : startsLine text place = true
    · simp only [starts, if_true, CommentSpan.ofBlock?_eq_none (plain.unmarked place starts)]
      rfl
    · simp only [starts]
      rfl
  obtain ⟨-, skipped⟩ := advance_skip kind inside
  have run : Matcher.afterSkip kind anyComment (.within text offset) = .failed [] := by
    show ((anyComment _).after [] : Outcome Node) = _
    rw [Cursor.rest_within, skipped, missing]
    rfl
  rw [commentsBefore, many, manyUpTo_succ]
  simp only [anyComment] at run
  rw [run]

end Matcher

end RubySyntax
