import RubySyntax.Proofs.LineScanning
import RubySyntax.Proofs.RelatedComments

/-!
# Line endings

A line ends with a line feed, or with a carriage return and a line feed.  Two texts that
differ in nothing else are scanned side by side: what a scanner, a skip or a comment takes
from one of them, it takes from the other one too, but for the carriage returns.
-/

namespace RubySyntax

/-- The text with a carriage return in front of every line feed. -/
def withCarriageReturns (text : List Char) : List Char :=
  text.flatMap fun character => if character = '\n' then ['\r', '\n'] else [character]

/-- A character that ends no line. -/
abbrev IsInner (character : Char) : Prop :=
  character ≠ '\n' ∧ character ≠ '\r'

/-- The second text is the first one with a carriage return in front of some of its line feeds,
and the first one has no other carriage returns. -/
inductive SameLines : List Char → List Char → Prop
  | nil : SameLines [] []
  | feed {first second : List Char} (same : SameLines first second) :
      SameLines ('\n' :: first) ('\n' :: second)
  | returnFeed {first second : List Char} (same : SameLines first second) :
      SameLines ('\n' :: first) ('\r' :: '\n' :: second)
  | cons {character : Char} {first second : List Char} (inner : IsInner character)
      (same : SameLines first second) : SameLines (character :: first) (character :: second)

theorem sameLines_withCarriageReturns {text : List Char} (plain : '\r' ∉ text) :
    SameLines text (withCarriageReturns text) := by
  induction text with
  | nil => exact .nil
  | cons character text ih =>
      obtain ⟨apart, plainToo⟩ : '\r' ≠ character ∧ '\r' ∉ text := by simpa using plain
      rw [withCarriageReturns, List.flatMap_cons]
      split
      · rename_i feed
        subst feed
        exact .returnFeed (ih plainToo)
      · rename_i inner
        exact .cons ⟨inner, apart.symm⟩ (ih plainToo)

/-- So many characters of one text and so many of the other stand for the same characters.  The
carriage return of a line feed that is still to come may be one of them. -/
inductive Strides : List Char → Nat → List Char → Nat → Prop
  | stay {first second : List Char} (same : SameLines first second) : Strides first 0 second 0
  | halfway {first second : List Char} (same : SameLines first second) :
      Strides ('\n' :: first) 0 ('\r' :: '\n' :: second) 1
  | feed {first second : List Char} {count other : Nat}
      (rest : Strides first count second other) :
      Strides ('\n' :: first) (count + 1) ('\n' :: second) (other + 1)
  | returnFeed {first second : List Char} {count other : Nat}
      (rest : Strides first count second other) :
      Strides ('\n' :: first) (count + 1) ('\r' :: '\n' :: second) (other + 2)
  | cons {character : Char} {first second : List Char} {count other : Nat}
      (inner : IsInner character) (rest : Strides first count second other) :
      Strides (character :: first) (count + 1) (character :: second) (other + 1)

namespace Strides

variable {first second : List Char} {count other : Nat}

theorem same (strides : Strides first count second other) : SameLines first second := by
  induction strides with
  | stay same => exact same
  | halfway same => exact .returnFeed same
  | feed _ ih => exact .feed ih
  | returnFeed _ ih => exact .returnFeed ih
  | cons inner _ ih => exact .cons inner ih

theorem rest (strides : Strides first count second other) :
    SameLines (first.drop count) (second.drop other) := by
  induction strides with
  | stay same => exact same
  | halfway same => exact .feed same
  | feed _ ih => exact ih
  | returnFeed _ ih => exact ih
  | cons _ _ ih => exact ih

end Strides

/-! ### Lines -/

/-- What stands in two texts where a line is at its end. -/
inductive LineEnds : List Char → List Char → Prop
  | nothing : LineEnds [] []
  | feed {first second : List Char} (same : SameLines first second) :
      LineEnds ('\n' :: first) ('\n' :: second)
  | returnFeed {first second : List Char} (same : SameLines first second) :
      LineEnds ('\n' :: first) ('\r' :: '\n' :: second)

theorem LineEnds.same {first second : List Char} (ends : LineEnds first second) :
    SameLines first second := by
  cases ends with
  | nothing => exact .nil
  | feed same => exact .feed same
  | returnFeed same => exact .returnFeed same

/-- A line that is at its end in two texts may have carriage returns left in the second one. -/
theorem LineEnds.exists_returns {first second : List Char} (ends : LineEnds first second) :
    AtLineEnd first ∧
      ∃ returns rest, second = List.replicate returns '\r' ++ rest ∧ AtLineEnd rest := by
  cases ends with
  | nothing => exact ⟨by simp, 0, [], rfl, by simp⟩
  | feed same => exact ⟨by simp, 0, _, rfl, by simp⟩
  | returnFeed same => exact ⟨by simp, 1, _, rfl, by simp⟩

/-- Two texts go on with the same line. -/
theorem SameLines.exists_line {first second : List Char} (same : SameLines first second) :
    ∃ line behind other, first = line ++ behind ∧ second = line ++ other ∧
      (∀ character ∈ line, IsInner character) ∧ LineEnds behind other := by
  induction same with
  | nil => exact ⟨[], [], [], rfl, rfl, by simp, .nothing⟩
  | feed same _ => exact ⟨[], _, _, rfl, rfl, by simp, .feed same⟩
  | returnFeed same _ => exact ⟨[], _, _, rfl, rfl, by simp, .returnFeed same⟩
  | @cons character _ _ inner same ih =>
      obtain ⟨line, behind, other, rfl, rfl, inners, ends⟩ := ih
      exact ⟨character :: line, behind, other, rfl, rfl, List.forall_mem_cons.mpr ⟨inner, inners⟩,
        ends⟩

theorem Strides.line {line behind other : List Char}
    (inner : ∀ character ∈ line, IsInner character) (same : SameLines behind other) {count : Nat}
    (within : count ≤ line.length) : Strides (line ++ behind) count (line ++ other) count := by
  induction line generalizing count with
  | nil =>
      obtain rfl : count = 0 := Nat.le_zero.mp within
      exact .stay same
  | cons character line ih =>
      obtain ⟨innerHere, inner⟩ := List.forall_mem_cons.mp inner
      cases count with
      | zero =>
          exact .stay (.cons innerHere (ih inner (Nat.zero_le _)).rest)
      | succ count => exact .cons innerHere (ih inner (Nat.le_of_succ_le_succ within))

theorem LineEnds.endsLines {first second : List Char} (ends : LineEnds first second) :
    EndsLine first ∧ EndsLine second := by
  cases ends with
  | nothing => exact ⟨.nothing, .nothing⟩
  | feed _ => exact ⟨.feed _, .feed _⟩
  | returnFeed _ => exact ⟨.feed _, .returnFeed _⟩

/-! ### Scanners -/

/-- The answers of a scanner for two texts take corresponding characters, or nothing. -/
inductive AnswersAlike (first second : List Char) : Option Nat → Option Nat → Prop
  | none : AnswersAlike first second none none
  | some {count other : Nat} (strides : Strides first count second other) :
      AnswersAlike first second (some count) (some other)

namespace AnswersAlike

variable {first second : List Char} {answer otherAnswer : Option Nat}

theorem cons (alike : AnswersAlike first second answer otherAnswer) {character : Char}
    (inner : IsInner character) : AnswersAlike (character :: first) (character :: second)
      (answer.map (· + 1)) (otherAnswer.map (· + 1)) := by
  cases alike with
  | none => exact .none
  | some strides => exact .some (.cons inner strides)

theorem feed (alike : AnswersAlike first second answer otherAnswer) :
    AnswersAlike ('\n' :: first) ('\n' :: second)
      (answer.map (· + 1)) (otherAnswer.map (· + 1)) := by
  cases alike with
  | none => exact .none
  | some strides => exact .some (.feed strides)

theorem returnFeed (alike : AnswersAlike first second answer otherAnswer) :
    AnswersAlike ('\n' :: first) ('\r' :: '\n' :: second)
      (answer.map (· + 1)) (otherAnswer.map (· + 2)) := by
  cases alike with
  | none => exact .none
  | some strides => exact .some (.returnFeed strides)

theorem orStay (alike : AnswersAlike first second answer otherAnswer)
    (same : SameLines first second) :
    AnswersAlike first second (answer <|> Option.some 0) (otherAnswer <|> Option.some 0) := by
  cases alike with
  | none => exact .some (.stay same)
  | some strides => exact .some strides

end AnswersAlike

/-- A scanner takes corresponding characters from two texts, which stand for the same data, or
nothing from either. -/
structure ScansAlike {β : Type} (scanner : Scanner) (dataOf : List Char → β)
    (first second : List Char) : Prop where
  alike : AnswersAlike first second (scanner first) (scanner second)
  data : ∀ count ∈ scanner first, ∀ other ∈ scanner second,
    dataOf (first.take count) = dataOf (second.take other)

/-! ### Skips -/

theorem countWhile_strides (test : Char → Bool) (passes : test '\n' = true ∧ test '\r' = true)
    {first second : List Char} (same : SameLines first second) :
    Strides first (countWhile test first) second (countWhile test second) := by
  induction same with
  | nil => exact .stay .nil
  | feed same ih =>
      rw [countWhile_cons, countWhile_cons, if_pos passes.1, if_pos passes.1]
      exact .feed ih
  | returnFeed same ih =>
      rw [countWhile_cons, countWhile_cons, countWhile_cons, if_pos passes.1, if_pos passes.2,
        if_pos passes.1]
      exact .returnFeed ih
  | cons inner same ih =>
      rw [countWhile_cons, countWhile_cons]
      split
      · exact .cons inner ih
      · exact .stay (.cons inner same)

/-- What follows continues no line in either text. -/
theorem SameLines.no_continuation {character : Char} {first second : List Char}
    (same : SameLines first second)
    (feed : ∀ rest, character = '\\' → first = '\n' :: rest → False) :
    (∀ rest, character = '\\' → second = '\n' :: rest → False) ∧
      ∀ rest, character = '\\' → second = '\r' :: '\n' :: rest → False := by
  cases same with
  | nil => simp
  | feed same | returnFeed same =>
      have plain : character ≠ '\\' := fun backslash => feed _ backslash rfl
      simp [plain]
  | cons inner same => simp [inner.1, inner.2]

namespace Lexeme

theorem horizontalLength_strides {first second : List Char} (same : SameLines first second) :
    Strides first (horizontalLength first) second (horizontalLength second) := by
  fun_induction horizontalLength first generalizing second with
  | case1 =>
      cases same
      exact .stay .nil
  | case2 first ih =>
      cases same with
      | cons inner same =>
          cases same with
          | feed same => exact .cons inner (.feed (ih same))
          | returnFeed same => exact .cons inner (.returnFeed (ih same))
          | cons inner _ => exact absurd rfl inner.1
  | case3 first ih =>
      cases same with
      | cons _ same =>
          cases same with
          | cons inner _ => exact absurd rfl inner.2
  | case4 character first feed _ horizontal ih =>
      cases same with
      | feed _ | returnFeed _ => exact absurd horizontal (by decide)
      | cons inner same =>
          obtain ⟨feedToo, returnToo⟩ := same.no_continuation feed
          rw [horizontalLength.eq_4 _ _ feedToo returnToo, if_pos horizontal]
          exact .cons inner (ih same)
  | case5 character first feed _ vertical =>
      cases same with
      | feed same => exact .stay (.feed same)
      | returnFeed same => exact .halfway same
      | cons inner same =>
          obtain ⟨feedToo, returnToo⟩ := same.no_continuation feed
          rw [horizontalLength.eq_4 _ _ feedToo returnToo, if_neg vertical]
          exact .stay (.cons inner same)

/-- No carriage return is left behind what is skipped within a line. -/
theorem head_drop_horizontalLength (text : List Char) :
    (text.drop (horizontalLength text)).head? ≠ some '\r' := by
  fun_induction horizontalLength text with
  | case1 => simp
  | case2 text ih | case3 text ih | case4 _ text _ _ _ ih => exact ih
  | case5 character text _ _ vertical =>
      rintro ⟨⟩
      exact vertical rfl

theorem separator_alike {first second : List Char} (same : SameLines first second)
    (whole : second.head? ≠ some '\r') :
    AnswersAlike first second (separator first) (separator second) := by
  cases same with
  | nil => exact .none
  | feed same => exact .some (.feed (countWhile_strides isGap (by decide) same))
  | returnFeed _ => exact absurd rfl whole
  | @cons character first second inner same =>
      by_cases semicolon : character = ';'
      · subst semicolon
        exact .some (.cons inner (countWhile_strides isGap (by decide) same))
      · by_cases sign : character = '#'
        · subst sign
          exact .some (.stay (.cons inner same))
        · have plain (rest : List Char) : separator (character :: rest) = none := by
            simp [separator, semicolon, sign, inner.1]
          rw [plain, plain]
          exact .none

theorem endOfInput_scansAlike {β : Type} (dataOf : List Char → β) {first second : List Char}
    (same : SameLines first second) : ScansAlike endOfInput dataOf first second := by
  cases same with
  | nil => exact ⟨.some (.stay .nil), by simp⟩
  | feed _ | returnFeed _ | cons _ _ => exact ⟨.none, by simp [endOfInput]⟩

/-! ### Gaps in front of arguments and values -/

theorem commandGapLength_strides {first second : List Char} (same : SameLines first second) :
    Strides first (commandGapLength first) second (commandGapLength second) ∧
      (0 < commandGapLength first ↔ 0 < commandGapLength second) := by
  fun_induction commandGapLength first generalizing second with
  | case1 =>
      cases same
      exact ⟨.stay .nil, Iff.rfl⟩
  | case2 first ih =>
      cases same with
      | cons inner same =>
          cases same with
          | feed same => exact ⟨.cons inner (.feed (ih same).1), by simp [commandGapLength]⟩
          | returnFeed same =>
              exact ⟨.cons inner (.returnFeed (ih same).1), by simp [commandGapLength]⟩
          | cons inner _ => exact absurd rfl inner.1
  | case3 first ih =>
      cases same with
      | cons _ same =>
          cases same with
          | cons inner _ => exact absurd rfl inner.2
  | case4 character first feed _ blank ih =>
      cases same with
      | feed _ | returnFeed _ => exact absurd blank (by decide)
      | cons inner same =>
          obtain ⟨feedToo, returnToo⟩ := same.no_continuation feed
          rw [commandGapLength.eq_4 _ _ feedToo returnToo, if_pos blank]
          exact ⟨.cons inner (ih same).1, by simp⟩
  | case5 character first feed _ solid =>
      cases same with
      | feed same => exact ⟨.stay (.feed same), Iff.rfl⟩
      | returnFeed same => exact ⟨.stay (.returnFeed same), Iff.rfl⟩
      | cons inner same =>
          obtain ⟨feedToo, returnToo⟩ := same.no_continuation feed
          rw [commandGapLength.eq_4 _ _ feedToo returnToo, if_neg solid]
          exact ⟨.stay (.cons inner same), Iff.rfl⟩

theorem commandStart_alike {first second : List Char} (same : SameLines first second) :
    AnswersAlike first second (commandStart first) (commandStart second) := by
  obtain ⟨strides, positive⟩ := commandGapLength_strides same
  have starts : startsArgument (first.drop (commandGapLength first)) =
      startsArgument (second.drop (commandGapLength second)) := by
    obtain ⟨line, behind, other, first_eq, second_eq, -, ends⟩ := strides.rest.exists_line
    rw [first_eq, second_eq, startsArgument_append_break ends.endsLines.1.isBreak,
      startsArgument_append_break ends.endsLines.2.isBreak]
  simp only [commandStart, starts, positive]
  split
  · exact .some strides
  · exact .none

theorem sameLineValue_alike {first second : List Char} (same : SameLines first second) :
    AnswersAlike first second (sameLineValue first) (sameLineValue second) := by
  fun_induction sameLineValue first generalizing second with
  | case1 =>
      cases same
      exact .none
  | case2 first ih =>
      cases same with
      | cons inner same =>
          cases same with
          | feed same =>
              have alike := ((ih same).feed.cons inner).orStay (.cons inner (.feed same))
              rw [Option.map_map, Option.map_map] at alike
              exact alike
          | returnFeed same =>
              have alike :=
                ((ih same).returnFeed.cons inner).orStay (.cons inner (.returnFeed same))
              rw [Option.map_map, Option.map_map] at alike
              exact alike
          | cons inner _ => exact absurd rfl inner.1
  | case3 first ih =>
      cases same with
      | cons _ same =>
          cases same with
          | cons inner _ => exact absurd rfl inner.2
  | case4 character first feed returned horizontal ih =>
      cases same with
      | feed _ | returnFeed _ => exact absurd horizontal (by decide)
      | cons inner same =>
          obtain ⟨feedToo, returnToo⟩ := same.no_continuation feed
          rw [sameLineValue.eq_4 _ _ feedToo returnToo, if_pos horizontal]
          exact (ih same).cons inner
  | case5 character first feed returned vertical value =>
      cases same with
      | feed _ | returnFeed _ => exact absurd value (show ¬ startsValue ['\n'] = true by decide)
      | @cons _ _ second inner same =>
          obtain ⟨feedToo, returnToo⟩ := same.no_continuation feed
          have valueToo : startsValue (character :: second) = true := value
          rw [sameLineValue.eq_4 _ _ feedToo returnToo, if_neg vertical, if_pos valueToo]
          exact .some (.stay (.cons inner same))
  | case6 character first feed returned vertical noValue =>
      cases same with
      | feed same => exact .none
      | returnFeed same => exact .none
      | @cons _ _ second inner same =>
          obtain ⟨feedToo, returnToo⟩ := same.no_continuation feed
          have noValueToo : ¬ startsValue (character :: second) = true := noValue
          rw [sameLineValue.eq_4 _ _ feedToo returnToo, if_neg vertical, if_neg noValueToo]
          exact .none

end Lexeme

theorem Skip.strides (kind : Skip) {first second : List Char} (same : SameLines first second) :
    Strides first (kind.length first) second (kind.length second) := by
  cases kind with
  | blanks => exact countWhile_strides isBlank (by decide) same
  | gap => exact countWhile_strides Lexeme.isGap (by decide) same
  | horizontal => exact Lexeme.horizontalLength_strides same

/-! ### Comments -/

namespace CommentSpan

/-- Carriage returns at the end of a line comment are no part of its text. -/
theorem ofLine?_line {line : List Char} (inner : ∀ character ∈ line, IsInner character)
    (returns : Nat) {rest : List Char} (feed : AtLineEnd rest) :
    ofLine? ('#' :: (line ++ (List.replicate returns '\r' ++ rest))) =
      some ⟨line.length + returns + 1,
        countWhile (fun character => character == ' ' || character == '\t') line + 1,
        line.length - countWhile (fun character => character == ' ' || character == '\t') line⟩ := by
  have whole : (line ++ (List.replicate returns '\r' ++ rest)).takeWhile (· != '\n') =
      line ++ List.replicate returns '\r' := by
    have kept : ∀ character ∈ line ++ List.replicate returns '\r', (character != '\n') = true := by
      intro character member
      rcases List.mem_append.mp member with inLine | isReturn
      · simpa using (inner character inLine).1
      · rw [List.eq_of_mem_replicate isReturn]
        decide
    have stops : rest.takeWhile (· != '\n') = [] := by
      cases rest with
      | nil => rfl
      | cons character rest => simp [feed character rfl]
    rw [← List.append_assoc, List.takeWhile_append_of_pos kept, stops, List.append_nil]
  have lead : countWhile (fun character => character == ' ' || character == '\t')
      (line ++ List.replicate returns '\r') =
        countWhile (fun character => character == ' ' || character == '\t') line := by
    refine countWhile_append_of_head (fun character member => ?_) line
    rw [List.eq_of_mem_replicate (List.mem_of_mem_head? member)]
    decide
  have lead_le := countWhile_le (fun character => character == ' ' || character == '\t') line
  rw [ofLine?]
  simp only [whole, lead]
  generalize countWhile (fun character => character == ' ' || character == '\t') line = count at *
  have trailing : countWhile (· == '\r')
      ((line ++ List.replicate returns '\r').drop count).reverse = returns := by
    have all : countWhile (· == '\r') (List.replicate returns '\r') =
        (List.replicate returns '\r').length := by
      simp [countWhile]
    have none : countWhile (· == '\r') (line.drop count).reverse = 0 := by
      have plain : ∀ character ∈ (line.drop count).reverse.head?, (character == '\r') = false := by
        intro character member
        have inside := List.mem_of_mem_drop (List.mem_reverse.mp (List.mem_of_mem_head? member))
        simpa using (inner character inside).2
      simpa [countWhile] using countWhile_append_of_head plain []
    rw [List.drop_append_of_le_length lead_le, List.reverse_append, List.reverse_replicate,
      countWhile_append_of_all all, none, List.length_replicate, Nat.add_zero]
  rw [trailing, List.length_append, List.length_replicate, Option.some.injEq, mk.injEq]
  exact ⟨rfl, rfl, by omega⟩

theorem ofLine?_text {first second : List Char} (same : SameLines first second) :
    ∀ span ∈ ofLine? first, ∀ other ∈ ofLine? second,
      (first.drop span.textStart).take span.textLength =
        (second.drop other.textStart).take other.textLength := by
  intro span found other foundToo
  cases same with
  | nil | feed _ | returnFeed _ => cases found
  | @cons character _ _ innerHere same =>
      by_cases sign : character = '#'
      · subst sign
        obtain ⟨line, behind, after, rfl, rfl, inner, ends⟩ := same.exists_line
        obtain ⟨feed, returns, rest, rfl, feedToo⟩ := ends.exists_returns
        have text (behind : List Char) {count : Nat} (within : count ≤ line.length) :
            (('#' :: (line ++ behind)).drop (count + 1)).take (line.length - count) =
              line.drop count := by
          rw [List.drop_succ_cons, List.drop_append_of_le_length within, ← List.length_drop,
            List.take_left]
        have within := countWhile_le (fun character => character == ' ' || character == '\t') line
        have here := ofLine?_line inner 0 feed
        rw [List.replicate_zero, List.nil_append] at here
        rw [← Option.some.inj (here.symm.trans found),
          ← Option.some.inj ((ofLine?_line inner returns feedToo).symm.trans foundToo),
          text _ within, text _ within]
      · rw [Option.mem_def, ofLine?.eq_2 _ (by simp [sign])] at found
        cases found

theorem startsMarker_alike {marker : String} (solid : IsSolid marker.toList)
    {first second : List Char} (same : SameLines first second) :
    startsMarker marker first = startsMarker marker second := by
  obtain ⟨line, behind, other, rfl, rfl, -, ends⟩ := same.exists_line
  rw [startsMarker_append_break solid ends.endsLines.1.isBreak,
    startsMarker_append_break solid ends.endsLines.2.isBreak]

end CommentSpan

theorem SameLines.drop_lineLength {first second : List Char} (same : SameLines first second) :
    SameLines (first.drop (lineLength first)) (second.drop (lineLength second)) := by
  induction same with
  | nil => exact .nil
  | feed same _ | returnFeed same _ => exact .feed same
  | cons inner same ih =>
      have kept : (_ != '\n') = true := bne_iff_ne.mpr inner.1
      rw [lineLength, lineLength, countWhile_cons, countWhile_cons, if_pos kept, if_pos kept]
      exact ih

theorem sameLines_keepsLines : TextRelation.KeepsLines SameLines where
  line := SameLines.drop_lineLength
  feed same ends endsToo := by
    cases same with
    | nil => exact Or.inl ⟨rfl, rfl⟩
    | feed same => exact Or.inr ⟨_, _, rfl, rfl, same⟩
    | returnFeed _ => exact absurd (atLineEnd_cons.mp endsToo) (by decide)
    | cons inner _ => exact absurd (atLineEnd_cons.mp ends) inner.1
  marker solid _ _ same := CommentSpan.startsMarker_alike solid same

end RubySyntax
