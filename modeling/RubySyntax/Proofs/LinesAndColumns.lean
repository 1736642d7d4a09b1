import Mathlib.Data.List.Induction
import RubySyntax.ParseError

/-!
# Lines and columns

Where an offset lies is found in two ways.  The position table of a text goes through the text once
and writes a place down for every offset; an error looks back from its offset and counts line feeds.
The first way lets a line feed belong to the line that it opens, the second one to the line that it
ends.  This file shows what the table holds, that its entries increase, and that the two ways agree
on every character but the line feeds, where they differ by exactly that rule.
-/

namespace RubySyntax

/-! ### Starts of lines -/

theorem lastLineStart_append_singleton (front : List Char) (character : Char) :
    lastLineStart (front ++ [character]) =
      if character = '\n' then front.length + 1 else lastLineStart front := by
  have short := (List.takeWhile_sublist (l := front.reverse) (· != '\n')).length_le
  rw [List.length_reverse] at short
  by_cases feed : character = '\n'
  · simp [lastLineStart, feed]
  · rw [if_neg feed, lastLineStart, lastLineStart, List.reverse_concat,
      List.takeWhile_cons_of_pos (by simpa using feed), List.length_cons, List.length_append,
      List.length_singleton]
    omega

theorem lineFeedCount_append_singleton (front : List Char) (character : Char) :
    lineFeedCount (front ++ [character]) =
      lineFeedCount front + if character = '\n' then 1 else 0 := by
  rw [lineFeedCount, List.count_append, List.count_singleton, lineFeedCount]
  simp only [beq_iff_eq]

/-- The last line of a text is all of it, or what stands behind its last line feed. -/
theorem lastLineStart_cases (front : List Char) :
    ('\n' ∉ front ∧ lastLineStart front = 0) ∨
      ∃ head line, front = head ++ '\n' :: line ∧ '\n' ∉ line ∧
        lastLineStart front = head.length + 1 := by
  induction front using List.reverseRecOn with
  | nil => exact .inl ⟨List.not_mem_nil, rfl⟩
  | append_singleton front character ih =>
      rw [lastLineStart_append_singleton]
      by_cases feed : character = '\n'
      · subst feed
        exact .inr ⟨front, [], rfl, List.not_mem_nil, if_pos rfl⟩
      · rw [if_neg feed]
        rcases ih with ⟨unbroken, start_eq⟩ | ⟨head, line, rfl, unbroken, start_eq⟩
        · exact .inl ⟨by simp [unbroken, Ne.symm feed], start_eq⟩
        · exact .inr ⟨head, line ++ [character], by simp, by simp [unbroken, Ne.symm feed],
            start_eq⟩

/-- The last line of a text begins at its start or behind a line feed, and holds none. -/
theorem exists_lastLine (front : List Char) :
    ∃ head line, front = head ++ line ∧ (head = [] ∨ head.getLast? = some '\n') ∧
      '\n' ∉ line ∧ lastLineStart front = head.length := by
  rcases lastLineStart_cases front with ⟨unbroken, start_eq⟩ | ⟨head, line, rfl, unbroken, start_eq⟩
  · exact ⟨[], front, rfl, .inl rfl, unbroken, start_eq⟩
  · exact ⟨head ++ ['\n'], line, by simp, .inr (by simp), unbroken, by simp [start_eq]⟩

/-! ### Order of positions -/

namespace Position

/-- A position comes before another one: on an earlier line, or further left on the same line. -/
def Precedes (first second : Position) : Prop :=
  first.line < second.line ∨ first.line = second.line ∧ first.column < second.column

theorem Precedes.trans {first second third : Position} (before : first.Precedes second)
    (onward : second.Precedes third) : first.Precedes third := by
  unfold Precedes at *
  omega

theorem Precedes.ne {first second : Position} (before : first.Precedes second) :
    first ≠ second := by
  rintro rfl
  unfold Precedes at before
  omega

/-- The position behind a position, where the given character stands, if there is one. -/
def advance (position : Position) : Option Char → Position
  | some character => PositionTable.place character position.line (position.column + 1)
  | none => ⟨position.line, position.column + 1⟩

theorem precedes_advance (position : Position) (next : Option Char) :
    position.Precedes (position.advance next) := by
  have further : position.Precedes ⟨position.line, position.column + 1⟩ :=
    .inr ⟨rfl, Int.lt_add_one_of_le (Int.le_refl _)⟩
  cases next with
  | none => exact further
  | some character =>
      rw [advance, PositionTable.place]
      split
      · exact .inl (Int.lt_add_one_of_le (Int.le_refl _))
      · exact further

end Position

/-! ### Entries of the table -/

namespace PositionTable

theorem getElem?_positionsFrom_zero (line column : Int) (text : List Char) :
    (positionsFrom line column text)[0]? =
      some (Position.advance ⟨line, column - 1⟩ text[0]?) := by
  cases text <;> simp [positionsFrom, Position.advance]

/-- Each entry is found from the one before it and the next character. -/
theorem getElem?_positionsFrom_succ {line column : Int} {text : List Char} {index : Nat}
    {position : Position} (entry : (positionsFrom line column text)[index]? = some position)
    (inside : index < text.length) :
    (positionsFrom line column text)[index + 1]? = some (position.advance text[index + 1]?) := by
  induction text generalizing line column index with
  | nil => simp at inside
  | cons character rest ih =>
      rw [positionsFrom, List.getElem?_cons_succ]
      cases index with
      | zero =>
          obtain rfl : place character line column = position := by
            simpa [positionsFrom] using entry
          simpa using getElem?_positionsFrom_zero _ (_ + 1) rest
      | succ index =>
          exact ih (by simpa [positionsFrom] using entry) (by simpa using inside)

/-- What the table holds of an offset: the line feeds up to it, and how far it lies behind the last
of them. -/
def positionAt (text : List Char) (offset : Nat) : Position where
  line := lineFeedCount (text.take (offset + 1))
  column := (offset : Int) - lastLineStart (text.take (offset + 1))

theorem positionAt_zero (text : List Char) :
    positionAt text 0 = Position.advance ⟨0, -1⟩ text[0]? := by
  cases text with
  | nil => rfl
  | cons character rest =>
      simp only [positionAt, List.take_succ_cons, List.take_zero, Position.advance,
        List.getElem?_cons_zero, place]
      split
      next feed => simp [feed, lineFeedCount, lastLineStart]
      next inner => simp [inner, lineFeedCount, lastLineStart]

theorem positionAt_succ {text : List Char} {offset : Nat} (inside : offset < text.length) :
    positionAt text (offset + 1) = (positionAt text offset).advance text[offset + 1]? := by
  rw [positionAt, List.take_add_one (i := offset + 1)]
  cases next : text[offset + 1]? with
  | none =>
      rw [Option.toList_none, List.append_nil, Position.advance, positionAt]
      simp only [Position.mk.injEq, true_and]
      omega
  | some character =>
      have length_eq : (text.take (offset + 1)).length = offset + 1 :=
        List.length_take_of_le inside
      rw [Option.toList_some, lineFeedCount_append_singleton, lastLineStart_append_singleton,
        length_eq, Position.advance, place]
      split
      · simp only [positionAt, Position.mk.injEq]
        omega
      · simp only [positionAt, Position.mk.injEq]
        omega

theorem get?_ofText {text : List Char} {offset : Nat} (within : offset ≤ text.length) :
    (ofText text).get? offset = some (positionAt text offset) := by
  rw [get?, if_neg (by omega), Int.toNat_natCast, ofText, List.getElem?_toArray]
  induction offset with
  | zero => rw [getElem?_positionsFrom_zero, positionAt_zero, Int.zero_sub]
  | succ offset ih =>
      rw [getElem?_positionsFrom_succ (ih (Nat.le_of_succ_le within)) within,
        positionAt_succ within]

/-- The table is strictly increasing. -/
theorem positionAt_precedes {text : List Char} {first second : Nat} (before : first < second)
    (within : second ≤ text.length) :
    (positionAt text first).Precedes (positionAt text second) := by
  induction before with
  | refl =>
      rw [positionAt_succ within]
      exact Position.precedes_advance _ _
  | step _ ih =>
      rw [positionAt_succ within]
      exact (ih (Nat.le_of_succ_le within)).trans (Position.precedes_advance _ _)

/-- The column counts from the last line feed, or else from the start of the text. -/
theorem positionAt_column (text : List Char) (offset : Nat) :
    (∃ head line, text.take (offset + 1) = head ++ '\n' :: line ∧ '\n' ∉ line ∧
        (positionAt text offset).column = (offset : Int) - head.length - 1) ∨
      '\n' ∉ text.take (offset + 1) ∧ (positionAt text offset).column = offset := by
  rcases lastLineStart_cases (text.take (offset + 1)) with
    ⟨unbroken, start_eq⟩ | ⟨head, line, split_eq, unbroken, start_eq⟩
  · exact .inr ⟨unbroken, by simp only [positionAt]; omega⟩
  · exact .inl ⟨head, line, split_eq, unbroken, by simp only [positionAt]; omega⟩

/-- A line feed belongs to the line that it opens, in front of its first column. -/
theorem positionAt_of_feed {text : List Char} {offset : Nat} (feed : text[offset]? = some '\n') :
    positionAt text offset = ⟨lineFeedCount (text.take offset) + 1, -1⟩ := by
  have inside : offset < text.length := (List.getElem?_eq_some_iff.mp feed).1
  rw [positionAt, List.take_add_one, feed, Option.toList_some, lineFeedCount_append_singleton,
    lastLineStart_append_singleton, if_pos rfl, if_pos rfl,
    List.length_take_of_le (Nat.le_of_lt inside)]
  simp only [Position.mk.injEq]
  omega

/-- Any other character lies where the text in front of it ends. -/
theorem positionAt_of_inner {text : List Char} {offset : Nat} (inner : text[offset]? ≠ some '\n') :
    positionAt text offset =
      ⟨lineFeedCount (text.take offset), (offset : Int) - lastLineStart (text.take offset)⟩ := by
  rw [positionAt, List.take_add_one]
  cases here : text[offset]? with
  | none => simp
  | some character =>
      have apart : character ≠ '\n' := by
        rintro rfl
        exact inner here
      rw [Option.toList_some, lineFeedCount_append_singleton, lastLineStart_append_singleton,
        if_neg apart, if_neg apart, Nat.add_zero]

end PositionTable

/-! ### Places of errors -/

namespace ParseError

variable {text : List Char} {failure : FurthestFailure}

theorem position_ofFailure (within : failure.offset ≤ text.length) :
    (ofFailure text failure).position = PositionTable.positionAt text failure.offset := by
  have entry := PositionTable.get?_ofText within
  rw [PositionTable.get?_eq_clamped within] at entry
  exact Option.some.inj entry

theorem line_ofFailure (within : failure.offset ≤ text.length) :
    (ofFailure text failure).line = lineFeedCount (text.take failure.offset) + 1 := by
  rw [line, ofFailure, textBefore, boundAt_natCast within]

theorem column_ofFailure (within : failure.offset ≤ text.length) :
    (ofFailure text failure).column =
      (failure.offset : Int) - lastLineStart (text.take failure.offset) + 1 := by
  rw [column, ofFailure, textBefore, boundAt_natCast within]

end ParseError

/-- What an error and the position table say of one offset.  The table has an entry there, which
counts the line feeds up to the offset and the characters behind the last one; the entries increase
from offset to offset; and an error counts both from one, but on a line feed it still counts the
line that ends there. -/
theorem positions_agree {text : List Char} {offset : Nat} (within : offset ≤ text.length)
    (expected : List String) :
    ∃ position, (PositionTable.ofText text).get? offset = some position ∧
      position.line = lineFeedCount (text.take (offset + 1)) ∧
      ((∃ head line, text.take (offset + 1) = head ++ '\n' :: line ∧ '\n' ∉ line ∧
          position.column = (offset : Int) - head.length - 1) ∨
        '\n' ∉ text.take (offset + 1) ∧ position.column = offset) ∧
      (∀ later : Nat, offset < later → later ≤ text.length →
        ∃ next, (PositionTable.ofText text).get? later = some next ∧ position.Precedes next ∧
          position ≠ next) ∧
      let error := ParseError.ofFailure text ⟨offset, expected⟩
      error.position = position ∧
      (text[offset]? ≠ some '\n' →
        (error.line : Int) = position.line + 1 ∧ error.column = position.column + 1) ∧
      (text[offset]? = some '\n' →
        (error.line : Int) = position.line ∧ position.column = -1 ∧
          ∃ head line, text.take offset = head ++ line ∧ (head = [] ∨ head.getLast? = some '\n') ∧
            '\n' ∉ line ∧ error.column = line.length + 1) := by
  refine ⟨PositionTable.positionAt text offset, PositionTable.get?_ofText within, rfl,
    PositionTable.positionAt_column text offset, ?increasing, ParseError.position_ofFailure within,
    ?inner, ?feed⟩
  case increasing =>
    intro later before withinToo
    have precedes := PositionTable.positionAt_precedes before withinToo
    exact ⟨_, PositionTable.get?_ofText withinToo, precedes, precedes.ne⟩
  case inner =>
    intro inner
    rw [ParseError.line_ofFailure within, ParseError.column_ofFailure within,
      PositionTable.positionAt_of_inner inner]
    exact ⟨by simp, rfl⟩
  case feed =>
    intro feed
    obtain ⟨head, line, split_eq, opens, unbroken, start_eq⟩ := exists_lastLine (text.take offset)
    rw [ParseError.line_ofFailure within, ParseError.column_ofFailure within,
      PositionTable.positionAt_of_feed feed]
    refine ⟨by simp, rfl, head, line, split_eq, opens, unbroken, ?_⟩
    have length_eq : head.length + line.length = offset := by
      rw [← List.length_append, ← split_eq, List.length_take_of_le within]
    dsimp only
    omega

/-- The line feed of an empty line opens the third line in the table and ends the second one in the
error. -/
theorem positions_agree_emptyLine :
    3 ≤ "ab\n\ncd".toList.length ∧
      ∃ position, (PositionTable.ofText "ab\n\ncd".toList).get? (3 : Nat) = some position ∧
        position.line = 2 ∧ position.column = -1 ∧
        (ParseError.ofFailure "ab\n\ncd".toList ⟨3, ["number"]⟩).line = 2 ∧
        (ParseError.ofFailure "ab\n\ncd".toList ⟨3, ["number"]⟩).column = 1 := by
  have within : 3 ≤ "ab\n\ncd".toList.length := by decide
  obtain ⟨position, entry, line_eq, -, -, -, -, onFeed⟩ := positions_agree within ["number"]
  obtain ⟨sameLine, column_eq, -⟩ := onFeed (by decide)
  have third : position.line = 2 := line_eq.trans (by decide)
  refine ⟨within, position, entry, third, column_eq, ?_, by decide⟩
  exact Int.ofNat.inj (sameLine.trans third)

end RubySyntax
