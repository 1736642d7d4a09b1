import RubySyntax.Proofs.CommentRun

/-!
# Where block comments end

A block comment ends with a line that starts with its closing marker.  Such a
line is looked for behind a line of text first, and right behind the opening line
only if there is none.  So the first closing line ends the comment, unless it
stands right behind the opening line and another closing line follows later.
-/

namespace RubySyntax

namespace CommentSpan

/-- Whether a line that closes a block comment starts at a place of what follows the opening
line. -/
def IsBlockEnd (body : List Char) (place : Nat) : Prop :=
  (place = 0 ∨ body[place - 1]? = some '\n') ∧ startsBlockEnd (body.drop place) = true

theorem isBlockEnd_zero {body : List Char} :
    IsBlockEnd body 0 ↔ startsBlockEnd body = true := by
  simp [IsBlockEnd]

theorem isBlockEnd_succ {body : List Char} {place : Nat} : IsBlockEnd body (place + 1) ↔
    body[place]? = some '\n' ∧ startsBlockEnd (body.drop (place + 1)) = true := by
  simp [IsBlockEnd]

theorem isBlockEnd_cons_one {character : Char} {rest : List Char} :
    IsBlockEnd (character :: rest) 1 ↔ (character == '\n' && startsBlockEnd rest) = true := by
  simp [isBlockEnd_succ]

theorem isBlockEnd_cons_succ {character : Char} {rest : List Char} {place : Nat} :
    IsBlockEnd (character :: rest) (place + 2) ↔ IsBlockEnd rest (place + 1) := by
  simp [isBlockEnd_succ]

theorem blockTextLength?_eq_none {body : List Char} :
    blockTextLength? body = none ↔ ∀ place, ¬ IsBlockEnd body (place + 1) := by
  induction body with
  | nil => simp [blockTextLength?, isBlockEnd_succ]
  | cons character rest ih =>
      rw [blockTextLength?]
      split
      next here =>
        have closes : ∃ place, IsBlockEnd (character :: rest) (place + 1) :=
          ⟨0, isBlockEnd_cons_one.mpr here⟩
        simpa using closes
      next apart =>
        rw [Option.map_eq_none_iff, ih]
        constructor
        · intro none place
          cases place with
          | zero => exact fun closes => apart (isBlockEnd_cons_one.mp closes)
          | succ place => exact fun closes => none place (isBlockEnd_cons_succ.mp closes)
        · exact fun none place closes => none (place + 1) (isBlockEnd_cons_succ.mpr closes)

/-- The text of a block comment ends in front of the first closing line that stands behind a line
of text. -/
theorem blockTextLength?_eq_some {body : List Char} {length : Nat} :
    blockTextLength? body = some length ↔
      IsBlockEnd body (length + 1) ∧ ∀ place < length, ¬ IsBlockEnd body (place + 1) := by
  induction body generalizing length with
  | nil => simp [blockTextLength?, isBlockEnd_succ]
  | cons character rest ih =>
      rw [blockTextLength?]
      split
      next here =>
        have closes := isBlockEnd_cons_one.mpr here
        constructor
        · rintro ⟨⟩
          exact ⟨closes, fun place before => absurd before (Nat.not_lt_zero place)⟩
        · rintro ⟨-, none⟩
          cases length with
          | zero => rfl
          | succ length => exact absurd closes (none 0 (Nat.succ_pos length))
      next apart =>
        have notFirst : ¬ IsBlockEnd (character :: rest) 1 :=
          fun closes => apart (isBlockEnd_cons_one.mp closes)
        cases length with
        | zero => simp [notFirst]
        | succ length =>
            rw [Option.map_eq_some_iff]
            constructor
            · rintro ⟨inner, found, same⟩
              obtain rfl : inner = length := Nat.succ.inj same
              obtain ⟨closes, none⟩ := ih.mp found
              refine ⟨isBlockEnd_cons_succ.mpr closes, fun place before => ?_⟩
              cases place with
              | zero => exact notFirst
              | succ place =>
                  exact fun earlier => none place (Nat.lt_of_succ_lt_succ before)
                    (isBlockEnd_cons_succ.mp earlier)
            · rintro ⟨closes, none⟩
              refine ⟨length, ih.mpr ⟨isBlockEnd_cons_succ.mp closes, fun place before earlier =>
                none (place + 1) (Nat.succ_lt_succ before) (isBlockEnd_cons_succ.mpr earlier)⟩, rfl⟩

/-! ### The extent of a block comment -/

/-- The place of the closing line: the first one behind a line of text, or the one right behind the
opening line if there is no other. -/
def IsClosingPlace (body : List Char) (place : Nat) : Prop :=
  IsBlockEnd body place ∧ ∀ other, IsBlockEnd body (other + 1) → 0 < place ∧ place ≤ other + 1

theorem IsClosingPlace.unique {body : List Char} {place other : Nat}
    (closes : IsClosingPlace body place) (closesToo : IsClosingPlace body other) :
    place = other := by
  cases place with
  | zero =>
      cases other with
      | zero => rfl
      | succ other => exact absurd (closes.2 other closesToo.1).1 (Nat.lt_irrefl 0)
  | succ place =>
      cases other with
      | zero => exact absurd (closesToo.2 place closes.1).1 (Nat.lt_irrefl 0)
      | succ other =>
          apply Nat.le_antisymm
          · exact (closes.2 other closesToo.1).2
          · exact (closesToo.2 place closes.1).2

theorem isClosingPlace_of_some {body : List Char} {length : Nat}
    (found : blockTextLength? body = some length) : IsClosingPlace body (length + 1) := by
  obtain ⟨closes, none⟩ := blockTextLength?_eq_some.mp found
  refine ⟨closes, fun other earlier => ⟨Nat.succ_pos length, Nat.succ_le_succ ?_⟩⟩
  exact Nat.le_of_not_lt fun before => none other before earlier

theorem isClosingPlace_of_none {body : List Char} (found : blockTextLength? body = none)
    {place : Nat} : IsClosingPlace body place ↔ place = 0 ∧ startsBlockEnd body = true := by
  have none := blockTextLength?_eq_none.mp found
  constructor
  · rintro ⟨closes, -⟩
    cases place with
    | zero => exact ⟨rfl, isBlockEnd_zero.mp closes⟩
    | succ place => exact absurd closes (none place)
  · rintro ⟨rfl, ends⟩
    exact ⟨isBlockEnd_zero.mpr ends, fun other closes => absurd closes (none other)⟩

/-- The extent of a block comment whose closing line starts at a place behind the opening line. -/
def closedAt (opening body : List Char) (place : Nat) : CommentSpan where
  length := opening.length + 1 + place + countWhile (· != '\n') (body.drop place)
  textStart := opening.length + 1
  textLength := place - 1

theorem countWhile_line {opening : List Char} (oneLine : '\n' ∉ opening) (body : List Char) :
    countWhile (· != '\n') (opening ++ '\n' :: body) = opening.length := by
  have passes : ∀ character ∈ opening, (character != '\n') = true := by
    rintro character member
    rw [bne_iff_ne]
    rintro rfl
    exact oneLine member
  rw [countWhile_append_of_passes passes, countWhile_cons]
  rfl

/-- A block comment ends with its closing line, and its text lies between its two markers. -/
theorem ofBlock?_eq_some_iff {opening body : List Char} {span : CommentSpan}
    (oneLine : '\n' ∉ opening)
    (marked : startsMarker "=begin" (opening ++ '\n' :: body) = true) :
    ofBlock? (opening ++ '\n' :: body) = some span ↔
      ∃ place, IsClosingPlace body place ∧ span = closedAt opening body place := by
  have behind : (opening ++ '\n' :: body).drop opening.length = '\n' :: body := List.drop_left
  rw [ofBlock?, if_pos marked, countWhile_line oneLine]
  dsimp only
  rw [behind]
  dsimp only
  cases found : blockTextLength? body with
  | some length =>
      have closes := isClosingPlace_of_some found
      constructor
      · rintro ⟨⟩
        exact ⟨length + 1, closes, rfl⟩
      · rintro ⟨place, closesToo, rfl⟩
        rw [closesToo.unique closes]
        rfl
  | none =>
      simp only [isClosingPlace_of_none found]
      split
      next ends =>
        constructor
        · rintro ⟨⟩
          exact ⟨0, ⟨rfl, ends⟩, rfl⟩
        · rintro ⟨place, ⟨rfl, -⟩, rfl⟩
          rfl
      next runsOn =>
        constructor
        · rintro ⟨⟩
        · rintro ⟨place, ⟨-, ends⟩, -⟩
          exact absurd ends runsOn

/-- A block comment ends at the first line that closes it, unless that line stands right behind the
opening line and another closing line follows. -/
theorem ofBlock?_endsFirst_iff {opening body : List Char} (oneLine : '\n' ∉ opening)
    (marked : startsMarker "=begin" (opening ++ '\n' :: body) = true) {first : Nat}
    (closes : IsBlockEnd body first) (least : ∀ other, IsBlockEnd body other → first ≤ other) :
    ofBlock? (opening ++ '\n' :: body) = some (closedAt opening body first) ↔
      ¬ (first = 0 ∧ ∃ other, IsBlockEnd body (other + 1)) := by
  rw [ofBlock?_eq_some_iff oneLine marked]
  constructor
  · rintro ⟨place, closing, span_eq⟩ ⟨rfl, other, later⟩
    have sameText : 0 - 1 = place - 1 := congrArg textLength span_eq
    have behindText : 0 < place := (closing.2 other later).1
    obtain rfl : place = 1 := by omega
    -- The first line would be both a closing line and empty.
    cases body with
    | nil => simp [isBlockEnd_succ] at later
    | cons character rest =>
        obtain ⟨feed, -⟩ := isBlockEnd_succ.mp closing.1
        obtain rfl : character = '\n' := Option.some.inj feed
        simpa [startsBlockEnd, startsMarker] using isBlockEnd_zero.mp closes
  · intro alone
    refine ⟨first, ⟨closes, fun other later => ⟨?_, least _ later⟩⟩, rfl⟩
    exact Nat.pos_of_ne_zero fun zero => alone ⟨zero, other, later⟩

/-- A block comment is found where a closing line stands behind its opening line. -/
theorem ofBlock?_isSome_iff {opening body : List Char} (oneLine : '\n' ∉ opening)
    (marked : startsMarker "=begin" (opening ++ '\n' :: body) = true) :
    (ofBlock? (opening ++ '\n' :: body)).isSome = true ↔ ∃ place, IsBlockEnd body place := by
  rw [Option.isSome_iff_exists]
  simp only [ofBlock?_eq_some_iff oneLine marked]
  constructor
  · rintro ⟨-, place, closing, -⟩
    exact ⟨place, closing.1⟩
  · rintro ⟨place, closes⟩
    cases found : blockTextLength? body with
    | some length => exact ⟨_, length + 1, isClosingPlace_of_some found, rfl⟩
    | none =>
        cases place with
        | zero => exact ⟨_, 0, (isClosingPlace_of_none found).mpr
            ⟨rfl, isBlockEnd_zero.mp closes⟩, rfl⟩
        | succ place => exact absurd closes (blockTextLength?_eq_none.mp found place)

example : ofBlock? "=begin\n=end\nx\n=end".toList = some ⟨18, 7, 6⟩ := by decide

end CommentSpan

end RubySyntax
