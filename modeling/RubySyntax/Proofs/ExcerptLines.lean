import RubySyntax.Proofs.LexemeExtent
import RubySyntax.Proofs.LinesAndColumns

/-!
# Lines of an excerpt

An error counts its line by line feeds, and its excerpt is cut at every character that ends a
line anywhere.  A break is stray if it is neither a line feed nor a carriage return in front of
one.  As long as no stray break stands in the lines that are shown or in front of them, the excerpt
shows what the error counts: the line that holds the offset is marked, the caret stands under its
column, and up to two lines stand above and below it under their own numbers.
-/

namespace RubySyntax

/-! ### Lines between line feeds -/

theorem length_splitOn_feed (text : List Char) :
    (text.splitOn '\n').length = lineFeedCount text + 1 := by
  induction text with
  | nil => rfl
  | cons character rest ih =>
      rw [List.splitOn_cons_eq_if_modifyHead, lineFeedCount, List.count_cons]
      split
      next feed => rw [List.length_cons, ih, lineFeedCount]
      next => rw [List.length_modifyHead, ih, lineFeedCount, Nat.add_zero]

theorem splitOn_feed_line {line : List Char} (unbroken : '\n' ∉ line) (rest : List Char) :
    (line ++ '\n' :: rest).splitOn '\n' = line :: rest.splitOn '\n' := by
  rw [List.splitOn_append_cons_self, List.splitOn_eq_singleton unbroken, List.singleton_append]

/-- A text goes on with the rest of a line, behind which further lines may stand. -/
theorem exists_restOfLine (text : List Char) :
    ∃ back below, ∀ front, '\n' ∉ front →
      (front ++ text).splitOn '\n' = (front ++ back) :: below := by
  obtain ⟨back, rest, rfl, inner, stops, -⟩ := exists_countWhile (· != '\n') text
  have unbroken : '\n' ∉ back := fun member => by simpa using inner '\n' member
  cases rest with
  | nil =>
      refine ⟨back, [], fun front unbrokenToo => ?_⟩
      rw [List.append_nil, List.splitOn_eq_singleton (by simp [unbroken, unbrokenToo])]
  | cons feed rest =>
      obtain rfl : feed = '\n' := by simpa [startsWithChar] using stops
      refine ⟨back, rest.splitOn '\n', fun front unbrokenToo => ?_⟩
      rw [← List.append_assoc, splitOn_feed_line (by simp [unbroken, unbrokenToo])]

/-- The lines around an offset: those above it, and what stands in front of it on its own line. -/
theorem exists_lines {text : List Char} {offset : Nat} (within : offset ≤ text.length) :
    ∃ above front back below, text.splitOn '\n' = above ++ (front ++ back) :: below ∧
      (text.take offset).splitOn '\n' = above ++ [front] ∧
      lastLineStart (text.take offset) + front.length = offset := by
  obtain ⟨back, below, onward⟩ := exists_restOfLine (text.drop offset)
  have length_eq : (text.take offset).length = offset := List.length_take_of_le within
  rcases lastLineStart_cases (text.take offset) with
    ⟨unbroken, start_eq⟩ | ⟨head, front, split_eq, unbroken, start_eq⟩
  · refine ⟨[], text.take offset, back, below, ?_, List.splitOn_eq_singleton unbroken, by omega⟩
    have whole := onward _ unbroken
    rwa [List.take_append_drop] at whole
  · refine ⟨head.splitOn '\n', front, back, below, ?_, ?_, ?_⟩
    · rw [← onward front unbroken, ← List.splitOn_append_cons_self, ← List.cons_append,
        ← List.append_assoc, ← split_eq, List.take_append_drop]
    · rw [split_eq, List.splitOn_append_cons_self, List.splitOn_eq_singleton unbroken]
    · rw [split_eq, List.length_append, List.length_cons] at length_eq
      omega

/-- A text whose last line is empty, but not its only one, ends in a line feed. -/
theorem getLast?_of_splitOn {text : List Char} {above : List (List Char)}
    (split_eq : text.splitOn '\n' = above ++ [[]]) (filled : above ≠ []) :
    text.getLast? = some '\n' := by
  rcases lastLineStart_cases text with ⟨unbroken, -⟩ | ⟨head, line, rfl, unbroken, -⟩
  · rw [List.splitOn_eq_singleton unbroken] at split_eq
    exact absurd (List.append_eq_singleton_iff.mp split_eq.symm) (by simp [filled])
  · rw [List.splitOn_append_cons_self, List.splitOn_eq_singleton unbroken] at split_eq
    obtain rfl : line = [] := by simpa using (List.append_inj' split_eq rfl).2
    simp

/-! ### Stray breaks -/

/-- A character that ends a line of an excerpt, but neither a line feed nor a carriage return in
front of one. -/
def IsStrayBreak (text : List Char) (place : Nat) : Prop :=
  ∃ character, text[place]? = some character ∧ isLineBreak character = true ∧ character ≠ '\n' ∧
    ¬ (character = '\r' ∧ text[place + 1]? = some '\n')

/-- No stray break stands in so many lines at the start of a text. -/
def NoStrayBreak (text : List Char) (count : Nat) : Prop :=
  ∀ place, IsStrayBreak text place → count ≤ lineFeedCount (text.take place)

/-- What an excerpt shows of a line: a carriage return in front of the line feed is left out. -/
def withoutReturn (line : List Char) : List Char :=
  if line.getLast? = some '\r' then line.dropLast else line

@[simp]
theorem withoutReturn_append_return (line : List Char) : withoutReturn (line ++ ['\r']) = line := by
  simp [withoutReturn]

theorem withoutReturn_of_plain {line : List Char}
    (plain : ∀ character ∈ line, isLineBreak character = false) : withoutReturn line = line := by
  refine if_neg fun returns => ?_
  have isBreak := plain '\r' (List.mem_of_getLast? returns)
  revert isBreak
  decide

theorem lineFeedCount_take_line {line : List Char} (unbroken : '\n' ∉ line) (tail : List Char)
    {place : Nat} (within : place ≤ line.length) :
    lineFeedCount ((line ++ tail).take place) = 0 := by
  rw [List.take_append_of_le_length within, lineFeedCount, List.count_eq_zero]
  exact fun member => unbroken (List.mem_of_mem_take member)

/-- In a first line without stray breaks only a carriage return in front of its line feed ends a
line. -/
theorem NoStrayBreak.eq_return {front tail : List Char} {count : Nat}
    (tidy : NoStrayBreak (front ++ tail) (count + 1)) (unbroken : '\n' ∉ front) {place : Nat}
    {character : Char} (here : front[place]? = some character)
    (isBreak : isLineBreak character = true) :
    character = '\r' ∧ (front ++ tail)[place + 1]? = some '\n' := by
  have inside : place < front.length := (List.getElem?_eq_some_iff.mp here).1
  have noFeed : character ≠ '\n' := by
    rintro rfl
    exact unbroken (List.mem_of_getElem? here)
  have noStray : ¬ IsStrayBreak (front ++ tail) place := by
    intro stray
    have late := tidy place stray
    rw [lineFeedCount_take_line unbroken tail (Nat.le_of_lt inside)] at late
    exact absurd late (Nat.not_succ_le_zero count)
  refine Decidable.not_not.mp fun apart => noStray ⟨character, ?_, isBreak, noFeed, apart⟩
  rw [List.getElem?_append_left inside, here]

/-- A line holds no characters that end a line, but for a carriage return at its end. -/
theorem NoStrayBreak.exists_plain {line rest : List Char} {count : Nat}
    (tidy : NoStrayBreak (line ++ '\n' :: rest) (count + 1)) (unbroken : '\n' ∉ line) :
    ∃ plain, (∀ character ∈ plain, isLineBreak character = false) ∧
      (line = plain ∨ line = plain ++ ['\r']) := by
  rcases List.eq_nil_or_concat line with rfl | ⟨front, last, line_eq⟩
  · exact ⟨[], by simp, .inl rfl⟩
  rw [List.concat_eq_append] at line_eq
  subst line_eq
  have plain : ∀ character ∈ front, isLineBreak character = false := by
    intro character member
    obtain ⟨place, inside, rfl⟩ := List.getElem_of_mem member
    rw [← Bool.not_eq_true]
    intro isBreak
    have here : (front ++ [last])[place]? = some front[place] := by
      rw [List.getElem?_append_left inside, List.getElem?_eq_getElem inside]
    obtain ⟨-, feed⟩ := tidy.eq_return unbroken here isBreak
    rw [List.getElem?_append_left (by simpa using inside)] at feed
    exact unbroken (List.mem_of_getElem? feed)
  cases isBreak : isLineBreak last with
  | true =>
      have here : (front ++ [last])[front.length]? = some last := List.getElem?_concat_length
      obtain ⟨rfl, -⟩ := tidy.eq_return unbroken here isBreak
      exact ⟨front, plain, .inr rfl⟩
  | false =>
      refine ⟨front ++ [last], fun character member => ?_, .inl rfl⟩
      rcases List.mem_append.mp member with member | member
      · exact plain character member
      · rw [List.mem_singleton.mp member, isBreak]

theorem NoStrayBreak.rest {line rest : List Char} {count : Nat}
    (tidy : NoStrayBreak (line ++ '\n' :: rest) (count + 1)) (unbroken : '\n' ∉ line) :
    NoStrayBreak rest count := by
  rintro place ⟨character, here, isBreak, noFeed, apart⟩
  have behind (index : Nat) :
      (line ++ '\n' :: rest)[line.length + (index + 1)]? = rest[index]? := by
    rw [List.getElem?_append_right (Nat.le_add_right _ _), Nat.add_sub_cancel_left,
      List.getElem?_cons_succ]
  have stray : IsStrayBreak (line ++ '\n' :: rest) (line.length + (place + 1)) :=
    ⟨character, (behind place).trans here, isBreak, noFeed, fun returns =>
      apart ⟨returns.1, (behind (place + 1)).symm.trans returns.2⟩⟩
  have late := tidy _ stray
  rw [List.take_length_add_append, lineFeedCount, List.count_append,
    List.count_eq_zero.mpr unbroken, List.take_succ_cons, List.count_cons_self] at late
  rw [lineFeedCount]
  omega

theorem NoStrayBreak.plain {text : List Char} {count : Nat} (tidy : NoStrayBreak text (count + 1))
    (unbroken : '\n' ∉ text) : ∀ character ∈ text, isLineBreak character = false := by
  intro character member
  obtain ⟨place, inside, rfl⟩ := List.getElem_of_mem member
  rw [← Bool.not_eq_true]
  intro isBreak
  rw [← List.append_nil text] at tidy
  obtain ⟨-, feed⟩ := tidy.eq_return unbroken (List.getElem?_eq_getElem inside) isBreak
  rw [List.append_nil] at feed
  exact unbroken (List.mem_of_getElem? feed)

/-! ### Lines that are cut at every break -/

theorem splitLinesFrom_append {plain : List Char}
    (each : ∀ character ∈ plain, isLineBreak character = false) (current rest : List Char) :
    splitLinesFrom current (plain ++ rest) = splitLinesFrom (plain.reverse ++ current) rest := by
  induction plain generalizing current with
  | nil => rfl
  | cons character plain ih =>
      have noBreak := each character List.mem_cons_self
      have apart : character ≠ '\r' := by
        rintro rfl
        revert noBreak
        decide
      have first : splitLinesFrom current (character :: (plain ++ rest)) =
          splitLinesFrom (character :: current) (plain ++ rest) := by
        simp [splitLinesFrom, noBreak, apart]
      have others : ∀ other ∈ plain, isLineBreak other = false := fun other member =>
        each other (List.mem_cons_of_mem _ member)
      rw [List.cons_append, first, ih others, List.reverse_cons, List.append_assoc,
        List.singleton_append]

theorem splitLines_line {line rest : List Char} {count : Nat} (unbroken : '\n' ∉ line)
    (tidy : NoStrayBreak (line ++ '\n' :: rest) (count + 1)) :
    splitLines (line ++ '\n' :: rest) = withoutReturn line :: splitLines rest := by
  obtain ⟨plain, each, rfl | rfl⟩ := tidy.exists_plain unbroken
  · have feed : isLineBreak '\n' = true := by decide
    rw [withoutReturn_of_plain each, splitLines, splitLinesFrom_append each]
    simp [splitLinesFrom, feed, splitLines]
  · rw [withoutReturn_append_return, List.append_assoc, splitLines, splitLinesFrom_append each]
    simp [splitLinesFrom, splitLines]

theorem splitLines_last {text : List Char}
    (plain : ∀ character ∈ text, isLineBreak character = false) :
    splitLines text = if text = [] then [] else [text] := by
  have whole := splitLinesFrom_append plain [] []
  rw [List.append_nil, List.append_nil] at whole
  rw [splitLines, whole, splitLinesFrom, List.isEmpty_reverse, List.reverse_reverse]
  simp only [List.isEmpty_iff]

def withoutEmptyLast (lines : List (List Char)) : List (List Char) :=
  if lines.getLast? = some [] then lines.dropLast else lines

theorem withoutEmptyLast_cons {lines : List (List Char)} (filled : lines ≠ [])
    (line : List Char) : withoutEmptyLast (line :: lines) = line :: withoutEmptyLast lines := by
  obtain ⟨next, lines, rfl⟩ := List.exists_cons_of_ne_nil filled
  rw [withoutEmptyLast, withoutEmptyLast, List.getLast?_cons_cons, List.dropLast_cons_cons]
  split <;> rfl

@[simp]
theorem withoutEmptyLast_append_nil (lines : List (List Char)) :
    withoutEmptyLast (lines ++ [[]]) = lines := by
  simp [withoutEmptyLast]

/-- An empty line is only left out where no line stands behind it. -/
theorem withoutEmptyLast_append_cons {failing : List Char} {below : List (List Char)}
    (stands : below = [] → failing ≠ []) (above : List (List Char)) :
    withoutEmptyLast (above ++ failing :: below) = above ++ failing :: withoutEmptyLast below := by
  induction above with
  | nil =>
      by_cases filled : below = []
      · subst filled
        simp [withoutEmptyLast, stands rfl]
      · exact withoutEmptyLast_cons filled failing
  | cons line above ih =>
      rw [List.cons_append, withoutEmptyLast_cons (by simp), ih, List.cons_append]

/-- Where no stray break stands, a text is cut at its line feeds. -/
theorem take_splitLines {text : List Char} {count : Nat} (tidy : NoStrayBreak text count) :
    (splitLines text).take count =
      ((withoutEmptyLast (text.splitOn '\n')).map withoutReturn).take count := by
  induction count generalizing text with
  | zero => simp
  | succ count ih =>
      obtain ⟨line, rest, rfl, inner, stops, -⟩ := exists_countWhile (· != '\n') text
      have unbroken : '\n' ∉ line := fun member => by simpa using inner '\n' member
      cases rest with
      | nil =>
          rw [List.append_nil] at tidy ⊢
          have plain := tidy.plain unbroken
          rw [splitLines_last plain, List.splitOn_eq_singleton unbroken]
          by_cases empty : line = []
          · simp [withoutEmptyLast, empty]
          · simp [withoutEmptyLast, empty, withoutReturn_of_plain plain]
      | cons feed rest =>
          obtain rfl : feed = '\n' := by simpa [startsWithChar] using stops
          rw [splitLines_line unbroken tidy, splitOn_feed_line unbroken,
            withoutEmptyLast_cons (List.splitOn_ne_nil _ _), List.map_cons, List.take_succ_cons,
            List.take_succ_cons, ih (tidy.rest unbroken)]

/-! ### Rows -/

namespace SourceExcerpt

/-- The lines that an excerpt can show are those between line feeds, as far as it goes.  An empty
line behind the last line feed is only there if it is the marked one. -/
theorem take_shownLines {text failing : List Char} {above below : List (List Char)}
    (filled : text ≠ []) (split_eq : text.splitOn '\n' = above ++ failing :: below)
    (tidy : NoStrayBreak text (above.length + 3)) :
    (shownLines text (above.length + 1 : Nat)).take (above.length + 3) =
      ((above ++ failing :: withoutEmptyLast below).map withoutReturn).take (above.length + 3) := by
  have taken := take_splitLines tidy
  rw [split_eq] at taken
  have lengths := congrArg List.length taken
  rw [List.length_take, List.length_take, List.length_map] at lengths
  by_cases stands : below = [] → failing ≠ []
  · rw [withoutEmptyLast_append_cons stands] at taken lengths
    rw [List.length_append, List.length_cons] at lengths
    have inside : ¬ (((above.length + 1 : Nat) : Int) = (splitLines text).length + 1 ∧
        text.getLast? = some '\n') := by
      rintro ⟨line_eq, -⟩
      omega
    rw [← taken, shownLines, if_neg inside]
  · obtain ⟨rfl, rfl⟩ : below = [] ∧ failing = [] := by simpa using stands
    have aboveFilled : above ≠ [] := by
      rintro rfl
      have text_eq : ['\n'].intercalate (text.splitOn '\n') = text := List.intercalate_splitOn '\n'
      rw [split_eq] at text_eq
      exact filled text_eq.symm
    rw [withoutEmptyLast_append_nil] at taken lengths
    have lines_eq : splitLines text = above.map withoutReturn := by
      rwa [List.take_of_length_le (by omega), List.take_of_length_le (by simp)] at taken
    have ends := getLast?_of_splitOn split_eq aboveFilled
    rw [shownLines, lines_eq, if_pos ⟨by simp, ends⟩]
    simp [withoutEmptyLast, withoutReturn]

-- A form feed is a stray break: the second line of the excerpt ends at the line feed.
example : shownLines "a\x0C\nb".toList 2 = ["a".toList, [], "b".toList] := by decide

/-! ### Rows in front of and behind the marked one -/

theorem toString_length_mono {number last : Nat} (before : number ≤ last) :
    (toString (number : Int)).length ≤ (toString (last : Int)).length := by
  have positive : 0 < last.repr.length := by
    rw [← Nat.toString_eq_repr, Nat.toString_eq_ofList_toDigits, String.length_ofList]
    exact Nat.length_toDigits_pos
  have bounded := (Nat.length_repr_le_iff positive).mp (Nat.le_refl _)
  exact (Nat.length_repr_le_iff positive).mpr (Nat.lt_of_le_of_lt before bounded)

/-- The numbers of all rows take as much room as the last one. -/
theorem rightAligned_length {number last : Nat} (before : number ≤ last) :
    (rightAligned (toString (last : Int)).length number).length =
      (toString (last : Int)).length := by
  rw [rightAligned, String.length_append, String.length_ofList, List.length_replicate,
    Nat.sub_add_cancel (toString_length_mono before)]

theorem numbersBetween_eq_nil {first last : Int} (past : last < first) :
    numbersBetween first last = [] := by
  have none_left : (last + 1 - first).toNat = 0 := by omega
  rw [numbersBetween, none_left, List.range_zero, List.map_nil]

theorem numbersBetween_eq_cons {first last : Int} (before : first ≤ last) :
    numbersBetween first last = first :: numbersBetween (first + 1) last := by
  have one_more : (last + 1 - first).toNat = (last + 1 - (first + 1)).toNat + 1 := by omega
  rw [numbersBetween, one_more, List.range_succ_eq_map, List.map_cons, List.map_map,
    numbersBetween]
  congr 1
  · simp
  · refine List.map_congr_left fun index _ => ?_
    rw [Function.comp_apply, Nat.succ_eq_add_one]
    omega

/-- Rows are made of lines that follow one another, each with its number. -/
theorem flatMap_numbersBetween {front segment back : List (List Char)} {first last : Int}
    (first_eq : first = front.length + 1) (last_eq : last = front.length + segment.length)
    (shown : Int → List Char → List String) :
    ((numbersBetween first last).flatMap fun number =>
        shown number ((front ++ (segment ++ back))[(number - 1).toNat]?.getD [])) =
      (segment.zipIdx (front.length + 1)).flatMap fun entry => shown entry.2 entry.1 := by
  induction segment generalizing front first with
  | nil =>
      rw [List.length_nil] at last_eq
      rw [numbersBetween_eq_nil (by omega), List.zipIdx_nil, List.flatMap_nil, List.flatMap_nil]
  | cons line segment ih =>
      rw [List.length_cons] at last_eq
      have place : (first - 1).toNat = front.length := by omega
      have onward := @ih (front ++ [line]) (first + 1)
        (by simp only [List.length_append, List.length_singleton]; omega)
        (by simp only [List.length_append, List.length_singleton]; omega)
      rw [List.append_assoc, List.singleton_append, List.length_append, List.length_singleton]
        at onward
      rw [numbersBetween_eq_cons (by omega), List.flatMap_cons, List.zipIdx_cons,
        List.flatMap_cons, List.cons_append, onward, place,
        List.getElem?_append_right (Nat.le_refl _), Nat.sub_self, List.getElem?_cons_zero,
        Option.getD_some, first_eq]
      rfl

/-- The rows of lines that are not marked, numbered from a first one on. -/
def besideRows (width first : Nat) (lines : List (List Char)) : List String :=
  (lines.zipIdx first).map fun entry =>
    "  " ++ rightAligned width entry.2 ++ " | " ++ String.ofList (withoutReturn entry.1)

def markedRow (width line : Nat) (content : List Char) : String :=
  "> " ++ rightAligned width line ++ " | " ++ String.ofList (withoutReturn content)

/-- The row whose caret stands behind so many characters of the row above it. -/
def caretRow (width count : Nat) : String :=
  "  " ++ String.ofList (List.replicate width ' ') ++ " | " ++
    String.ofList (List.replicate count ' ') ++ "^"

theorem row_of_ne {line number : Int} (apart : number ≠ line) (width : Nat) (column : Option Int)
    (content : List Char) :
    row width line column number content =
      ["  " ++ rightAligned width number ++ " | " ++ String.ofList content] := by
  cases column <;> simp [row, apart]

theorem row_marked (width line count : Nat) (content : List Char) :
    row width line (some ((count : Int) + 1)) line (withoutReturn content) =
      [markedRow width line content, caretRow width count] := by
  simp [row, markedRow, caretRow]

theorem flatMap_row_beside {lines : List (List Char)} {first line : Nat}
    (apart : line < first ∨ first + lines.length ≤ line) (width : Nat) (column : Option Int) :
    (((lines.map withoutReturn).zipIdx first).flatMap fun entry =>
        row width line column entry.2 entry.1) = besideRows width first lines := by
  induction lines generalizing first with
  | nil => rfl
  | cons content lines ih =>
      rw [List.length_cons] at apart
      rw [List.map_cons, List.zipIdx_cons, List.flatMap_cons, row_of_ne (by omega),
        ih (by omega)]
      rfl

theorem flatMap_row_around {above following : List (List Char)} {first line : Nat}
    (line_eq : first + above.length = line) (failing : List Char) (width count : Nat) :
    (((above ++ failing :: following).map withoutReturn).zipIdx first).flatMap (fun entry =>
        row width line (some ((count : Int) + 1)) entry.2 entry.1) =
      besideRows width first above ++
        ([markedRow width line failing, caretRow width count] ++
          besideRows width (line + 1) following) := by
  rw [List.map_append, List.zipIdx_append, List.flatMap_append,
    flatMap_row_beside (.inr (Nat.le_of_eq line_eq)), List.length_map, line_eq, List.map_cons,
    List.zipIdx_cons, List.flatMap_cons, row_marked,
    flatMap_row_beside (.inl (Nat.lt_succ_self line))]

/-- Around a line, the lines that an excerpt can show are those of the text. -/
theorem exists_shownLines {text failing : List Char} {above below following : List (List Char)}
    (filled : text ≠ []) (split_eq : text.splitOn '\n' = above ++ failing :: below)
    (tidy : NoStrayBreak text (above.length + 3))
    (following_eq : (withoutEmptyLast below).take 2 = following) :
    ∃ behind, shownLines text (above.length + 1 : Nat) =
        above.map withoutReturn ++ (failing :: following).map withoutReturn ++ behind ∧
      (following.length = 2 ∨ following.length < 2 ∧ behind = []) := by
  have taken := take_shownLines filled split_eq tidy
  generalize shownLines text (above.length + 1 : Nat) = lines at taken
  have front_eq : (above ++ failing :: withoutEmptyLast below).take (above.length + 3) =
      above ++ failing :: following := by
    rw [List.take_length_add_append, List.take_succ_cons, following_eq]
  rw [← List.map_take, front_eq] at taken
  refine ⟨lines.drop (above.length + 3), ?_, ?_⟩
  · rw [← List.map_append, ← taken, List.take_append_drop]
  · have most : following.length ≤ 2 := following_eq ▸ List.length_take_le 2 _
    refine (Nat.lt_or_eq_of_le most).symm.imp_right fun few =>
      ⟨few, List.drop_of_length_le ?_⟩
    have lengths := congrArg List.length taken
    rw [List.length_take, List.length_map, List.length_append, List.length_cons] at lengths
    omega

/-- The excerpt of a line: up to two lines above it, the line itself with the caret below it, and
up to two lines that follow. -/
theorem rows_around {text failing : List Char} {above below following : List (List Char)}
    (filled : text ≠ []) (split_eq : text.splitOn '\n' = above ++ failing :: below)
    (tidy : NoStrayBreak text (above.length + 3))
    (following_eq : (withoutEmptyLast below).take 2 = following) (count : Nat) :
    let width := (toString ((above.length + 1 + following.length : Nat) : Int)).length
    rows text (above.length + 1 : Nat) (some ((count : Int) + 1)) 2 =
      besideRows width (above.length - 2 + 1) (above.drop (above.length - 2)) ++
        ([markedRow width (above.length + 1) failing, caretRow width count] ++
          besideRows width (above.length + 2) following) := by
  intro width
  obtain ⟨behind, lines_eq, full⟩ := exists_shownLines filled split_eq tidy following_eq
  have lengths := congrArg List.length lines_eq
  rw [List.length_append, List.length_append, List.length_map, List.length_map, List.length_cons]
    at lengths
  have last_eq : min ((shownLines text (above.length + 1 : Nat)).length : Int)
      ((above.length + 1 : Nat) + 2) = (above.length + 1 + following.length : Nat) := by
    rw [lengths]
    rcases full with two | ⟨few, rfl⟩
    · omega
    · rw [List.length_nil]
      omega
  -- The rows start two lines above the marked one, or at the first line.
  have shown_eq : shownLines text (above.length + 1 : Nat) =
      (above.take (above.length - 2)).map withoutReturn ++
        ((above.drop (above.length - 2) ++ failing :: following).map withoutReturn ++ behind) := by
    rw [lines_eq, ← List.append_assoc, ← List.map_append, ← List.map_append, ← List.append_assoc,
      List.take_append_drop]
  have front_length : ((above.take (above.length - 2)).map withoutReturn).length =
      above.length - 2 := by
    rw [List.length_map, List.length_take_of_le (Nat.sub_le _ _)]
  rw [rows, if_neg (by omega), last_eq, shown_eq,
    flatMap_numbersBetween (by rw [front_length]; omega)
      (by rw [front_length, List.length_map, List.length_append, List.length_drop,
        List.length_cons]; omega),
    front_length, flatMap_row_around (by rw [List.length_drop]; omega)]

end SourceExcerpt

/-! ### Errors that show their line -/

theorem intercalate_feed_ne_empty {rows : List String} (several : 2 ≤ rows.length) :
    "\n".intercalate rows ≠ "" := by
  match rows, several with
  | row :: next :: rows, _ =>
      rw [String.intercalate_cons_cons]
      simp

namespace ParseError

variable {text : List Char} {failure : FurthestFailure}

theorem place_ofFailure {above : List (List Char)} {front : List Char}
    (within : failure.offset ≤ text.length)
    (front_eq : (text.take failure.offset).splitOn '\n' = above ++ [front])
    (start_eq : lastLineStart (text.take failure.offset) + front.length = failure.offset) :
    (ofFailure text failure).line = above.length + 1 ∧
      (ofFailure text failure).column = (front.length : Int) + 1 := by
  have counted := length_splitOn_feed (text.take failure.offset)
  rw [front_eq, List.length_append, List.length_singleton] at counted
  rw [line_ofFailure within, column_ofFailure within]
  omega

/-- An error shows the line that its offset lies in.  The lines of the text are those between its
line feeds; if no stray break stands in the ones that are shown or in front of them, the marked row
has the line of the error and its number, the caret below stands behind as many characters as the
column says, and the rows around are the lines around with their numbers.  All numbers take the same
room. -/
theorem format_marks_line (filled : text ≠ []) (within : failure.offset ≤ text.length)
    (tidy : NoStrayBreak text ((ofFailure text failure).line + 2)) :
    ∃ above front back below, text.splitOn '\n' = above ++ (front ++ back) :: below ∧
      (text.take failure.offset).splitOn '\n' = above ++ [front] ∧
      (ofFailure text failure).line = above.length + 1 ∧
      (ofFailure text failure).column = (front.length : Int) + 1 ∧
      let following := (withoutEmptyLast below).take 2
      let width := (toString ((above.length + 1 + following.length : Nat) : Int)).length
      (∀ number : Nat, number ≤ above.length + 1 + following.length →
        (SourceExcerpt.rightAligned width number).length = width) ∧
      (ofFailure text failure).format =
        "ParseError: " ++ (ofFailure text failure).message ++ " (line " ++
          toString (above.length + 1) ++ ", col " ++ toString ((front.length : Int) + 1) ++ ")" ++
          ("\n" ++ "\n".intercalate
            (SourceExcerpt.besideRows width (above.length - 2 + 1)
                (above.drop (above.length - 2)) ++
              ([SourceExcerpt.markedRow width (above.length + 1) (front ++ back),
                  SourceExcerpt.caretRow width front.length] ++
                SourceExcerpt.besideRows width (above.length + 2) following))) := by
  obtain ⟨above, front, back, below, split_eq, front_eq, start_eq⟩ := exists_lines within
  obtain ⟨line_eq, column_eq⟩ := place_ofFailure within front_eq start_eq
  refine ⟨above, front, back, below, split_eq, front_eq, line_eq, column_eq,
    fun number before => SourceExcerpt.rightAligned_length before, ?_⟩
  rw [line_eq] at tidy
  have rows_eq := SourceExcerpt.rows_around filled split_eq tidy rfl front.length
  have source_eq : (ofFailure text failure).source = text := rfl
  have several : 2 ≤ (SourceExcerpt.rows text (above.length + 1 : Nat)
      (some ((front.length : Int) + 1)) 2).length := by
    rw [rows_eq]
    simp only [List.length_append, List.length_cons]
    omega
  rw [format, sourceExcerpt, line_eq, column_eq, source_eq, if_neg, rows_eq]
  · simp only [String.append_assoc]
  · rw [String.isEmpty_iff]
    exact intercalate_feed_ne_empty several

example : (ofFailure "ab\r\ncd".toList ⟨5, []⟩).format =
    "ParseError: Unexpected 'd' (line 2, col 2)\n  1 | ab\n> 2 | cd\n    |  ^" := by
  decide +kernel

end ParseError

end RubySyntax
