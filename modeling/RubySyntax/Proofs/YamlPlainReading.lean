import RubySyntax.Proofs.YamlQuotedReading

/-!
# Reading plain scalars of YAML

A text that may be written without quotes is read back word by word: a fold and the
margin behind it count as the space that they replaced.  The scalar ends with its
line, since the next line is indented less.
-/

namespace RubySyntax

/-! ### Places within lines -/

namespace YamlCharacter

theorem IsOrdinary.within {character : Char} (ordinary : IsOrdinary character) :
    isBreak character = false ∧ character ≠ byteOrderMark :=
  ⟨(Bool.or_eq_false_iff.mp ordinary.1).2, ordinary.2⟩

/-- A text that begins with no marker of a document boundary. -/
def BeginsInside (text : List Char) : Prop :=
  "---".toList.isPrefixOf text = false ∧ "...".toList.isPrefixOf text = false

end YamlCharacter

namespace YamlCursor

open YamlCharacter

theorem step_column (index line column : Nat) {character : Char}
    (within : isBreak character = false ∧ character ≠ byteOrderMark) (text : List Char) :
    step ⟨index, line, column, character :: text⟩ = ⟨index + 1, line, column + 1, text⟩ := by
  have noReturn : (character == '\r') = false := by
    rw [beq_eq_false_iff_ne]
    rintro rfl
    exact absurd within.1 (by decide)
  simp [step, within, noReturn]

theorem forward_column (index line column : Nat) {word : List Char}
    (within : ∀ character ∈ word, isBreak character = false ∧ character ≠ byteOrderMark)
    (text : List Char) : forward word.length ⟨index, line, column, word ++ text⟩ =
      ⟨index + word.length, line, column + word.length, text⟩ := by
  induction word generalizing index column with
  | nil => rfl
  | cons character word ih =>
      rw [List.length_cons, forward, List.cons_append,
        step_column _ _ _ (within character (.head _)),
        ih _ _ fun other member => within other (.tail _ member), Nat.add_right_comm,
        Nat.add_right_comm column, Nat.add_assoc, Nat.add_assoc]

theorem forward_spaces (index line column count : Nat) (text : List Char) :
    forward count ⟨index, line, column, List.replicate count ' ' ++ text⟩ =
      ⟨index + count, line, column + count, text⟩ := by
  have within : ∀ character ∈ List.replicate count ' ',
      isBreak character = false ∧ character ≠ byteOrderMark := by
    intro character member
    obtain rfl := List.eq_of_mem_replicate member
    decide
  have moved := forward_column index line column within text
  rwa [List.length_replicate] at moved

theorem takeWhile_spaces (index line column count : Nat) {text : List Char}
    (solid : text.head? ≠ some ' ') :
    takeWhile (· == ' ') ⟨index, line, column, List.replicate count ' ' ++ text⟩ =
      (List.replicate count ' ', ⟨index + count, line, column + count, text⟩) := by
  have stops : text.takeWhile (· == ' ') = [] := by
    cases text with
    | nil => rfl
    | cons character text =>
        have noSpace : character ≠ ' ' := by simpa using solid
        simp [noSpace]
  have taken : (List.replicate count ' ' ++ text).takeWhile (· == ' ') =
      List.replicate count ' ' := by
    rw [List.takeWhile_append_of_pos (by simp), stops, List.append_nil]
  rw [takeWhile]
  simp only [taken, List.length_replicate, forward_spaces]

end YamlCursor

namespace YamlFlowScalar

open YamlCharacter

/-! ### Space in a plain scalar -/

theorem plainBreaks_margin (index line column : Nat) {margin bound : Nat} {text : List Char}
    (solid : BeginsSolid text) (enough : margin < bound) :
    plainBreaks bound ⟨index, line, column, List.replicate margin ' ' ++ text⟩ =
      (some [], ⟨index + margin, line, column + margin, text⟩) := by
  induction margin generalizing index column bound with
  | zero =>
      obtain _ | bound := bound
      · cases enough
      have ends : YamlCursor.takeBreak? ⟨index, line, column, text⟩ = none :=
        YamlCursor.takeBreak?_eq_none solid
      have noSpace : YamlCursor.isAt ⟨index, line, column, text⟩ ' ' = false := by
        rw [YamlCursor.isAt, beq_eq_false_iff_ne]
        intro isSpace
        exact absurd (solid ' ' isSpace) (by decide)
      rw [List.replicate_zero, List.nil_append, plainBreaks, noSpace]
      simp only [Bool.false_eq_true, if_false, ends]
      rfl
  | succ margin ih =>
      obtain _ | bound := bound
      · cases enough
      have space : isBreak ' ' = false ∧ ' ' ≠ byteOrderMark := by decide
      rw [List.replicate_succ, List.cons_append, plainBreaks,
        if_pos (by simp [YamlCursor.isAt]), YamlCursor.step_column _ _ _ space,
        ih _ _ (Nat.lt_of_succ_lt_succ enough), Nat.add_right_comm, Nat.add_right_comm column,
        Nat.add_assoc, Nat.add_assoc]

theorem plainSpace_lineBreak (index line column : Nat) {margin : Nat} {text : List Char}
    (solid : BeginsSolid text) (inside : margin = 0 → BeginsInside text) :
    plainSpace ⟨index, line, column, '\n' :: (List.replicate margin ' ' ++ text)⟩ =
      { content := [' '], broken := true,
        next := ⟨index + 1 + margin, line + 1, margin, text⟩ } := by
  have noBoundary : YamlCursor.atDocumentBoundary
      ⟨index + 1, line + 1, 0, List.replicate margin ' ' ++ text⟩ = false := by
    cases margin with
    | zero =>
        obtain ⟨noHyphens, noPoints⟩ := inside rfl
        simp only [YamlCursor.atDocumentBoundary, YamlCursor.atDocumentMarker,
          List.replicate_zero, List.nil_append, noHyphens, noPoints, Bool.false_and, Bool.or_false]
    | succ margin =>
        apply YamlCursor.atDocumentBoundary_eq_false
        simp [List.replicate_succ]
  have broken : YamlCursor.takeBreak?
      ⟨index, line, column, '\n' :: (List.replicate margin ' ' ++ text)⟩ =
        some ('\n', ⟨index + 1, line + 1, 0, List.replicate margin ' ' ++ text⟩) :=
    YamlCursor.takeBreak?_eq_some rfl (by decide)
  have enough : margin < (List.replicate margin ' ' ++ text).length + 1 := by
    rw [List.length_append, List.length_replicate]
    omega
  have breaks := plainBreaks_margin (index + 1) (line + 1) 0 solid enough
  rw [Nat.zero_add] at breaks
  have noSpaces : YamlCursor.takeWhile (· == ' ')
      ⟨index, line, column, '\n' :: (List.replicate margin ' ' ++ text)⟩ =
        ([], ⟨index, line, column, '\n' :: (List.replicate margin ' ' ++ text)⟩) := rfl
  rw [plainSpace, noSpaces]
  simp only [broken, noBoundary, breaks, Bool.false_eq_true, if_false]
  rfl

theorem plainSpace_spaces (index line column count : Nat) {text : List Char}
    (solid : BeginsSolid text) :
    plainSpace ⟨index, line, column, List.replicate count ' ' ++ text⟩ =
      { content := List.replicate count ' ', broken := false,
        next := ⟨index + count, line, column + count, text⟩ } := by
  have noSpace : text.head? ≠ some ' ' := fun isSpace => absurd (solid ' ' isSpace) (by decide)
  have ends : YamlCursor.takeBreak? ⟨index + count, line, column + count, text⟩ = none :=
    YamlCursor.takeBreak?_eq_none solid
  rw [plainSpace, YamlCursor.takeWhile_spaces _ _ _ _ noSpace]
  simp only [ends]

/-! ### Words of a plain scalar -/

/-- A word ends at a separator, unless a colon in front of it ends the scalar. -/
theorem plainLength_word {word text : List Char}
    (solid : ∀ character ∈ word, isSeparator character = false)
    (noColon : word.getLast? ≠ some ':') (ends : ∀ character ∈ text.head?,
      isSeparator character = true) :
    plainLength false (word ++ text) = word.length := by
  induction word with
  | nil =>
      cases text with
      | nil => rfl
      | cons character text => simp [plainLength, ends character rfl]
  | cons character word ih =>
      have others := ih (fun other member => solid other (.tail _ member)) (by
        cases word with
        | nil => simp
        | cons next word => simpa using noColon)
      have noEnd : (character == ':' && isColonEnd false (word ++ text)) = false := by
        cases word with
        | nil => simp_all
        | cons next word =>
            have noSeparator := solid next (.tail _ (.head _))
            simp [isColonEnd, endsOr, noSeparator]
      rw [List.cons_append, plainLength, solid character (.head _), noEnd]
      simpa using others

theorem plainLength_key {word text : List Char}
    (solid : ∀ character ∈ word, isSeparator character = false ∧ character ≠ ':')
    (ends : isColonEnd false text = true) :
    plainLength false (word ++ ':' :: text) = word.length := by
  induction word with
  | nil => simp [plainLength, ends]
  | cons character word ih =>
      obtain ⟨noSeparator, noColon⟩ := solid character (.head _)
      have others := ih fun other member => solid other (.tail _ member)
      rw [List.cons_append, plainLength, noSeparator, beq_eq_false_iff_ne.mpr noColon]
      simpa using others

end YamlFlowScalar

/-! ### Texts without quotes -/

namespace YamlScalarText

open YamlCharacter YamlFlowScalar

structure IsPlainWord (word : List Char) : Prop where
  filled : word ≠ []
  ordinary : ∀ character ∈ word, IsOrdinary character
  noColon : word.getLast? ≠ some ':'

/-- Words with spaces between them, of which none but the first starts with a number sign. -/
inductive PlainRun : List Char → Prop where
  | word {word : List Char} (isWord : IsPlainWord word) : PlainRun word
  | cons {word rest : List Char} (isWord : IsPlainWord word) (count : Nat)
      (noSign : rest.head? ≠ some '#') (goesOn : PlainRun rest) :
      PlainRun (word ++ (List.replicate (count + 1) ' ' ++ rest))

namespace IsPlainWord

variable {word : List Char}

theorem beginsSolid (isWord : IsPlainWord word) (text : List Char) :
    BeginsSolid (word ++ text) := by
  obtain ⟨character, others, rfl⟩ := List.exists_cons_of_ne_nil isWord.filled
  exact beginsSolid_cons (isWord.ordinary character (.head _)).1

theorem noSpace (isWord : IsPlainWord word) : ∀ character ∈ word, (character != ' ') = true := by
  intro character member
  rw [bne_iff_ne]
  rintro rfl
  exact absurd (isWord.ordinary ' ' member).1 (by decide)

theorem cons (isWord : IsPlainWord word) {character : Char} (ordinary : IsOrdinary character) :
    IsPlainWord (character :: word) where
  filled := List.cons_ne_nil _ _
  ordinary := List.forall_mem_cons.mpr ⟨ordinary, isWord.ordinary⟩
  noColon := by
    obtain ⟨next, others, rfl⟩ := List.exists_cons_of_ne_nil isWord.filled
    rw [List.getLast?_cons_cons]
    exact isWord.noColon

theorem singleton {character : Char} (ordinary : IsOrdinary character) (noColon : character ≠ ':') :
    IsPlainWord [character] where
  filled := List.cons_ne_nil _ _
  ordinary := by simpa using ordinary
  noColon := by simpa using noColon

end IsPlainWord

namespace PlainRun

variable {text : List Char}

theorem beginsSolid (run : PlainRun text) (behind : List Char) : BeginsSolid (text ++ behind) := by
  cases run with
  | word isWord => exact isWord.beginsSolid behind
  | cons isWord count noSign goesOn =>
      rw [List.append_assoc]
      exact isWord.beginsSolid _

theorem noSpace (run : PlainRun text) : text.head? ≠ some ' ' := by
  intro isSpace
  have solid := run.beginsSolid []
  rw [List.append_nil] at solid
  exact absurd (solid ' ' isSpace) (by decide)

theorem extend (run : PlainRun text) {character : Char} (ordinary : IsOrdinary character) :
    PlainRun (character :: text) := by
  cases run with
  | word isWord => exact .word (isWord.cons ordinary)
  | cons isWord count noSign goesOn => exact .cons (isWord.cons ordinary) count noSign goesOn

end PlainRun

/-- A text without indicators is a run of words, behind spaces if it begins with one. -/
theorem plainRun_of_noIndicator {text : List Char} (filled : text ≠ [])
    (ordinary : ∀ character ∈ text, character = ' ' ∨ IsOrdinary character)
    (ends : text.getLast? ≠ some ' ') {previous : Char}
    (noIndicator : holdsIndicator previous text = false) :
    (text.head? ≠ some ' ' → PlainRun text) ∧
      (text.head? = some ' ' → ∃ count rest, text = List.replicate (count + 1) ' ' ++ rest ∧
        rest.head? ≠ some '#' ∧ PlainRun rest) := by
  induction text generalizing previous with
  | nil => exact absurd rfl filled
  | cons character text ih =>
      rw [holdsIndicator, Bool.or_eq_false_iff, Bool.or_eq_false_iff] at noIndicator
      obtain ⟨⟨noColon, -⟩, others⟩ := noIndicator
      cases text with
      | nil =>
          have noSpace : character ≠ ' ' := by simpa using ends
          have noColonHere : character ≠ ':' := by
            rintro rfl
            exact absurd noColon (by decide)
          have isOrdinary := (ordinary character (.head _)).resolve_left noSpace
          exact ⟨fun _ => .word (.singleton isOrdinary noColonHere), by simp [noSpace]⟩
      | cons next text =>
          obtain ⟨begins, spaced⟩ := ih (by simp)
            (fun other member => ordinary other (.tail _ member)) (by simpa using ends) others
          refine ⟨fun noSpace => ?_, fun isSpace => ?_⟩
          · have isOrdinary := (ordinary character (.head _)).resolve_left (by simpa using noSpace)
            by_cases nextSpace : next = ' '
            · subst nextSpace
              obtain ⟨count, rest, text_eq, noSign, run⟩ := spaced rfl
              have noColonHere : character ≠ ':' := by
                rintro rfl
                exact absurd noColon (by simp [endsIndicator, endsOr, isSeparator, isSpaceOrTab])
              rw [text_eq]
              exact .cons (.singleton isOrdinary noColonHere) count noSign run
            · exact (begins (by simpa using nextSpace)).extend isOrdinary
          · obtain rfl : character = ' ' := by simpa using isSpace
            by_cases nextSpace : next = ' '
            · subst nextSpace
              obtain ⟨count, rest, text_eq, noSign, run⟩ := spaced rfl
              exact ⟨count + 1, rest, by rw [text_eq]; rfl, noSign, run⟩
            · refine ⟨0, next :: text, rfl, ?_, begins (by simpa using nextSpace)⟩
              rw [holdsIndicator, Bool.or_eq_false_iff, Bool.or_eq_false_iff] at others
              intro isSign
              obtain rfl : next = '#' := by simpa using isSign
              exact absurd others.1.2 (by decide)

/-! ### Writing and reading a run of words -/

theorem takeWhile_word {word : List Char} (isWord : IsPlainWord word) (count : Nat)
    (rest : List Char) :
    (word ++ (List.replicate (count + 1) ' ' ++ rest)).takeWhile (· != ' ') = word := by
  rw [List.takeWhile_append_of_pos isWord.noSpace]
  simp [List.replicate_succ]

theorem plainFrom_nil (indent bound column : Nat) : plainFrom indent bound column [] = [] := by
  cases bound <;> rfl

theorem plainFrom_word {word : List Char} (isWord : IsPlainWord word) (indent bound column : Nat) :
    plainFrom indent (bound + 1) column word = word := by
  have taken : (word ++ []).takeWhile (· != ' ') = word ++ [].takeWhile (· != ' ') :=
    List.takeWhile_append_of_pos isWord.noSpace
  rw [List.append_nil, List.takeWhile_nil, List.append_nil] at taken
  rw [plainFrom, taken]
  · simp [plainFrom_nil]
  · exact isWord.filled

/-- A single space is folded where the line is too long. -/
theorem plainFrom_cons {word rest : List Char} (isWord : IsPlainWord word) (count : Nat)
    (noSpace : rest.head? ≠ some ' ') (indent bound column : Nat) :
    plainFrom indent (bound + 1) column (word ++ (List.replicate (count + 1) ' ' ++ rest)) =
      if count = 0 ∧ bestWidth < column + word.length then
        word ++ (brokenLine indent ++ plainFrom indent bound indent rest)
      else word ++ (List.replicate (count + 1) ' ' ++
        plainFrom indent bound (column + word.length + (count + 1)) rest) := by
  have stops : rest.takeWhile (· == ' ') = [] := by
    cases rest with
    | nil => rfl
    | cons character rest =>
        have apart : character ≠ ' ' := by simpa using noSpace
        simp [apart]
  have gap : (List.replicate (count + 1) ' ' ++ rest).takeWhile (· == ' ') =
      List.replicate (count + 1) ' ' := by
    rw [List.takeWhile_append_of_pos (by simp), stops, List.append_nil]
  rw [plainFrom, takeWhile_word isWord]
  · rw [List.drop_left, gap, List.drop_left, List.length_replicate]
    simp only [List.append_assoc, Nat.add_eq_right]
  · simp [isWord.filled]

/-- A word is read up to the space behind it, which decides whether the scalar goes on. -/
theorem plainFrom_read {word text : List Char} (isWord : IsPlainWord word)
    (noSign : word.head? ≠ some '#')
    (ends : ∀ character ∈ text.head?, isSeparator character = true) (indent bound : Nat)
    (content : List Char) (index line column : Nat) (broken : Bool) (space : List Char) :
    YamlFlowScalar.plainFrom false indent (bound + 1)
        ⟨content, ⟨index, line, column, word ++ text⟩, broken⟩ space =
      let behind := plainSpace ⟨index + word.length, line, column + word.length, text⟩
      let scan : PlainScan := ⟨content ++ space ++ word, behind.next, behind.broken⟩
      if behind.content.isEmpty || behind.next.isAt '#' || behind.next.column < indent then scan
      else YamlFlowScalar.plainFrom false indent bound scan behind.content := by
  have length_eq : plainLength false (word ++ text) = word.length :=
    plainLength_word (fun character member => (isWord.ordinary character member).1) isWord.noColon
      ends
  have noSignHere : YamlCursor.isAt ⟨index, line, column, word ++ text⟩ '#' = false := by
    obtain ⟨character, others, rfl⟩ := List.exists_cons_of_ne_nil isWord.filled
    simpa [YamlCursor.isAt] using noSign
  have within : ∀ character ∈ word, isBreak character = false ∧ character ≠ byteOrderMark :=
    fun character member => (isWord.ordinary character member).within
  have positive : word.length ≠ 0 := by simpa using isWord.filled
  rw [YamlFlowScalar.plainFrom, noSignHere]
  simp only [Bool.false_eq_true, if_false, length_eq, positive,
    YamlCursor.forward_column _ _ _ within, List.take_left, Bool.not_false, Bool.true_and]

theorem separator_head? {character : Char} (separates : isSeparator character = true)
    (text : List Char) : ∀ other ∈ (character :: text).head?, isSeparator other = true := by
  rintro _ ⟨⟩
  exact separates

theorem PlainRun.exists_head {text : List Char} (run : PlainRun text) {bound : Nat}
    (enough : text.length < bound) (indent column : Nat) :
    ∃ character others written, text = character :: others ∧
      plainFrom indent bound column text = character :: written ∧ IsOrdinary character := by
  obtain _ | bound := bound
  · cases enough
  cases run with
  | word isWord =>
      obtain ⟨character, others, rfl⟩ := List.exists_cons_of_ne_nil isWord.filled
      exact ⟨character, others, others, rfl, plainFrom_word isWord _ _ _,
        isWord.ordinary character (.head _)⟩
  | cons isWord count noSign goesOn =>
      rw [plainFrom_cons isWord count goesOn.noSpace]
      obtain ⟨character, others, rfl⟩ := List.exists_cons_of_ne_nil isWord.filled
      have ordinary := isWord.ordinary character (.head _)
      split <;> exact ⟨character, _, _, rfl, rfl, ordinary⟩

section Gaps

variable {word text : List Char} {character : Char} (isWord : IsPlainWord word)
  (noSign : word.head? ≠ some '#') (solid : isSeparator character = false)
  (noSignBehind : character ≠ '#') {indent : Nat}
include isWord noSign solid noSignBehind

theorem plainFrom_readFold {margin : Nat} (positive : margin ≠ 0) (indented : indent ≤ margin)
    (bound : Nat) (content : List Char) (index line column : Nat) (broken : Bool)
    (space : List Char) :
    YamlFlowScalar.plainFrom false indent (bound + 1)
        ⟨content, ⟨index, line, column, word ++ (brokenLine margin ++ character :: text)⟩, broken⟩
        space =
      YamlFlowScalar.plainFrom false indent bound
        ⟨content ++ space ++ word,
          ⟨index + word.length + 1 + margin, line + 1, margin, character :: text⟩, true⟩ [' '] := by
  rw [brokenLine, List.cons_append, plainFrom_read isWord noSign (separator_head? (by decide) _),
    plainSpace_lineBreak _ _ _ (beginsSolid_cons solid) fun zero => absurd zero positive]
  exact if_neg (by simp [YamlCursor.isAt, noSignBehind, indented])

theorem plainFrom_readSpaces {column : Nat} (deep : indent ≤ column) (bound count : Nat)
    (content : List Char) (index line : Nat) (broken : Bool) (space : List Char) :
    YamlFlowScalar.plainFrom false indent (bound + 1)
        ⟨content, ⟨index, line, column,
          word ++ (List.replicate (count + 1) ' ' ++ character :: text)⟩, broken⟩ space =
      YamlFlowScalar.plainFrom false indent bound
        ⟨content ++ space ++ word,
          ⟨index + word.length + (count + 1), line, column + word.length + (count + 1),
            character :: text⟩, false⟩ (List.replicate (count + 1) ' ') := by
  have ends : ∀ other ∈ (List.replicate (count + 1) ' ' ++ character :: text).head?,
      isSeparator other = true := by
    rw [List.replicate_succ]
    exact separator_head? (by decide) _
  rw [plainFrom_read isWord noSign ends, plainSpace_spaces _ _ _ _ (beginsSolid_cons solid)]
  exact if_neg (by simp [YamlCursor.isAt, noSignBehind]; omega)

end Gaps

/-- A run of words is read back up to the next line, which is indented less. -/
theorem PlainRun.read {text : List Char} (run : PlainRun text) {writtenIndent indent margin : Nat}
    (indented : indent ≤ writtenIndent) (dedented : margin < indent) {behind : List Char}
    (solid : BeginsSolid behind) (inside : margin = 0 → BeginsInside behind)
    (noSign : text.head? ≠ some '#') {writtenBound bound : Nat}
    (written : text.length < writtenBound) (enough : text.length < bound)
    (writtenColumn index line : Nat) {column : Nat} (deep : indent ≤ column)
    (content : List Char) (broken : Bool) (space : List Char) :
    ∃ nextIndex nextLine, YamlFlowScalar.plainFrom false indent bound
        ⟨content, ⟨index, line, column, plainFrom writtenIndent writtenBound writtenColumn text ++
          '\n' :: (List.replicate margin ' ' ++ behind)⟩, broken⟩ space =
      ⟨content ++ space ++ text, ⟨nextIndex, nextLine, margin, behind⟩, true⟩ := by
  -- Each word is taken by one turn of the loop, which the gap behind it keeps going.
  induction run generalizing writtenBound bound writtenColumn index line column content broken
    space with
  | @word word isWord =>
      obtain _ | writtenBound := writtenBound
      · cases written
      obtain _ | bound := bound
      · cases enough
      rw [plainFrom_word isWord, plainFrom_read isWord noSign (separator_head? (by decide) _),
        plainSpace_lineBreak _ _ _ solid inside]
      simp [dedented]
  | @cons word rest isWord count noSignBehind goesOn ih =>
      obtain _ | writtenBound := writtenBound
      · cases written
      obtain _ | bound := bound
      · cases enough
      have noSignHere : word.head? ≠ some '#' := by
        obtain ⟨character, others, rfl⟩ := List.exists_cons_of_ne_nil isWord.filled
        exact noSign
      have positive := List.length_pos_iff.mpr isWord.filled
      rw [List.length_append, List.length_append, List.length_replicate] at written enough
      have shortWritten : rest.length < writtenBound := by omega
      have short : rest.length < bound := by omega
      have head := goesOn.exists_head shortWritten writtenIndent
      rw [plainFrom_cons isWord count goesOn.noSpace]
      split
      next folded =>
        obtain ⟨rfl, -⟩ := folded
        obtain ⟨character, others, more, rest_eq, head_eq, ordinary⟩ := head writtenIndent
        have noSignThere : character ≠ '#' := by simpa [rest_eq] using noSignBehind
        obtain ⟨nextIndex, nextLine, readOn⟩ := ih noSignBehind shortWritten short writtenIndent
          (index + word.length + 1 + writtenIndent) (line + 1) indented (content ++ space ++ word)
          true [' ']
        refine ⟨nextIndex, nextLine, ?_⟩
        rw [head_eq, List.cons_append] at readOn
        rw [head_eq, List.append_assoc, List.append_assoc, List.cons_append,
          plainFrom_readFold isWord noSignHere ordinary.1 noSignThere (by omega) indented, readOn]
        simp
      next =>
        obtain ⟨character, others, more, rest_eq, head_eq, ordinary⟩ :=
          head (writtenColumn + word.length + (count + 1))
        have noSignThere : character ≠ '#' := by simpa [rest_eq] using noSignBehind
        obtain ⟨nextIndex, nextLine, readOn⟩ := ih noSignBehind shortWritten short
          (writtenColumn + word.length + (count + 1)) (index + word.length + (count + 1)) line
          (by omega : indent ≤ column + word.length + (count + 1)) (content ++ space ++ word)
          false (List.replicate (count + 1) ' ')
        refine ⟨nextIndex, nextLine, ?_⟩
        rw [head_eq, List.cons_append] at readOn
        rw [head_eq, List.append_assoc, List.append_assoc, List.cons_append,
          plainFrom_readSpaces isWord noSignHere ordinary.1 noSignThere deep, readOn]
        simp

/-- Folds make a run of words no shorter. -/
theorem PlainRun.length_le {text : List Char} (run : PlainRun text) {bound : Nat}
    (enough : text.length < bound) (indent column : Nat) :
    text.length ≤ (plainFrom indent bound column text).length := by
  induction run generalizing bound column with
  | word isWord =>
      obtain _ | bound := bound
      · cases enough
      exact Nat.le_of_eq (congrArg _ (plainFrom_word isWord _ _ _).symm)
  | @cons word rest isWord count noSign goesOn ih =>
      obtain _ | bound := bound
      · cases enough
      have positive := List.length_pos_iff.mpr isWord.filled
      rw [List.length_append, List.length_append, List.length_replicate] at enough
      have shorter : rest.length < bound := by omega
      rw [plainFrom_cons isWord count goesOn.noSpace]
      split
      · have longer := ih shorter indent
        simp only [List.length_append, List.length_replicate, brokenLine, List.length_cons]
        omega
      · have longer := ih shorter (column + word.length + (count + 1))
        simp only [List.length_append, List.length_replicate]
        omega

theorem IsPlainWord.exists_second {word : List Char} (isWord : IsPlainWord word) {first : Char}
    {others behind : List Char} (text_eq : word ++ behind = first :: others)
    (ends : ∀ character ∈ behind.head?, isSeparator character = true)
    (noEnd : endsIndicator others = false) :
    ∃ second more, word = first :: second :: more ∧ isSeparator second = false := by
  obtain ⟨character, more, rfl⟩ := List.exists_cons_of_ne_nil isWord.filled
  obtain ⟨rfl, others_eq⟩ := List.cons.inj text_eq
  cases more with
  | nil =>
      have behind_eq : behind = others := others_eq
      cases others with
      | nil => exact absurd noEnd (by decide)
      | cons next others =>
          have separates := ends next (by rw [behind_eq]; rfl)
          simp [endsIndicator, endsOr, separates] at noEnd
  | cons second more => exact ⟨second, more, rfl, (isWord.ordinary second (.tail _ (.head _))).1⟩

/-- What is written of a run of words goes on as the run does if its first character is not
alone. -/
theorem PlainRun.exists_second {first : Char} {others : List Char}
    (run : PlainRun (first :: others)) (noEnd : endsIndicator others = false) {bound : Nat}
    (enough : (first :: others).length < bound) (indent column : Nat) :
    ∃ second written, plainFrom indent bound column (first :: others) = first :: second :: written ∧
      isSeparator second = false := by
  obtain _ | bound := bound
  · cases enough
  generalize text_eq : first :: others = text at run
  cases run with
  | word isWord =>
      obtain ⟨second, more, rfl, solid⟩ := isWord.exists_second
        ((List.append_nil _).trans text_eq.symm) (by simp) noEnd
      exact ⟨second, more, plainFrom_word isWord _ _ _, solid⟩
  | cons isWord count noSign goesOn =>
      obtain ⟨second, more, rfl, solid⟩ := isWord.exists_second text_eq.symm
        (separator_head? (by decide) _) noEnd
      rw [plainFrom_cons isWord count goesOn.noSpace]
      split <;> exact ⟨second, _, rfl, solid⟩

/-- A run of words is read back as a whole. -/
theorem PlainRun.plain_eq {text : List Char} (run : PlainRun text)
    {writtenIndent indent margin : Nat} (indented : indent ≤ writtenIndent)
    (dedented : margin < indent) {behind : List Char} (solid : BeginsSolid behind) (inside : margin = 0 → BeginsInside behind)
    (noSign : text.head? ≠ some '#') {bound : Nat} (enough : text.length < bound)
    (writtenColumn index line : Nat) {column : Nat} (deep : indent ≤ column) :
    ∃ nextIndex nextLine, plain false indent
        ⟨index, line, column, plainFrom writtenIndent bound writtenColumn text ++
          '\n' :: (List.replicate margin ' ' ++ behind)⟩ =
      ⟨text, ⟨nextIndex, nextLine, margin, behind⟩, true⟩ := by
  have longer := run.length_le enough writtenIndent writtenColumn
  exact run.read indented dedented solid inside noSign enough
    (by simp only [List.length_append]; omega) writtenColumn index line deep [] false []

theorem startsIndicator_cons {first : Char} {rest : List Char}
    (noStart : startsIndicator (first :: rest) = false) :
    BeginsInside (first :: rest) ∧ leadingIndicators.contains first = false ∧
      ((first == '?' || first == ':' || first == '-') && endsIndicator rest) = false := by
  rw [startsIndicator, Bool.or_eq_false_iff, Bool.or_eq_false_iff, Bool.or_eq_false_iff] at noStart
  exact ⟨noStart.1, noStart.2⟩

/-- What a text that may be written without quotes looks like. -/
theorem isPlain_spec {text : List Char} (plain : isPlain text = true) :
    PlainScalar.kindOf text = .text ∧ startsIndicator text = false ∧ PlainRun text := by
  simp only [isPlain, Bool.and_eq_true, Bool.not_eq_true', beq_iff_eq] at plain
  obtain ⟨⟨⟨⟨⟨⟨isText, noStart⟩, noIndicator⟩, noMargin⟩, noMarginBehind⟩, noLineEnd⟩, simple⟩ :=
    plain
  refine ⟨isText, noStart, ?_⟩
  cases text with
  | nil => exact absurd isText (by decide)
  | cons first rest =>
      obtain ⟨-, noLeading, noAlone⟩ := startsIndicator_cons noStart
      rw [needsEscapes, Bool.or_eq_false_iff, Bool.or_eq_false_iff] at simple
      have noSign : first ≠ '#' := by
        rintro rfl
        exact absurd noLeading (by decide)
      have noColon : (first == ':' && endsIndicator rest) = false := by
        rw [Bool.and_eq_false_iff] at noAlone ⊢
        exact noAlone.imp_left fun apart => (Bool.or_eq_false_iff.mp
          (Bool.or_eq_false_iff.mp apart).1).2
      have noneBehind : holdsIndicator first rest = false := noIndicator
      have noneAtAll : holdsIndicator ' ' (first :: rest) = false := by
        rw [holdsIndicator, noColon, noneBehind, beq_eq_false_iff_ne.mpr noSign]
        rfl
      have ordinary : ∀ character ∈ first :: rest, character = ' ' ∨ IsOrdinary character := by
        intro character member
        have noSpecial := List.any_eq_false.mp simple.1.1 character member
        have inside := List.any_eq_false.mp noLineEnd character member
        exact (not_isSpecial (Bool.not_eq_true _ ▸ noSpecial)).imp_right fun kinds =>
          kinds.resolve_left inside
      have ends : (first :: rest).getLast? ≠ some ' ' := by
        intro isSpace
        rw [startsWithMargin, List.head?_reverse, isSpace] at noMarginBehind
        exact absurd noMarginBehind (by decide)
      have begins : (first :: rest).head? ≠ some ' ' := by
        intro isSpace
        rw [startsWithMargin, isSpace] at noMargin
        exact absurd noMargin (by decide)
      exact (plainRun_of_noIndicator (by simp) ordinary ends noneAtAll).1 begins

/-- A text that may be written without quotes does not end in a line feed. -/
theorem isPlain_getLast? {text : List Char} (plain : isPlain text = true) :
    text.getLast? ≠ some '\n' := by
  simp only [isPlain, Bool.and_eq_true, Bool.not_eq_true', beq_iff_eq] at plain
  obtain ⟨⟨⟨-, noMarginBehind⟩, -⟩, -⟩ := plain
  intro isFeed
  rw [startsWithMargin, List.head?_reverse, isFeed] at noMarginBehind
  exact absurd noMarginBehind (by decide)

/-! ### Keys -/

theorem plain_key {key text : List Char} (filled : key ≠ [])
    (ordinary : ∀ character ∈ key, IsOrdinary character ∧ character ≠ ':' ∧ character ≠ '#')
    (ends : isColonEnd false text = true) (indent index line column : Nat) :
    plain false indent ⟨index, line, column, key ++ ':' :: text⟩ =
      ⟨key, ⟨index + key.length, line, column + key.length, ':' :: text⟩, false⟩ := by
  have solid : ∀ character ∈ key, isSeparator character = false ∧ character ≠ ':' :=
    fun character member => ⟨(ordinary character member).1.1, (ordinary character member).2.1⟩
  have within : ∀ character ∈ key, isBreak character = false ∧ character ≠ byteOrderMark :=
    fun character member => (ordinary character member).1.within
  have noSign : YamlCursor.isAt ⟨index, line, column, key ++ ':' :: text⟩ '#' = false := by
    obtain ⟨character, others, rfl⟩ := List.exists_cons_of_ne_nil filled
    simpa [YamlCursor.isAt] using (ordinary character (.head _)).2.2
  have positive : key.length ≠ 0 := by simpa using filled
  have colonSolid : BeginsSolid (':' :: text) := beginsSolid_cons (by decide)
  have noSpace := plainSpace_spaces (index + key.length) line (column + key.length) 0
    colonSolid
  rw [List.replicate_zero, List.nil_append] at noSpace
  rw [plain, YamlFlowScalar.plainFrom, noSign]
  simp only [Bool.false_eq_true, if_false, plainLength_key solid ends, positive,
    YamlCursor.forward_column _ _ _ within, List.take_left, noSpace, List.isEmpty_nil,
    Bool.true_or, if_true, List.nil_append, Nat.add_zero]

end YamlScalarText

end RubySyntax
