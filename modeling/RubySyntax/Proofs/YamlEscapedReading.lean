import Mathlib.Algebra.Group.Nat.Defs
import RubySyntax.Proofs.YamlQuotedReading

/-!
# Reading scalars of YAML between double quotes

Every character is read back from its escape.  A text between double quotes that
was folded is read back as it was, unless its margin is as wide as a whole line:
then the backslash that keeps a space behind a fold is folded off from the space.
-/

namespace RubySyntax

namespace YamlScalarText

open YamlCharacter YamlFlowScalar

/-! ### Escapes -/

theorem hexDigits_values (number : Nat) : ∃ values : List Nat,
    ((Nat.toDigits 16 number).map Char.toUpper).map hexDigitValue? = values.map some ∧
      values.foldl (fun value digit => value * 16 + digit) 0 = number := by
  have digit_value : ∀ digit < 16, hexDigitValue? (Nat.digitChar digit).toUpper = some digit := by
    decide
  induction number using Nat.base_induction 16 (by decide) with
  | single digit small =>
      refine ⟨[digit], ?_, by simp⟩
      rw [Nat.toDigits_of_lt_base small]
      simp [digit_value digit small]
  | digit front digit small frontPos ih =>
      obtain ⟨values, values_eq, number_eq⟩ := ih
      refine ⟨values ++ [digit], ?_, ?_⟩
      · rw [← Nat.toDigits_append_toDigits (by decide) frontPos small,
          Nat.toDigits_of_lt_base small, List.map_append, List.map_append, values_eq]
        simp [digit_value digit small]
      · rw [List.foldl_append, number_eq]
        simp [Nat.mul_comm]

theorem length_upperHexDigits {width number : Nat} (positive : 0 < width)
    (fits : number < 16 ^ width) : (upperHexDigits width number).length = width := by
  have short := (Nat.length_toDigits_le_iff (by decide : 1 < 16) positive).mpr fits
  rw [upperHexDigits, List.length_map, hexDigits, List.length_append, List.length_replicate]
  omega

/-- A code point is read back from its digits. -/
theorem readHex_upperHexDigits {width number : Nat} (positive : 0 < width)
    (fits : number < 16 ^ width) (small : number ≤ 0x10FFFF) (text : List Char) :
    readHex width (upperHexDigits width number ++ text) = .ok number := by
  obtain ⟨values, values_eq, number_eq⟩ := hexDigits_values number
  have length_eq := length_upperHexDigits positive fits
  have taken : (upperHexDigits width number ++ text).take width = upperHexDigits width number :=
    List.take_left' length_eq
  have zero_value : hexDigitValue? (Char.toUpper '0') = some 0 := by decide
  have digits_eq : (upperHexDigits width number).map hexDigitValue? =
      (List.replicate (width - (Nat.toDigits 16 number).length) 0 ++ values).map some := by
    rw [upperHexDigits, hexDigits, List.map_append, List.map_append, values_eq,
      List.map_replicate, List.map_replicate, zero_value, List.map_append, List.map_replicate]
  have zeros_eq (count : Nat) :
      (List.replicate count 0).foldl (fun value digit => value * 16 + digit) 0 = 0 := by
    induction count with
    | zero => rfl
    | succ count ih => exact ih
  rw [readHex, taken]
  dsimp only
  have whole : ¬ (((upperHexDigits width number).map hexDigitValue?).length < width ∨
      ((upperHexDigits width number).map hexDigitValue?).any Option.isNone = true) := by
    rw [List.length_map, length_eq, digits_eq]
    simp
  rw [if_neg whole, digits_eq, List.foldl_map]
  simp only [Option.getD_some]
  rw [List.foldl_append, zeros_eq, number_eq, if_neg (by omega), if_neg (by omega)]

theorem simpleEscape?_escapeLetter? {codePoint : Nat} {letter : Char}
    (found : escapeLetter? codePoint = some letter) :
    simpleEscape? letter = some codePoint := by
  obtain ⟨front, back, table_eq, -⟩ := List.lookup_eq_some_iff.mp found
  have member : (codePoint, letter) ∈ front ++ (codePoint, letter) :: back := by simp
  rw [← table_eq] at member
  refine (?_ : ∀ entry ∈ _, simpleEscape? entry.2 = some entry.1) _ member
  decide

theorem readEscape_letter {letter : Char} {codePoint : Nat}
    (simple : simpleEscape? letter = some codePoint) {cursor : YamlCursor} {text : List Char}
    (rest_eq : cursor.rest = letter :: text) :
    ∃ next, readEscape cursor = .ok ([codePoint], next) ∧ next.rest = text := by
  refine ⟨cursor.step, ?_, by rw [YamlCursor.rest_step, rest_eq]; rfl⟩
  rw [readEscape, YamlCursor.peek?, rest_eq]
  simp only [List.head?_cons, simple]

theorem readEscape_digits {letter : Char} {width number : Nat}
    (wide : (letter, width) ∈ [('x', 2), ('u', 4), ('U', 8)]) (fits : number < 16 ^ width)
    (small : number ≤ 0x10FFFF) {cursor : YamlCursor} {text : List Char}
    (rest_eq : cursor.rest = letter :: upperHexDigits width number ++ text) :
    ∃ next, readEscape cursor = .ok ([number], next) ∧ next.rest = text := by
  have letters : ∀ entry ∈ [('x', 2), ('u', 4), ('U', 8)],
      simpleEscape? entry.1 = none ∧ escapeWidth? entry.1 = some entry.2 ∧ 0 < entry.2 := by
    decide
  obtain ⟨notSimple, hasWidth, positive⟩ := letters _ wide
  have behind_eq : cursor.behind = upperHexDigits width number ++ text := by
    rw [YamlCursor.behind, rest_eq]
    rfl
  have read := readHex_upperHexDigits positive fits small text
  refine ⟨cursor.forward (width + 1), ?_, ?_⟩
  · rw [readEscape, YamlCursor.peek?, rest_eq]
    simp only [List.cons_append, List.head?_cons, notSimple, hasWidth, behind_eq, read]
    rfl
  · rw [YamlCursor.rest_forward, rest_eq, List.cons_append, List.drop_succ_cons]
    exact List.drop_left' (length_upperHexDigits positive fits)

theorem exists_escape (character : Char) : ∃ written, escape character = '\\' :: written ∧
    ∀ (text : List Char) (cursor : YamlCursor), cursor.rest = written ++ text →
      ∃ next, readEscape cursor = .ok ([character.toNat], next) ∧ next.rest = text := by
  have small : character.toNat ≤ 0x10FFFF := by
    have valid := character.valid
    simp only [UInt32.isValidChar, Nat.isValidChar] at valid
    show character.val.toNat ≤ _
    omega
  rw [escape]
  split
  next letter found =>
    refine ⟨[letter], rfl, fun text cursor rest_eq => ?_⟩
    exact readEscape_letter (simpleEscape?_escapeLetter? found) rest_eq
  next =>
    split
    next fits =>
      refine ⟨_, rfl, fun text cursor rest_eq => ?_⟩
      exact readEscape_digits (by decide) (Nat.lt_of_le_of_lt fits (by decide)) small rest_eq
    next =>
      split
      next fits =>
        refine ⟨_, rfl, fun text cursor rest_eq => ?_⟩
        exact readEscape_digits (by decide) (Nat.lt_of_le_of_lt fits (by decide)) small rest_eq
      next =>
        refine ⟨_, rfl, fun text cursor rest_eq => ?_⟩
        exact readEscape_digits (by decide) (Nat.lt_of_le_of_lt small (by decide)) small rest_eq

/-- A fold between double quotes counts for nothing. -/
theorem readEscape_brokenLine {margin : Nat} {text : List Char} (solid : BeginsSolid text)
    {cursor : YamlCursor} (rest_eq : cursor.rest = brokenLine (margin + 1) ++ text) :
    ∃ next, readEscape cursor = .ok ([], next) ∧ next.rest = text := by
  have isKept : '\n' ∈ keptBreaks := by decide
  have broken := YamlCursor.takeBreak?_eq_some rest_eq isKept
  have step_rest : cursor.step.rest = [] ++ (List.replicate (margin + 1) ' ' ++ text) := by
    rw [YamlCursor.rest_step, rest_eq]
    rfl
  obtain ⟨last, read, last_rest⟩ := quotedBreaks_eq (by simp) solid step_rest
    (Nat.succ_pos cursor.step.rest.length)
  have notSimple : simpleEscape? '\n' = none ∧ escapeWidth? '\n' = none := by decide
  refine ⟨last, ?_, last_rest⟩
  rw [readEscape, YamlCursor.peek?, rest_eq, broken]
  simp only [brokenLine, List.cons_append, List.head?_cons, notSimple, read]
  rfl

/-! ### Characters without an escape -/

theorem isEscaped_eq_false {character : Char} (raw : isEscaped character = false) :
    character ≠ '"' ∧ character ≠ '\\' ∧
      (character = ' ' ∨ isSeparator character = false) := by
  refine ⟨?_, ?_, ?_⟩
  · rintro rfl
    exact absurd raw (by decide)
  · rintro rfl
    exact absurd raw (by decide)
  · by_cases isSpace : character = ' '
    · exact .inl isSpace
    · refine .inr ?_
      rw [isSeparator, Bool.or_eq_false_iff, isSpaceOrTab, Bool.or_eq_false_iff]
      refine ⟨⟨by simpa using isSpace, ?_⟩, ?_⟩
      · rw [beq_eq_false_iff_ne]
        rintro rfl
        exact absurd raw (by decide)
      · rw [← Bool.not_eq_true]
        intro isBreak
        simp only [YamlCharacter.isBreak, List.contains_iff_mem, List.mem_cons, List.not_mem_nil,
          or_false] at isBreak
        rcases isBreak with same | same | same | same | same <;> simp [isEscaped, same] at raw

/-- Whether a text between double quotes may go on behind any characters without an escape. -/
def GoesOnRaw (behind text : List Char) (content : List Nat) : Prop :=
  ∀ pending : List Char, (∀ character ∈ pending, isEscaped character = false) →
    QuotedText '"' behind (pending ++ text) (codePoints pending ++ content)

theorem goesOnRaw_of_solid {behind text : List Char} {content : List Nat}
    (solid : BeginsSolid text) (goesOn : QuotedText '"' behind text content) :
    GoesOnRaw behind text content := by
  intro pending raw
  suffices spaced : ∀ count, QuotedText '"' behind
      (List.replicate count ' ' ++ (pending ++ text))
      (List.replicate count 0x20 ++ (codePoints pending ++ content)) from spaced 0
  induction pending with
  | nil =>
      intro count
      cases count with
      | zero => exact goesOn
      | succ count => exact .spaces count solid goesOn
  | cons character pending ih =>
      intro count
      obtain ⟨noQuote, noBackslash, kinds⟩ := isEscaped_eq_false (raw character (.head _))
      have others := ih fun other member => raw other (.tail _ member)
      rcases kinds with rfl | noSeparator
      · simpa [List.replicate_succ', codePoints] using others (count + 1)
      · have single : QuotedText '"' behind (character :: (pending ++ text))
            (character.toNat :: (codePoints pending ++ content)) :=
          .character noSeparator noQuote (fun same => absurd same noBackslash) (others 0)
        cases count with
        | zero => exact single
        | succ count => exact .spaces count (beginsSolid_cons noSeparator) single

theorem GoesOnRaw.cons {behind text : List Char} {content : List Nat} {character : Char}
    (raw : isEscaped character = false) (goesOn : GoesOnRaw behind text content) :
    GoesOnRaw behind (character :: text) (character.toNat :: content) := by
  intro pending rawPending
  have both := goesOn (pending ++ [character]) fun other member =>
    (List.mem_append.mp member).elim (rawPending other) fun last =>
      (List.mem_singleton.mp last) ▸ raw
  simpa [codePoints] using both

/-! ### Folded texts -/

theorem exists_doubleQuotedFrom (indent : Nat) (first : Bool) (column : Nat)
    (pending text : List Char) :
    ∃ rest, doubleQuotedFrom indent first column pending text = pending ++ rest := by
  induction text generalizing first column pending with
  | nil => exact ⟨[], (List.append_nil _).symm⟩
  | cons character text ih =>
      rw [doubleQuotedFrom]
      dsimp only
      split
      · split
        · exact ⟨_, by simp only [List.append_assoc]; rfl⟩
        · exact ⟨_, by simp only [List.append_assoc]; rfl⟩
      · split
        · exact ⟨_, by simp only [List.append_assoc]; rfl⟩
        · obtain ⟨rest, rest_eq⟩ := ih false column (pending ++ [character])
          exact ⟨character :: rest, by rw [rest_eq]; simp⟩

/-- A text between double quotes begins solid unless its first character is a space. -/
theorem doubleQuotedFrom_beginsSolid {text : List Char} (noSpace : text.head? ≠ some ' ')
    (indent : Nat) (first : Bool) (column : Nat) (behind : List Char) :
    BeginsSolid (doubleQuotedFrom indent first column [] text ++ '"' :: behind) := by
  cases text with
  | nil => exact beginsSolid_cons (by decide)
  | cons character text =>
      obtain ⟨written, escape_eq, -⟩ := exists_escape character
      rw [doubleQuotedFrom]
      dsimp only
      split
      · split <;> (rw [escape_eq]; exact beginsSolid_cons (by decide))
      next raw =>
        split
        · exact beginsSolid_cons (by decide)
        · obtain ⟨rest, rest_eq⟩ := exists_doubleQuotedFrom indent false column [character] text
          obtain ⟨-, -, kinds⟩ := isEscaped_eq_false (Bool.not_eq_true _ ▸ raw)
          rw [List.nil_append, rest_eq]
          exact beginsSolid_cons (kinds.resolve_left (by simpa using noSpace))

/-- The backslash behind a fold that keeps a space. -/
def keeper (isSpace : Prop) [Decidable isSpace] : List Char :=
  if isSpace then ['\\'] else []

/-- A character without an escape behind a fold, which a backslash keeps if it is a space. -/
theorem quotedText_kept {character : Char} (raw : isEscaped character = false)
    {behind text : List Char} {content : List Nat} (goesOn : GoesOnRaw behind text content) :
    BeginsSolid (keeper (character = ' ') ++ character :: text) ∧
      QuotedText '"' behind (keeper (character = ' ') ++ character :: text)
        (character.toNat :: content) := by
  by_cases isSpace : character = ' '
  · subst isSpace
    have isLetter : simpleEscape? ' ' = some 0x20 := by decide
    have read (cursor : YamlCursor) (rest_eq : cursor.rest = [' '] ++ text) :=
      readEscape_letter isLetter rest_eq
    exact ⟨beginsSolid_cons (by decide), .escape (by decide) read (goesOn [] (by simp))⟩
  · rw [keeper, if_neg isSpace]
    obtain ⟨-, -, kinds⟩ := isEscaped_eq_false raw
    exact ⟨beginsSolid_cons (kinds.resolve_left isSpace), goesOn.cons raw [] (by simp)⟩

/-- A fold behind other characters, and what follows it. -/
theorem goesOnRaw_fold {indent : Nat} (indented : 0 < indent) {behind text : List Char}
    {content : List Nat} (solid : BeginsSolid text) (goesOn : QuotedText '"' behind text content) :
    GoesOnRaw behind ('\\' :: (brokenLine indent ++ text)) content := by
  obtain ⟨margin, rfl⟩ := Nat.exists_eq_succ_of_ne_zero (Nat.pos_iff_ne_zero.mp indented)
  exact goesOnRaw_of_solid (beginsSolid_cons (by decide))
    (.escape (by decide) (fun _ rest_eq => readEscape_brokenLine solid rest_eq) goesOn)

theorem goesOnRaw_escape (character : Char) {behind text : List Char} {content : List Nat}
    (goesOn : GoesOnRaw behind text content) :
    GoesOnRaw behind (escape character ++ text) (character.toNat :: content) := by
  obtain ⟨written, escape_eq, read⟩ := exists_escape character
  rw [escape_eq]
  exact goesOnRaw_of_solid (beginsSolid_cons (by decide))
    (.escape (by decide) (read text) (goesOn [] (by simp)))

/-- A text between double quotes is read as its characters, where a fold leaves room for a
character on the line. -/
theorem goesOnRaw_doubleQuotedFrom {indent : Nat} (indented : 0 < indent)
    (narrow : indent < bestWidth) (first : Bool) (column : Nat) (pending text behind : List Char) :
    ∃ rest, doubleQuotedFrom indent first column pending text ++ '"' :: behind = pending ++ rest ∧
      GoesOnRaw behind rest (codePoints text) := by
  rcases text with _ | ⟨character, text⟩
  · refine ⟨'"' :: behind, rfl, ?_⟩
    exact goesOnRaw_of_solid (beginsSolid_cons (by decide)) (.close (by simp))
  rw [doubleQuotedFrom, codePoints, List.map_cons]
  dsimp only
  split
  next =>
    split
    next =>
      rw [← keeper]
      by_cases keeps : text.head? = some ' '
      · obtain ⟨others, rfl⟩ : ∃ others, text = ' ' :: others := by
          cases text <;> simp_all
        obtain ⟨rest, rest_eq, goesOn⟩ := goesOnRaw_doubleQuotedFrom indented narrow false
          (indent + 1) [' '] others behind
        have spaceRaw : isEscaped ' ' = false := by decide
        obtain ⟨solid, kept⟩ := quotedText_kept spaceRaw goesOn
        refine ⟨_, ?_, goesOnRaw_escape character (goesOnRaw_fold indented solid kept)⟩
        -- The line has room for the backslash, so the space stands right behind it.
        have fits : ¬ bestWidth < indent + 1 := Nat.not_lt.mpr narrow
        have unfolded : doubleQuotedFrom indent false (indent + 1) [] (' ' :: others) =
            doubleQuotedFrom indent false (indent + 1) [' '] others := by
          rw [doubleQuotedFrom]
          simp [isEscaped, fits]
        simp [keeper, unfolded, rest_eq]
      · obtain ⟨rest, rest_eq, goesOn⟩ := goesOnRaw_doubleQuotedFrom indented narrow false
          indent [] text behind
        have solid := doubleQuotedFrom_beginsSolid keeps indent false indent behind
        rw [rest_eq] at solid
        refine ⟨_, ?_, goesOnRaw_escape character
          (goesOnRaw_fold indented solid (goesOn [] (by simp)))⟩
        simp [keeper, keeps, rest_eq]
    next =>
      obtain ⟨rest, rest_eq, goesOn⟩ := goesOnRaw_doubleQuotedFrom indented narrow false
        (column + (pending ++ escape character).length) [] text behind
      refine ⟨escape character ++ rest, ?_, goesOnRaw_escape character goesOn⟩
      rw [List.append_assoc, List.append_assoc, rest_eq]
      rfl
  next raw =>
    have unescaped : isEscaped character = false := Bool.not_eq_true _ ▸ raw
    split
    next =>
      rw [← keeper]
      obtain ⟨rest, rest_eq, goesOn⟩ := goesOnRaw_doubleQuotedFrom indented narrow false
        (indent + (keeper (character = ' ')).length) [character] text behind
      obtain ⟨solid, kept⟩ := quotedText_kept unescaped goesOn
      exact ⟨_, by simp [rest_eq], goesOnRaw_fold indented solid kept⟩
    next =>
      obtain ⟨rest, rest_eq, goesOn⟩ := goesOnRaw_doubleQuotedFrom indented narrow false column
        (pending ++ [character]) text behind
      exact ⟨character :: rest, by rw [rest_eq]; simp, goesOn.cons unescaped⟩
termination_by text.length

end YamlScalarText

end RubySyntax
