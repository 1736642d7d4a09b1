import Mathlib.Data.List.TakeWhile
import RubySyntax.Proofs.JsonReading
import RubySyntax.Proofs.YamlEscapedReading
import RubySyntax.Proofs.YamlPlainReading
import RubySyntax.YamlScalarValue

/-!
# Scalars of YAML that are read back

A text is written in one of three styles, and it is read back in each of them but
for two cases: the next-line character between single quotes, and a margin that
fills the line between double quotes.  An integer is written without quotes and is
read back unless it has too many digits.
-/

namespace RubySyntax

/-! ### Texts -/

namespace YamlScalarText

open YamlCharacter YamlFlowScalar

/-! ### Admitted characters -/

/-- What needs no escape may stand in a document. -/
theorem isAdmitted_of_isSpecial {character : Char} (simple : isSpecial character = false) :
    isAdmitted character = true := by
  simp only [isSpecial, isAdmitted, Bool.not_eq_false', Bool.or_eq_true, Bool.and_eq_true,
    decide_eq_true_eq, beq_iff_eq] at simple ⊢
  omega

theorem isAdmitted_of_isEscaped {character : Char} (raw : isEscaped character = false) :
    isAdmitted character = true := by
  simp only [isEscaped, isAdmitted, Bool.or_eq_false_iff, Bool.not_eq_false', Bool.or_eq_true,
    Bool.and_eq_true, decide_eq_true_eq, beq_iff_eq] at raw ⊢
  omega

theorem all_brokenLine (indent : Nat) : (brokenLine indent).all isAdmitted = true := by
  have blank : isAdmitted '\n' = true ∧ isAdmitted ' ' = true := by decide
  simp [brokenLine, blank]

/-- What is written of a text without quotes may stand in a document if the text may. -/
theorem all_plainFrom {text : List Char} (admitted : text.all isAdmitted = true)
    (indent bound column : Nat) : (plainFrom indent bound column text).all isAdmitted = true := by
  induction bound generalizing column text with
  | zero => rfl
  | succ bound ih =>
      cases text with
      | nil => rfl
      | cons character text =>
          have within {part : List Char} (sublist : part.Sublist (character :: text)) :
              part.all isAdmitted = true :=
            List.all_eq_true.mpr fun other member =>
              List.all_eq_true.mp admitted other (sublist.subset member)
          have lines := all_brokenLine indent
          have word := within (List.takeWhile_sublist (· != ' '))
          have behindWord := List.drop_sublist
            ((character :: text).takeWhile (· != ' ')).length (character :: text)
          have gap := within ((List.takeWhile_sublist (· == ' ')).trans behindWord)
          have rest := ih (within ((List.drop_sublist
            (((character :: text).drop ((character :: text).takeWhile (· != ' ')).length).takeWhile
              (· == ' ')).length _).trans behindWord))
          rw [plainFrom]
          · split <;> simp only [List.all_append, Bool.and_eq_true] <;>
              exact ⟨⟨word, by assumption⟩, rest _⟩
          · exact List.cons_ne_nil _ _

/-- What is written between single quotes may stand in a document if the text may. -/
theorem all_singleQuotedFrom {pieces : List Piece}
    (admitted : (pieces.flatMap Piece.text).all isAdmitted = true) (indent : Nat) (first : Bool)
    (column : Nat) : (singleQuotedFrom indent first column pieces).all isAdmitted = true := by
  induction pieces generalizing first column with
  | nil => rfl
  | cons piece rest ih =>
      have lines := all_brokenLine indent
      have blank : isAdmitted ' ' = true ∧ isAdmitted '\n' = true ∧ isAdmitted '\'' = true := by
        decide
      rw [List.flatMap_cons, List.all_append, Bool.and_eq_true] at admitted
      obtain ⟨here, others⟩ := admitted
      have goesOn := ih others
      cases piece with
      | spaces count =>
          rw [singleQuotedFrom]
          split <;> simp [lines, goesOn, blank]
      | breaks characters =>
          have written : (writtenBreaks characters).all isAdmitted = true := by
            unfold writtenBreaks
            split <;> simp_all [Piece.text]
          simp [singleQuotedFrom, written, goesOn, blank]
      | word characters =>
          have written : (doubledQuotes characters).all isAdmitted = true := by
            rw [doubledQuotes, List.all_flatMap, List.all_eq_true]
            intro character member
            have isAdmitted := List.all_eq_true.mp here character member
            split <;> simp [isAdmitted]
          simp [singleQuotedFrom, written, goesOn]

theorem all_upperHexDigits (width number : Nat) :
    (upperHexDigits width number).all isAdmitted = true := by
  have digit_admitted : ∀ digit < 16, isAdmitted (Nat.digitChar digit).toUpper = true := by decide
  have zero : isAdmitted '0' = true := by decide
  suffices digits : ((Nat.toDigits 16 number).map Char.toUpper).all isAdmitted = true by
    simp [upperHexDigits, hexDigits, zero, digits]
  induction number using Nat.base_induction 16 (by decide) with
  | single digit small =>
      rw [Nat.toDigits_of_lt_base small]
      simp [digit_admitted digit small]
  | digit front digit small frontPos ih =>
      rw [← Nat.toDigits_append_toDigits (by decide) frontPos small,
        Nat.toDigits_of_lt_base small, List.map_append, List.all_append, ih]
      simp [digit_admitted digit small]

theorem all_escape (character : Char) : (escape character).all isAdmitted = true := by
  have marks : isAdmitted '\\' = true ∧ isAdmitted 'x' = true ∧ isAdmitted 'u' = true ∧
      isAdmitted 'U' = true := by decide
  rw [escape]
  split
  next letter found =>
    obtain ⟨front, back, table_eq, -⟩ := List.lookup_eq_some_iff.mp found
    have member : (character.toNat, letter) ∈ front ++ (character.toNat, letter) :: back := by simp
    rw [← table_eq] at member
    have isAdmitted := (by decide : ∀ entry ∈ _, isAdmitted entry.2 = true) _ member
    simp [marks, isAdmitted]
  next => split <;> [skip; split] <;> simp [marks, all_upperHexDigits]

/-- Every text may stand in a document between double quotes. -/
theorem all_doubleQuotedFrom (indent : Nat) (first : Bool) (column : Nat)
    {pending : List Char} (admitted : pending.all isAdmitted = true) (text : List Char) :
    (doubleQuotedFrom indent first column pending text).all isAdmitted = true := by
  induction text generalizing first column pending with
  | nil => exact admitted
  | cons character text ih =>
      have lines := all_brokenLine indent
      have mark : isAdmitted '\\' = true := by decide
      have keeps (isSpace : Prop) [Decidable isSpace] :
          (if isSpace then ['\\'] else []).all isAdmitted = true := by
        split <;> simp [mark]
      rw [doubleQuotedFrom]
      dsimp only
      split
      · have escaped := all_escape character
        have goesOn (column : Nat) := ih false column List.all_nil
        split <;> simp only [List.all_append, List.all_cons, admitted, escaped, mark, lines, keeps,
          goesOn, Bool.and_true]
      next raw =>
        have here := isAdmitted_of_isEscaped (Bool.not_eq_true _ ▸ raw)
        split
        · have goesOn (column : Nat) : (doubleQuotedFrom indent false column [character] text).all
              isAdmitted = true := ih false column (by simp [here])
          simp only [List.all_append, List.all_cons, admitted, mark, lines, keeps, goesOn,
            Bool.and_true]
        · exact ih _ _ (by simp [admitted, here])

/-! ### Written texts -/

/-- A text that is read back as it was, by the indentation of its further lines. -/
def IsKept (indent : Nat) (text : List Char) : Prop :=
  if needsEscapes text then indent < bestWidth else Char.ofNat 0x85 ∉ text

instance (indent : Nat) (text : List Char) : Decidable (IsKept indent text) :=
  inferInstanceAs (Decidable (if needsEscapes text then _ else _))

theorem keptBreak_of_isLineEnd {character : Char} (lineEnd : isLineEnd character = true)
    (apart : character ≠ Char.ofNat 0x85) : character ∈ keptBreaks := by
  have same (codePoint : Nat) (same : character.toNat = codePoint) :
      character = Char.ofNat codePoint := by
    rw [← same, Char.ofNat_toNat]
  simp only [isLineEnd, List.contains_iff_mem, List.mem_cons, List.not_mem_nil, or_false] at lineEnd
  rcases lineEnd with found | found | found | found
  · rw [same _ found]
    decide
  · exact absurd (same _ found) apart
  · rw [same _ found]
    decide
  · rw [same _ found]
    decide

/-- A text between quotes is read as its characters, and only characters are written that may stand
in a document. -/
theorem exists_quotedText {indent : Nat} (indented : 0 < indent) {text : List Char}
    (kept : IsKept indent text) (noPlain : isPlain text = false) (column : Nat) :
    ∃ quote ∈ ['\'', '"'], ∃ body, write indent column text = ' ' :: quote :: body ∧
      body.all isAdmitted = true ∧ ∀ behind : List Char, behind.head? ≠ some '\'' →
        QuotedText quote behind (body ++ behind) (codePoints text) := by
  rw [write, noPlain, IsKept] at *
  simp only [Bool.false_eq_true, if_false]
  split
  next escapes =>
    rw [if_pos escapes] at kept
    refine ⟨'"', by decide, doubleQuotedFrom indent true (column + 2) [] text ++ [doubleQuote], rfl,
      ?_, fun behind _ => ?_⟩
    · rw [List.all_append, all_doubleQuotedFrom indent true (column + 2) List.all_nil text]
      decide
    obtain ⟨rest, rest_eq, goesOn⟩ := goesOnRaw_doubleQuotedFrom indented kept true (column + 2) []
      text behind
    rw [List.append_assoc, List.singleton_append]
    exact rest_eq ▸ goesOn [] (by simp)
  next simple =>
    rw [if_neg simple] at kept
    rw [Bool.not_eq_true, needsEscapes, Bool.or_eq_false_iff, Bool.or_eq_false_iff] at simple
    have simpleEach : ∀ character ∈ text, IsSimple character := by
      intro character member
      have noSpecial := List.any_eq_false.mp simple.1.1 character member
      rcases not_isSpecial (Bool.not_eq_true _ ▸ noSpecial) with isSpace | lineEnd | ordinary
      · exact .inl isSpace
      · refine .inr (.inl (keptBreak_of_isLineEnd lineEnd ?_))
        rintro rfl
        exact kept member
      · exact .inr (.inr ordinary.1)
    obtain ⟨alternate, joined⟩ := alternate_pieces simpleEach simple.1.2 simple.2
    have admitted : ((pieces text).flatMap Piece.text).all isAdmitted = true := by
      rw [joined, List.all_eq_true]
      exact fun character member => isAdmitted_of_isSpecial
        (Bool.not_eq_true _ ▸ List.any_eq_false.mp simple.1.1 character member)
    refine ⟨'\'', by decide, singleQuotedFrom indent true (column + 2) (pieces text) ++ ['\''], rfl,
      ?_, fun behind noQuote => ?_⟩
    · rw [List.all_append, all_singleQuotedFrom admitted]
      decide
    have written := quotedText_singleQuotedFrom indented alternate noQuote true (column + 2)
    rw [joined] at written
    rw [List.append_assoc, List.singleton_append]
    exact written

/-- What is written of a text may stand in a document. -/
theorem all_write {indent : Nat} (indented : 0 < indent) {text : List Char}
    (kept : IsKept indent text) (column : Nat) :
    (write indent column text).all isAdmitted = true := by
  by_cases plain : isPlain text = true
  · have simple : needsEscapes text = false := by
      simp only [isPlain, Bool.and_eq_true, Bool.not_eq_true'] at plain
      exact plain.2
    rw [needsEscapes, Bool.or_eq_false_iff, Bool.or_eq_false_iff] at simple
    have admitted : text.all isAdmitted = true := List.all_eq_true.mpr fun character member =>
      isAdmitted_of_isSpecial
        (Bool.not_eq_true _ ▸ List.any_eq_false.mp simple.1.1 character member)
    rw [write, if_pos plain, List.all_cons, all_plainFrom admitted]
    decide
  · rw [Bool.not_eq_true] at plain
    obtain ⟨quote, isQuote, body, write_eq, admitted, -⟩ :=
      exists_quotedText indented kept plain column
    have quotes : ∀ quote ∈ ['\'', '"'], isAdmitted quote = true := by decide
    rw [write_eq, List.all_cons, List.all_cons, admitted, quotes quote isQuote]
    decide

end YamlScalarText

/-! ### Integers -/

namespace NumberText

theorem digit_bounds {digit : Char} (isDigit : digit.isDigit = true) :
    0x30 ≤ digit.toNat ∧ digit.toNat ≤ 0x39 := by
  rw [Char.isDigit, Bool.and_eq_true, decide_eq_true_eq, decide_eq_true_eq] at isDigit
  exact isDigit

theorem hexDigitValue?_digit {digit : Char} (isDigit : digit.isDigit = true) :
    hexDigitValue? digit = some (digit.toNat - 0x30) := by
  rw [hexDigitValue?]
  exact if_pos (digit_bounds isDigit)

theorem digitIn?_digit {digit : Char} (isDigit : digit.isDigit = true) :
    digitIn? 10 digit = some (digit.toNat - 0x30) := by
  have small := (digit_bounds isDigit).2
  rw [digitIn?, hexDigitValue?_digit isDigit, Option.filter_some, if_pos]
  rw [decide_eq_true_eq]
  omega

theorem digitValues?_digits {digits : List Char} (filled : digits ≠ [])
    (each : ∀ digit ∈ digits, digit.isDigit = true) :
    digitValues? 10 digits = some (digits.map fun digit => digit.toNat - 0x30) := by
  induction digits with
  | nil => exact absurd rfl filled
  | cons digit digits ih =>
      have value := digitIn?_digit (each digit (.head _))
      cases digits with
      | nil => simp [digitValues?, value]
      | cons next digits =>
          have others := ih (by simp) fun other member => each other (.tail _ member)
          have noUnderscore : next ≠ '_' := by
            rintro rfl
            exact absurd (each '_' (.tail _ (.head _))) (by decide)
          unfold digitValues?
          split <;> simp_all

/-- An integer without a sign is read back from its digits if they are not too many. -/
theorem readInteger_toDigits {number : Nat} (small : number < Value.hugeInteger) :
    readInteger 10 (Nat.toDigits 10 number) = .ok number := by
  have each := JsonReader.isDigit_toDigits number
  have filled : Nat.toDigits 10 number ≠ [] := Nat.toDigits_ne_nil
  have number_eq := JsonReader.digitsValue_toDigits number
  have few : (Nat.toDigits 10 number).length ≤ greatestDigitCount :=
    (JsonReader.lt_hugeInteger_iff number).mp small
  have values_eq := digitValues?_digits filled each
  rw [JsonReader.digitsValue] at number_eq
  generalize Nat.toDigits 10 number = digits at *
  have ascii : digits.map asciiCounterpart = digits := by
    refine (List.map_congr_left fun digit member => ?_).trans (List.map_id digits)
    exact if_pos (Nat.lt_of_le_of_lt (digit_bounds (each digit member)).2 (by decide))
  have digit_spec : ∀ digit ∈ digits, isMargin digit = false ∧
      isNumeralPart 10 digit = true ∧ digit ≠ '-' ∧ digit ≠ '+' := by
    intro digit member
    have isDigit := each digit member
    refine ⟨?_, by simp [isNumeralPart, digitIn?_digit isDigit], ?_, ?_⟩
    · have low := (digit_bounds isDigit).1
      rw [isMargin, Bool.or_eq_false_iff, Bool.and_eq_false_iff, decide_eq_false_iff_not,
        decide_eq_false_iff_not, beq_eq_false_iff_ne]
      refine ⟨?_, .inr (by omega)⟩
      rintro rfl
      exact absurd isDigit (by decide)
    · rintro rfl
      exact absurd isDigit (by decide)
    · rintro rfl
      exact absurd isDigit (by decide)
  have noMargin : digits.dropWhile isMargin = digits := by
    obtain ⟨digit, others, rfl⟩ := List.exists_cons_of_ne_nil filled
    simp [(digit_spec digit (.head _)).1]
  have noSign : splitSign digits = (false, digits) := by
    obtain ⟨digit, others, rfl⟩ := List.exists_cons_of_ne_nil filled
    obtain ⟨-, -, noMinus, noPlus⟩ := digit_spec digit (.head _)
    simp [splitSign, noMinus, noPlus]
  have noMark : dropBaseMark 10 digits = digits := by
    unfold dropBaseMark
    split <;> simp [baseMark?]
  have whole : digits.takeWhile (isNumeralPart 10) = digits :=
    List.takeWhile_eq_self_iff.mpr fun digit member => (digit_spec digit member).2.1
  rw [readInteger, ascii, readAsciiInteger, noMargin, noSign]
  simp only [noMark, whole, values_eq, List.length_map, Nat.not_lt.mpr few, List.drop_length]
  simp [number_eq]

end NumberText

namespace PlainScalar

/-- A number is none of the words that begin with neither a digit nor a hyphen. -/
theorem contains_number {words : List String} (apart : ∀ word ∈ words,
    ∀ character ∈ word.toList.head?, character.isDigit = false ∧ character ≠ '-')
    {character : Char} (begins : character.isDigit = true ∨ character = '-') (rest : List Char) :
    words.contains (String.ofList (character :: rest)) = false := by
  rw [← Bool.not_eq_true, List.contains_iff_mem]
  intro member
  obtain ⟨noDigit, noHyphen⟩ := apart _ member character (by rw [String.toList_ofList]; rfl)
  rcases begins with isDigit | isHyphen
  · exact absurd isDigit (by simp [noDigit])
  · exact noHyphen isHyphen

theorem isUnsignedInteger_toDigits (number : Nat) :
    isUnsignedInteger (Nat.toDigits 10 number) = true := by
  rcases Nat.eq_zero_or_pos number with rfl | positive
  · rw [Nat.toDigits_zero]
    decide
  · have each := JsonReader.isDigit_toDigits number
    have noZero := JsonReader.head?_toDigits_ne positive
    obtain ⟨digit, others, digits_eq⟩ := List.exists_cons_of_ne_nil
      (Nat.toDigits_ne_nil : Nat.toDigits 10 number ≠ [])
    rw [digits_eq] at each noZero ⊢
    have apart : digit ≠ '0' := by simpa using noZero
    have numerals : ∀ other ∈ others, isNumeral other = true := fun other member => by
      simp [isNumeral, each other (.tail _ member)]
    unfold isUnsignedInteger
    split <;> simp_all

theorem no_point {digits : List Char} (each : ∀ digit ∈ digits, digit.isDigit = true) :
    isPointedNumber digits = false ∧ isPointedSexagesimal digits = false := by
  have numerals : digits.takeWhile isNumeral = digits :=
    List.takeWhile_eq_self_iff.mpr fun digit member => by simp [isNumeral, each digit member]
  have noPoints : digits.takeWhile (· != '.') = digits := by
    refine List.takeWhile_eq_self_iff.mpr fun digit member => ?_
    rw [bne_iff_ne]
    rintro rfl
    exact absurd (each '.' member) (by decide)
  constructor
  · simp [isPointedNumber, numerals]
  · simp [isPointedSexagesimal, noPoints]

theorem kindOf_number {text digits : List Char} (text_eq : text = digits ∨ text = '-' :: digits)
    (filled : digits ≠ []) (each : ∀ digit ∈ digits, digit.isDigit = true)
    (isWhole : isUnsignedInteger digits = true) : kindOf text = .int := by
  obtain ⟨digit, others, rfl⟩ := List.exists_cons_of_ne_nil filled
  have isDigit := each digit (.head _)
  have noSign : digit ≠ '-' ∧ digit ≠ '+' := by
    constructor <;> (rintro rfl; exact absurd isDigit (by decide))
  have unsigned_eq : unsigned text = digit :: others := by
    rcases text_eq with rfl | rfl
    · simp [unsigned, noSign]
    · rfl
  obtain ⟨first, rest, begins, rfl⟩ : ∃ first rest,
      (first.isDigit = true ∨ first = '-') ∧ text = first :: rest := by
    rcases text_eq with rfl | rfl
    · exact ⟨digit, others, .inl isDigit, rfl⟩
    · exact ⟨'-', _, .inr rfl, rfl⟩
  have noFraction : isBareFraction (first :: rest) = false := by
    have noPoint : first ≠ '.' := by
      rintro rfl
      exact absurd begins (by decide)
    simp [isBareFraction, noPoint]
  have noFloat : isFloat (first :: rest) = false := by
    rw [isFloat]
    simp only [unsigned_eq, (no_point each).1, (no_point each).2, noFraction, Bool.false_or]
    rw [contains_number (by decide) (.inl isDigit), contains_number (by decide) begins]
    rfl
  have noBool : boolWords.contains (String.ofList (first :: rest)) = false :=
    contains_number (by decide) begins rest
  rw [kindOf]
  simp only [noBool, noFloat, isInteger, unsigned_eq, isWhole, Bool.false_eq_true, if_false,
    if_true]

/-- The text of an integer without quotes denotes an integer. -/
theorem kindOf_toString (value : Int) : kindOf (toString value).toList = .int := by
  have text_eq := JsonReader.toList_toString value
  refine kindOf_number ?_ Nat.toDigits_ne_nil (JsonReader.isDigit_toDigits value.natAbs)
    (isUnsignedInteger_toDigits value.natAbs)
  rw [text_eq]
  split
  · exact .inr rfl
  · exact .inl rfl

end PlainScalar

namespace YamlScalarText

open YamlCharacter

/-- A letter or digit begins nothing but a plain scalar. -/
theorem alphanumeric_spec {character : Char} (alphanumeric : character.isAlphanum = true) :
    IsOrdinary character ∧ character ∉ leadingIndicators ∧ character ∉ ['-', '?', ':'] ∧
      character ≠ '.' := by
  have apart (other : Char) (neither : other.isAlphanum = false) : character ≠ other := by
    rintro rfl
    exact absurd alphanumeric (by simp [neither])
  have apartAll {others : List Char} (none : ∀ other ∈ others, other.isAlphanum = false) :
      character ∉ others := fun member => apart character (none character member) rfl
  have noBreak : isBreak character = false := by
    have breaks : ∀ codePoint ∈ [0x0A, 0x0D, 0x85, 0x2028, 0x2029],
        (Char.ofNat codePoint).isAlphanum = false := by decide
    rw [isBreak, ← Bool.not_eq_true, List.contains_iff_mem]
    intro member
    exact apart _ (breaks _ member) (Char.ofNat_toNat character).symm
  refine ⟨⟨?_, apart _ (by decide)⟩, apartAll (by decide), apartAll (by decide),
    apart _ (by decide)⟩
  rw [isSeparator, isSpaceOrTab, noBreak, beq_eq_false_iff_ne.mpr (apart _ (by decide)),
    beq_eq_false_iff_ne.mpr (apart _ (by decide))]
  rfl

theorem isAdmitted_of_isAlphanum {character : Char} (alphanumeric : character.isAlphanum = true) :
    isAdmitted character = true := by
  have ranges : (decide (character.val ≥ 'A'.val ∧ character.val ≤ 'Z'.val) ||
      (decide (character.val ≥ 'a'.val) && decide (character.val ≤ 'z'.val)) ||
      (decide (character.val ≥ '0'.val) && decide (character.val ≤ '9'.val))) = true := alphanumeric
  simp only [Bool.or_eq_true, Bool.and_eq_true, decide_eq_true_eq, ge_iff_le,
    UInt32.le_iff_toNat_le] at ranges
  have letters : 'A'.val.toNat = 0x41 ∧ 'Z'.val.toNat = 0x5A ∧ 'a'.val.toNat = 0x61 ∧
      'z'.val.toNat = 0x7A ∧ '0'.val.toNat = 0x30 ∧ '9'.val.toNat = 0x39 := by decide
  simp only [isAdmitted, Bool.or_eq_true, Bool.and_eq_true, decide_eq_true_eq, beq_iff_eq,
    Char.toNat]
  omega

theorem isPlainWord_toString (value : Int) :
    startsIndicator (toString value).toList = false ∧ IsPlainWord (toString value).toList := by
  obtain ⟨digit, others, digits_eq⟩ := List.exists_cons_of_ne_nil
    (Nat.toDigits_ne_nil : Nat.toDigits 10 value.natAbs ≠ [])
  have each := JsonReader.isDigit_toDigits value.natAbs
  rw [digits_eq] at each
  have digit_spec : ∀ other ∈ digit :: others, IsOrdinary other ∧ other ∉ leadingIndicators ∧
      other ∉ ['-', '?', ':'] ∧ other ≠ '.' := fun other member =>
    alphanumeric_spec (by rw [Char.isAlphanum, each other member, Bool.or_true])
  obtain ⟨ordinary, noLeading, noSign, noPoint⟩ := digit_spec digit (.head _)
  have isWord : IsPlainWord (digit :: others) := {
    filled := List.cons_ne_nil _ _
    ordinary := fun other member => (digit_spec other member).1
    noColon := fun isColon =>
      (digit_spec ':' (List.mem_of_getLast? isColon)).2.2.1 (by decide) }
  simp only [List.mem_cons, List.not_mem_nil, or_false, not_or] at noSign
  rw [JsonReader.toList_toString, digits_eq]
  split
  · have signed : startsIndicator ('-' :: digit :: others) = false := by
      have positive : digit.toNat ≠ 0 := by
        have bounds := NumberText.digit_bounds (each digit (.head _))
        omega
      have noHyphen : '-' ∉ leadingIndicators := by decide
      simp [startsIndicator, List.isPrefixOf, Ne.symm noSign.1, endsIndicator, endsOr, ordinary.1,
        noHyphen, positive]
    exact ⟨signed, isWord.cons ⟨by decide, by decide⟩⟩
  · have bare : startsIndicator (digit :: others) = false := by
      simp [startsIndicator, List.isPrefixOf, noSign, noLeading, Ne.symm noSign.1, Ne.symm noPoint]
    exact ⟨bare, isWord⟩

theorem all_toString (value : Int) : (toString value).toList.all isAdmitted = true := by
  have digits : (Nat.toDigits 10 value.natAbs).all isAdmitted = true :=
    List.all_eq_true.mpr fun digit member => isAdmitted_of_isAlphanum (by
      rw [Char.isAlphanum, JsonReader.isDigit_toDigits value.natAbs digit member, Bool.or_true])
  rw [JsonReader.toList_toString, List.all_append, digits]
  split <;> decide

end YamlScalarText

namespace YamlScalarValue

open YamlFlowScalar

theorem characters_codePoints (text : List Char) : characters (codePoints text) = text := by
  rw [characters, codePoints, List.map_map]
  exact (List.map_congr_left fun character _ => Char.ofNat_toNat character).trans (List.map_id text)

theorem readUnsigned_toDigits {number : Nat} (small : number < Value.hugeInteger) :
    readUnsigned (codePoints (Nat.toDigits 10 number)) = .ok number := by
  rcases Nat.eq_zero_or_pos number with rfl | positive
  · rw [Nat.toDigits_zero]
    rfl
  · have read := NumberText.readInteger_toDigits small
    have each := JsonReader.isDigit_toDigits number
    have noZero := JsonReader.head?_toDigits_ne positive
    obtain ⟨digit, others, digits_eq⟩ := List.exists_cons_of_ne_nil
      (Nat.toDigits_ne_nil : Nat.toDigits 10 number ≠ [])
    rw [digits_eq] at read each noZero ⊢
    have apart : digit.toNat ≠ 0x30 := by
      intro isZero
      have isZeroToo : digit = '0' := Char.toNat_inj.mp isZero
      exact noZero (by rw [isZeroToo]; rfl)
    have noColon : (codePoints (digit :: others)).contains 0x3A = false := by
      rw [← Bool.not_eq_true, List.contains_iff_mem, codePoints, List.mem_map]
      rintro ⟨other, member, isColon⟩
      have bounds := NumberText.digit_bounds (each other member)
      omega
    have magnitude : readMagnitude 10 (codePoints (digit :: others)) = .ok number := by
      rw [readMagnitude, characters_codePoints, read]
    rw [codePoints, List.map_cons, ← codePoints] at noColon magnitude ⊢
    unfold readUnsigned
    split <;> simp_all

/-- An integer is read back from its text unless it has too many digits. -/
theorem readInt_toString {value : Int} (small : value.natAbs < Value.hugeInteger) :
    readInt (codePoints (toString value).toList) = .ok (.int value) := by
  have read := readUnsigned_toDigits small
  have each := JsonReader.isDigit_toDigits value.natAbs
  have text_eq := JsonReader.toList_toString value
  have noUnderscores : withoutUnderscores (codePoints (toString value).toList) =
      codePoints (toString value).toList := by
    refine List.filter_eq_self.mpr fun codePoint member => ?_
    obtain ⟨character, inside, rfl⟩ := List.mem_map.mp member
    have apart : character ≠ '_' := by
      rintro rfl
      rw [text_eq, List.mem_append] at inside
      rcases inside with sign | digit
      · split at sign <;> simp at sign
      · exact absurd (each '_' digit) (by decide)
    rw [bne_iff_ne]
    exact fun same => apart (Char.toNat_inj.mp same)
  have split_eq : splitSign (codePoints (toString value).toList) =
      (decide (value < 0), codePoints (Nat.toDigits 10 value.natAbs)) := by
    rw [text_eq]
    split
    next negative => simp [codePoints, splitSign, negative]
    next positive =>
      obtain ⟨digit, others, digits_eq⟩ := List.exists_cons_of_ne_nil
        (Nat.toDigits_ne_nil : Nat.toDigits 10 value.natAbs ≠ [])
      have bounds := NumberText.digit_bounds (each digit (by rw [digits_eq]; exact .head _))
      have noSign : digit.toNat ≠ 0x2D ∧ digit.toNat ≠ 0x2B := by omega
      rw [digits_eq]
      simp [codePoints, splitSign, noSign, positive]
  have back : (if value < 0 then -((value.natAbs : Nat) : Int) else (value.natAbs : Nat)) =
      value := by
    split <;> omega
  rw [readInt, noUnderscores, split_eq]
  simp only [read, bind, Except.bind, pure, Except.pure, decide_eq_true_eq, back]

end YamlScalarValue

end RubySyntax
