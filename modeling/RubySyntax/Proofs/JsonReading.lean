import RubySyntax.JsonReader
import RubySyntax.JsonWriter

/-!
# Reading what was written as JSON

A value without floating-point numbers that is written as JSON is read back as it was, on one
line or on many.  Strings and integers come first, then lists and records, whose parts the
writer and the reader take in the same order.
-/

namespace RubySyntax

namespace JsonReader

open JsonWriter

/-! ### Blanks and ends -/

/-- A text that does not continue a number in front of it. -/
def EndsNumber (text : List Char) : Prop :=
  ∀ character ∈ text.head?, character.isDigit = false ∧ character ∉ ['.', 'e', 'E']

theorem endsNumber_nil : EndsNumber [] := by
  simp [EndsNumber]

theorem endsNumber_cons {character : Char} {text : List Char} (digit : character.isDigit = false)
    (apart : character ∉ ['.', 'e', 'E']) : EndsNumber (character :: text) := by
  simpa [EndsNumber, digit] using apart

theorem EndsNumber.blanks_append {blanks text : List Char} (ends : EndsNumber text)
    (blank : ∀ character ∈ blanks, isJsonBlank character = true) : EndsNumber (blanks ++ text) := by
  cases blanks with
  | nil => exact ends
  | cons character blanks =>
      have first := blank character List.mem_cons_self
      simp only [isJsonBlank, Bool.or_eq_true, beq_iff_eq] at first
      rcases first with ((rfl | rfl) | rfl) | rfl <;>
        exact endsNumber_cons (by decide) (by decide)

theorem dropBlanks_cons {character : Char} {text : List Char}
    (solid : isJsonBlank character = false) :
    dropBlanks (character :: text) = character :: text := by
  simp [dropBlanks, solid]

theorem dropBlanks_append {blanks : List Char} (text : List Char)
    (blank : ∀ character ∈ blanks, isJsonBlank character = true) :
    dropBlanks (blanks ++ text) = dropBlanks text := by
  rw [dropBlanks, List.dropWhile_append_of_pos blank, dropBlanks]

theorem lineBreak_blank (level : Nat) :
    ∀ character ∈ (Layout.lineBreak level).toList, isJsonBlank character = true := by
  intro character member
  simp only [Layout.lineBreak, String.toList_append, String.toList_ofList,
    List.mem_append] at member
  rcases member with feed | blank
  · have : character = '\n' := by simpa using feed
    rw [this]
    decide
  · rw [List.eq_of_mem_replicate blank]
    decide

theorem opening_blank (layout : Layout) (level : Nat) :
    ∀ character ∈ (layout.opening level).toList, isJsonBlank character = true := by
  rw [Layout.opening]
  split
  · exact lineBreak_blank level
  · simp

/-- Two items are separated by a comma and blanks. -/
theorem between_eq (layout : Layout) (level : Nat) :
    ∃ blanks, (layout.between level).toList = ',' :: blanks ∧
      ∀ character ∈ blanks, isJsonBlank character = true := by
  rw [Layout.between]
  split
  · exact ⟨_, by rw [String.toList_append]; rfl, lineBreak_blank level⟩
  · exact ⟨[' '], rfl, by decide⟩

/-! ### Strings -/

theorem hexDigits_control {codePoint : Nat} (control : codePoint < 0x20) :
    (hexDigits 4 codePoint).map hexDigitValue? =
      [some 0, some 0, some (codePoint / 16), some (codePoint % 16)] := by
  revert codePoint
  decide

theorem readCodePoint_hexDigits {codePoint : Nat} (control : codePoint < 0x20) {rest : List Char}
    (more : rest ≠ []) :
    readCodePoint ('u' :: hexDigits 4 codePoint ++ rest) = .ok (codePoint, 5) := by
  have values := hexDigits_control control
  have width : (hexDigits 4 codePoint).length = 4 := by
    simpa using congrArg List.length values
  have long : ¬ ('u' :: hexDigits 4 codePoint ++ rest).length ≤ 5 := by
    have := List.length_pos_iff.mpr more
    simp only [List.cons_append, List.length_cons, List.length_append, width]
    omega
  have digits : (('u' :: hexDigits 4 codePoint ++ rest).drop 1).take 4 = hexDigits 4 codePoint := by
    simp [width]
  have unit_eq : ((0 * 16 + 0) * 16 + codePoint / 16) * 16 + codePoint % 16 = codePoint := by omega
  have plain : isHighSurrogate codePoint = false := by
    simp only [isHighSurrogate, Bool.and_eq_false_iff, decide_eq_false_iff_not]
    omega
  have unit_read : readUnit ('u' :: hexDigits 4 codePoint ++ rest) (hexDigits 4 codePoint) =
      .ok codePoint := by
    rw [readUnit, values]
    exact congrArg _ unit_eq
  rw [readCodePoint, if_neg long, digits, unit_read]
  simp [bind, Except.bind, pure, Except.pure, plain]

theorem readCodePoints_escaped (opening : List Char) (bound : Nat) (character : Char)
    {rest : List Char} (more : rest ≠ []) :
    readCodePoints opening (bound + 1) (escaped character ++ rest) = (do
      let (codePoints, after) ← readCodePoints opening bound rest
      return (character.toNat :: codePoints, after)) := by
  have named (other : Char) (same : character.toNat = other.toNat) : character = other :=
    Char.toNat_inj.mp same
  rw [escaped]
  split
  · rename_i quote
    obtain rfl := named '"' quote
    rfl
  split
  · rename_i backslash
    subst backslash
    rfl
  split
  · rename_i backspace
    obtain rfl := named '\x08' backspace
    rfl
  split
  · rename_i feed
    obtain rfl := named '\x0c' feed
    rfl
  split
  · rename_i lineFeed
    subst lineFeed
    rfl
  split
  · rename_i carriageReturn
    subst carriageReturn
    rfl
  split
  · rename_i tab
    subst tab
    rfl
  split
  · rename_i control
    have back := readCodePoint_hexDigits control more
    have width : (hexDigits 4 character.toNat).length = 4 := by
      simpa using congrArg List.length (hexDigits_control control)
    have dropped : ('u' :: hexDigits 4 character.toNat ++ rest).drop 5 = rest := by
      simp [width]
    rw [List.cons_append, List.cons_append, readCodePoints]
    rw [List.cons_append] at back dropped
    simp [back, dropped, bind, Except.bind]
  · rename_i quote backslash _ _ _ _ _ plain
    have shown : ¬ character.toNat ≤ 0x1F := by omega
    rw [List.singleton_append, readCodePoints.eq_def]
    simp [quote, shown, backslash]

theorem escaped_ne_nil (character : Char) : escaped character ≠ [] := by
  rw [escaped]
  repeat' split
  all_goals exact List.cons_ne_nil _ _

theorem length_le_flatMap_escaped (characters : List Char) :
    characters.length ≤ (characters.flatMap escaped).length := by
  induction characters with
  | nil => exact Nat.le_refl _
  | cons character characters ih =>
      have := List.length_pos_iff.mpr (escaped_ne_nil character)
      rw [List.length_cons, List.flatMap_cons, List.length_append]
      omega

/-- A text is read up to its closing quote. -/
theorem readCodePoints_text (opening : List Char) (characters rest : List Char) {bound : Nat}
    (enough : characters.length < bound) :
    readCodePoints opening bound (characters.flatMap escaped ++ '"' :: rest) =
      .ok (characters.map Char.toNat, rest) := by
  induction characters generalizing bound with
  | nil =>
      obtain ⟨bound, rfl⟩ : ∃ less, bound = less + 1 := ⟨bound - 1, by omega⟩
      rfl
  | cons character characters ih =>
      obtain ⟨bound, rfl⟩ : ∃ less, bound = less + 1 := ⟨bound - 1, by omega⟩
      rw [List.length_cons] at enough
      rw [List.flatMap_cons, List.append_assoc, readCodePoints_escaped _ _ _ (by simp),
        ih (by omega)]
      rfl

theorem ofCodePoints_toNat (text : String) :
    Value.ofCodePoints (text.toList.map Char.toNat) = .text text := by
  have valid :
      (text.toList.map Char.toNat).all (fun codePoint => codePoint.isValidChar) = true := by
    simp only [List.all_map, List.all_eq_true]
    exact fun character _ => decide_eq_true character.valid
  have back : (text.toList.map Char.toNat).map Char.ofNat = text.toList := by
    simp [List.map_map, Function.comp_def]
  rw [Value.ofCodePoints, if_pos valid, back, String.ofList_toList]

theorem readString_stringText (text : String) (rest : List Char) :
    readString ((stringText text).toList ++ rest) = .ok (.text text, rest) := by
  have written : (stringText text).toList ++ rest =
      '"' :: (text.toList.flatMap escaped ++ '"' :: rest) := by
    simp [stringText]
  have enough : text.toList.length < (text.toList.flatMap escaped ++ '"' :: rest).length + 1 := by
    have := length_le_flatMap_escaped text.toList
    rw [List.length_append]
    omega
  rw [readString, written, List.drop_one, List.tail_cons, List.length_cons,
    readCodePoints_text _ _ _ enough]
  simp [bind, Except.bind, pure, Except.pure, ofCodePoints_toNat]

/-! ### Integers -/

theorem digitsValue_toDigits (number : Nat) : digitsValue (Nat.toDigits 10 number) = number := by
  have step : (fun (value : Nat) (digit : Char) => value * 10 + (digit.toNat - 0x30)) =
      fun value digit => 10 * value + (digit.toNat - '0'.toNat) := by
    funext value digit
    rw [Nat.mul_comm]
    rfl
  rw [digitsValue, NumberText.ofDigits, List.foldl_map, step, ← Nat.ofDigitChars_eq_foldl,
    Nat.ofDigitChars_ten_toDigits]

theorem head?_toDigits_ne {number : Nat} (positive : 0 < number) :
    (Nat.toDigits 10 number).head? ≠ some '0' := by
  induction number using Nat.base_induction 10 (by decide) with
  | single digit small =>
      rw [Nat.toDigits_of_lt_base small]
      revert digit
      decide
  | digit front digit small frontPos ih =>
      rw [← Nat.toDigits_append_toDigits (by decide) frontPos small, List.head?_append]
      cases front_eq : Nat.toDigits 10 front with
      | nil => exact absurd front_eq Nat.toDigits_ne_nil
      | cons first others =>
          have first_ne := ih frontPos
          rw [front_eq] at first_ne
          exact first_ne

theorem isDigit_toDigits (number : Nat) :
    ∀ character ∈ Nat.toDigits 10 number, character.isDigit = true :=
  fun _ member => Nat.isDigit_of_mem_toDigits (by decide) (by decide) member

theorem spanAscii_digits {digits rest : List Char}
    (each : ∀ character ∈ digits, character.isDigit = true) (ends : EndsNumber rest) :
    spanAscii (digits ++ rest) = (digits, rest) := by
  have stops : rest.takeWhile Char.isDigit = [] ∧ rest.dropWhile Char.isDigit = rest := by
    cases rest with
    | nil => exact ⟨rfl, rfl⟩
    | cons character rest => simp [(ends character rfl).1]
  rw [spanAscii, List.takeWhile_append_of_pos each, List.dropWhile_append_of_pos each, stops.1,
    stops.2, List.append_nil]

theorem readWhole_toDigits (number : Nat) {rest : List Char} (ends : EndsNumber rest) :
    readWhole (Nat.toDigits 10 number ++ rest) = (Nat.toDigits 10 number, rest) := by
  rcases Nat.eq_zero_or_pos number with rfl | positive
  · rw [Nat.toDigits_zero]
    rfl
  · have spanned := spanAscii_digits (isDigit_toDigits number) ends
    have first := head?_toDigits_ne positive
    cases digits_eq : Nat.toDigits 10 number with
    | nil => exact absurd digits_eq Nat.toDigits_ne_nil
    | cons digit digits =>
        rw [digits_eq] at spanned first
        rw [List.cons_append, readWhole]
        · exact spanned
        · intro others zero
          exact first (congrArg some (List.cons.inj zero).1)

theorem EndsNumber.readFraction {text : List Char} (ends : EndsNumber text) :
    readFraction text = ([], text) := by
  unfold JsonReader.readFraction
  split
  · exact absurd ((ends '.' rfl).2) (by decide)
  · rfl

theorem EndsNumber.readExponent {text : List Char} (ends : EndsNumber text) :
    readExponent text = (none, text) := by
  unfold JsonReader.readExponent
  split
  · rename_i letter rest
    have apart := (ends letter rfl).2
    simp only [List.mem_cons, List.not_mem_nil, or_false, not_or] at apart
    simp [apart]
  · rfl

/-- The text of an integer: a sign if it is negative, and the digits of its magnitude. -/
theorem toList_toString (value : Int) :
    (toString value).toList =
      (if value < 0 then ['-'] else []) ++ Nat.toDigits 10 value.natAbs := by
  cases value with
  | ofNat number => simp [Int.toString_eq_repr, Int.repr]
  | negSucc number => simp [Int.toString_eq_repr, Int.repr, Int.negSucc_lt_zero]

/-- An integer is short enough to be read and displayed if its digits are. -/
theorem lt_hugeInteger_iff (number : Nat) :
    number < Value.hugeInteger ↔ (Nat.toDigits 10 number).length ≤ greatestDigitCount := by
  have positive : 0 < greatestDigitCount := by decide
  unfold Value.hugeInteger
  -- The power is not to be computed.
  generalize greatestDigitCount = count at positive
  exact (Nat.length_toDigits_le_iff (by decide) positive).symm

/-- The digits of a number behind a sign are read if they are not too many. -/
theorem readNumber_digits (negative : Bool) (number : Nat) {rest : List Char}
    (ends : EndsNumber rest) :
    readNumber ((if negative then ['-'] else []) ++ Nat.toDigits 10 number ++ rest) =
      if number < Value.hugeInteger then
        .ok (.int (if negative then -(number : Int) else number), rest)
      else fail (.tooManyDigits (Nat.toDigits 10 number).length)
        ((if negative then ['-'] else []) ++ Nat.toDigits 10 number ++ rest) := by
  have split_eq : splitMinus ((if negative then ['-'] else []) ++ Nat.toDigits 10 number ++ rest) =
      (negative, Nat.toDigits 10 number ++ rest) := by
    cases negative with
    | true => rfl
    | false =>
        have each := isDigit_toDigits number
        cases digits_eq : Nat.toDigits 10 number with
        | nil => exact absurd digits_eq Nat.toDigits_ne_nil
        | cons digit digits =>
            rw [digits_eq] at each
            have digit_ne : digit ≠ '-' := by
              rintro rfl
              exact absurd (each _ List.mem_cons_self) (by decide)
            simp [splitMinus, digit_ne]
  rw [readNumber, split_eq]
  simp only [readWhole_toDigits number ends, ends.readFraction, ends.readExponent,
    digitsValue_toDigits, lt_hugeInteger_iff]
  split
  · rename_i none_read
    simp at none_read
  · by_cases short : (Nat.toDigits 10 number).length ≤ greatestDigitCount
    · simp [short, Nat.not_lt.mpr short]
    · simp [short, Nat.not_le.mp short]

/-- An integer is read as it was written if it has not too many digits, and refused if it has. -/
theorem readNumber_toString (value : Int) {rest : List Char} (ends : EndsNumber rest) :
    readNumber ((toString value).toList ++ rest) =
      if value.natAbs < Value.hugeInteger then .ok (.int value, rest)
      else fail (.tooManyDigits (Nat.toDigits 10 value.natAbs).length)
        ((toString value).toList ++ rest) := by
  have read := readNumber_digits (decide (value < 0)) value.natAbs ends
  have back : (if value < 0 then -((value.natAbs : Nat) : Int) else (value.natAbs : Nat)) =
      value := by
    split <;> omega
  simp only [decide_eq_true_eq, back, ← toList_toString] at read
  exact read

/-- The text of an integer begins with a digit, or with a sign and a digit. -/
theorem toString_starts (value : Int) :
    ∃ digit others, digit.isDigit = true ∧
      ((toString value).toList = digit :: others ∨
        (toString value).toList = '-' :: digit :: others) := by
  have each := isDigit_toDigits value.natAbs
  cases digits_eq : Nat.toDigits 10 value.natAbs with
  | nil => exact absurd digits_eq Nat.toDigits_ne_nil
  | cons digit others =>
      rw [digits_eq] at each
      refine ⟨digit, others, each _ List.mem_cons_self, ?_⟩
      rw [toList_toString, digits_eq]
      split
      · exact Or.inr rfl
      · exact Or.inl rfl

/-- No word that the reader knows begins like an integer. -/
theorem words_apart : ∀ word ∈ words.map Prod.fst, ∃ first second more,
    word.toList = first :: second :: more ∧ first.isDigit = false ∧
      (first = '-' → second.isDigit = false) := by
  intro word member
  simp only [words, List.map_cons, List.map_nil, List.mem_cons, List.not_mem_nil, or_false]
    at member
  rcases member with rfl | rfl | rfl | rfl | rfl | rfl <;>
    exact ⟨_, _, _, rfl, by decide, by decide⟩

theorem readScalar_toString (value : Int) (rest : List Char) :
    readScalar ((toString value).toList ++ rest) =
      readNumber ((toString value).toList ++ rest) := by
  have unknown : ∀ entry ∈ words,
      entry.1.toList.isPrefixOf ((toString value).toList ++ rest) = false := by
    intro entry member
    obtain ⟨first, second, more, word_eq, plain, unsigned⟩ :=
      words_apart entry.1 (List.mem_map_of_mem member)
    obtain ⟨digit, others, isDigit, starts⟩ := toString_starts value
    rw [word_eq]
    rcases starts with starts | starts <;> rw [starts]
    · have apart : first ≠ digit := by
        rintro rfl
        rw [isDigit] at plain
        cases plain
      simp [List.isPrefixOf, apart]
    · by_cases sign : first = '-'
      · have apart : second ≠ digit := by
          rintro rfl
          rw [unsigned sign] at isDigit
          cases isDigit
        simp [List.isPrefixOf, apart]
      · simp [List.isPrefixOf, sign]
  rw [readScalar, List.findSome?_eq_none_iff.mpr]
  intro entry member
  have absent : afterWord? entry.1 ((toString value).toList ++ rest) = none := by
    rw [afterWord?, unknown entry member, if_neg Bool.false_ne_true]
  exact congrArg (Option.map _) absent

end JsonReader

/-! ### Values -/

def Value.namedEntries (entries : List (String × Value)) : List (Value × Value) :=
  entries.map (Prod.map .text id)

@[simp]
theorem Value.namedEntries_nil : namedEntries [] = [] :=
  rfl

@[simp]
theorem Value.namedEntries_cons (key : String) (value : Value) (entries : List (String × Value)) :
    namedEntries ((key, value) :: entries) = (.text key, value) :: namedEntries entries :=
  rfl

/-- A value of JSON itself, without floating-point numbers and with different texts as the keys
of each record. -/
inductive Value.IsPlain : Value → Prop
  | null : IsPlain .null
  | bool (value : Bool) : IsPlain (.bool value)
  | int (value : Int) : IsPlain (.int value)
  | text (value : String) : IsPlain (.text value)
  | list {items : List Value} (each : ∀ item ∈ items, IsPlain item) : IsPlain (.list items)
  | record {entries : List (String × Value)} (distinct : (entries.map Prod.fst).Nodup)
      (each : ∀ entry ∈ entries, IsPlain entry.2) :
      IsPlain (.record (Value.namedEntries entries))

/-- A record keeps the entries before one with another name. -/
theorem Value.putEntry_namedEntries {entries : List (String × Value)} {key : String}
    (fresh : key ∉ entries.map Prod.fst) (value : Value) :
    putEntry (namedEntries entries) (.text key) value =
      namedEntries (entries ++ [(key, value)]) := by
  have apart : ((namedEntries entries).any fun entry => sameKey entry.1 (.text key)) = false := by
    rw [List.any_eq_false]
    intro entry member
    obtain ⟨⟨name, held⟩, named, rfl⟩ := List.mem_map.mp member
    have differs : name ≠ key := by
      rintro rfl
      exact fresh (List.mem_map_of_mem named)
    simpa [sameKey, equalInteger?] using differs
  rw [putEntry, apart, namedEntries, namedEntries, List.map_append]
  rfl

namespace JsonReader

open JsonWriter

/-- A text that begins with no blank, no closing bracket and no byte order mark. -/
def BeginsSolid (text : List Char) : Prop :=
  ∃ character rest, text = character :: rest ∧ isJsonBlank character = false ∧
    character ≠ ']' ∧ character ≠ '\uFEFF'

theorem BeginsSolid.append {text : List Char} (solid : BeginsSolid text) (rest : List Char) :
    BeginsSolid (text ++ rest) := by
  obtain ⟨character, others, rfl, blank, apart⟩ := solid
  exact ⟨character, others ++ rest, rfl, blank, apart⟩

theorem BeginsSolid.dropBlanks {text : List Char} (solid : BeginsSolid text) :
    dropBlanks text = text := by
  obtain ⟨character, rest, rfl, blank, -⟩ := solid
  exact dropBlanks_cons blank

theorem stringText_beginsSolid (text : String) : BeginsSolid (stringText text).toList :=
  ⟨'"', text.toList.flatMap escaped ++ ['"'], by simp [stringText], by decide, by decide⟩

theorem toString_beginsSolid (value : Int) : BeginsSolid (toString value).toList := by
  obtain ⟨digit, others, isDigit, starts | starts⟩ := toString_starts value
  · refine ⟨digit, others, starts, ?_, ?_⟩
    · rw [isJsonBlank]
      simp only [Bool.or_eq_false_iff, beq_eq_false_iff_ne, ne_eq]
      refine ⟨⟨⟨?_, ?_⟩, ?_⟩, ?_⟩ <;> rintro rfl <;> exact absurd isDigit (by decide)
    · constructor <;> rintro rfl <;> exact absurd isDigit (by decide)
  · exact ⟨'-', _, starts, by decide, by decide⟩

theorem valueText_beginsSolid (layout : Layout) (level : Nat) {value : Value}
    (plain : value.IsPlain) : BeginsSolid (valueText layout level value).toList := by
  cases plain with
  | null => exact ⟨_, _, by rw [valueText]; rfl, by decide, by decide⟩
  | bool value => cases value <;> exact ⟨_, _, by rw [valueText]; rfl, by decide, by decide⟩
  | int value =>
      rw [valueText]
      exact toString_beginsSolid value
  | text value =>
      rw [valueText]
      exact stringText_beginsSolid value
  | @list items each =>
      cases items with
      | nil => exact ⟨_, _, by rw [valueText]; rfl, by decide, by decide⟩
      | cons item items =>
          rw [valueText]
          simp only [String.toList_append, List.append_assoc]
          exact ⟨'[', _, rfl, by decide, by decide⟩
  | @record entries distinct each =>
      cases entries with
      | nil => exact ⟨_, _, by rw [Value.namedEntries_nil, valueText]; rfl, by decide, by decide⟩
      | cons entry entries =>
          rw [Value.namedEntries_cons, valueText]
          simp only [String.toList_append, List.append_assoc]
          exact ⟨'\x7b', _, rfl, by decide, by decide⟩

/-- A reading answers a value, or is refused if what was written holds an integer that is too
long. -/
def IsReading {α : Type} (huge : Bool) (reading : Except JsonFault α) (answer : α) : Prop :=
  if huge then ∃ fault, reading = .error fault else reading = .ok answer

theorem IsReading.ok {α : Type} (answer : α) : IsReading false (.ok answer) answer :=
  rfl

theorem IsReading.ofBound {α : Type} (number bound : Nat) (answer : α) (fault : JsonFault) :
    IsReading (decide (bound ≤ number)) (if number < bound then .ok answer else .error fault)
      answer := by
  by_cases short : number < bound
  · rw [if_pos short, decide_eq_false (Nat.not_le.mpr short)]
    exact .ok answer
  · rw [if_neg short, decide_eq_true (Nat.not_lt.mp short)]
    exact ⟨fault, rfl⟩

theorem IsReading.bind {α β : Type} {huge more : Bool} {reading : Except JsonFault α} {part : α}
    {continuation : α → Except JsonFault β} {answer : β} (first : IsReading huge reading part)
    (rest : IsReading more (continuation part) answer) :
    IsReading (huge || more) (reading >>= continuation) answer := by
  cases huge with
  | false =>
      obtain rfl : reading = .ok part := first
      exact rest
  | true =>
      obtain ⟨fault, rfl⟩ : ∃ fault, reading = .error fault := first
      exact ⟨fault, rfl⟩

theorem IsReading.map {α β : Type} {huge : Bool} {reading : Except JsonFault α} {part : α}
    (read : IsReading huge reading part) (answer : α → β) :
    IsReading huge (do return answer (← reading)) (answer part) := by
  rw [← Bool.or_false huge]
  exact read.bind (.ok (answer part))

/-- A reader of single values reads a text back as the value that it was written from. -/
def ReadsBack (element : List Char → Except JsonFault (Value × List Char)) (text : List Char)
    (value : Value) : Prop :=
  ∀ rest, EndsNumber rest → IsReading value.holdsHugeInteger (element (text ++ rest)) (value, rest)

theorem readItems_itemTexts {element : List Char → Except JsonFault (Value × List Char)}
    (layout : Layout) (level : Nat) {closing rest : List Char} (ends : EndsNumber closing)
    (closes : dropBlanks closing = ']' :: rest) (item : Value) (items : List Value)
    (each : ∀ value ∈ item :: items, ReadsBack element (valueText layout level value).toList value)
    (solid : ∀ value ∈ item :: items, BeginsSolid (valueText layout level value).toList)
    {bound : Nat} (enough : items.length < bound) :
    IsReading (Value.anyHoldsHugeInteger (item :: items))
      (readItems element bound ((valueText layout level item).toList ++
        ((itemTexts layout level items).toList ++ closing))) (item :: items, rest) := by
  induction items generalizing item bound with
  | nil =>
      obtain ⟨bound, rfl⟩ : ∃ less, bound = less + 1 := ⟨bound - 1, by omega⟩
      rw [itemTexts, String.toList_empty, List.nil_append, readItems]
      refine (each item List.mem_cons_self closing ends).bind ?_
      simp only [closes]
      exact .ok _
  | cons next items ih =>
      obtain ⟨bound, rfl⟩ : ∃ less, bound = less + 1 := ⟨bound - 1, by omega⟩
      rw [List.length_cons] at enough
      obtain ⟨lead, between, leadBlank⟩ := between_eq layout level
      have onward := ih next (fun value member => each value (List.mem_cons_of_mem _ member))
        (fun value member => solid value (List.mem_cons_of_mem _ member))
        (Nat.lt_of_succ_lt_succ enough)
      have nextSolid := ((solid next (by simp)).append
        ((itemTexts layout level items).toList ++ closing)).dropBlanks
      have texts_eq : (itemTexts layout level (next :: items)).toList ++ closing =
          ',' :: (lead ++ ((valueText layout level next).toList ++
            ((itemTexts layout level items).toList ++ closing))) := by
        simp [itemTexts, between]
      rw [texts_eq, readItems]
      refine (each item List.mem_cons_self _ (endsNumber_cons (by decide) (by decide))).bind ?_
      simp only []
      rw [dropBlanks_cons (by decide)]
      simp only [dropBlanks_append _ leadBlank, nextSolid]
      exact onward.map fun reading => (item :: reading.1, reading.2)

theorem readEntries_entry (element : List Char → Except JsonFault (Value × List Char))
    (entries : List (Value × Value)) (key : String) {text : List Char}
    (solid : BeginsSolid text) (bound : Nat) :
    readEntries element (bound + 1) entries ((stringText key).toList ++ ':' :: ' ' :: text) = (do
      let (value, after) ← element text
      match dropBlanks after with
      | ',' :: behind =>
        readEntries element bound (Value.putEntry entries (.text key) value) (dropBlanks behind)
      | other =>
        match afterBrace? other with
        | some behind => return (Value.putEntry entries (.text key) value, behind)
        | none => fail .expectingComma other) := by
  have quoted : startsWithQuote ((stringText key).toList ++ ':' :: ' ' :: text) = true := by
    simp [stringText, startsWithQuote]
  have spaced : dropBlanks (' ' :: text) = text := by
    have blank : ∀ character ∈ [' '], isJsonBlank character = true := by decide
    rw [← List.singleton_append, dropBlanks_append text blank, solid.dropBlanks]
  rw [readEntries, if_pos quoted, readString_stringText]
  refine Eq.trans ?_ (congrArg (fun reading => Except.bind (element reading) _) spaced)
  rfl

private theorem key_fresh {front entries : List (String × Value)} {key : String} {value : Value}
    (distinct : ((front ++ (key, value) :: entries).map Prod.fst).Nodup) :
    key ∉ front.map Prod.fst := by
  rw [List.map_append, List.map_cons] at distinct
  exact fun member => (List.nodup_append.mp distinct).2.2 key member key List.mem_cons_self rfl

theorem readEntries_entryTexts {element : List Char → Except JsonFault (Value × List Char)}
    (layout : Layout) (level : Nat) {closing rest : List Char} (ends : EndsNumber closing)
    (closes : dropBlanks closing = '\x7d' :: rest) (front : List (String × Value)) (key : String)
    (value : Value) (entries : List (String × Value))
    (distinct : ((front ++ (key, value) :: entries).map Prod.fst).Nodup)
    (each : ∀ entry ∈ (key, value) :: entries,
      ReadsBack element (valueText layout level entry.2).toList entry.2)
    (solid : ∀ entry ∈ (key, value) :: entries,
      BeginsSolid (valueText layout level entry.2).toList)
    {bound : Nat} (enough : entries.length < bound) :
    IsReading (Value.anyEntryHoldsHugeInteger (Value.namedEntries ((key, value) :: entries)))
      (readEntries element bound (Value.namedEntries front) ((stringText key).toList ++
        ':' :: ' ' :: ((valueText layout level value).toList ++
          ((entryTexts layout level (Value.namedEntries entries)).toList ++ closing))))
      (Value.namedEntries (front ++ (key, value) :: entries), rest) := by
  induction entries generalizing front key value bound with
  | nil =>
      obtain ⟨bound, rfl⟩ : ∃ less, bound = less + 1 := ⟨bound - 1, by omega⟩
      rw [Value.namedEntries_nil, entryTexts, String.toList_empty, List.nil_append,
        readEntries_entry _ _ _ ((solid _ List.mem_cons_self).append closing)]
      refine (each _ List.mem_cons_self closing ends).bind ?_
      simp only []
      rw [closes, Value.putEntry_namedEntries (key_fresh distinct)]
      exact .ok _
  | cons next entries ih =>
      obtain ⟨nextKey, nextValue⟩ := next
      obtain ⟨bound, rfl⟩ : ∃ less, bound = less + 1 := ⟨bound - 1, by omega⟩
      rw [List.length_cons] at enough
      obtain ⟨lead, between, leadBlank⟩ := between_eq layout level
      have onward := ih (front ++ [(key, value)]) nextKey nextValue
        (by rwa [List.append_assoc, List.singleton_append])
        (fun entry member => each entry (List.mem_cons_of_mem _ member))
        (fun entry member => solid entry (List.mem_cons_of_mem _ member))
        (Nat.lt_of_succ_lt_succ enough)
      have texts_eq : (entryTexts layout level
          (Value.namedEntries ((nextKey, nextValue) :: entries))).toList ++ closing =
          ',' :: (lead ++ ((stringText nextKey).toList ++ ':' :: ' ' ::
            ((valueText layout level nextValue).toList ++
              ((entryTexts layout level (Value.namedEntries entries)).toList ++ closing)))) := by
        simp [entryTexts, between, Value.toText]
      rw [texts_eq, readEntries_entry _ _ _ ((solid _ List.mem_cons_self).append _)]
      refine (each _ List.mem_cons_self _ (endsNumber_cons (by decide) (by decide))).bind ?_
      simp only []
      rw [dropBlanks_cons (by decide)]
      simp only [dropBlanks_append _ leadBlank,
        ((stringText_beginsSolid nextKey).append _).dropBlanks,
        Value.putEntry_namedEntries (key_fresh distinct)]
      rwa [List.append_assoc, List.singleton_append] at onward

/-- What stands between the last part and the closing bracket of a list or a record. -/
theorem closing_ends (layout : Layout) (level : Nat) {bracket : Char} (rest : List Char)
    (member : bracket ∈ [']', '\x7d']) :
    EndsNumber ((layout.opening level).toList ++ bracket :: rest) ∧
      dropBlanks ((layout.opening level).toList ++ bracket :: rest) = bracket :: rest := by
  have plain : bracket.isDigit = false ∧ bracket ∉ ['.', 'e', 'E'] ∧
      isJsonBlank bracket = false := by
    revert bracket
    decide
  refine ⟨(endsNumber_cons plain.1 plain.2.1).blanks_append (opening_blank layout level), ?_⟩
  rw [dropBlanks_append _ (opening_blank layout level), dropBlanks_cons plain.2.2]

theorem length_itemTexts (layout : Layout) (level : Nat) (items : List Value) :
    items.length ≤ (itemTexts layout level items).toList.length := by
  induction items with
  | nil => exact Nat.zero_le _
  | cons item items ih =>
      obtain ⟨blanks, between, -⟩ := between_eq layout level
      rw [itemTexts, String.toList_append, String.toList_append, between]
      simp only [List.length_append, List.length_cons]
      omega

theorem length_valueText_le (layout : Layout) (level : Nat) {items : List Value} {item : Value}
    (member : item ∈ items) :
    (valueText layout level item).toList.length ≤ (itemTexts layout level items).toList.length := by
  induction items with
  | nil => cases member
  | cons other items ih =>
      rw [itemTexts, String.toList_append, String.toList_append]
      simp only [List.length_append]
      rcases List.mem_cons.mp member with rfl | later
      · omega
      · have := ih later
        omega

theorem length_entryText_le (layout : Layout) (level : Nat) {entries : List (String × Value)}
    {entry : String × Value} (member : entry ∈ entries) :
    (valueText layout level entry.2).toList.length ≤
      (entryTexts layout level (Value.namedEntries entries)).toList.length := by
  induction entries with
  | nil => cases member
  | cons other entries ih =>
      rw [Value.namedEntries_cons, entryTexts, String.toList_append, String.toList_append]
      simp only [List.length_append]
      rcases List.mem_cons.mp member with rfl | later
      · omega
      · have := ih later
        omega

theorem length_entryTexts (layout : Layout) (level : Nat) (entries : List (String × Value)) :
    entries.length ≤ (entryTexts layout level (Value.namedEntries entries)).toList.length := by
  induction entries with
  | nil => exact Nat.zero_le _
  | cons entry entries ih =>
      obtain ⟨blanks, between, -⟩ := between_eq layout level
      rw [Value.namedEntries_cons, entryTexts, String.toList_append, String.toList_append,
        String.toList_append, String.toList_append, between]
      simp only [List.length_append, List.length_cons]
      omega

/-- A word or a number begins neither a string nor a list nor a record. -/
theorem readValue_scalar (bound : Nat) {character : Char} (rest : List Char)
    (apart : character ∉ ['"', '[', '\x7b']) :
    readValue (bound + 1) (character :: rest) = readScalar (character :: rest) := by
  have differs {other : Char} (ne : character ≠ other) : character.toNat ≠ other.toNat :=
    fun same => ne (Char.toNat_inj.mp same)
  simp only [List.mem_cons, List.not_mem_nil, or_false, not_or] at apart
  have quote : ¬ character.toNat = 0x22 := differs apart.1
  have brace : ¬ character.toNat = 0x7B := differs apart.2.2
  rw [readValue, if_neg quote, if_neg apart.2.1, if_neg brace]

theorem readValue_toString (bound : Nat) (value : Int) (rest : List Char) :
    readValue (bound + 1) ((toString value).toList ++ rest) =
      readNumber ((toString value).toList ++ rest) := by
  rw [← readScalar_toString]
  obtain ⟨digit, others, isDigit, starts | starts⟩ := toString_starts value <;> rw [starts]
  · refine readValue_scalar bound _ ?_
    simp only [List.mem_cons, List.not_mem_nil, or_false, not_or]
    refine ⟨?_, ?_, ?_⟩ <;> rintro rfl <;> exact absurd isDigit (by decide)
  · exact readValue_scalar bound _ (by decide)

theorem readValue_list (bound : Nat) {blanks text : List Char}
    (blank : ∀ character ∈ blanks, isJsonBlank character = true) (solid : BeginsSolid text) :
    readValue (bound + 1) ('[' :: (blanks ++ text)) = (do
      let (items, after) ← readItems (readValue bound) text.length.succ text
      return (.list items, after)) := by
  have inside : dropBlanks (blanks ++ text) = text := by
    rw [dropBlanks_append _ blank, solid.dropBlanks]
  have filled : afterWord? "]" text = none := by
    obtain ⟨character, rest, rfl, -, apart, -⟩ := solid
    simp [afterWord?, apart.symm]
  have quote : ¬ '['.toNat = 0x22 := by decide
  rw [readValue, if_neg quote, if_pos rfl]
  simp only [inside, filled]

theorem readValue_record (bound : Nat) {blanks : List Char} (key : String) (text : List Char)
    (blank : ∀ character ∈ blanks, isJsonBlank character = true) :
    readValue (bound + 1) ('\x7b' :: (blanks ++ ((stringText key).toList ++ text))) = (do
      let (entries, after) ← readEntries (readValue bound)
        ((stringText key).toList ++ text).length.succ [] ((stringText key).toList ++ text)
      return (.record entries, after)) := by
  have inside : dropBlanks (blanks ++ ((stringText key).toList ++ text)) =
      (stringText key).toList ++ text := by
    rw [dropBlanks_append _ blank, ((stringText_beginsSolid key).append text).dropBlanks]
  have filled : afterBrace? ((stringText key).toList ++ text) = none := by
    simp [afterBrace?, afterWord?, stringText]
  have quote : ¬ '\x7b'.toNat = 0x22 := by decide
  have bracket : ¬ '\x7b' = '[' := by decide
  have brace : '\x7b'.toNat = 0x7B := by decide
  rw [readValue, if_neg quote, if_neg bracket, if_pos brace]
  simp only [inside, filled]

theorem readsBack_list (layout : Layout) (level bound : Nat) {item : Value} {items : List Value}
    (each : ∀ value ∈ item :: items, value.IsPlain)
    (enough : (valueText layout level (.list (item :: items))).toList.length < bound + 1)
    (back : ∀ value ∈ item :: items, (valueText layout (level + 1) value).toList.length < bound →
      ReadsBack (readValue bound) (valueText layout (level + 1) value).toList value) :
    ReadsBack (readValue (bound + 1)) (valueText layout level (.list (item :: items))).toList
      (.list (item :: items)) := by
  intro rest ends
  have text_eq : (valueText layout level (.list (item :: items))).toList ++ rest =
      '[' :: ((layout.opening (level + 1)).toList ++
        ((valueText layout (level + 1) item).toList ++
          ((itemTexts layout (level + 1) items).toList ++
            ((layout.opening level).toList ++ ']' :: rest)))) := by
    simp [valueText]
  have shorter : ∀ value ∈ item :: items,
      (valueText layout (level + 1) value).toList.length < bound := by
    have long := congrArg List.length text_eq
    simp only [List.length_append, List.length_cons] at long
    rintro value (_ | ⟨_, member⟩)
    · omega
    · have := length_valueText_le layout (level + 1) member
      omega
  have solid := fun value member => valueText_beginsSolid layout (level + 1) (each value member)
  obtain ⟨closingEnds, closes⟩ := closing_ends layout level rest (List.mem_cons_self : ']' ∈ _)
  have few := length_itemTexts layout (level + 1) items
  have read (limit : Nat) (enough : items.length < limit) :=
    readItems_itemTexts layout (level + 1) closingEnds closes item items
      (fun value member => back value member (shorter value member)) solid enough
  rw [text_eq, readValue_list _ (opening_blank layout _) ((solid item List.mem_cons_self).append _)]
  refine (read _ ?_).map fun reading => (Value.list reading.1, reading.2)
  simp only [List.length_append]
  omega

theorem readsBack_record (layout : Layout) (level bound : Nat) {key : String} {value : Value}
    {entries : List (String × Value)} (distinct : (((key, value) :: entries).map Prod.fst).Nodup)
    (each : ∀ entry ∈ (key, value) :: entries, entry.2.IsPlain)
    (enough : (valueText layout level
      (.record (Value.namedEntries ((key, value) :: entries)))).toList.length < bound + 1)
    (back : ∀ entry ∈ (key, value) :: entries,
      (valueText layout (level + 1) entry.2).toList.length < bound →
        ReadsBack (readValue bound) (valueText layout (level + 1) entry.2).toList entry.2) :
    ReadsBack (readValue (bound + 1))
      (valueText layout level (.record (Value.namedEntries ((key, value) :: entries)))).toList
      (.record (Value.namedEntries ((key, value) :: entries))) := by
  intro rest ends
  have text_eq : (valueText layout level
      (.record (Value.namedEntries ((key, value) :: entries)))).toList ++ rest =
      '\x7b' :: ((layout.opening (level + 1)).toList ++ ((stringText key).toList ++
        ':' :: ' ' :: ((valueText layout (level + 1) value).toList ++
          ((entryTexts layout (level + 1) (Value.namedEntries entries)).toList ++
            ((layout.opening level).toList ++ '\x7d' :: rest))))) := by
    simp [valueText, Value.toText]
  have shorter : ∀ entry ∈ (key, value) :: entries,
      (valueText layout (level + 1) entry.2).toList.length < bound := by
    have long := congrArg List.length text_eq
    simp only [List.length_append, List.length_cons] at long
    rintro entry (_ | ⟨_, member⟩)
    · dsimp only
      omega
    · have := length_entryText_le layout (level + 1) member
      omega
  have solid := fun entry member => valueText_beginsSolid layout (level + 1) (each entry member)
  obtain ⟨closingEnds, closes⟩ :=
    closing_ends layout level rest (List.mem_cons_of_mem ']' (List.mem_cons_self))
  have few := length_entryTexts layout (level + 1) entries
  have read (limit : Nat) (enough : entries.length < limit) :=
    readEntries_entryTexts layout (level + 1) closingEnds closes [] key value entries distinct
      (fun entry member => back entry member (shorter entry member)) solid enough
  rw [text_eq, readValue_record _ _ _ (opening_blank layout _)]
  refine (read _ ?_).map fun reading => (Value.record reading.1, reading.2)
  simp only [List.length_append, List.length_cons]
  omega

theorem readValue_valueText (layout : Layout) {value : Value} (plain : value.IsPlain)
    (level bound : Nat) (enough : (valueText layout level value).toList.length < bound) :
    ReadsBack (readValue bound) (valueText layout level value).toList value := by
  obtain ⟨bound, rfl⟩ : ∃ less, bound = less + 1 := ⟨bound - 1, by omega⟩
  induction plain generalizing level bound with
  | null =>
      rw [valueText]
      exact fun rest _ => .ok _
  | bool value =>
      rw [valueText]
      cases value
      · exact fun rest _ => .ok _
      · exact fun rest _ => .ok _
  | int value =>
      intro rest ends
      rw [valueText, readValue_toString, readNumber_toString _ ends, Value.holdsHugeInteger, fail]
      generalize Value.hugeInteger = limit
      exact IsReading.ofBound _ _ _ _
  | text value =>
      intro rest ends
      have read := readString_stringText value rest
      rw [valueText]
      rw [stringText, String.toList_append, String.toList_append] at read ⊢
      exact read
  | @list items each ih =>
      cases items with
      | nil =>
          rw [valueText]
          exact fun rest _ => .ok _
      | cons item items =>
          refine readsBack_list layout level bound each enough fun value member shorter => ?_
          obtain ⟨less, rfl⟩ : ∃ less, bound = less + 1 := ⟨bound - 1, by omega⟩
          exact ih value member (level + 1) less shorter
  | @record entries distinct each ih =>
      cases entries with
      | nil =>
          rw [Value.namedEntries_nil, valueText]
          exact fun rest _ => .ok _
      | cons entry entries =>
          refine readsBack_record layout level bound distinct each enough
            fun entry member shorter => ?_
          obtain ⟨less, rfl⟩ : ∃ less, bound = less + 1 := ⟨bound - 1, by omega⟩
          exact ih entry member (level + 1) less shorter

/-- A document is read back as the value that it was written from, and refused if the value holds
an integer that is too long. -/
theorem readDocument_writeJson (pretty : Bool) {value : Value} (plain : value.IsPlain) :
    IsReading value.holdsHugeInteger (readDocument (writeJson pretty value).toList) value := by
  have read := readValue_valueText ⟨pretty⟩ plain 0 _ (Nat.lt_succ_self _) [] endsNumber_nil
  have solid := valueText_beginsSolid ⟨pretty⟩ 0 plain
  have unmarked : (writeJson pretty value).toList.head? ≠ some (Char.ofNat 0xFEFF) := by
    obtain ⟨character, rest, text_eq, -, -, apart⟩ := solid
    rw [writeJson, text_eq]
    exact fun marked => apart (Option.some.inj marked)
  rw [List.append_nil] at read
  rw [readDocument, if_neg unmarked, writeJson, solid.dropBlanks,
    ← Bool.or_false value.holdsHugeInteger]
  exact read.bind (.ok value)

end JsonReader

end RubySyntax
