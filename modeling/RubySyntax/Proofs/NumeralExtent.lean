import RubySyntax.Proofs.LexemeExtent

/-!
# Extents of numerals

A numeral is hexadecimal, binary, octal or decimal.  The scanner of numbers tries these forms one
after the other, so it answers a numeral exactly where one stands, but it is the order of the forms
and not their length that decides.  Nearly always the answer is the longest numeral all the same.
The exception are octal numbers in front of a point, an exponent letter or a digit that is not
octal: digits are given back down to an underscore, or else the octal form is given up.
-/

namespace RubySyntax

namespace Lexeme

/-! ### Longest words -/

/-- The characters at the start of a text form a word of a language, and no more of them do. -/
structure IsLongest (language : List Char → Prop) (text : List Char) (length : Nat) : Prop where
  within : length ≤ text.length
  belongs : language (text.take length)
  longest : ∀ word, word <+: text → language word → word.length ≤ length

/-- The words of one language with words of another one behind them. -/
def Joined (first second : List Char → Prop) (word : List Char) : Prop :=
  ∃ front back, word = front ++ back ∧ first front ∧ second back

variable {first second language : List Char → Prop} {text : List Char}

/-- The longest words of two languages join to the longest one, if nothing of the second language
fits behind a word of the first one that is not the longest. -/
theorem IsLongest.joined {length more : Nat} (longest : IsLongest first text length)
    (onward : IsLongest second (text.drop length) more)
    (apart : ∀ front back, first front → second back → front ++ back <+: text →
      front.length < length → back = []) :
    IsLongest (Joined first second) text (length + more) := by
  have split_eq : text.take (length + more) = text.take length ++ (text.drop length).take more :=
    List.take_add
  refine ⟨?_, ⟨_, _, split_eq, longest.belongs, onward.belongs⟩, ?_⟩
  · have behind := onward.within
    have within := longest.within
    rw [List.length_drop] at behind
    omega
  · rintro _ starts ⟨front, back, rfl, isFirst, isSecond⟩
    have frontStarts : front <+: text := (List.prefix_append front back).trans starts
    have front_le := longest.longest front frontStarts isFirst
    rw [List.length_append]
    rcases Nat.lt_or_eq_of_le front_le with shorter | rfl
    · rw [apart front back isFirst isSecond starts shorter, List.length_nil]
      omega
    · obtain ⟨behind, rfl⟩ := starts
      have backStarts : back <+: (front ++ back ++ behind).drop front.length := by simp
      exact Nat.add_le_add_left (onward.longest back backStarts isSecond) _

/-! ### The forms of numerals -/

/-- One or more digits of a kind, with underscores among them. -/
def AreDigits (isDigit : Char → Bool) (digits : List Char) : Prop :=
  digits ≠ [] ∧ ∀ character ∈ digits, isDigitOrUnderscore isDigit character = true

/-- A decimal digit with decimal digits and underscores behind it. -/
def IsWhole (digits : List Char) : Prop :=
  startsWithChar isDecimalDigit digits = true ∧
    ∀ character ∈ digits, isDigitOrUnderscore isDecimalDigit character = true

/-- Nothing, or a point and the digits behind it. -/
inductive IsFraction : List Char → Prop
  | none : IsFraction []
  | point {digits : List Char} (isWhole : IsWhole digits) : IsFraction ('.' :: digits)

/-- Nothing, or a letter with a sign, which may be left out, and digits. -/
inductive IsExponent : List Char → Prop
  | none : IsExponent []
  | letter {letter : Char} {sign digits : List Char} (marked : letter ∈ ['e', 'E'])
      (signed : sign ∈ [[], ['+'], ['-']]) (filled : digits ≠ [])
      (passes : ∀ digit ∈ digits, isDecimalDigit digit = true) :
      IsExponent (letter :: (sign ++ digits))

/-- Digits with an optional fraction and an optional exponent. -/
def IsDecimal : List Char → Prop :=
  Joined (Joined IsWhole IsFraction) IsExponent

/-- The digits that a letter behind a leading zero announces. -/
def markedDigits? (letter : Char) : Option (Char → Bool) :=
  if letter = 'x' ∨ letter = 'X' then some fun digit => (hexDigitValue? digit).isSome
  else if letter = 'b' ∨ letter = 'B' then some fun digit => digit == '0' || digit == '1'
  else if letter = 'o' ∨ letter = 'O' then some isOctalDigit
  else none

inductive IsNumeral : List Char → Prop
  | marked {letter : Char} {isDigit : Char → Bool} {digits : List Char}
      (kind : markedDigits? letter = some isDigit) (filled : AreDigits isDigit digits) :
      IsNumeral ('0' :: letter :: digits)
  | octal {digits : List Char} (filled : AreDigits isOctalDigit digits) : IsNumeral ('0' :: digits)
  | decimal {digits : List Char} (isDecimal : IsDecimal digits) : IsNumeral digits

/-! ### Decimal numerals -/

/-- Behind a run of digits that goes on stands a digit or an underscore. -/
theorem exists_digit_behind {test : Char → Bool} {front back : List Char}
    (passes : ∀ character ∈ front, test character = true) (starts : front ++ back <+: text)
    (shorter : front.length < countWhile test text) :
    ∀ character ∈ back.head?, test character = true := by
  obtain ⟨behind, rfl⟩ := starts
  rw [List.append_assoc, countWhile_append_of_passes passes] at shorter
  have goesOn : startsWithChar test (back ++ behind) = true := countWhile_pos.mp (by omega)
  cases back with
  | nil => simp
  | cons character back => simpa [startsWithChar] using goesOn

theorem isWhole_longest (starts : startsWithChar isDecimalDigit text = true) :
    IsLongest IsWhole text (digitRun text) := by
  rw [digitRun, if_pos starts]
  refine ⟨countWhile_le _ _, ⟨?_, passes_of_mem_take_countWhile⟩, ?_⟩
  · cases text with
    | nil => simp [startsWithChar] at starts
    | cons digit rest =>
        have isDigit : isDecimalDigit digit = true := by simpa [startsWithChar] using starts
        simp [countWhile_cons, isDigitOrUnderscore, isDigit, startsWithChar]
  · exact fun word starts isWhole => length_le_countWhile starts isWhole.2

theorem digitRun_pos : 0 < digitRun text ↔ startsWithChar isDecimalDigit text = true := by
  constructor
  · intro positive
    rw [digitRun] at positive
    split at positive
    · assumption
    · exact absurd positive (Nat.lt_irrefl 0)
  · intro starts
    have isWhole := (isWhole_longest starts).belongs
    refine Nat.pos_of_ne_zero fun zero => ?_
    simp [zero, IsWhole, startsWithChar] at isWhole

theorem isFraction_longest (text : List Char) :
    IsLongest IsFraction text (fractionLength text) := by
  refine ⟨(fractionLength_cleanPrefix text).within, ?belongs, ?longest⟩
  case belongs =>
    unfold fractionLength
    split
    · split
      next positive => exact .point (isWhole_longest (digitRun_pos.mp positive)).belongs
      next => exact .none
    · exact .none
  case longest =>
    intro word starts isFraction
    cases isFraction with
    | none => exact Nat.zero_le _
    | @point digits isWhole =>
        obtain ⟨behind, rfl⟩ := starts
        have starts : digits <+: digits ++ behind := List.prefix_append digits behind
        have begins : startsWithChar isDecimalDigit (digits ++ behind) = true := by
          cases digits with
          | nil => simp [IsWhole, startsWithChar] at isWhole
          | cons digit digits => exact isWhole.1
        have longest := (isWhole_longest begins).longest digits starts isWhole
        rw [List.cons_append, fractionLength, if_pos (digitRun_pos.mpr begins)]
        exact Nat.succ_le_succ longest

def signLength (text : List Char) : Nat :=
  if startsWithChar (fun mark => mark == '+' || mark == '-') text then 1 else 0

theorem exponentLength_cons (letter : Char) (rest : List Char) :
    exponentLength (letter :: rest) =
      if (letter == 'e' || letter == 'E') = true ∧
          0 < countWhile isDecimalDigit (rest.drop (signLength rest)) then
        1 + signLength rest + countWhile isDecimalDigit (rest.drop (signLength rest))
      else 0 := by
  rw [exponentLength]
  by_cases marked : (letter == 'e' || letter == 'E') = true
  · simp only [marked, if_true, true_and, signLength]
  · simp only [marked, Bool.false_eq_true, if_false, false_and]

theorem take_signLength (text : List Char) :
    text.take (signLength text) ∈ ([[], ['+'], ['-']] : List (List Char)) := by
  rw [signLength]
  cases text with
  | nil => decide
  | cons mark rest =>
      split
      next signed =>
        simp only [startsWithChar, List.head?_cons, Option.any_some, Bool.or_eq_true,
          beq_iff_eq] at signed
        rcases signed with rfl | rfl <;> simp
      next => simp

theorem signLength_append {sign digits : List Char} (signed : sign ∈ [[], ['+'], ['-']])
    (filled : digits ≠ []) (passes : ∀ digit ∈ digits, isDecimalDigit digit = true)
    (behind : List Char) :
    signLength (sign ++ (digits ++ behind)) = sign.length := by
  simp only [List.mem_cons, List.not_mem_nil, or_false] at signed
  rcases signed with rfl | rfl | rfl
  · cases digits with
    | nil => exact absurd rfl filled
    | cons digit digits =>
        have noSign : (digit == '+' || digit == '-') = false := by
          have isDigit := passes digit List.mem_cons_self
          rw [← Bool.not_eq_true, Bool.or_eq_true, beq_iff_eq, beq_iff_eq]
          rintro (rfl | rfl) <;> exact absurd isDigit (by decide)
        simp [signLength, startsWithChar, noSign]
  · rfl
  · rfl

theorem isExponent_longest (text : List Char) :
    IsLongest IsExponent text (exponentLength text) := by
  refine ⟨(exponentLength_cleanPrefix text).within, ?belongs, ?longest⟩
  case belongs =>
    cases text with
    | nil => exact .none
    | cons letter rest =>
        rw [exponentLength_cons]
        split
        next found =>
          have marked : letter ∈ ['e', 'E'] := by simpa using found.1
          rw [Nat.add_assoc, Nat.add_comm 1, List.take_succ_cons, List.take_add]
          refine .letter marked (take_signLength rest) ?_ passes_of_mem_take_countWhile
          exact List.ne_nil_of_length_pos (by
            rw [List.length_take_of_le (countWhile_le _ _)]
            exact found.2)
        next => exact .none
  case longest =>
    intro word starts isExponent
    cases isExponent with
    | none => exact Nat.zero_le _
    | @letter letter sign digits marked signed filled passes =>
        obtain ⟨behind, rfl⟩ := starts
        have sign_eq := signLength_append signed filled passes behind
        have digits_le : digits.length ≤ countWhile isDecimalDigit (digits ++ behind) :=
          length_le_countWhile (List.prefix_append digits behind) passes
        have positive := List.length_pos_iff.mpr filled
        have isLetter : (letter == 'e' || letter == 'E') = true := by simpa using marked
        rw [List.cons_append, List.append_assoc, exponentLength_cons, sign_eq, List.drop_left,
          if_pos ⟨isLetter, by omega⟩, List.length_cons, List.length_append]
        omega

theorem exists_behind_fraction {front back : List Char} (isFraction : IsFraction front)
    (starts : front ++ back <+: text) (shorter : front.length < fractionLength text) :
    ∀ character ∈ back.head?,
      isDigitOrUnderscore isDecimalDigit character = true ∨ character = '.' := by
  obtain ⟨behind, rfl⟩ := starts
  cases isFraction with
  | none =>
      cases back with
      | nil => simp
      | cons character back =>
          intro first member
          obtain rfl : character = first := by simpa using member
          by_cases point : character = '.'
          · exact .inr point
          · simp [fractionLength, point] at shorter
  | @point digits isWhole =>
      intro character member
      have starts : digits ++ back <+: digits ++ back ++ behind := List.prefix_append _ _
      refine .inl (exists_digit_behind isWhole.2 starts ?_ character member)
      rw [List.cons_append, List.cons_append, fractionLength] at shorter
      split at shorter
      next positive =>
        rw [digitRun, if_pos (digitRun_pos.mp positive)] at shorter
        exact Nat.lt_of_succ_lt_succ shorter
      next => exact absurd shorter (Nat.not_lt_zero _)

/-- Behind a whole number and a fraction that go on stands a digit, an underscore or a point. -/
theorem exists_behind_decimal (begins : startsWithChar isDecimalDigit text = true)
    {whole fraction back : List Char} (isWhole : IsWhole whole) (isFraction : IsFraction fraction)
    (starts : whole ++ (fraction ++ back) <+: text)
    (shorter : whole.length + fraction.length <
      digitRun text + fractionLength (text.drop (digitRun text))) :
    ∀ character ∈ back.head?,
      isDigitOrUnderscore isDecimalDigit character = true ∨ character = '.' := by
  have whole_le : whole.length ≤ digitRun text :=
    (isWhole_longest begins).longest whole ((List.prefix_append _ _).trans starts) isWhole
  rcases Nat.lt_or_eq_of_le whole_le with shorterWhole | whole_eq
  · rw [digitRun, if_pos begins] at shorterWhole
    have next := exists_digit_behind isWhole.2 starts shorterWhole
    cases isFraction with
    | none => exact fun character member => .inl (next character member)
    | point _ => exact absurd (next '.' rfl) (by decide)
  · rw [← whole_eq] at shorter
    obtain ⟨behind, rfl⟩ := starts
    refine exists_behind_fraction isFraction (List.prefix_append _ behind) ?_
    simpa using shorter

/-- The scanner of decimal numbers takes the longest one. -/
theorem isDecimal_longest (begins : startsWithChar isDecimalDigit text = true) {length : Nat}
    (scanned : decimalNumber text = some length) : IsLongest IsDecimal text length := by
  rw [decimalNumber, if_pos (digitRun_pos.mpr begins), Option.some.injEq] at scanned
  subst length
  have fraction := isFraction_longest (text.drop (digitRun text))
  have exponent := isExponent_longest
    (text.drop (digitRun text + fractionLength (text.drop (digitRun text))))
  refine ((isWhole_longest begins).joined fraction ?_).joined exponent ?_
  · intro whole fraction isWhole isFraction starts shorter
    rw [digitRun, if_pos begins] at shorter
    have next := exists_digit_behind isWhole.2 starts shorter
    cases isFraction with
    | none => rfl
    | point _ => exact absurd (next '.' rfl) (by decide)
  · rintro _ back ⟨whole, fraction, rfl, isWhole, isFraction⟩ isExponent starts shorter
    rw [List.append_assoc] at starts
    rw [List.length_append] at shorter
    have next := exists_behind_decimal begins isWhole isFraction starts shorter
    cases isExponent with
    | none => rfl
    | @letter letter sign digits marked _ _ _ =>
        have apart : ∀ letter ∈ ['e', 'E'],
            ¬ (isDigitOrUnderscore isDecimalDigit letter = true ∨ letter = '.') := by decide
        exact absurd (next letter rfl) (apart letter marked)

theorem decimalNumber_isSome :
    (decimalNumber text).isSome = startsWithChar isDecimalDigit text := by
  rw [decimalNumber]
  by_cases begins : startsWithChar isDecimalDigit text = true
  · simp [digitRun_pos.mpr begins, begins]
  · have zero : ¬ 0 < digitRun text := fun positive => begins (digitRun_pos.mp positive)
    simp [zero, begins]

theorem IsWhole.isDecimal {digits : List Char} (isWhole : IsWhole digits) : IsDecimal digits :=
  ⟨digits, [], (List.append_nil _).symm, ⟨digits, [], (List.append_nil _).symm, isWhole, .none⟩,
    .none⟩

theorem begins_zero (rest : List Char) : startsWithChar isDecimalDigit ('0' :: rest) = true :=
  show isDecimalDigit '0' = true by decide

theorem isWhole_zero : IsWhole ['0'] :=
  ⟨begins_zero [], by decide⟩

/-! ### Numerals behind a mark -/

theorem markedDigits?_eq_some {letter : Char} {isDigit : Char → Bool}
    (kind : markedDigits? letter = some isDigit) :
    (letter = 'x' ∨ letter = 'X') ∧ isDigit = (fun digit => (hexDigitValue? digit).isSome) ∨
      (letter = 'b' ∨ letter = 'B') ∧ isDigit = (fun digit => digit == '0' || digit == '1') ∨
      (letter = 'o' ∨ letter = 'O') ∧ isDigit = isOctalDigit := by
  unfold markedDigits? at kind
  split at kind
  · exact .inl ⟨‹_›, (Option.some.inj kind).symm⟩
  · split at kind
    · exact .inr (.inl ⟨‹_›, (Option.some.inj kind).symm⟩)
    · split at kind
      · exact .inr (.inr ⟨‹_›, (Option.some.inj kind).symm⟩)
      · cases kind

def markLetters : List Char := ['x', 'X', 'b', 'B', 'o', 'O']

theorem mem_markLetters {letter : Char} {isDigit : Char → Bool}
    (kind : markedDigits? letter = some isDigit) : letter ∈ markLetters := by
  rcases markedDigits?_eq_some kind with ⟨rfl | rfl, -⟩ | ⟨rfl | rfl, -⟩ | ⟨rfl | rfl, -⟩ <;> decide

theorem not_mem_markLetters {character : Char} (unmarked : markedDigits? character = none) :
    character ∉ markLetters := by
  intro member
  have all : ∀ letter ∈ markLetters, (markedDigits? letter).isSome = true := by decide
  have isSome := all character member
  rw [unmarked] at isSome
  cases isSome

theorem markLetters_apart : ∀ letter ∈ markLetters,
    isDigitOrUnderscore isDecimalDigit letter = false ∧
      isDigitOrUnderscore isOctalDigit letter = false ∧ letter ≠ '.' ∧
      (letter == 'e' || letter == 'E') = false := by
  decide

theorem decimalNumber_marked {letter : Char} (marked : letter ∈ markLetters) (rest : List Char) :
    decimalNumber ('0' :: letter :: rest) = some 1 := by
  obtain ⟨noDigit, -, noPoint, noExponent⟩ := markLetters_apart letter marked
  have zero : isDecimalDigit '0' = true := by decide
  have whole : digitRun ('0' :: letter :: rest) = 1 := by
    simp [digitRun, startsWithChar, countWhile_cons, isDigitOrUnderscore, zero,
      show (isDecimalDigit letter || letter == '_') = false from noDigit]
  have fraction : fractionLength (letter :: rest) = 0 := by simp [fractionLength, noPoint]
  have exponent : exponentLength (letter :: rest) = 0 := by simp [exponentLength_cons, noExponent]
  simp [decimalNumber, whole, fraction, exponent]

theorem isDecimal_marked {letter : Char} (marked : letter ∈ markLetters) (rest : List Char) :
    IsLongest IsDecimal ('0' :: letter :: rest) 1 :=
  isDecimal_longest (begins_zero _) (decimalNumber_marked marked rest)

/-- Behind a zero and a letter that announces digits a numeral goes on with such digits, or else it
is the zero alone. -/
theorem IsNumeral.of_mark {letter : Char} {isDigit : Char → Bool} {rest word : List Char}
    (kind : markedDigits? letter = some isDigit) (starts : word <+: '0' :: letter :: rest)
    (isNumeral : IsNumeral word) :
    word.length ≤ 1 ∨
      ∃ digits, word = '0' :: letter :: digits ∧ digits <+: rest ∧ AreDigits isDigit digits := by
  cases isNumeral with
  | @marked other isDigitToo digits kindToo filled =>
      obtain ⟨rfl, startsToo⟩ : other = letter ∧ digits <+: rest := by
        simpa [List.cons_prefix_cons] using starts
      rw [kind] at kindToo
      cases kindToo
      exact .inr ⟨digits, rfl, startsToo, filled⟩
  | @octal digits filled =>
      cases digits with
      | nil => exact absurd rfl filled.1
      | cons digit digits =>
          obtain ⟨rfl, -⟩ : digit = letter ∧ digits <+: rest := by
            simpa [List.cons_prefix_cons] using starts
          have octal := filled.2 digit List.mem_cons_self
          rw [(markLetters_apart digit (mem_markLetters kind)).2.1] at octal
          cases octal
  | decimal isDecimal =>
      exact .inl ((isDecimal_marked (mem_markLetters kind) rest).longest word starts isDecimal)

theorem longest_of_mark {letter : Char} {isDigit : Char → Bool}
    (kind : markedDigits? letter = some isDigit) (rest : List Char) :
    IsLongest IsNumeral ('0' :: letter :: rest)
      (if 0 < countWhile (isDigitOrUnderscore isDigit) rest then
        countWhile (isDigitOrUnderscore isDigit) rest + 2
      else 1) := by
  split
  next positive =>
    refine ⟨?_, ?_, ?_⟩
    · simpa using countWhile_le (isDigitOrUnderscore isDigit) rest
    · refine .marked kind ⟨?_, passes_of_mem_take_countWhile⟩
      refine List.ne_nil_of_length_pos ?_
      rw [List.length_take_of_le (countWhile_le _ _)]
      exact positive
    · intro word starts isNumeral
      rcases isNumeral.of_mark kind starts with short | ⟨digits, rfl, startsToo, filled⟩
      · omega
      · simpa using length_le_countWhile startsToo filled.2
  next zero =>
    refine ⟨by simp, .decimal isWhole_zero.isDecimal, ?_⟩
    intro word starts isNumeral
    rcases isNumeral.of_mark kind starts with short | ⟨digits, rfl, startsToo, filled⟩
    · exact short
    · have digits_le := length_le_countWhile startsToo filled.2
      have positive := List.length_pos_iff.mpr filled.1
      omega

/-! ### Numerals without a mark -/

theorem markedDigits?_eq_none {character : Char} {rest : List Char}
    (begins : startsWithChar (isDigitOrUnderscore isOctalDigit) (character :: rest) = true) :
    markedDigits? character = none := by
  rw [← Option.not_isSome_iff_eq_none, Option.isSome_iff_exists]
  rintro ⟨isDigit, kind⟩
  have apart := (markLetters_apart character (mem_markLetters kind)).2.1
  rw [show isDigitOrUnderscore isOctalDigit character = true from begins] at apart
  cases apart

theorem isDecimalDigit_of_isOctalDigit {digit : Char} (octal : isOctalDigit digit = true) :
    isDecimalDigit digit = true := by
  simp only [isOctalDigit, Bool.and_eq_true, decide_eq_true_eq] at octal
  have low : 48 ≤ digit.toNat := octal.1
  have high : digit.toNat ≤ 55 := octal.2
  have isDigit : digit.isDigit = true := by
    simp only [Char.isDigit, Bool.and_eq_true, decide_eq_true_eq]
    exact ⟨octal.1, Nat.le_trans high (by decide)⟩
  simp [isDecimalDigit, digitValue?, show digit.toNat < 0x80 by omega, isDigit]

theorem AreDigits.isWhole {digits : List Char} (filled : AreDigits isOctalDigit digits) :
    IsWhole ('0' :: digits) := by
  refine ⟨begins_zero digits, fun character member => ?_⟩
  rcases List.mem_cons.mp member with rfl | member
  · decide
  · have passes := filled.2 character member
    simp only [isDigitOrUnderscore, Bool.or_eq_true] at passes ⊢
    exact passes.imp_left isDecimalDigit_of_isOctalDigit

theorem unmarked_of_digits {rest : List Char}
    (begins : startsWithChar (isDigitOrUnderscore isOctalDigit) rest = true) :
    ∀ letter others, '0' :: rest = '0' :: letter :: others → markedDigits? letter = none := by
  intro letter others text_eq
  rw [List.cons.injEq] at text_eq
  exact markedDigits?_eq_none (text_eq.2 ▸ begins)

/-- Where no letter announces other digits, the longest numeral is a decimal one. -/
theorem longest_of_decimal (begins : startsWithChar isDecimalDigit text = true)
    (unmarked : ∀ letter rest, text = '0' :: letter :: rest → markedDigits? letter = none)
    {length : Nat} (scanned : decimalNumber text = some length) :
    IsLongest IsNumeral text length := by
  have decimal := isDecimal_longest begins scanned
  refine ⟨decimal.within, .decimal decimal.belongs, ?_⟩
  intro word starts isNumeral
  cases isNumeral with
  | @marked letter isDigit digits kind _ =>
      obtain ⟨behind, rfl⟩ := starts
      have none := unmarked letter (digits ++ behind) (by simp)
      rw [none] at kind
      cases kind
  | octal filled => exact decimal.longest _ starts filled.isWhole.isDecimal
  | decimal isDecimal => exact decimal.longest word starts isDecimal

/-! ### Octal numerals -/

theorem octalEnd_eq_some_iff {bound length : Nat} : octalEnd text bound = some length ↔
    0 < length ∧ length ≤ bound ∧ startsWithChar refutesOctal (text.drop length) = false ∧
      ∀ place, length < place → place ≤ bound →
        startsWithChar refutesOctal (text.drop place) = true := by
  induction bound with
  | zero =>
      simp only [octalEnd, reduceCtorEq, false_iff]
      rintro ⟨positive, within, -⟩
      omega
  | succ bound ih =>
      rw [octalEnd]
      split
      next refuted =>
        rw [ih]
        constructor
        · rintro ⟨positive, within, ends, later⟩
          refine ⟨positive, Nat.le_succ_of_le within, ends, fun place behind inside => ?_⟩
          rcases Nat.lt_or_eq_of_le inside with inside | rfl
          · exact later place behind (Nat.le_of_lt_succ inside)
          · exact refuted
        · rintro ⟨positive, within, ends, later⟩
          have apart : length ≠ bound + 1 := by
            rintro rfl
            rw [refuted] at ends
            cases ends
          exact ⟨positive, by omega, ends, fun place behind inside =>
            later place behind (Nat.le_succ_of_le inside)⟩
      next stands =>
        have ends := Bool.eq_false_iff.mpr stands
        constructor
        · rintro ⟨⟩
          exact ⟨Nat.succ_pos bound, Nat.le_refl _, ends, fun place behind inside => by omega⟩
        · rintro ⟨positive, within, -, later⟩
          rcases Nat.lt_or_eq_of_le within with shorter | rfl
          · rw [later (bound + 1) shorter (Nat.le_refl _)] at ends
            cases ends
          · rfl

theorem octalEnd_eq_none {bound : Nat} (refuted : ∀ place, 0 < place → place ≤ bound →
    startsWithChar refutesOctal (text.drop place) = true) : octalEnd text bound = none := by
  cases found : octalEnd text bound with
  | none => rfl
  | some length =>
      obtain ⟨positive, within, ends, -⟩ := octalEnd_eq_some_iff.mp found
      rw [refuted length positive within] at ends
      cases ends

/-- The octal digits at the start of a text, and what stands behind the last of them. -/
structure IsOctalRun (run behind : List Char) : Prop where
  filled : AreDigits isOctalDigit run
  stops : startsWithChar (isDigitOrUnderscore isOctalDigit) behind = false

/-- Behind octal digits without an underscore, and in front of each of them, stands what refutes an
octal number, if it does so behind the last one. -/
theorem refutes_drop {digits behind : List Char}
    (octal : ∀ digit ∈ digits, isOctalDigit digit = true)
    (refuted : startsWithChar refutesOctal behind = true) {place : Nat}
    (within : place ≤ digits.length) :
    startsWithChar refutesOctal ((digits ++ behind).drop place) = true := by
  rw [List.drop_append_of_le_length within]
  cases left : digits.drop place with
  | nil => exact refuted
  | cons digit others =>
      have member : digit ∈ digits := List.mem_of_mem_drop (left ▸ List.mem_cons_self)
      have decimal := isDecimalDigit_of_isOctalDigit (octal digit member)
      simp [startsWithChar, refutesOctal, decimal]

theorem isOctalDigit_of_ne {character : Char}
    (passes : isDigitOrUnderscore isOctalDigit character = true) (apart : character ≠ '_') :
    isOctalDigit character = true := by
  simpa [isDigitOrUnderscore, apart] using passes

namespace IsOctalRun

variable {run behind : List Char} (isRun : IsOctalRun run behind)

include isRun

theorem begins : startsWithChar (isDigitOrUnderscore isOctalDigit) (run ++ behind) = true := by
  obtain ⟨first, digits, rfl⟩ := List.exists_cons_of_ne_nil isRun.filled.1
  exact isRun.filled.2 first List.mem_cons_self

theorem countWhile_eq :
    countWhile (isDigitOrUnderscore isOctalDigit) (run ++ behind) = run.length := by
  rw [countWhile_append_of_passes isRun.filled.2, countWhile_eq_zero isRun.stops, Nat.add_zero]

theorem octalDigits_eq : octalDigits (run ++ behind) = octalEnd (run ++ behind) run.length := by
  rw [octalDigits, isRun.countWhile_eq]

theorem octalDigits_whole (stands : startsWithChar refutesOctal behind = false) :
    octalDigits (run ++ behind) = some run.length := by
  rw [isRun.octalDigits_eq, octalEnd_eq_some_iff]
  refine ⟨List.length_pos_iff.mpr isRun.filled.1, Nat.le_refl _, by simpa using stands, ?_⟩
  intro place later within
  omega

/-- Where an octal number is refuted behind its digits, it ends in front of the last underscore. -/
theorem octalDigits_underscore {front back : List Char} (run_eq : run = front ++ '_' :: back)
    (filled : front ≠ []) (last : '_' ∉ back)
    (refuted : startsWithChar refutesOctal behind = true) :
    octalDigits (run ++ behind) = some front.length := by
  have split_eq : run ++ behind = (front ++ ['_']) ++ (back ++ behind) := by simp [run_eq]
  have octal : ∀ digit ∈ back, isOctalDigit digit = true := by
    intro digit member
    refine isOctalDigit_of_ne (isRun.filled.2 digit (by simp [run_eq, member])) ?_
    rintro rfl
    exact last member
  rw [isRun.octalDigits_eq, octalEnd_eq_some_iff]
  refine ⟨List.length_pos_iff.mpr filled, by simp [run_eq], ?_, ?_⟩
  · rw [run_eq, List.append_assoc, List.drop_left]
    rfl
  · intro place later within
    have place_eq : place = (front ++ ['_']).length + (place - front.length - 1) := by
      rw [List.length_append, List.length_singleton]
      omega
    rw [split_eq, place_eq, List.drop_length_add_append]
    refine refutes_drop octal refuted ?_
    rw [run_eq, List.length_append, List.length_cons] at within
    omega

/-- Where an octal number without an underscore is refuted behind its digits, it is none. -/
theorem octalDigits_none (plain : '_' ∉ run.tail)
    (refuted : startsWithChar refutesOctal behind = true) : octalDigits (run ++ behind) = none := by
  obtain ⟨first, digits, rfl⟩ := List.exists_cons_of_ne_nil isRun.filled.1
  have octal : ∀ digit ∈ digits, isOctalDigit digit = true := by
    intro digit member
    refine isOctalDigit_of_ne (isRun.filled.2 digit (List.mem_cons_of_mem _ member)) ?_
    rintro rfl
    exact plain member
  rw [isRun.octalDigits_eq]
  refine octalEnd_eq_none fun place positive within => ?_
  obtain ⟨place, rfl⟩ := Nat.exists_eq_succ_of_ne_zero (Nat.ne_of_gt positive)
  exact refutes_drop octal refuted (Nat.le_of_succ_le_succ within)

end IsOctalRun

/-! ### The scanner of numbers -/

theorem number_eq (text : List Char) :
    number text =
      (markedNumber 'x' 'X' (fun digit => (hexDigitValue? digit).isSome) text).or
        ((markedNumber 'b' 'B' (fun digit => digit == '0' || digit == '1') text).or
          ((octalNumber text).or (decimalNumber text))) := by
  simp only [number, Option.orElse_eq_orElse, Option.orElse_eq_or]

/-- What may stand between the zero and the digits of an octal number. -/
def octalMarks : List (List Char) := [[], ['o'], ['O']]

/-- Where octal digits stand behind a zero and a mark, the octal form is tried before the decimal
one. -/
theorem number_zero {mark rest : List Char} (marked : mark ∈ octalMarks)
    (begins : startsWithChar (isDigitOrUnderscore isOctalDigit) rest = true) :
    number ('0' :: (mark ++ rest)) =
      ((octalDigits rest).map (· + (mark.length + 1))).or
        (decimalNumber ('0' :: (mark ++ rest))) := by
  simp only [octalMarks, List.mem_cons, List.not_mem_nil, or_false] at marked
  rcases marked with rfl | rfl | rfl
  · cases rest with
    | nil => cases begins
    | cons digit rest =>
        have unmarked := not_mem_markLetters (markedDigits?_eq_none begins)
        simp only [markLetters, List.mem_cons, List.not_mem_nil, or_false, not_or] at unmarked
        simp [number_eq, markedNumber, octalNumber, unmarked]
  · simp [number_eq, markedNumber, octalNumber]
  · simp [number_eq, markedNumber, octalNumber]

theorem octalDigits_eq_none
    (apart : startsWithChar (isDigitOrUnderscore isOctalDigit) text = false) :
    octalDigits text = none := by
  rw [octalDigits, countWhile_eq_zero apart]
  rfl

/-- Behind a letter that announces digits all of them are read, or the zero alone, unless the digits
are octal. -/
theorem number_marked {letter : Char} {isDigit : Char → Bool} {rest : List Char}
    (kind : markedDigits? letter = some isDigit)
    (noOctal : [letter] ∈ octalMarks →
      startsWithChar (isDigitOrUnderscore isOctalDigit) rest = false) :
    number ('0' :: letter :: rest) =
      some (if 0 < countWhile (isDigitOrUnderscore isDigit) rest then
        countWhile (isDigitOrUnderscore isDigit) rest + 2
      else 1) := by
  have marked := mem_markLetters kind
  have decimal := decimalNumber_marked marked rest
  have noDigits : octalDigits (letter :: rest) = none :=
    octalDigits_eq_none (markLetters_apart letter marked).2.1
  rcases markedDigits?_eq_some kind with ⟨rfl | rfl, rfl⟩ | ⟨rfl | rfl, rfl⟩ | ⟨rfl | rfl, rfl⟩
  case inr.inr.inl | inr.inr.inr =>
    have apart := noOctal (by decide)
    simp [number_eq, markedNumber, octalNumber, octalDigits_eq_none apart, decimal,
      countWhile_eq_zero apart]
  all_goals
    rw [number_eq]
    split <;> rename_i run <;> simp [markedNumber, octalNumber, noDigits, decimal, run]

/-- Where neither a letter nor octal digits stand behind a zero, a decimal number is read. -/
theorem number_decimal (plain : ∀ character rest, text = '0' :: character :: rest →
      markedDigits? character = none ∧ isDigitOrUnderscore isOctalDigit character = false) :
    number text = decimalNumber text := by
  rcases text with _ | ⟨zero, _ | ⟨character, rest⟩⟩
  · rfl
  · by_cases isZero : zero = '0'
    · subst isZero
      have noDigits : octalDigits [] = none := rfl
      simp [number_eq, markedNumber, octalNumber, noDigits]
    · simp [number_eq, markedNumber, octalNumber, isZero]
  · by_cases isZero : zero = '0'
    · subst isZero
      obtain ⟨unmarked, noOctal⟩ := plain character rest rfl
      have noDigits : octalDigits (character :: rest) = none := octalDigits_eq_none noOctal
      have apart := not_mem_markLetters unmarked
      simp only [markLetters, List.mem_cons, List.not_mem_nil, or_false, not_or] at apart
      simp [number_eq, markedNumber, octalNumber, noDigits, apart]
    · simp [number_eq, markedNumber, octalNumber, isZero]

/-! ### Whole octal numerals -/

theorem isNumeral_octal {mark run : List Char} (marked : mark ∈ octalMarks)
    (filled : AreDigits isOctalDigit run) : IsNumeral ('0' :: (mark ++ run)) := by
  simp only [octalMarks, List.mem_cons, List.not_mem_nil, or_false] at marked
  rcases marked with rfl | rfl | rfl
  · exact .octal filled
  · exact .marked rfl filled
  · exact .marked rfl filled

theorem decimalNumber_octal {run behind : List Char} (isRun : IsOctalRun run behind)
    (stands : startsWithChar refutesOctal behind = false) :
    decimalNumber ('0' :: (run ++ behind)) = some (run.length + 1) := by
  obtain ⟨digits, fraction, exponent⟩ :
      countWhile (isDigitOrUnderscore isDecimalDigit) behind = 0 ∧ fractionLength behind = 0 ∧
        exponentLength behind = 0 := by
    cases behind with
    | nil => exact ⟨rfl, rfl, rfl⟩
    | cons character rest =>
        have stops := isRun.stops
        simp only [startsWithChar, List.head?_cons, Option.any_some, refutesOctal,
          isDigitOrUnderscore, Bool.or_eq_false_iff, beq_eq_false_iff_ne, ne_eq] at stands stops
        simp [countWhile_cons, isDigitOrUnderscore, fractionLength, exponentLength_cons, stands,
          stops]
  have whole : digitRun ('0' :: (run ++ behind)) = run.length + 1 := by
    rw [digitRun, if_pos (begins_zero _), ← List.cons_append,
      countWhile_append_of_passes isRun.filled.isWhole.2, digits]
    rfl
  have left : ('0' :: (run ++ behind)).drop (run.length + 1) = behind := by simp
  simp [decimalNumber, whole, left, fraction, exponent]

/-- An octal numeral that nothing refutes is read up to its end, and is the longest. -/
theorem number_octal {mark run behind : List Char} (marked : mark ∈ octalMarks)
    (isRun : IsOctalRun run behind) (stands : startsWithChar refutesOctal behind = false) :
    number ('0' :: (mark ++ (run ++ behind))) = some (run.length + (mark.length + 1)) ∧
      IsLongest IsNumeral ('0' :: (mark ++ (run ++ behind))) (run.length + (mark.length + 1)) := by
  have scanned : number ('0' :: (mark ++ (run ++ behind))) =
      some (run.length + (mark.length + 1)) := by
    rw [number_zero marked isRun.begins, isRun.octalDigits_whole stands]
    rfl
  refine ⟨scanned, ?_⟩
  have count_eq := isRun.countWhile_eq
  have positive : 0 < run.length := List.length_pos_iff.mpr isRun.filled.1
  simp only [octalMarks, List.mem_cons, List.not_mem_nil, or_false] at marked
  rcases marked with rfl | rfl | rfl
  · exact longest_of_decimal (begins_zero _) (unmarked_of_digits isRun.begins)
      (decimalNumber_octal isRun stands)
  · have kind : markedDigits? 'o' = some isOctalDigit := rfl
    simpa [count_eq, positive] using longest_of_mark kind (run ++ behind)
  · have kind : markedDigits? 'O' = some isOctalDigit := rfl
    simpa [count_eq, positive] using longest_of_mark kind (run ++ behind)

/-! ### Octal numerals that are cut short -/

/-- Octal digits behind a zero that are not all read: a point, an exponent letter or a digit that is
not octal stands behind them, and a letter in front of them or an underscore among them keeps the
decimal form from being read instead. -/
structure IsCutShort (mark run behind : List Char) : Prop extends IsOctalRun run behind where
  refuted : startsWithChar refutesOctal behind = true
  kept : mark ∈ [['o'], ['O']] ∨ mark = [] ∧ '_' ∈ run.tail

theorem exists_last_underscore {run : List Char} (member : '_' ∈ run.tail) :
    ∃ front back, run = front ++ '_' :: back ∧ front ≠ [] ∧ '_' ∉ back := by
  cases run with
  | nil => simp at member
  | cons first digits =>
      obtain ⟨after, before, reverse_eq, last⟩ :=
        List.eq_append_cons_of_mem (List.mem_reverse.mpr member)
      have digits_eq : digits = before.reverse ++ '_' :: after.reverse := by
        rw [← List.reverse_reverse digits]
        simp only [List.tail_cons] at reverse_eq
        simp [reverse_eq]
      exact ⟨first :: before.reverse, after.reverse, by rw [digits_eq, List.cons_append],
        List.cons_ne_nil _ _, by simpa using last⟩

namespace IsCutShort

variable {mark run behind : List Char} (cut : IsCutShort mark run behind)

include cut

theorem marked : mark ∈ octalMarks := by
  rcases cut.kept with marked | ⟨rfl, -⟩
  · exact List.mem_cons_of_mem _ marked
  · exact List.mem_cons_self

/-- The number is read up to the last underscore among its digits. -/
theorem number_underscore {front back : List Char} (run_eq : run = front ++ '_' :: back)
    (filled : front ≠ []) (last : '_' ∉ back) :
    number ('0' :: (mark ++ (run ++ behind))) = some (front.length + (mark.length + 1)) := by
  rw [number_zero cut.marked cut.begins,
    cut.octalDigits_underscore run_eq filled last cut.refuted]
  rfl

/-- Without such an underscore the zero alone is read. -/
theorem number_plain (plain : '_' ∉ run.tail) :
    number ('0' :: (mark ++ (run ++ behind))) = some 1 := by
  rw [number_zero cut.marked cut.begins, cut.octalDigits_none plain cut.refuted]
  rcases cut.kept with marked | ⟨-, member⟩
  · simp only [List.mem_cons, List.not_mem_nil, or_false] at marked
    rcases marked with rfl | rfl
    · exact decimalNumber_marked (by decide) _
    · exact decimalNumber_marked (by decide) _
  · exact absurd member plain

/-- What is read is a numeral, but a shorter one than the octal numeral that stands there. -/
theorem exists_number : ∃ length, number ('0' :: (mark ++ (run ++ behind))) = some length ∧
    IsNumeral (('0' :: (mark ++ (run ++ behind))).take length) ∧
      length < run.length + (mark.length + 1) := by
  by_cases member : '_' ∈ run.tail
  · obtain ⟨front, back, run_eq, filled, last⟩ := exists_last_underscore member
    refine ⟨_, cut.number_underscore run_eq filled last, ?_, by simp [run_eq]⟩
    have split_eq : '0' :: (mark ++ (run ++ behind)) =
        ('0' :: (mark ++ front)) ++ ('_' :: back ++ behind) := by simp [run_eq]
    have length_eq : ('0' :: (mark ++ front)).length = front.length + (mark.length + 1) := by
      rw [List.length_cons, List.length_append, Nat.add_comm mark.length, Nat.add_assoc]
    rw [split_eq, ← length_eq, List.take_left]
    refine isNumeral_octal cut.marked ⟨filled, fun digit inside => cut.filled.2 digit ?_⟩
    simp [run_eq, inside]
  · refine ⟨1, cut.number_plain member, .decimal isWhole_zero.isDecimal, ?_⟩
    have positive := List.length_pos_iff.mpr cut.filled.1
    omega

end IsCutShort

/-! ### The longest numeral -/

theorem startsWithChar_append {test : Char → Bool} {word : List Char}
    (begins : startsWithChar test word = true) (behind : List Char) :
    startsWithChar test (word ++ behind) = true := by
  cases word with
  | nil => cases begins
  | cons character word => exact begins

theorem IsNumeral.begins {word : List Char} (isNumeral : IsNumeral word) :
    startsWithChar isDecimalDigit word = true := by
  cases isNumeral with
  | marked kind filled => exact begins_zero _
  | octal filled => exact begins_zero _
  | decimal isDecimal =>
      obtain ⟨_, exponent, rfl, ⟨whole, fraction, rfl, isWhole, -⟩, -⟩ := isDecimal
      exact startsWithChar_append (startsWithChar_append isWhole.1 _) _

theorem number_eq_none_of_not_begins (apart : startsWithChar isDecimalDigit text = false) :
    number text = none := by
  rw [number_decimal, ← Option.not_isSome_iff_eq_none, decimalNumber_isSome, apart]
  · exact Bool.false_ne_true
  · rintro character rest rfl
    rw [begins_zero] at apart
    cases apart

/-- Where octal digits stand, all of them are read and they are the longest numeral, or else they
are cut short. -/
theorem number_of_digits {mark : List Char} (marked : mark ∈ octalMarks) (rest : List Char)
    (begins : startsWithChar (isDigitOrUnderscore isOctalDigit) rest = true) :
    (∃ length, number ('0' :: (mark ++ rest)) = some length ∧
        IsLongest IsNumeral ('0' :: (mark ++ rest)) length) ∨
      ∃ run behind, rest = run ++ behind ∧ IsCutShort mark run behind := by
  obtain ⟨run, behind, rfl, passes, stops, count_eq⟩ :=
    exists_countWhile (isDigitOrUnderscore isOctalDigit) rest
  have filled : run ≠ [] := by
    rw [← List.length_pos_iff, ← count_eq]
    exact countWhile_pos.mpr begins
  have isRun : IsOctalRun run behind := ⟨⟨filled, passes⟩, stops⟩
  cases refuted : startsWithChar refutesOctal behind with
  | false => exact .inl ⟨_, number_octal marked isRun refuted⟩
  | true =>
      by_cases kept : mark ∈ [['o'], ['O']] ∨ mark = [] ∧ '_' ∈ run.tail
      · exact .inr ⟨run, behind, rfl, isRun, refuted, kept⟩
      · -- The octal form is given up, and a decimal number is read.
        rw [not_or, not_and] at kept
        obtain rfl : mark = [] := (List.mem_cons.mp marked).resolve_right kept.1
        have scanned := number_zero marked begins
        rw [isRun.octalDigits_none (kept.2 rfl) refuted, Option.map_none, Option.none_or] at scanned
        obtain ⟨length, decimal⟩ := Option.isSome_iff_exists.mp
          (decimalNumber_isSome.trans (begins_zero (run ++ behind)))
        exact .inl ⟨length, scanned.trans decimal,
          longest_of_decimal (begins_zero _) (unmarked_of_digits begins) decimal⟩

theorem number_of_plain (begins : startsWithChar isDecimalDigit text = true)
    (plain : ∀ character rest, text = '0' :: character :: rest →
      markedDigits? character = none ∧ isDigitOrUnderscore isOctalDigit character = false) :
    ∃ length, number text = some length ∧ IsLongest IsNumeral text length := by
  obtain ⟨length, decimal⟩ := Option.isSome_iff_exists.mp (decimalNumber_isSome.trans begins)
  exact ⟨length, (number_decimal plain).trans decimal, longest_of_decimal begins
    (fun letter rest text_eq => (plain letter rest text_eq).1) decimal⟩

/-- A digit begins the longest numeral, which is read, or octal digits that are cut short. -/
theorem number_cases (begins : startsWithChar isDecimalDigit text = true) :
    (∃ length, number text = some length ∧ IsLongest IsNumeral text length) ∨
      ∃ mark run behind, text = '0' :: (mark ++ (run ++ behind)) ∧
        IsCutShort mark run behind := by
  by_cases zero : ∃ character rest, text = '0' :: character :: rest ∧
      (markedDigits? character ≠ none ∨ isDigitOrUnderscore isOctalDigit character = true)
  · obtain ⟨character, rest, rfl, special⟩ := zero
    cases kind : markedDigits? character with
    | none =>
        have digits := special.resolve_left (not_not_intro kind)
        have marked : [] ∈ octalMarks := List.mem_cons_self
        rcases number_of_digits marked (character :: rest) digits with
          longest | ⟨run, behind, rest_eq, cut⟩
        · exact .inl longest
        · exact .inr ⟨[], run, behind, by rw [rest_eq, List.nil_append], cut⟩
    | some isDigit =>
        by_cases octal : [character] ∈ octalMarks ∧
            startsWithChar (isDigitOrUnderscore isOctalDigit) rest = true
        · rcases number_of_digits octal.1 rest octal.2 with longest | ⟨run, behind, rfl, cut⟩
          · exact .inl longest
          · exact .inr ⟨[character], run, behind, rfl, cut⟩
        · rw [not_and, Bool.not_eq_true] at octal
          exact .inl ⟨_, number_marked kind octal, longest_of_mark kind rest⟩
  · refine .inl (number_of_plain begins fun character rest text_eq => ?_)
    have plain : ¬ (markedDigits? character ≠ none ∨
        isDigitOrUnderscore isOctalDigit character = true) :=
      fun special => zero ⟨character, rest, text_eq, special⟩
    simpa using plain

/-- What is read is a numeral. -/
theorem number_isNumeral {length : Nat} (scanned : number text = some length) :
    IsNumeral (text.take length) := by
  cases begins : startsWithChar isDecimalDigit text with
  | false =>
      rw [number_eq_none_of_not_begins begins] at scanned
      cases scanned
  | true =>
      rcases number_cases begins with ⟨_, found, longest⟩ | ⟨mark, run, behind, rfl, cut⟩
      · rw [found] at scanned
        cases scanned
        exact longest.belongs
      · obtain ⟨_, found, isNumeral, -⟩ := cut.exists_number
        rw [found] at scanned
        cases scanned
        exact isNumeral

/-- A number is read exactly where a numeral stands. -/
theorem number_isSome_iff :
    (number text).isSome = true ↔ ∃ word, word <+: text ∧ IsNumeral word := by
  rw [Option.isSome_iff_exists]
  constructor
  · rintro ⟨length, scanned⟩
    exact ⟨_, List.take_prefix length text, number_isNumeral scanned⟩
  · rintro ⟨word, ⟨behind, rfl⟩, isNumeral⟩
    rcases number_cases (startsWithChar_append isNumeral.begins behind) with
      ⟨length, found, -⟩ | ⟨mark, run, _, text_eq, cut⟩
    · exact ⟨length, found⟩
    · obtain ⟨length, found, -⟩ := cut.exists_number
      exact ⟨length, text_eq ▸ found⟩

/-- The number that is read is the longest numeral, but for octal digits that are cut short. -/
theorem number_isLongest_iff :
    (∃ length, number text = some length ∧ IsLongest IsNumeral text length) ↔
      (∃ word, word <+: text ∧ IsNumeral word) ∧
        ¬ ∃ mark run behind, text = '0' :: (mark ++ (run ++ behind)) ∧
          IsCutShort mark run behind := by
  constructor
  · rintro ⟨length, scanned, longest⟩
    refine ⟨⟨_, List.take_prefix length text, longest.belongs⟩, ?_⟩
    rintro ⟨mark, run, behind, rfl, cut⟩
    obtain ⟨_, found, -, shorter⟩ := cut.exists_number
    rw [found] at scanned
    cases scanned
    have whole := longest.longest ('0' :: (mark ++ run)) (by simp)
      (isNumeral_octal cut.marked cut.filled)
    rw [List.length_cons, List.length_append] at whole
    omega
  · rintro ⟨⟨word, ⟨behind, rfl⟩, isNumeral⟩, notCut⟩
    exact (number_cases (startsWithChar_append isNumeral.begins behind)).resolve_right notCut

example : number "0o17.to_s".toList = some 1 := by decide

end Lexeme

end RubySyntax
