import RubySyntax.Proofs.WordBreaks

/-!
# Tokens in front of a break

The scanners of method names, variables, symbols, labels and numbers do not look
past a break either.  Only two ends of a text are in doubt: a semicolon behind a dollar
sign would name a global variable, and a closing bracket behind an opening one a method.
-/

namespace RubySyntax

namespace Lexeme

section

variable {behind : List Char}

theorem drop_append_of_startsWithChar {test : Char → Bool} {word : List Char}
    (starts : startsWithChar test word = true) :
    (word ++ behind).drop 1 = word.drop 1 ++ behind := by
  cases word with
  | nil => simp [startsWithChar] at starts
  | cons character word => rfl

/-! ### Method names -/

/-- Only an opening bracket could become an operator by a closing bracket behind it. -/
def KeepsBracketOpen (word behind : List Char) : Prop :=
  word = ['['] → behind.head? ≠ some ']'

theorem operatorMethods_solid : ∀ operator ∈ operatorMethods,
    IsSolid (operator.toList.filter (· != ']')) ∧
      (']' ∈ operator.toList → operator ∈ ["[]", "[]="]) := by
  decide

theorem isPrefixOf_append_operator (isBreak : IsBreak behind) {word : List Char}
    (apart : KeepsBracketOpen word behind) {operator : String}
    (member : operator ∈ operatorMethods) :
    operator.toList.isPrefixOf (word ++ behind) = operator.toList.isPrefixOf word := by
  obtain ⟨solid, indexing⟩ := operatorMethods_solid operator member
  cases isBreak with
  | ends => rw [List.append_nil]
  | @mark character separates rest =>
      by_cases inside : character ∈ operator.toList
      · -- the operator is one of the two with brackets, and the break is their closing one
        obtain rfl : character = ']' := by
          refine Decidable.byContradiction fun differs => ?_
          exact solid character separates (List.mem_filter.mpr ⟨inside, by simpa using differs⟩)
        have brackets : "[]".toList = ['[', ']'] ∧ "[]=".toList = ['[', ']', '='] := by decide
        have patterns := indexing inside
        simp only [List.mem_cons, List.not_mem_nil, or_false] at patterns
        rcases word with _ | ⟨first, _ | ⟨second, word⟩⟩
        · rcases patterns with rfl | rfl <;> simp [brackets, List.isPrefixOf]
        · have notOpening : first ≠ '[' := by
            rintro rfl
            exact apart rfl rfl
          rcases patterns with rfl | rfl <;> simp [brackets, List.isPrefixOf, notOpening.symm]
        · rcases patterns with rfl | rfl
          · simp [brackets, List.isPrefixOf]
          · cases word <;> simp [brackets, List.isPrefixOf]
      · exact isPrefixOf_append (by simpa using inside) word

theorem operatorMethod_append_break (isBreak : IsBreak behind) {word : List Char}
    (apart : KeepsBracketOpen word behind) :
    operatorMethod (word ++ behind) = operatorMethod word := by
  have each : ∀ operators ⊆ operatorMethods,
      (operators.find? fun operator => operator.toList.isPrefixOf (word ++ behind)) =
        operators.find? fun operator => operator.toList.isPrefixOf word := by
    intro operators members
    induction operators with
    | nil => rfl
    | cons operator operators ih =>
        rw [List.find?_cons, List.find?_cons,
          isPrefixOf_append_operator isBreak apart (members List.mem_cons_self),
          ih fun other member => members (List.mem_cons_of_mem _ member)]
  rw [operatorMethod, operatorMethod, each _ (List.Subset.refl _)]

theorem startsSetter_append_break (isBreak : IsBreak behind) (word : List Char) :
    startsSetter (word ++ behind) = startsSetter word := by
  have apart : ∀ character ∈ breakCharacters, character ≠ '=' ∧ character ≠ '(' := by decide
  rcases word with _ | ⟨first, _ | ⟨second, word⟩⟩
  · cases isBreak with
    | ends => rfl
    | @mark character member rest => simp [startsSetter, (apart character member).1]
  · cases isBreak with
    | ends => rfl
    | @mark character member rest => simp [startsSetter, (apart character member).2]
  · by_cases equals : first = '='
    · subst equals
      by_cases opening : second = '('
      · subst opening
        rfl
      · simp [startsSetter, opening]
    · simp [startsSetter, equals]

theorem methodName_append_break (isBreak : IsBreak behind) {word : List Char}
    (apart : KeepsBracketOpen word behind) : methodName (word ++ behind) = methodName word := by
  unfold methodName
  rw [name_stopsAtBreaks isBreak, operatorMethod_append_break isBreak apart]
  cases named : name word with
  | none => rfl
  | some stem =>
      simp only [List.drop_append_of_le_length (name_length_le named),
        startsWithMark_append_break isBreak, startsSetter_append_break isBreak]

/-! ### Variables, symbols and labels -/

theorem instanceVariable_stopsAtBreaks : StopsAtBreaks instanceVariable := by
  intro behind isBreak word
  have apart : ∀ character ∈ breakCharacters, character ≠ '@' := by decide
  rcases word with _ | ⟨first, _ | ⟨second, word⟩⟩
  · cases isBreak with
    | ends => rfl
    | @mark character member rest => simp [instanceVariable, apart character member]
  · by_cases sign : first = '@'
    · subst sign
      have unnamed := name_stopsAtBreaks isBreak []
      cases isBreak with
      | ends => rfl
      | @mark character member rest =>
          simp only [List.nil_append] at unnamed
          simp [instanceVariable, apart character member, unnamed]
    · simp [instanceVariable, sign]
  · by_cases sign : first = '@'
    · subst sign
      by_cases double : second = '@'
      · subst double
        simp [instanceVariable, name_stopsAtBreaks isBreak word]
      · have named := name_stopsAtBreaks isBreak (second :: word)
        simp only [List.cons_append] at named
        simp [instanceVariable, double, named]
    · simp [instanceVariable, sign]

/-- A dollar sign names no variable unless something stands behind it. -/
theorem globalVariable_append_break (isBreak : IsBreak behind) {word : List Char}
    (apart : word ≠ ['$']) : globalVariable (word ++ behind) = globalVariable word := by
  have marks : ∀ character ∈ breakCharacters, character ≠ '$' := by decide
  rcases word with _ | ⟨first, _ | ⟨second, word⟩⟩
  · cases isBreak with
    | ends => rfl
    | @mark character member rest => simp [globalVariable, marks character member]
  · have other : first ≠ '$' := fun sign => apart (by rw [sign])
    simp [globalVariable, other]
  · by_cases sign : first = '$'
    · subst sign
      have count : countWhile isWordCharacter (second :: (word ++ behind)) =
          countWhile isWordCharacter (second :: word) :=
        countWhile_append_break isBreak isWordCharacter_of_mem_breakCharacters (second :: word)
      simp [globalVariable, count, startsWithChar]
    · simp [globalVariable, sign]

theorem symbol_append_break (isBreak : IsBreak behind) {word : List Char}
    (apart : word ≠ [':', '$']) (bracket : ∀ name, word = ':' :: name → KeepsBracketOpen name behind) :
    symbol (word ++ behind) = symbol word := by
  have marks : ∀ character ∈ breakCharacters, character ≠ ':' := by decide
  cases word with
  | nil =>
      cases isBreak with
      | ends => rfl
      | @mark character member rest => simp [symbol, marks character member]
  | cons first word =>
      by_cases sign : first = ':'
      · subst sign
        have other : word ≠ ['$'] := fun dollar => apart (by rw [dollar])
        simp only [List.cons_append, symbol, instanceVariable_stopsAtBreaks isBreak word,
          methodName_append_break isBreak (bracket word rfl),
          globalVariable_append_break isBreak other]
      · simp [symbol, sign]

theorem startsLabelColon_append_break (isBreak : IsBreak behind) (word : List Char) :
    startsLabelColon (word ++ behind) = startsLabelColon word := by
  have marks : ∀ character ∈ breakCharacters, character ≠ ':' := by decide
  cases word with
  | nil =>
      cases isBreak with
      | ends => rfl
      | @mark character member rest => simp [startsLabelColon, marks character member]
  | cons first word =>
      by_cases sign : first = ':'
      · subst sign
        have second : startsWithChar (· == ':') (word ++ behind) = startsWithChar (· == ':') word :=
          startsWithChar_append_break isBreak (by decide) word
        simp only [List.cons_append, startsLabelColon, second]
      · simp [startsLabelColon, sign]

theorem label_stopsAtBreaks : StopsAtBreaks label := by
  intro behind isBreak word
  unfold label
  rw [name_stopsAtBreaks isBreak]
  cases named : name word with
  | none => rfl
  | some stem =>
      have within := name_length_le named
      have marked : startsWithChar (fun mark => mark == '?' || mark == '!')
          (word.drop stem ++ behind) =
            startsWithChar (fun mark => mark == '?' || mark == '!') (word.drop stem) :=
        startsWithChar_append_break isBreak (by decide) (word.drop stem)
      simp only [List.drop_append_of_le_length within, marked]
      split
      · rename_i marked
        have later : stem + 1 ≤ word.length := by
          have filled : word.drop stem ≠ [] := by
            intro ended
            rw [ended] at marked
            simp [startsWithChar] at marked
          have := List.length_pos_iff.mpr filled
          simp only [List.length_drop] at this
          omega
        rw [List.drop_append_of_le_length later, startsLabelColon_append_break isBreak]
      · rw [List.drop_append_of_le_length within, startsLabelColon_append_break isBreak]

/-! ### Numbers -/

theorem markedNumber_stopsAtBreaks {lower upper : Char} {isDigit : Char → Bool}
    (marks : ∀ character ∈ breakCharacters, character ≠ lower ∧ character ≠ upper)
    (digits : ∀ character ∈ breakCharacters, isDigitOrUnderscore isDigit character = false) :
    StopsAtBreaks (markedNumber lower upper isDigit) := by
  intro behind isBreak word
  have apart : ∀ character ∈ breakCharacters, character ≠ '0' := by decide
  rcases word with _ | ⟨first, _ | ⟨second, word⟩⟩
  · cases isBreak with
    | ends => rfl
    | @mark character member rest => simp [markedNumber, apart character member]
  · cases isBreak with
    | ends => rfl
    | @mark character member rest =>
        by_cases zero : first = '0'
        · subst zero
          simp [markedNumber, marks character member]
        · simp [markedNumber, zero]
  · by_cases zero : first = '0'
    · subst zero
      simp only [List.cons_append, markedNumber, countWhile_append_break isBreak digits]
    · simp [markedNumber, zero]

theorem octalEnd_append_break (isBreak : IsBreak behind) {word : List Char} {length : Nat}
    (within : length ≤ word.length) : octalEnd (word ++ behind) length = octalEnd word length := by
  induction length with
  | zero => rfl
  | succ length ih =>
      rw [octalEnd, octalEnd, List.drop_append_of_le_length within,
        startsWithChar_append_break isBreak (by decide), ih (by omega)]

theorem octalDigits_stopsAtBreaks : StopsAtBreaks octalDigits := by
  intro behind isBreak word
  rw [octalDigits, octalDigits, countWhile_append_break isBreak (by decide),
    octalEnd_append_break isBreak (countWhile_le _ word)]

theorem octalNumber_stopsAtBreaks : StopsAtBreaks octalNumber := by
  intro behind isBreak word
  have apart : ∀ character ∈ breakCharacters,
      character ≠ '0' ∧ character ≠ 'o' ∧ character ≠ 'O' := by decide
  rcases word with _ | ⟨first, _ | ⟨second, word⟩⟩
  · cases isBreak with
    | ends => rfl
    | @mark character member rest => simp [octalNumber, apart character member]
  · have digits := octalDigits_stopsAtBreaks isBreak []
    cases isBreak with
    | ends => rfl
    | @mark character member rest =>
        simp only [List.nil_append] at digits
        by_cases zero : first = '0'
        · subst zero
          simp [octalNumber, apart character member, digits]
        · simp [octalNumber, zero]
  · have digits := octalDigits_stopsAtBreaks isBreak word
    have more := octalDigits_stopsAtBreaks isBreak (second :: word)
    simp only [List.cons_append] at more
    by_cases zero : first = '0'
    · subst zero
      by_cases lower : second = 'o'
      · subst lower
        simp [octalNumber, digits]
      · by_cases upper : second = 'O'
        · subst upper
          simp [octalNumber, digits]
        · simp [octalNumber, lower, upper, more]
    · simp [octalNumber, zero]

theorem digitRun_append_break (isBreak : IsBreak behind) (word : List Char) :
    digitRun (word ++ behind) = digitRun word := by
  rw [digitRun, digitRun, startsWithChar_append_break isBreak (by decide),
    countWhile_append_break isBreak (by decide)]

theorem fractionLength_append_break (isBreak : IsBreak behind) (word : List Char) :
    fractionLength (word ++ behind) = fractionLength word := by
  have apart : ∀ character ∈ breakCharacters, character ≠ '.' := by decide
  cases word with
  | nil =>
      cases isBreak with
      | ends => rfl
      | @mark character member rest => simp [fractionLength, apart character member]
  | cons first word =>
      by_cases point : first = '.'
      · subst point
        simp only [List.cons_append, fractionLength, digitRun_append_break isBreak]
      · simp [fractionLength, point]

theorem exponentLength_append_break (isBreak : IsBreak behind) (word : List Char) :
    exponentLength (word ++ behind) = exponentLength word := by
  have apart : ∀ character ∈ breakCharacters,
      (character == 'e' || character == 'E') = false := by decide
  cases word with
  | nil =>
      cases isBreak with
      | ends => rfl
      | @mark character member rest => simp [exponentLength, apart character member]
  | cons letter word =>
      have signed : startsWithChar (fun mark => mark == '+' || mark == '-') (word ++ behind) =
          startsWithChar (fun mark => mark == '+' || mark == '-') word :=
        startsWithChar_append_break isBreak (by decide) word
      simp only [List.cons_append, exponentLength, signed]
      split
      · cases sign : startsWithChar (fun mark => mark == '+' || mark == '-') word with
        | true =>
            rw [if_pos rfl, drop_append_of_startsWithChar sign,
              countWhile_append_break isBreak (by decide)]
        | false =>
            have digits : countWhile isDecimalDigit (word ++ behind) = countWhile isDecimalDigit word :=
              countWhile_append_break isBreak (by decide) word
            simp only [Bool.false_eq_true, if_false, List.drop_zero, digits]
      · rfl

theorem decimalNumber_stopsAtBreaks : StopsAtBreaks decimalNumber := by
  intro behind isBreak word
  have whole_le : digitRun word ≤ word.length := (digitRun_cleanPrefix word).within
  have fraction_le := (fractionLength_cleanPrefix (word.drop (digitRun word))).within
  have both_le : digitRun word + fractionLength (word.drop (digitRun word)) ≤ word.length := by
    rw [List.length_drop] at fraction_le
    omega
  simp only [decimalNumber, digitRun_append_break isBreak,
    List.drop_append_of_le_length whole_le, fractionLength_append_break isBreak,
    List.drop_append_of_le_length both_le, exponentLength_append_break isBreak]

theorem number_stopsAtBreaks : StopsAtBreaks number := by
  intro behind isBreak word
  have hexadecimal : StopsAtBreaks
      (markedNumber 'x' 'X' fun digit => (hexDigitValue? digit).isSome) :=
    markedNumber_stopsAtBreaks (by decide) (by decide)
  have binary : StopsAtBreaks (markedNumber 'b' 'B' fun digit => digit == '0' || digit == '1') :=
    markedNumber_stopsAtBreaks (by decide) (by decide)
  simp only [number, hexadecimal isBreak word, binary isBreak word,
    octalNumber_stopsAtBreaks isBreak word, decimalNumber_stopsAtBreaks isBreak word]

end

end Lexeme

end RubySyntax
