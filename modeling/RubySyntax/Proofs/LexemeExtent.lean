import RubySyntax.Terminal

/-!
# Extents of lexemes

A scanner answers a number of characters.  This file shows for each scanner of
the language that the number stays within the text, that no lexeme but a
regular expression holds a number sign, and which characters a lexeme cannot
begin with.  These facts tie what the grammar reads to the characters of the
source.
-/

namespace RubySyntax

/-! ### Runs of characters -/

theorem countWhile_le (test : Char → Bool) (text : List Char) :
    countWhile test text ≤ text.length :=
  (List.takeWhile_sublist test).length_le

theorem take_countWhile (test : Char → Bool) (text : List Char) :
    text.take (countWhile test text) = text.takeWhile test :=
  (List.prefix_iff_eq_take.mp (List.takeWhile_prefix test)).symm

theorem countWhile_cons (test : Char → Bool) (character : Char) (rest : List Char) :
    countWhile test (character :: rest) =
      if test character then countWhile test rest + 1 else 0 := by
  by_cases passes : test character <;> simp [countWhile, passes]

/-- Every character of a run passes the test. -/
theorem test_of_lt_countWhile {test : Char → Bool} {text : List Char} {index : Nat}
    (inside : index < countWhile test text) :
    ∃ character, text[index]? = some character ∧ test character = true := by
  induction text generalizing index with
  | nil => simp [countWhile] at inside
  | cons character rest ih =>
      rw [countWhile_cons] at inside
      by_cases passes : test character = true
      · cases index with
        | zero => exact ⟨character, rfl, passes⟩
        | succ index =>
            simp only [passes, if_true] at inside
            simpa using ih (by omega)
      · simp [passes] at inside

theorem test_countWhile {test : Char → Bool} {text : List Char} {character : Char}
    (behind : text[countWhile test text]? = some character) : test character = false := by
  induction text with
  | nil => simp at behind
  | cons first rest ih =>
      rw [countWhile_cons] at behind
      by_cases passes : test first = true
      · simp only [passes, if_true, List.getElem?_cons_succ] at behind
        exact ih behind
      · simp only [passes, Bool.false_eq_true, if_false, List.getElem?_cons_zero,
          Option.some.injEq] at behind
        subst first
        simpa using passes

theorem startsWithChar_drop_countWhile (test : Char → Bool) (text : List Char) :
    startsWithChar test (text.drop (countWhile test text)) = false := by
  induction text with
  | nil => rfl
  | cons character text ih =>
      rw [countWhile_cons]
      split
      · exact ih
      · rename_i fails
        simpa [startsWithChar] using fails

/-- A text begins with characters of a kind, behind which others stand. -/
theorem exists_countWhile (test : Char → Bool) (text : List Char) :
    ∃ lead rest, text = lead ++ rest ∧ (∀ character ∈ lead, test character = true) ∧
      startsWithChar test rest = false ∧ countWhile test text = lead.length := by
  refine ⟨text.takeWhile test, text.drop (countWhile test text), ?_,
    List.all_eq_true.mp List.all_takeWhile, startsWithChar_drop_countWhile _ text, rfl⟩
  rw [← take_countWhile]
  exact (List.take_append_drop _ text).symm

theorem countWhile_append_of_passes {test : Char → Bool} {word : List Char}
    (passes : ∀ character ∈ word, test character = true) (behind : List Char) :
    countWhile test (word ++ behind) = word.length + countWhile test behind := by
  rw [countWhile, List.takeWhile_append_of_pos passes, List.length_append, countWhile]

theorem length_le_countWhile {test : Char → Bool} {word text : List Char} (starts : word <+: text)
    (passes : ∀ character ∈ word, test character = true) :
    word.length ≤ countWhile test text := by
  obtain ⟨behind, rfl⟩ := starts
  rw [countWhile_append_of_passes passes]
  exact Nat.le_add_right _ _

theorem passes_of_mem_take_countWhile {test : Char → Bool} {text : List Char} :
    ∀ character ∈ text.take (countWhile test text), test character = true := by
  rw [take_countWhile]
  exact List.all_eq_true.mp List.all_takeWhile

theorem countWhile_pos {test : Char → Bool} {text : List Char} :
    0 < countWhile test text ↔ startsWithChar test text = true := by
  cases text with
  | nil => simp [countWhile, startsWithChar]
  | cons character rest => by_cases passes : test character <;>
      simp [countWhile_cons, startsWithChar, passes]

theorem countWhile_eq_zero {test : Char → Bool} {text : List Char}
    (apart : startsWithChar test text = false) : countWhile test text = 0 := by
  rw [← Bool.not_eq_true, ← countWhile_pos] at apart
  omega

/-- A number of characters at the start of a text that holds as many, none of them a
number sign. -/
structure CleanPrefix (text : List Char) (length : Nat) : Prop where
  within : length ≤ text.length
  clean : '#' ∉ text.take length

namespace CleanPrefix

@[simp]
theorem zero (text : List Char) : CleanPrefix text 0 :=
  ⟨Nat.zero_le _, by simp⟩

theorem cons {character : Char} {rest : List Char} {length : Nat} (clean : character ≠ '#')
    (tail : CleanPrefix rest length) : CleanPrefix (character :: rest) (length + 1) := by
  refine ⟨Nat.succ_le_succ tail.within, ?_⟩
  rw [List.take_succ_cons, List.mem_cons, not_or]
  exact ⟨clean.symm, tail.clean⟩

theorem add {text : List Char} {first second : Nat} (front : CleanPrefix text first)
    (back : CleanPrefix (text.drop first) second) : CleanPrefix text (first + second) := by
  refine ⟨?_, ?_⟩
  · have frontWithin := front.within
    have backWithin := back.within
    simp only [List.length_drop] at backWithin
    omega
  · rw [List.take_add, List.mem_append, not_or]
    exact ⟨front.clean, back.clean⟩

theorem ofCountWhile {test : Char → Bool} (excludes : test '#' = false) (text : List Char) :
    CleanPrefix text (countWhile test text) := by
  refine ⟨countWhile_le test text, ?_⟩
  rw [take_countWhile]
  intro member
  have passes := List.all_eq_true.mp List.all_takeWhile _ member
  simp [excludes] at passes

theorem one {text : List Char} {test : Char → Bool} (excludes : test '#' = false)
    (starts : startsWithChar test text = true) : CleanPrefix text 1 := by
  cases text with
  | nil => simp [startsWithChar] at starts
  | cons character rest =>
      have passes : test character = true := by simpa [startsWithChar] using starts
      refine cons ?_ (zero rest)
      rintro rfl
      rw [excludes] at passes
      cases passes

end CleanPrefix

/-- A prefix of a text lies at its start, so the text begins with its characters. -/
theorem CleanPrefix.ofSpelling {word : String} {text : List Char}
    (begins : word.toList.isPrefixOf text = true) (clean : '#' ∉ word.toList) :
    CleanPrefix text word.length := by
  have isPrefix := List.isPrefixOf_iff_prefix.mp begins
  have length_eq : word.length = word.toList.length := String.length_toList.symm
  refine ⟨length_eq ▸ isPrefix.length_le, ?_⟩
  rw [length_eq, ← List.prefix_iff_eq_take.mp isPrefix]
  exact clean

namespace Lexeme

/-- The characters that no operand begins with: separators and closing parentheses. -/
def delimiters : List Char :=
  [';', ',', ')']

/-- A scanner of operands: what it reads is not empty, lies within the text and does not
begin with a delimiter. -/
structure ReadsOperand (scanner : Scanner) : Prop where
  pos : ∀ {text length}, scanner text = some length → 0 < length
  within : ∀ {text length}, scanner text = some length → length ≤ text.length
  begins : ∀ {text length}, scanner text = some length →
    ∃ character rest, text = character :: rest ∧ character ∉ delimiters

def AvoidsNumberSign (scanner : Scanner) : Prop :=
  ∀ {text length}, scanner text = some length → '#' ∉ text.take length

/-! ### Names -/

theorem name_eq_some {text : List Char} {length : Nat} (scanned : name text = some length) :
    ∃ character rest, text = character :: rest ∧ isNameStart character = true ∧
      length = countWhile isWordCharacter rest + 1 := by
  cases text with
  | nil => simp [name] at scanned
  | cons character rest =>
      by_cases starts : isNameStart character = true
      · simp only [name, starts, if_true, Option.some.injEq] at scanned
        exact ⟨character, rest, rfl, starts, scanned.symm⟩
      · simp [name, starts] at scanned

theorem name_cleanPrefix {text : List Char} {length : Nat} (scanned : name text = some length) :
    CleanPrefix text length := by
  obtain ⟨character, rest, rfl, starts, rfl⟩ := name_eq_some scanned
  refine .cons ?_ (.ofCountWhile (by decide) rest)
  rintro rfl
  simp [isNameStart] at starts

private theorem not_mem_delimiters {test : Char → Bool}
    (excludes : delimiters.all (fun delimiter => !test delimiter) = true) {character : Char}
    (passes : test character = true) : character ∉ delimiters := by
  intro member
  have := List.all_eq_true.mp excludes character member
  simp [passes] at this

theorem name_begins {text : List Char} {length : Nat} (scanned : name text = some length) :
    ∃ character rest, text = character :: rest ∧ character ∉ delimiters := by
  obtain ⟨character, rest, rfl, starts, -⟩ := name_eq_some scanned
  exact ⟨character, rest, rfl, not_mem_delimiters (by decide) starts⟩

private theorem mark_cleanPrefix {text : List Char} (marked : startsWithMark text = true) :
    CleanPrefix text 1 := by
  cases text with
  | nil => simp [startsWithMark] at marked
  | cons character rest =>
      refine .cons ?_ (.zero rest)
      rintro rfl
      simp [startsWithMark] at marked

theorem identifier_eq_some {text : List Char} {length : Nat}
    (scanned : identifier text = some length) :
    startsReserved text = false ∧ ∃ stem, name text = some stem ∧
      length = if startsWithMark (text.drop stem) then stem + 1 else stem := by
  unfold identifier at scanned
  split at scanned
  · simp at scanned
  · rename_i free
    obtain ⟨stem, named, rfl⟩ := Option.map_eq_some_iff.mp scanned
    exact ⟨by simpa using free, stem, named, rfl⟩

theorem identifier_cleanPrefix {text : List Char} {length : Nat}
    (scanned : identifier text = some length) : CleanPrefix text length := by
  obtain ⟨-, stem, named, rfl⟩ := identifier_eq_some scanned
  split
  · rename_i marked
    exact (name_cleanPrefix named).add (mark_cleanPrefix marked)
  · exact name_cleanPrefix named

theorem identifier_readsOperand : ReadsOperand identifier where
  pos scanned := by
    obtain ⟨-, stem, named, rfl⟩ := identifier_eq_some scanned
    obtain ⟨character, rest, rfl, -, rfl⟩ := name_eq_some named
    split <;> omega
  within scanned := (identifier_cleanPrefix scanned).within
  begins scanned := by
    obtain ⟨-, stem, named, -⟩ := identifier_eq_some scanned
    exact name_begins named

theorem identifier_avoidsNumberSign : AvoidsNumberSign identifier :=
  fun scanned => (identifier_cleanPrefix scanned).clean

/-- Whether a text begins with a character that is no delimiter. -/
def startsOperand (text : List Char) : Bool :=
  startsWithChar (fun character => !delimiters.contains character) text

theorem startsOperand_eq_true {text : List Char} (starts : startsOperand text = true) :
    ∃ character rest, text = character :: rest ∧ character ∉ delimiters := by
  cases text with
  | nil => simp [startsOperand, startsWithChar] at starts
  | cons character rest =>
      refine ⟨character, rest, rfl, ?_⟩
      simpa [startsOperand, startsWithChar] using starts

private theorem operatorMethods_clean :
    ∀ operator ∈ operatorMethods, '#' ∉ operator.toList ∧
      startsOperand operator.toList = true := by
  decide

private theorem operatorMethod_eq_some {text : List Char} {length : Nat}
    (scanned : operatorMethod text = some length) :
    ∃ operator ∈ operatorMethods, operator.toList.isPrefixOf text = true ∧
      length = operator.length := by
  obtain ⟨operator, found, rfl⟩ := Option.map_eq_some_iff.mp scanned
  exact ⟨operator, List.mem_of_find?_eq_some found,
    List.find?_some (p := fun word : String => word.toList.isPrefixOf text) found, rfl⟩

private theorem setter_cleanPrefix {text : List Char} (setter : startsSetter text = true) :
    CleanPrefix text 1 := by
  unfold startsSetter at setter
  split at setter
  · exact .cons (by decide) (.zero _)
  · simp at setter

theorem methodName_cleanPrefix {text : List Char} {length : Nat}
    (scanned : methodName text = some length) : CleanPrefix text length := by
  unfold methodName at scanned
  split at scanned
  · rename_i stem named
    simp only [Option.some.injEq] at scanned
    subst scanned
    split
    · rename_i marked
      refine (name_cleanPrefix named).add ?_
      rcases Bool.or_eq_true_iff.mp marked with mark | setter
      · exact mark_cleanPrefix mark
      · exact setter_cleanPrefix setter
    · exact name_cleanPrefix named
  · obtain ⟨operator, member, begins, rfl⟩ := operatorMethod_eq_some scanned
    exact .ofSpelling begins (operatorMethods_clean operator member).1

private theorem begins_of_isPrefixOf {word : String} {text : List Char}
    (begins : word.toList.isPrefixOf text = true)
    (starts : startsOperand word.toList = true) :
    ∃ character rest, text = character :: rest ∧ character ∉ delimiters := by
  obtain ⟨character, rest, spelled, free⟩ := startsOperand_eq_true starts
  obtain ⟨back, rfl⟩ := List.isPrefixOf_iff_prefix.mp begins
  exact ⟨character, rest ++ back, by rw [spelled]; rfl, free⟩

theorem methodName_readsOperand : ReadsOperand methodName where
  pos scanned := by
    unfold methodName at scanned
    split at scanned
    · rename_i stem named
      obtain ⟨character, rest, rfl, -, rfl⟩ := name_eq_some named
      simp only [Option.some.injEq] at scanned
      split at scanned <;> omega
    · obtain ⟨operator, member, -, rfl⟩ := operatorMethod_eq_some scanned
      obtain ⟨character, rest, spelled, -⟩ :=
        startsOperand_eq_true (operatorMethods_clean operator member).2
      rw [← String.length_toList, spelled]
      simp
  within scanned := (methodName_cleanPrefix scanned).within
  begins scanned := by
    unfold methodName at scanned
    split at scanned
    · rename_i stem named
      exact name_begins named
    · obtain ⟨operator, member, begins, -⟩ := operatorMethod_eq_some scanned
      exact begins_of_isPrefixOf begins (operatorMethods_clean operator member).2

theorem methodName_avoidsNumberSign : AvoidsNumberSign methodName :=
  fun scanned => (methodName_cleanPrefix scanned).clean

/-! ### Variables and symbols -/

theorem globalVariable_eq_some {text : List Char} {length : Nat}
    (scanned : globalVariable text = some length) :
    ∃ rest extent, text = '$' :: rest ∧ length = extent + 1 ∧ 0 < extent ∧
      CleanPrefix rest extent := by
  unfold globalVariable at scanned
  split at scanned
  · rename_i rest
    simp only at scanned
    split at scanned
    · rename_i positive
      simp only [Option.some.injEq] at scanned
      exact ⟨rest, _, rfl, scanned.symm, positive, .ofCountWhile (by decide) rest⟩
    · split at scanned
      · rename_i starts
        simp only [Option.some.injEq] at scanned
        exact ⟨rest, 1, rfl, scanned.symm, Nat.one_pos, .one (by decide) starts⟩
      · simp at scanned
  · simp at scanned

theorem globalVariable_cleanPrefix {text : List Char} {length : Nat}
    (scanned : globalVariable text = some length) : CleanPrefix text length := by
  obtain ⟨rest, extent, rfl, rfl, -, clean⟩ := globalVariable_eq_some scanned
  exact .cons (by decide) clean

theorem globalVariable_readsOperand : ReadsOperand globalVariable where
  pos scanned := by
    obtain ⟨rest, extent, rfl, rfl, positive, -⟩ := globalVariable_eq_some scanned
    omega
  within scanned := (globalVariable_cleanPrefix scanned).within
  begins scanned := by
    obtain ⟨rest, extent, rfl, -⟩ := globalVariable_eq_some scanned
    exact ⟨'$', rest, rfl, by decide⟩

theorem globalVariable_avoidsNumberSign : AvoidsNumberSign globalVariable :=
  fun scanned => (globalVariable_cleanPrefix scanned).clean

theorem instanceVariable_eq_some {text : List Char} {length : Nat}
    (scanned : instanceVariable text = some length) :
    ∃ rest extent, text = '@' :: rest ∧ length = extent + 1 ∧ CleanPrefix rest extent := by
  unfold instanceVariable at scanned
  split at scanned
  · rename_i rest
    obtain ⟨extent, named, rfl⟩ := Option.map_eq_some_iff.mp scanned
    exact ⟨'@' :: rest, extent + 1, rfl, rfl, .cons (by decide) (name_cleanPrefix named)⟩
  · obtain ⟨extent, named, rfl⟩ := Option.map_eq_some_iff.mp scanned
    exact ⟨_, extent, rfl, rfl, name_cleanPrefix named⟩
  · simp at scanned

theorem instanceVariable_cleanPrefix {text : List Char} {length : Nat}
    (scanned : instanceVariable text = some length) : CleanPrefix text length := by
  obtain ⟨rest, extent, rfl, rfl, clean⟩ := instanceVariable_eq_some scanned
  exact .cons (by decide) clean

theorem instanceVariable_readsOperand : ReadsOperand instanceVariable where
  pos scanned := by
    obtain ⟨rest, extent, rfl, rfl, -⟩ := instanceVariable_eq_some scanned
    omega
  within scanned := (instanceVariable_cleanPrefix scanned).within
  begins scanned := by
    obtain ⟨rest, extent, rfl, -⟩ := instanceVariable_eq_some scanned
    exact ⟨'@', rest, rfl, by decide⟩

theorem instanceVariable_avoidsNumberSign : AvoidsNumberSign instanceVariable :=
  fun scanned => (instanceVariable_cleanPrefix scanned).clean

theorem symbol_eq_some {text : List Char} {length : Nat} (scanned : symbol text = some length) :
    ∃ rest extent, text = ':' :: rest ∧ length = extent + 1 ∧ CleanPrefix rest extent := by
  unfold symbol at scanned
  split at scanned
  · rename_i rest
    obtain ⟨extent, named, rfl⟩ := Option.map_eq_some_iff.mp scanned
    refine ⟨rest, extent, rfl, rfl, ?_⟩
    simp only [Option.orElse_eq_orElse, Option.orElse_eq_or, Option.or_eq_some_iff] at named
    rcases named with globalFound | ⟨-, instanceFound | ⟨-, method⟩⟩
    · exact globalVariable_cleanPrefix globalFound
    · exact instanceVariable_cleanPrefix instanceFound
    · exact methodName_cleanPrefix method
  · simp at scanned

theorem symbol_cleanPrefix {text : List Char} {length : Nat}
    (scanned : symbol text = some length) : CleanPrefix text length := by
  obtain ⟨rest, extent, rfl, rfl, clean⟩ := symbol_eq_some scanned
  exact .cons (by decide) clean

theorem symbol_readsOperand : ReadsOperand symbol where
  pos scanned := by
    obtain ⟨rest, extent, rfl, rfl, -⟩ := symbol_eq_some scanned
    omega
  within scanned := (symbol_cleanPrefix scanned).within
  begins scanned := by
    obtain ⟨rest, extent, rfl, -⟩ := symbol_eq_some scanned
    exact ⟨':', rest, rfl, by decide⟩

theorem symbol_avoidsNumberSign : AvoidsNumberSign symbol :=
  fun scanned => (symbol_cleanPrefix scanned).clean

/-! ### Numbers -/

private theorem markedNumber_eq_some {lower upper : Char} {isDigit : Char → Bool}
    {text : List Char} {length : Nat}
    (scanned : markedNumber lower upper isDigit text = some length) :
    ∃ letter rest, text = '0' :: letter :: rest ∧ (letter = lower ∨ letter = upper) ∧
      length = countWhile (isDigitOrUnderscore isDigit) rest + 2 := by
  unfold markedNumber at scanned
  split at scanned
  · rename_i letter rest
    simp only at scanned
    split at scanned
    · rename_i marked
      simp only [Bool.and_eq_true, Bool.or_eq_true, beq_iff_eq] at marked
      simp only [Option.some.injEq] at scanned
      exact ⟨letter, rest, rfl, marked.1, scanned.symm⟩
    · simp at scanned
  · simp at scanned

private theorem octalEnd_le {text : List Char} {bound length : Nat}
    (ends : octalEnd text bound = some length) : 0 < length ∧ length ≤ bound := by
  induction bound with
  | zero => simp [octalEnd] at ends
  | succ bound ih =>
      unfold octalEnd at ends
      split at ends
      · have := ih ends
        omega
      · simp only [Option.some.injEq] at ends
        omega

private theorem octalDigits_cleanPrefix {text : List Char} {length : Nat}
    (scanned : octalDigits text = some length) : CleanPrefix text length := by
  obtain ⟨-, bound⟩ := octalEnd_le scanned
  have whole : CleanPrefix text (countWhile (isDigitOrUnderscore isOctalDigit) text) :=
    .ofCountWhile (by decide) text
  refine ⟨Nat.le_trans bound whole.within, fun member => whole.clean ?_⟩
  exact (List.take_prefix_take_left bound).subset member

private theorem octalNumber_eq_some {text : List Char} {length : Nat}
    (scanned : octalNumber text = some length) :
    ∃ rest, text = '0' :: rest ∧ 0 < length ∧ CleanPrefix text length := by
  unfold octalNumber at scanned
  split at scanned
  · obtain ⟨digits, scannedDigits, rfl⟩ := Option.map_eq_some_iff.mp scanned
    exact ⟨_, rfl, by omega,
      .cons (by decide) (.cons (by decide) (octalDigits_cleanPrefix scannedDigits))⟩
  · obtain ⟨digits, scannedDigits, rfl⟩ := Option.map_eq_some_iff.mp scanned
    exact ⟨_, rfl, by omega,
      .cons (by decide) (.cons (by decide) (octalDigits_cleanPrefix scannedDigits))⟩
  · obtain ⟨digits, scannedDigits, rfl⟩ := Option.map_eq_some_iff.mp scanned
    exact ⟨_, rfl, by omega, .cons (by decide) (octalDigits_cleanPrefix scannedDigits)⟩
  · simp at scanned

theorem digitRun_cleanPrefix (text : List Char) : CleanPrefix text (digitRun text) := by
  unfold digitRun
  split
  · exact .ofCountWhile (by decide) text
  · exact .zero text

theorem fractionLength_cleanPrefix (text : List Char) :
    CleanPrefix text (fractionLength text) := by
  unfold fractionLength
  split
  · split
    · exact .cons (by decide) (digitRun_cleanPrefix _)
    · exact .zero _
  · exact .zero text

private theorem sign_cleanPrefix (text : List Char) :
    CleanPrefix text
      (if startsWithChar (fun mark => mark == '+' || mark == '-') text then 1 else 0) := by
  split
  · rename_i signed
    exact .one (by decide) signed
  · exact .zero text

theorem exponentLength_cleanPrefix (text : List Char) :
    CleanPrefix text (exponentLength text) := by
  cases text with
  | nil => exact .zero []
  | cons letter rest =>
      rw [exponentLength]
      split
      · rename_i marked
        have letterClean : letter ≠ '#' := by
          rintro rfl
          simp at marked
        generalize signLength : (if startsWithChar _ rest = true then 1 else 0) = sign
        have signClean : CleanPrefix rest sign := signLength ▸ sign_cleanPrefix rest
        dsimp only
        split
        · rw [Nat.add_comm 1 sign, Nat.add_right_comm]
          exact .cons letterClean (signClean.add (.ofCountWhile (by decide) _))
        · exact .zero _
      · exact .zero _

private theorem decimalNumber_eq_some {text : List Char} {length : Nat}
    (scanned : decimalNumber text = some length) :
    0 < length ∧ startsWithChar isDecimalDigit text = true ∧ CleanPrefix text length := by
  unfold decimalNumber at scanned
  dsimp only at scanned
  split at scanned
  · rename_i positive
    simp only [Option.some.injEq] at scanned
    subst scanned
    refine ⟨by omega, ?_, ?_⟩
    · unfold digitRun at positive
      split at positive
      · assumption
      · simp at positive
    · exact ((digitRun_cleanPrefix text).add (fractionLength_cleanPrefix _)).add
        (exponentLength_cleanPrefix _)
  · simp at scanned

private theorem markedNumber_cleanPrefix {lower upper : Char} {isDigit : Char → Bool}
    (excludes : isDigitOrUnderscore isDigit '#' = false) (lowerClean : lower ≠ '#')
    (upperClean : upper ≠ '#') {text : List Char} {length : Nat}
    (scanned : markedNumber lower upper isDigit text = some length) :
    (∃ rest, text = '0' :: rest) ∧ 0 < length ∧ CleanPrefix text length := by
  obtain ⟨letter, rest, rfl, marked, rfl⟩ := markedNumber_eq_some scanned
  refine ⟨⟨letter :: rest, rfl⟩, by omega,
    .cons (by decide) (.cons ?_ (.ofCountWhile excludes rest))⟩
  rintro rfl
  rcases marked with rfl | rfl
  · exact lowerClean rfl
  · exact upperClean rfl

private theorem zero_begins {text : List Char} (begins : ∃ rest, text = '0' :: rest) :
    startsOperand text = true := by
  obtain ⟨rest, rfl⟩ := begins
  rfl

theorem number_eq_some {text : List Char} {length : Nat} (scanned : number text = some length) :
    0 < length ∧ startsOperand text = true ∧ CleanPrefix text length := by
  simp only [number, Option.orElse_eq_orElse, Option.orElse_eq_or, Option.or_eq_some_iff]
    at scanned
  rcases scanned with hexadecimal | ⟨-, binary | ⟨-, octal | ⟨-, decimal⟩⟩⟩
  · obtain ⟨begins, positive, clean⟩ :=
      markedNumber_cleanPrefix (by decide) (by decide) (by decide) hexadecimal
    exact ⟨positive, zero_begins begins, clean⟩
  · obtain ⟨begins, positive, clean⟩ :=
      markedNumber_cleanPrefix (by decide) (by decide) (by decide) binary
    exact ⟨positive, zero_begins begins, clean⟩
  · obtain ⟨rest, begins, positive, clean⟩ := octalNumber_eq_some octal
    exact ⟨positive, zero_begins ⟨rest, begins⟩, clean⟩
  · obtain ⟨positive, starts, clean⟩ := decimalNumber_eq_some decimal
    refine ⟨positive, ?_, clean⟩
    cases text with
    | nil => simp [startsWithChar] at starts
    | cons character rest =>
        have digit : isDecimalDigit character = true := by simpa [startsWithChar] using starts
        simpa [startsOperand, startsWithChar] using not_mem_delimiters (by decide) digit

theorem number_readsOperand : ReadsOperand number where
  pos scanned := (number_eq_some scanned).1
  within scanned := (number_eq_some scanned).2.2.within
  begins scanned := startsOperand_eq_true (number_eq_some scanned).2.1

theorem number_avoidsNumberSign : AvoidsNumberSign number :=
  fun scanned => (number_eq_some scanned).2.2.clean

/-! ### Regular expressions -/

/-- A regular expression ends within the text, whatever follows it. -/
theorem regexpBody_take {text : List Char} {length : Nat}
    (scanned : regexpBody text = some length) :
    length ≤ text.length ∧ regexpBody (text.take length) = some length := by
  fun_induction regexpBody text generalizing length with
  | case1 => simp at scanned
  | case2 rest =>
      cases scanned
      exact ⟨by simp, rfl⟩
  | case3 => simp at scanned
  | case4 escaped rest noFeed ih =>
      obtain ⟨inner, innerScanned, rfl⟩ := Option.map_eq_some_iff.mp scanned
      obtain ⟨within, again⟩ := ih innerScanned
      refine ⟨by simpa using within, ?_⟩
      rw [List.take_succ_cons, List.take_succ_cons, regexpBody.eq_4 _ _ noFeed, again]
      rfl
  | case5 => simp at scanned
  | case6 => simp at scanned
  | case7 character rest noSlash noEscapedFeed noEscape noLoneEscape noFeed ih =>
      obtain ⟨inner, innerScanned, rfl⟩ := Option.map_eq_some_iff.mp scanned
      obtain ⟨within, again⟩ := ih innerScanned
      have plain : character ≠ '\\' := by
        intro escape
        cases rest with
        | nil => exact noLoneEscape escape rfl
        | cons escaped others => exact noEscape escaped others escape rfl
      refine ⟨by simpa using within, ?_⟩
      rw [List.take_succ_cons, regexpBody.eq_7 _ _ noSlash
        (fun _ escape _ => plain escape) (fun _ _ escape _ => plain escape)
        (fun escape _ => plain escape) noFeed, again]
      rfl

theorem regexp_eq_some {text : List Char} {length : Nat} (scanned : regexp text = some length) :
    ∃ rest inner, text = '/' :: rest ∧ regexpBody rest = some inner ∧ length = inner + 1 := by
  unfold regexp at scanned
  split at scanned
  · obtain ⟨inner, innerScanned, rfl⟩ := Option.map_eq_some_iff.mp scanned
    exact ⟨_, inner, rfl, innerScanned, rfl⟩
  · simp at scanned

/-- A regular expression is one by itself. -/
theorem regexp_take {text : List Char} {length : Nat} (scanned : regexp text = some length) :
    regexp (text.take length) = some length := by
  obtain ⟨rest, inner, rfl, innerScanned, rfl⟩ := regexp_eq_some scanned
  rw [List.take_succ_cons, regexp, (regexpBody_take innerScanned).2]
  rfl

theorem regexp_readsOperand : ReadsOperand regexp where
  pos scanned := by
    obtain ⟨rest, inner, rfl, innerScanned, rfl⟩ := regexp_eq_some scanned
    omega
  within scanned := by
    obtain ⟨rest, inner, rfl, innerScanned, rfl⟩ := regexp_eq_some scanned
    exact Nat.succ_le_succ (regexpBody_take innerScanned).1
  begins scanned := by
    obtain ⟨rest, inner, rfl, -⟩ := regexp_eq_some scanned
    exact ⟨'/', rest, rfl, by decide⟩

/-! ### Labels -/

private theorem startsLabelColon_eq_true {text : List Char}
    (colon : startsLabelColon text = true) : ∃ rest, text = ':' :: rest := by
  unfold startsLabelColon at colon
  split at colon
  · exact ⟨_, rfl⟩
  · simp at colon

/-- A label is a name with an optional mark, and a colon. -/
theorem label_eq_some {text : List Char} {length : Nat} (scanned : label text = some length) :
    ∃ stem rest, length = stem + 1 ∧ 0 < stem ∧ CleanPrefix text stem ∧
      text.drop stem = ':' :: rest ∧ startsOperand text = true := by
  unfold label at scanned
  split at scanned
  · simp at scanned
  · rename_i nameLength named
    obtain ⟨character, rest, begins, free⟩ := name_begins named
    have nameClean := name_cleanPrefix named
    have positive : 0 < nameLength := by
      obtain ⟨_, _, -, -, rfl⟩ := name_eq_some named
      omega
    have starts : startsOperand text = true := by
      rw [begins]
      simpa [startsOperand, startsWithChar] using free
    dsimp only at scanned
    generalize stemLength : (if startsWithChar _ (text.drop nameLength) = true
      then nameLength + 1 else nameLength) = stem at scanned
    have stemClean : CleanPrefix text stem := by
      rw [← stemLength]
      split
      · rename_i marked
        exact nameClean.add (.one (by decide) marked)
      · exact nameClean
    have stemPositive : 0 < stem := by
      rw [← stemLength]
      split <;> omega
    split at scanned
    · rename_i colon
      simp only [Option.some.injEq] at scanned
      obtain ⟨back, behind⟩ := startsLabelColon_eq_true colon
      exact ⟨stem, back, scanned.symm, stemPositive, stemClean, behind, starts⟩
    · simp at scanned

theorem label_within {text : List Char} {length : Nat} (scanned : label text = some length) :
    length ≤ text.length := by
  obtain ⟨stem, rest, rfl, -, -, behind, -⟩ := label_eq_some scanned
  have := congrArg List.length behind
  simp only [List.length_drop, List.length_cons] at this
  omega

/-! ### Fixed spellings -/

theorem spelling_eq_some {word : String} {text : List Char} {length : Nat}
    (scanned : spelling word text = some length) :
    word.toList <+: text ∧ length = word.length := by
  unfold spelling at scanned
  split at scanned
  · rename_i fits
    simp only [Bool.and_eq_true] at fits
    simp only [Option.some.injEq] at scanned
    exact ⟨List.isPrefixOf_iff_prefix.mp fits.1, scanned.symm⟩
  · simp at scanned

theorem punctuation_eq_some {symbol excluded : String} {text : List Char} {length : Nat}
    (scanned : punctuation symbol excluded text = some length) :
    symbol.toList <+: text ∧ length = symbol.length := by
  unfold punctuation at scanned
  split at scanned
  · rename_i fits
    simp only [Bool.and_eq_true] at fits
    simp only [Option.some.injEq] at scanned
    exact ⟨List.isPrefixOf_iff_prefix.mp fits.1, scanned.symm⟩
  · simp at scanned

theorem spelling_within {word : String} {text : List Char} {length : Nat}
    (scanned : spelling word text = some length) : length ≤ text.length := by
  obtain ⟨begins, rfl⟩ := spelling_eq_some scanned
  exact String.length_toList ▸ begins.length_le

theorem punctuation_within {symbol excluded : String} {text : List Char} {length : Nat}
    (scanned : punctuation symbol excluded text = some length) : length ≤ text.length := by
  obtain ⟨begins, rfl⟩ := punctuation_eq_some scanned
  exact String.length_toList ▸ begins.length_le

theorem mem_insertLongest {word other : String} {spellings : List String} :
    word ∈ insertLongest other spellings ↔ word = other ∨ word ∈ spellings := by
  induction spellings with
  | nil => simp [insertLongest]
  | cons first others ih =>
      rw [insertLongest]
      split
      · exact List.mem_cons
      · rw [List.mem_cons, ih, List.mem_cons]
        exact or_left_comm

@[simp]
theorem mem_longestFirst {word : String} {spellings : List String} :
    word ∈ longestFirst spellings ↔ word ∈ spellings := by
  induction spellings with
  | nil => rfl
  | cons first others ih =>
      rw [longestFirst, List.foldr_cons, mem_insertLongest, List.mem_cons]
      exact or_congr_right ih

/-- One of several spellings is read as it is spelled. -/
theorem oneOf_eq_some {spellings : List String} {text : List Char} {length : Nat}
    (nonempty : spellings ≠ []) (scanned : oneOf spellings text = some length) :
    ∃ word ∈ spellings, word.toList <+: text ∧ length = word.length := by
  unfold oneOf at scanned
  split at scanned
  · rename_i empty
    exact (nonempty (List.isEmpty_iff.mp empty)).elim
  · obtain ⟨word, member, spelled⟩ := List.exists_of_findSome?_eq_some scanned
    obtain ⟨begins, rfl⟩ := spelling_eq_some spelled
    exact ⟨word, mem_longestFirst.mp member, begins, rfl⟩

theorem oneOf_within {spellings : List String} (present : spellings ≠ []) {text : List Char}
    {length : Nat} (scanned : oneOf spellings text = some length) : length ≤ text.length := by
  obtain ⟨word, -, begins, rfl⟩ := oneOf_eq_some present scanned
  exact String.length_toList ▸ begins.length_le

/-! ### Breaks and skips -/

/-- A break between statements holds blanks and semicolons only. -/
theorem separator_eq_some {text : List Char} {length : Nat}
    (scanned : separator text = some length) :
    length ≤ text.length ∧ ∀ character ∈ text.take length, isGap character = true := by
  unfold separator at scanned
  split at scanned
  · simp at scanned
  · rename_i character rest
    split at scanned
    · rename_i breaks
      simp only [Option.some.injEq] at scanned
      subst scanned
      refine ⟨Nat.succ_le_succ (countWhile_le _ rest), ?_⟩
      intro member memberMem
      rw [List.take_succ_cons, take_countWhile, List.mem_cons] at memberMem
      rcases memberMem with rfl | inside
      · rcases Bool.or_eq_true_iff.mp breaks with semicolon | feed
        · simp [isGap, semicolon]
        · rw [beq_iff_eq.mp feed]
          decide
      · exact List.all_eq_true.mp List.all_takeWhile member inside
    · split at scanned
      · simp only [Option.some.injEq] at scanned
        subst scanned
        simp
      · simp at scanned

end Lexeme

end RubySyntax
