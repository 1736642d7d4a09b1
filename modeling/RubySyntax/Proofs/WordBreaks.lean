import RubySyntax.Proofs.LexemeExtent

/-!
# Words in front of a break

Most scanners do not look past a blank, a comma, a semicolon or a closing bracket: in
front of one they answer what they answer for the word alone.  What they answer for the
words of the language is then a finite table, and what they answer for a name follows
from its first character.
-/

namespace RubySyntax

/-- Characters that only separate or close, and the sign of a comment: most scanners do not look
past one. -/
def breakCharacters : List Char :=
  blankCodePoints.map Char.ofNat ++ [';', ',', ')', ']', '\x7d', '#']

theorem mem_breakCharacters_of_isBlank {character : Char} (blank : isBlank character = true) :
    character ∈ breakCharacters := by
  rw [isBlank, List.contains_iff_mem] at blank
  refine List.mem_append_left _ (List.mem_map.mpr ⟨_, blank, ?_⟩)
  exact Char.ofNat_toNat character

/-- No word goes on with a character that separates or closes. -/
theorem isWordCharacter_of_mem_breakCharacters :
    ∀ character ∈ breakCharacters, isWordCharacter character = false := by
  decide +kernel

/-- What may stand behind a word: nothing, or a character that separates, closes or starts a
comment. -/
inductive IsBreak : List Char → Prop
  | ends : IsBreak []
  | mark {character : Char} (member : character ∈ breakCharacters) (rest : List Char) :
      IsBreak (character :: rest)

theorem IsBreak.blank (rest : List Char) : IsBreak (' ' :: rest) :=
  .mark (by decide) rest

/-- A word without characters that separate, close or start a comment. -/
abbrev IsSolid (word : List Char) : Prop :=
  ∀ character ∈ breakCharacters, character ∉ word

/-- A visible character of ASCII that neither separates nor closes nor starts a comment. -/
def isSolidCharacter (character : Char) : Bool :=
  '!' ≤ character && character ≤ '~' &&
    !([';', ',', ')', ']', '\x7d', '#'].contains character)

theorem isSolid_of_all {word : List Char} (solid : word.all isSolidCharacter = true) :
    IsSolid word := by
  have separates : ∀ character ∈ breakCharacters, isSolidCharacter character = false := by decide
  intro character member inside
  have known := List.all_eq_true.mp solid character inside
  rw [separates character member] at known
  cases known

theorem IsBreak.not_mem {behind : List Char} (isBreak : IsBreak behind) {word : List Char}
    (solid : IsSolid word) : ∀ character ∈ behind.head?, character ∉ word := by
  cases isBreak with
  | ends => simp
  | mark member rest => simpa using solid _ member

section

variable {behind : List Char}

theorem startsWithChar_append_break (isBreak : IsBreak behind) {test : Char → Bool}
    (excludes : ∀ character ∈ breakCharacters, test character = false) (word : List Char) :
    startsWithChar test (word ++ behind) = startsWithChar test word := by
  cases word with
  | nil =>
      cases isBreak with
      | ends => rfl
      | mark member rest => simp [startsWithChar, excludes _ member]
  | cons character word => rfl

theorem countWhile_append_break (isBreak : IsBreak behind) {test : Char → Bool}
    (excludes : ∀ character ∈ breakCharacters, test character = false) (word : List Char) :
    countWhile test (word ++ behind) = countWhile test word := by
  induction word with
  | nil =>
      cases isBreak with
      | ends => rfl
      | mark member rest => simp [countWhile, excludes _ member]
  | cons character word ih =>
      rw [List.cons_append, countWhile_cons, countWhile_cons, ih]

/-- A pattern is looked for in front of what it does not contain. -/
theorem isPrefixOf_append {pattern : List Char}
    (apart : ∀ character ∈ behind.head?, character ∉ pattern) (word : List Char) :
    pattern.isPrefixOf (word ++ behind) = pattern.isPrefixOf word := by
  induction pattern generalizing word with
  | nil => rfl
  | cons first pattern ih =>
      have apartToo : ∀ character ∈ behind.head?, character ≠ first ∧ character ∉ pattern :=
        fun character member => by simpa [not_or] using apart character member
      cases word with
      | nil =>
          cases behind with
          | nil => rfl
          | cons character behind =>
              simp [List.isPrefixOf, Ne.symm (apartToo character (by simp)).1]
      | cons character word =>
          simp [List.isPrefixOf, ih fun character member => (apartToo character member).2]

theorem isPrefixOf_append_break (isBreak : IsBreak behind) {pattern : List Char}
    (solid : IsSolid pattern) (word : List Char) :
    pattern.isPrefixOf (word ++ behind) = pattern.isPrefixOf word :=
  isPrefixOf_append (isBreak.not_mem solid) word

theorem length_le_of_isPrefixOf {pattern word : List Char}
    (begins : pattern.isPrefixOf word = true) : pattern.length ≤ word.length :=
  (List.isPrefixOf_iff_prefix.mp begins).length_le

end

namespace Lexeme

/-- A scanner that does not look past a word in front of the given text. -/
def StopsAt (behind : List Char) (scanner : Scanner) : Prop :=
  ∀ word, scanner (word ++ behind) = scanner word

/-- A scanner that does not look past a break behind a word. -/
def StopsAtBreaks (scanner : Scanner) : Prop :=
  ∀ ⦃behind⦄, IsBreak behind → StopsAt behind scanner

theorem continuesWord_of_mem_breakCharacters :
    ∀ character ∈ breakCharacters, continuesWord character = false := by
  have marks : ∀ character ∈ breakCharacters, character ≠ '?' ∧ character ≠ '!' := by decide
  intro character member
  simp [continuesWord, isWordCharacter_of_mem_breakCharacters character member,
    marks character member]

theorem spelling_stopsAtBreaks {pattern : String} (solid : IsSolid pattern.toList) :
    StopsAtBreaks (spelling pattern) := by
  intro behind isBreak word
  unfold spelling
  rw [isPrefixOf_append_break isBreak solid]
  cases begins : pattern.toList.isPrefixOf word with
  | false => rfl
  | true =>
      have within := length_le_of_isPrefixOf begins
      rw [String.length_toList] at within
      rw [List.drop_append_of_le_length within, isWordEnd,
        startsWithChar_append_break isBreak continuesWord_of_mem_breakCharacters, ← isWordEnd]

/-- A symbol is looked for in front of what neither it nor its exclusions contain. -/
theorem punctuation_stopsAt {symbol excluded : String} {behind : List Char}
    (apart : ∀ character ∈ behind.head?, character ∉ symbol.toList ∧ character ∉ excluded.toList) :
    StopsAt behind (punctuation symbol excluded) := by
  intro word
  have kept : ∀ word : List Char, startsWithChar excluded.toList.contains (word ++ behind) =
      startsWithChar excluded.toList.contains word := by
    intro word
    cases word with
    | nil =>
        cases behind with
        | nil => rfl
        | cons character behind => simp [startsWithChar, (apart character (by simp)).2]
    | cons character word => rfl
  unfold punctuation
  rw [isPrefixOf_append fun character member => (apart character member).1]
  cases begins : symbol.toList.isPrefixOf word with
  | false => rfl
  | true =>
      have within := length_le_of_isPrefixOf begins
      rw [String.length_toList] at within
      rw [List.drop_append_of_le_length within, kept]

theorem punctuation_stopsAtBreaks {symbol excluded : String}
    (solid : IsSolid symbol.toList ∧ IsSolid excluded.toList) :
    StopsAtBreaks (punctuation symbol excluded) := fun _ isBreak =>
  punctuation_stopsAt fun character member =>
    ⟨isBreak.not_mem solid.1 character member, isBreak.not_mem solid.2 character member⟩

theorem oneOf_stopsAtBreaks {spellings : List String}
    (solid : ∀ word ∈ spellings, IsSolid word.toList) : StopsAtBreaks (oneOf spellings) := by
  intro behind isBreak word
  have each : ∀ patterns : List String, (∀ pattern ∈ patterns, IsSolid pattern.toList) →
      (patterns.findSome? fun pattern => spelling pattern (word ++ behind)) =
        patterns.findSome? fun pattern => spelling pattern word := by
    intro patterns solidHere
    induction patterns with
    | nil => rfl
    | cons pattern patterns ih =>
        rw [List.findSome?_cons, List.findSome?_cons,
          spelling_stopsAtBreaks (solidHere pattern List.mem_cons_self) isBreak,
          ih fun other member => solidHere other (List.mem_cons_of_mem _ member)]
  unfold oneOf
  rw [each _ fun pattern member => solid pattern (mem_longestFirst.mp member)]

theorem name_stopsAtBreaks : StopsAtBreaks name := by
  intro behind isBreak word
  cases word with
  | nil =>
      cases isBreak with
      | ends => rfl
      | mark member rest =>
          have starts : ∀ character ∈ breakCharacters, isNameStart character = false := by decide
          simp [name, starts _ member]
  | cons character word =>
      rw [List.cons_append, name, name,
        countWhile_append_break isBreak isWordCharacter_of_mem_breakCharacters]

theorem name_length_le {word : List Char} {stem : Nat} (named : name word = some stem) :
    stem ≤ word.length :=
  (name_cleanPrefix named).within

theorem startsWithMark_append_break {behind : List Char} (isBreak : IsBreak behind)
    (word : List Char) : startsWithMark (word ++ behind) = startsWithMark word := by
  cases word with
  | nil =>
      cases isBreak with
      | ends => rfl
      | mark member rest =>
          have marks : ∀ character ∈ breakCharacters,
              (character == '?' || character == '!') = false := by decide
          simp [startsWithMark, marks _ member]
  | cons character word =>
      rw [List.cons_append, startsWithMark, startsWithMark,
        startsWithChar_append_break isBreak (by decide)]

theorem reservedWords_solid : ∀ word ∈ reservedWords, IsSolid word.toList := by
  have each : ∀ word ∈ reservedWords, word.toList.all isSolidCharacter = true := by decide
  exact fun word member => isSolid_of_all (each word member)

theorem startsReserved_append_break {behind : List Char} (isBreak : IsBreak behind)
    (word : List Char) : startsReserved (word ++ behind) = startsReserved word := by
  have each : ∀ patterns : List String, (∀ pattern ∈ patterns, IsSolid pattern.toList) →
      (patterns.any fun pattern => (spelling pattern (word ++ behind)).isSome) =
        patterns.any fun pattern => (spelling pattern word).isSome := by
    intro patterns solidHere
    induction patterns with
    | nil => rfl
    | cons pattern patterns ih =>
        rw [List.any_cons, List.any_cons,
          spelling_stopsAtBreaks (solidHere pattern List.mem_cons_self) isBreak,
          ih fun other member => solidHere other (List.mem_cons_of_mem _ member)]
  rw [startsReserved, startsReserved, each _ reservedWords_solid,
    isPrefixOf_append_break isBreak (by decide)]

theorem identifier_stopsAtBreaks : StopsAtBreaks identifier := by
  intro behind isBreak word
  unfold identifier
  rw [startsReserved_append_break isBreak, name_stopsAtBreaks isBreak]
  cases named : name word with
  | none => rfl
  | some stem =>
      rw [Option.map_some, Option.map_some,
        List.drop_append_of_le_length (name_length_le named),
        startsWithMark_append_break isBreak]

theorem label_eq_none {word behind : List Char} (isBreak : IsBreak behind)
    (named : name word = some word.length) : label (word ++ behind) = none := by
  unfold label
  rw [name_stopsAtBreaks isBreak, named]
  cases isBreak with
  | ends => simp [startsWithChar, startsLabelColon]
  | @mark character member rest =>
      have marks : ∀ character ∈ breakCharacters,
          (character == '?' || character == '!') = false ∧ character ≠ ':' := by decide
      simp [startsWithChar, startsLabelColon, marks character member]

theorem isBlank_of_isHorizontal {character : Char}
    (horizontal : isHorizontal character = true) : isBlank character = true := by
  simp only [isHorizontal, Bool.or_eq_true, beq_iff_eq] at horizontal
  rcases horizontal with ((rfl | rfl) | rfl) | rfl <;> decide

/-! ### Scanners that no name begins -/

private theorem isNameStart_bounds {character : Char} (starts : isNameStart character = true) :
    65 ≤ character.toNat ∧ character.toNat ≤ 90 ∨ character.toNat = 95 ∨
      97 ≤ character.toNat ∧ character.toNat ≤ 122 := by
  simp only [isNameStart, Bool.or_eq_true, beq_iff_eq] at starts
  rcases starts with letter | rfl
  · have ranges : (decide (65 ≤ character.val ∧ character.val ≤ 90) ||
        decide (97 ≤ character.val) && decide (character.val ≤ 122)) = true := letter
    simp only [Bool.or_eq_true, Bool.and_eq_true, decide_eq_true_eq] at ranges
    rcases ranges with ⟨low, high⟩ | ⟨low, high⟩
    · exact Or.inl ⟨low, high⟩
    · exact Or.inr (Or.inr ⟨low, high⟩)
  · exact Or.inr (Or.inl rfl)

/-- The first character of a name is neither blank nor any of the marks of other tokens. -/
theorem isBlank_of_isNameStart {character : Char} (starts : isNameStart character = true) :
    isBlank character = false := by
  have bounds := isNameStart_bounds starts
  have apart : ∀ point ∈ blankCodePoints, point < 65 ∨ 122 < point := by decide
  rw [isBlank, ← Bool.not_eq_true, List.contains_iff_mem]
  intro member
  have := apart _ member
  omega

theorem isDecimalDigit_of_isNameStart {character : Char} (starts : isNameStart character = true) :
    isDecimalDigit character = false := by
  have bounds := isNameStart_bounds starts
  have small : character.toNat < 0x80 := by omega
  have noDigit : character.isDigit = false := by
    rw [← Bool.not_eq_true]
    intro digit
    simp only [Char.isDigit, Bool.and_eq_true, decide_eq_true_eq] at digit
    have high : character.toNat ≤ 57 := digit.2
    omega
  simp [isDecimalDigit, digitValue?, small, noDigit]

theorem ne_of_isNameStart {character mark : Char} (starts : isNameStart character = true)
    (excludes : isNameStart mark = false) : character ≠ mark := by
  rintro rfl
  rw [starts] at excludes
  cases excludes

section

variable {character : Char} (starts : isNameStart character = true) (rest : List Char)

include starts

theorem number_eq_none : number (character :: rest) = none := by
  have notZero : character ≠ '0' := ne_of_isNameStart starts (by decide)
  have noDigit := isDecimalDigit_of_isNameStart starts
  have whole : digitRun (character :: rest) = 0 := by
    simp [digitRun, startsWithChar, noDigit]
  simp [number, markedNumber, octalNumber, decimalNumber, whole, notZero]

theorem symbol_eq_none : symbol (character :: rest) = none := by
  have notColon : character ≠ ':' := ne_of_isNameStart starts (by decide)
  simp [symbol, notColon]

theorem globalVariable_eq_none : globalVariable (character :: rest) = none := by
  have notDollar : character ≠ '$' := ne_of_isNameStart starts (by decide)
  simp [globalVariable, notDollar]

theorem instanceVariable_eq_none : instanceVariable (character :: rest) = none := by
  have notAt : character ≠ '@' := ne_of_isNameStart starts (by decide)
  simp [instanceVariable, notAt]

theorem regexp_eq_none : regexp (character :: rest) = none := by
  have notSlash : character ≠ '/' := ne_of_isNameStart starts (by decide)
  simp [regexp, notSlash]

/-- A symbol whose first character begins no name is not read where a name stands. -/
theorem punctuation_eq_none {symbol : String}
    (marks : startsWithChar (fun mark => !isNameStart mark) symbol.toList = true)
    (excluded : String) : punctuation symbol excluded (character :: rest) = none := by
  cases characters : symbol.toList with
  | nil => simp [characters, startsWithChar] at marks
  | cons mark others =>
      have apart : character ≠ mark := ne_of_isNameStart starts (by
        simpa [characters, startsWithChar] using marks)
      simp [punctuation, characters, List.isPrefixOf, apart.symm]

theorem spelling_eq_none {symbol : String}
    (marks : startsWithChar (fun mark => !isNameStart mark) symbol.toList = true) :
    spelling symbol (character :: rest) = none := by
  cases characters : symbol.toList with
  | nil => simp [characters, startsWithChar] at marks
  | cons mark others =>
      have apart : character ≠ mark := ne_of_isNameStart starts (by
        simpa [characters, startsWithChar] using marks)
      simp [spelling, characters, List.isPrefixOf, apart.symm]

end

end Lexeme

end RubySyntax
