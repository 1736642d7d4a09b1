import RubySyntax.Proofs.AttemptTraces
import RubySyntax.Proofs.TokenBreaks

/-!
# Scanning up to a seam

A source may be read on behind its end: spacing up to the end of the line or to what
closes the source, and then anything.  What the scanners and skips answer before the
seam is what they answer for the source alone, as long as the source has something
else left than blanks and backslashes.
-/

namespace RubySyntax

/-- What a source may end for the text that goes on behind it. -/
inductive Ending where
  /-- Statements, behind which others follow or a body is closed. -/
  | statement
  /-- An argument, behind which others follow or the brackets are closed. -/
  | argument
deriving DecidableEq, Repr

/-- The characters that may end a source. -/
def Ending.closers : Ending → List Char
  | statement => [')', '\x7d']
  | argument => [',', ')', ']']

/-- Blanks and semicolons up to the end of a line or of the text, or to what closes. -/
inductive Trails (ending : Ending) : List Char → Prop
  | ends : Trails ending []
  | feed (rest : List Char) : Trails ending ('\n' :: rest)
  | closer {character : Char} (member : character ∈ ending.closers) (rest : List Char) :
      Trails ending (character :: rest)
  | gap {character : Char} (spacing : Lexeme.isGap character = true) {rest : List Char}
      (trails : Trails ending rest) : Trails ending (character :: rest)

theorem Lexeme.mem_breakCharacters_of_isGap {character : Char} (gap : isGap character = true) :
    character ∈ breakCharacters := by
  rcases Bool.or_eq_true_iff.mp gap with blank | semicolon
  · exact mem_breakCharacters_of_isBlank blank
  · rw [beq_iff_eq.mp semicolon]
    decide

theorem Lexeme.ne_backslash_of_isGap {character : Char} (gap : isGap character = true) :
    character ≠ '\\' := by
  rintro rfl
  exact absurd gap (by decide)

namespace Trails

variable {ending : Ending} {tail : List Char}

theorem isBreak (trails : Trails ending tail) : IsBreak tail := by
  have closing : ∀ ending : Ending, ∀ character ∈ ending.closers, character ∈ breakCharacters := by
    intro ending
    cases ending <;> decide
  cases trails with
  | ends => exact .ends
  | feed rest => exact .mark (by decide) rest
  | closer member rest => exact .mark (closing ending _ member) rest
  | gap spacing trails => exact .mark (Lexeme.mem_breakCharacters_of_isGap spacing) _

end Trails

/-- Something is left of a source besides blanks and backslashes. -/
def Continues (rest : List Char) : Prop :=
  ∃ character ∈ rest, isBlank character = false ∧ character ≠ '\\'

instance (rest : List Char) : Decidable (Continues rest) :=
  List.decidableBEx (fun character => isBlank character = false ∧ character ≠ '\\') rest

theorem Continues.of_drop {rest : List Char} {count : Nat} (continues : Continues (rest.drop count)) :
    Continues rest := by
  obtain ⟨character, member, solid⟩ := continues
  exact ⟨character, List.mem_of_mem_drop member, solid⟩

theorem Continues.ne_nil {rest : List Char} (continues : Continues rest) : rest ≠ [] := by
  rintro rfl
  obtain ⟨character, member, -⟩ := continues
  cases member

/-- What continues behind a start of blanks and backslashes only continues without it. -/
theorem Continues.drop {rest : List Char} {count : Nat} (continues : Continues rest)
    (loose : ∀ character ∈ rest.take count, isBlank character = true ∨ character = '\\') :
    Continues (rest.drop count) := by
  obtain ⟨character, member, solid⟩ := continues
  rw [← List.take_append_drop count rest, List.mem_append] at member
  rcases member with skipped | later
  · rcases loose character skipped with blank | backslash
    · rw [blank] at solid
      cases solid.1
    · exact absurd backslash solid.2
  · exact ⟨character, later, solid⟩

theorem Continues.tail {first : Char} {rest : List Char} (continues : Continues (first :: rest))
    (loose : isBlank first = true ∨ first = '\\') : Continues rest :=
  continues.drop (show ∀ character ∈ (first :: rest).take 1, _ by simpa using loose)

/-! ### Skips -/

theorem countWhile_append_of_all {test : Char → Bool} {rest : List Char}
    (all : countWhile test rest = rest.length) (tail : List Char) :
    countWhile test (rest ++ tail) = rest.length + countWhile test tail := by
  have passes := @passes_of_mem_take_countWhile test rest
  rw [all, List.take_length] at passes
  exact countWhile_append_of_passes passes tail

theorem countWhile_append_of_drop {test : Char → Bool} {rest : List Char}
    (filled : rest.drop (countWhile test rest) ≠ []) (tail : List Char) :
    countWhile test (rest ++ tail) = countWhile test rest := by
  induction rest with
  | nil => simp at filled
  | cons character rest ih =>
      rw [countWhile_cons] at filled
      rw [List.cons_append, countWhile_cons, countWhile_cons]
      split
      · rename_i passes
        rw [if_pos passes] at filled
        rw [ih (by simpa using filled)]
      · rfl

/-- A text with something in it that breaks off in no line continuation. -/
abbrev IsUnbroken (rest : List Char) : Prop :=
  rest ∉ [[], ['\\'], ['\\', '\r']]

theorem Continues.isUnbroken {rest : List Char} (continues : Continues rest) : IsUnbroken rest := by
  have broken : ∀ rest ∈ [[], ['\\'], ['\\', '\r']], ¬ Continues rest := by decide
  exact fun member => broken rest member continues

theorem IsUnbroken.ne_nil {rest : List Char} (unbroken : IsUnbroken rest) : rest ≠ [] := by
  rintro rfl
  exact unbroken List.mem_cons_self

/-- Behind what breaks off in no line continuation, what follows makes no backslash continue the
line. -/
theorem not_continuation {character : Char} {rest : List Char}
    (unbroken : IsUnbroken (character :: rest))
    (feed : ∀ more, character = '\\' → rest = '\n' :: more → False)
    (returned : ∀ more, character = '\\' → rest = '\r' :: '\n' :: more → False)
    (tail : List Char) :
    (∀ more, character = '\\' → rest ++ tail = '\n' :: more → False) ∧
      ∀ more, character = '\\' → rest ++ tail = '\r' :: '\n' :: more → False := by
  refine ⟨?_, ?_⟩
  · rintro more rfl extended
    cases rest with
    | nil => exact absurd (by simp) unbroken
    | cons second others =>
        obtain ⟨rfl, -⟩ := List.cons.inj extended
        exact feed others rfl rfl
  · rintro more rfl extended
    rcases rest with _ | ⟨second, _ | ⟨third, others⟩⟩
    · exact absurd (by simp) unbroken
    · obtain ⟨rfl, -⟩ := List.cons.inj extended
      exact absurd (by simp) unbroken
    · obtain ⟨rfl, behind⟩ := List.cons.inj extended
      obtain ⟨rfl, -⟩ := List.cons.inj behind
      exact returned others rfl rfl

namespace Lexeme

section

variable {passes : Char → Bool} (plain : passes '\\' = false)
include plain

theorem continuedLength_append_of_all {rest : List Char}
    (all : continuedLength passes rest = rest.length) (tail : List Char) :
    continuedLength passes (rest ++ tail) = rest.length + continuedLength passes tail := by
  fun_induction continuedLength passes rest with
  | case1 => simp
  | case2 rest ih =>
      simp only [List.length_cons] at all ⊢
      rw [List.cons_append, List.cons_append, continuedLength, ih (by omega)]
      omega
  | case3 rest ih =>
      simp only [List.length_cons] at all ⊢
      rw [List.cons_append, List.cons_append, List.cons_append, continuedLength, ih (by omega)]
      omega
  | case4 character rest _ _ taken ih =>
      simp only [List.length_cons] at all ⊢
      have noBackslash : character ≠ '\\' := by
        rintro rfl
        exact absurd taken (by simp [plain])
      rw [List.cons_append, continuedLength.eq_4 _ _ _ (fun _ same => absurd same noBackslash)
        (fun _ same => absurd same noBackslash), if_pos taken, ih (by omega)]
      omega
  | case5 => simp at all

/-- Where something unbroken is left behind a skip, the skip does not reach the end. -/
theorem continuedLength_append {rest : List Char}
    (unbroken : IsUnbroken (rest.drop (continuedLength passes rest))) (tail : List Char) :
    continuedLength passes (rest ++ tail) = continuedLength passes rest := by
  fun_induction continuedLength passes rest with
  | case1 => exact absurd rfl unbroken.ne_nil
  | case2 rest ih =>
      rw [List.cons_append, List.cons_append, continuedLength, ih (by simpa using unbroken)]
  | case3 rest ih =>
      rw [List.cons_append, List.cons_append, List.cons_append, continuedLength,
        ih (by simpa using unbroken)]
  | case4 character rest _ _ taken ih =>
      have noBackslash : character ≠ '\\' := by
        rintro rfl
        exact absurd taken (by simp [plain])
      rw [List.cons_append, continuedLength.eq_4 _ _ _ (fun _ same => absurd same noBackslash)
        (fun _ same => absurd same noBackslash), if_pos taken, ih (by simpa using unbroken)]
  | case5 character rest feed returned stops =>
      rw [List.drop_zero] at unbroken
      obtain ⟨feedBehind, returnBehind⟩ := not_continuation unbroken feed returned tail
      rw [List.cons_append, continuedLength.eq_4 _ _ _ feedBehind returnBehind, if_neg stops]

omit plain in
theorem continuedLength_loose
    (blank : ∀ {character}, passes character = true → isBlank character = true)
    {rest : List Char} : ∀ character ∈ rest.take (continuedLength passes rest),
      isBlank character = true ∨ character = '\\' := by
  have feed : isBlank '\n' = true ∧ isBlank '\r' = true := by decide
  fun_induction continuedLength passes rest with
  | case1 => simp
  | case2 rest ih => simpa [feed] using ih
  | case3 rest ih => simpa [feed] using ih
  | case4 character rest _ _ taken ih => simpa [blank taken] using ih
  | case5 => simp

omit plain in
/-- Behind what is skipped in a line, the source is trailed as before. -/
theorem continuedLength_trails {ending : Ending} {tail : List Char}
    (stops : ∀ character ∈ '\n' :: ending.closers, passes character = false)
    (trails : Trails ending tail) : Trails ending (tail.drop (continuedLength passes tail)) := by
  have solid : ∀ ending : Ending, ∀ character ∈ ending.closers, character ≠ '\\' := by
    intro ending
    cases ending <;> decide
  induction trails with
  | ends => exact .ends
  | feed rest =>
      rw [continuedLength.eq_4 _ _ _ (by simp) (by simp), stops '\n' List.mem_cons_self]
      exact .feed rest
  | @closer character member rest =>
      have noBackslash := solid ending character member
      rw [continuedLength.eq_4 _ _ _ (fun _ same => absurd same noBackslash)
        (fun _ same => absurd same noBackslash), stops character (List.mem_cons_of_mem _ member)]
      exact .closer member rest
  | gap spacing trails ih =>
      have noBackslash := ne_backslash_of_isGap spacing
      rw [continuedLength.eq_4 _ _ _ (fun _ same => absurd same noBackslash)
        (fun _ same => absurd same noBackslash)]
      split
      · exact ih
      · exact .gap spacing trails

end

theorem horizontalLength_trails {ending : Ending} {tail : List Char} (trails : Trails ending tail) :
    Trails ending (tail.drop (horizontalLength tail)) := by
  rw [horizontalLength_eq]
  exact continuedLength_trails (by cases ending <;> decide) trails

end Lexeme

namespace Skip

variable {rest : List Char}

/-- A skip that reaches the end of a source goes on behind it. -/
theorem length_append_of_all {kind : Skip} (all : kind.length rest = rest.length)
    (tail : List Char) : kind.length (rest ++ tail) = rest.length + kind.length tail := by
  cases kind with
  | blanks => exact countWhile_append_of_all all tail
  | gap => exact countWhile_append_of_all all tail
  | horizontal =>
      rw [length, length, Lexeme.horizontalLength_eq] at *
      exact Lexeme.continuedLength_append_of_all (by decide) all tail

/-- What counts characters stops at one that it does not take. -/
theorem length_append_of_filled {kind : Skip} (counts : kind ≠ .horizontal)
    (filled : rest.drop (kind.length rest) ≠ []) (tail : List Char) :
    kind.length (rest ++ tail) = kind.length rest := by
  cases kind with
  | blanks => exact countWhile_append_of_drop filled tail
  | gap => exact countWhile_append_of_drop filled tail
  | horizontal => exact absurd rfl counts

/-- A skip in front of something unbroken does not see what is behind the source. -/
theorem length_append_of_isUnbroken {kind : Skip} (unbroken : IsUnbroken (rest.drop (kind.length rest)))
    (tail : List Char) : kind.length (rest ++ tail) = kind.length rest := by
  cases kind with
  | blanks | gap => exact length_append_of_filled (by decide) unbroken.ne_nil tail
  | horizontal =>
      rw [length, length, Lexeme.horizontalLength_eq] at *
      exact Lexeme.continuedLength_append (by decide) unbroken tail

theorem isBlank_of_mem_take {text : List Char} :
    ∀ character ∈ text.take (blanks.length text), isBlank character = true := by
  rw [length, take_countWhile]
  exact fun _ member => List.all_eq_true.mp List.all_takeWhile _ member

/-- Nothing is left behind the blanks of a text that holds nothing else. -/
theorem isBlank_of_drop_eq_nil {text : List Char} (ended : text.drop (blanks.length text) = []) :
    ∀ character ∈ text, isBlank character = true := by
  intro character member
  rw [← List.take_append_drop (blanks.length text) text, ended, List.append_nil] at member
  exact isBlank_of_mem_take character member

/-- What only separates within a statement does not continue a source. -/
theorem continues_drop {kind : Skip} (inner : kind ≠ .gap) (continues : Continues rest) :
    Continues (rest.drop (kind.length rest)) := by
  cases kind with
  | blanks => exact continues.drop fun character member => Or.inl (isBlank_of_mem_take _ member)
  | gap => exact absurd rfl inner
  | horizontal =>
      rw [length, Lexeme.horizontalLength_eq]
      exact continues.drop (Lexeme.continuedLength_loose Lexeme.isBlank_of_isHorizontal)

end Skip

namespace Lexeme

/-! ### Starts of arguments, parameters and values -/

theorem startsArgument_append_break {behind : List Char} (isBreak : IsBreak behind)
    (word : List Char) : startsArgument (word ++ behind) = startsArgument word := by
  cases word with
  | nil =>
      cases isBreak with
      | ends => rfl
      | @mark character member rest =>
          have none : ∀ character ∈ breakCharacters,
              ['@', '$', '(', '['].contains character = false ∧ character ≠ ':' ∧
              ['*', '&', '!'].contains character = false ∧ character ≠ '*' := by
            decide
          have noWord := isWordCharacter_of_mem_breakCharacters character member
          obtain ⟨noMark, noColon, noSplat, noStar⟩ := none character member
          simp only [List.nil_append, startsArgument, noWord, noMark, noSplat]
          simp [noColon, noStar]
  | cons character word =>
      have twice : (startsWithChar (· == '*') word &&
          startsWithChar isWordCharacter ((word ++ behind).drop 1)) =
            (startsWithChar (· == '*') word && startsWithChar isWordCharacter (word.drop 1)) := by
        cases word with
        | nil => rfl
        | cons second word =>
            have behindWord : startsWithChar isWordCharacter (word ++ behind) =
                startsWithChar isWordCharacter word :=
              startsWithChar_append_break isBreak isWordCharacter_of_mem_breakCharacters word
            simp [behindWord]
      have star : startsWithChar (· == '*') (word ++ behind) = startsWithChar (· == '*') word :=
        startsWithChar_append_break isBreak (by decide) word
      have named : startsWithChar (fun next => isNameStart next || next == '@' || next == '$')
          (word ++ behind) =
            startsWithChar (fun next => isNameStart next || next == '@' || next == '$') word :=
        startsWithChar_append_break isBreak (by decide) word
      have marked : startsWithChar (fun next => isWordCharacter next ||
          ['@', '$', '(', '[', ':'].contains next) (word ++ behind) =
            startsWithChar (fun next => isWordCharacter next ||
              ['@', '$', '(', '[', ':'].contains next) word := by
        have unmarked : ∀ mark ∈ breakCharacters,
            ['@', '$', '(', '[', ':'].contains mark = false := by decide
        refine startsWithChar_append_break isBreak (fun mark member => ?_) word
        rw [isWordCharacter_of_mem_breakCharacters mark member, unmarked mark member]
        rfl
      simp only [List.cons_append, startsArgument, star, named, marked, Bool.and_assoc, twice]

/-- A call takes no arguments from behind its source. -/
theorem commandStart_append_of_tight {ending : Ending} {tail rest : List Char}
    (trails : Trails ending tail) (tight : rest = [] ∨ Continues rest) :
    commandStart (rest ++ tail) = commandStart rest := by
  simp only [commandStart, commandGapLength_eq]
  rcases tight with rfl | continues
  · have behind : Trails ending (tail.drop (continuedLength isCommandBlank tail)) :=
      continuedLength_trails (by cases ending <;> decide) trails
    have nothing : startsArgument (tail.drop (continuedLength isCommandBlank tail)) = false :=
      startsArgument_append_break behind.isBreak []
    simp only [List.nil_append, nothing, Bool.and_false]
    rfl
  · have behind := continues.drop (continuedLength_loose isBlank_of_isCommandBlank)
    have within := (commandGapLength_spacingPrefix rest).within
    rw [commandGapLength_eq] at within
    simp only [continuedLength_append (by decide) behind.isUnbroken,
      List.drop_append_of_le_length within, startsArgument_append_break trails.isBreak]

theorem isBlank_of_isWordCharacter {character : Char} (word : isWordCharacter character = true) :
    isBlank character = false := by
  rw [← Bool.not_eq_true]
  intro blank
  have apart := isWordCharacter_of_mem_breakCharacters character
    (mem_breakCharacters_of_isBlank blank)
  rw [word] at apart
  cases apart

theorem startsArgument_solid {character : Char} {rest : List Char}
    (starts : startsArgument (character :: rest) = true) :
    isBlank character = false ∧ character ≠ '\\' := by
  have marks : ∀ mark ∈ ['@', '$', '(', '[', ':', '*', '&', '!'],
      isBlank mark = false ∧ mark ≠ '\\' := by decide
  have ofWord : isWordCharacter character = true → character ≠ '\\' := by
    rintro word rfl
    exact absurd word (by decide)
  have ofMark : character ∈ ['@', '$', '(', '[', ':', '*', '&', '!'] →
      isBlank character = false ∧ character ≠ '\\' := marks character
  simp only [startsArgument, Bool.or_eq_true, Bool.and_eq_true, beq_iff_eq,
    List.contains_iff_mem, List.mem_cons, List.not_mem_nil, or_false] at starts ofMark
  by_cases word : isWordCharacter character = true
  · exact ⟨isBlank_of_isWordCharacter word, ofWord word⟩
  · refine ofMark ?_
    rcases starts with (((isWord | sign) | ⟨colon, -⟩) | ⟨splat, -⟩) | ⟨⟨star, -⟩, -⟩
    · exact absurd isWord word
    · rcases sign with rfl | rfl | rfl | rfl <;> simp
    · simp [colon]
    · rcases splat with rfl | rfl | rfl <;> simp
    · simp [star]

/-- An argument of a call continues its source. -/
theorem continues_of_commandStart {rest : List Char} {length : Nat}
    (started : commandStart rest = some length) :
    length ≤ rest.length ∧ Continues (rest.drop length) := by
  simp only [commandStart, Bool.and_eq_true, decide_eq_true_eq] at started
  split at started
  · rename_i starts
    obtain ⟨-, argument⟩ := starts
    obtain rfl := Option.some.inj started
    cases drop_eq : rest.drop (commandGapLength rest) with
    | nil =>
        rw [drop_eq] at argument
        cases argument
    | cons character behind =>
        rw [drop_eq] at argument
        refine ⟨?_, character, List.mem_cons_self, startsArgument_solid argument⟩
        have positive : 0 < (rest.drop (commandGapLength rest)).length := by
          rw [drop_eq]
          exact Nat.succ_pos _
        rw [List.length_drop] at positive
        omega
  · cases started

/-- A definition takes its parameters from its source alone. -/
theorem parameterStart_append {rest : List Char} (continues : Continues rest) (tail : List Char) :
    parameterStart (rest ++ tail) = parameterStart rest := by
  generalize test_eq : (fun character => character == ' ' || character == '\t') = test
  have loose : ∀ character, test character = true → isBlank character = true := by
    subst test_eq
    exact fun _ blank => isBlank_of_isCommandBlank blank
  have behind : Continues (rest.drop (countWhile test rest)) := by
    refine continues.drop fun character member => Or.inl (loose character ?_)
    rw [take_countWhile] at member
    exact List.all_eq_true.mp List.all_takeWhile character member
  have count_le := countWhile_le test rest
  have starts : ∀ {start : Char → Bool} {word : List Char}, word ≠ [] →
      startsWithChar start (word ++ tail) = startsWithChar start word := by
    intro start word filled
    cases word with
    | nil => exact absurd rfl filled
    | cons character word => rfl
  simp only [parameterStart, test_eq, countWhile_append_of_drop behind.ne_nil,
    List.drop_append_of_le_length count_le, starts behind.ne_nil]

/-- So does a default value. -/
theorem sameLineValue_append {rest : List Char} (continues : Continues rest) (tail : List Char) :
    (sameLineValue rest = none → sameLineValue (rest ++ tail) = none) ∧
      ∀ length, sameLineValue rest = some length → Continues (rest.drop length) →
        sameLineValue (rest ++ tail) = some length := by
  have feeds : isBlank '\n' = true ∧ isBlank '\r' = true := by decide
  fun_induction sameLineValue rest with
  | case1 => exact absurd rfl continues.ne_nil
  | case2 rest ih =>
      have ih := ih ((continues.tail (Or.inr rfl)).tail (Or.inl feeds.1))
      rw [List.cons_append, List.cons_append, sameLineValue]
      cases inner : sameLineValue rest with
      | none =>
          rw [ih.1 inner]
          exact ⟨id, fun length found _ => found⟩
      | some extent =>
          refine ⟨fun impossible => ?_, fun length found continues => ?_⟩
          · cases impossible
          · obtain rfl : extent + 2 = length := Option.some.inj found
            rw [ih.2 extent inner (by simpa using continues)]
            rfl
  | case3 rest ih =>
      have ih := ih (((continues.tail (Or.inr rfl)).tail (Or.inl feeds.2)).tail (Or.inl feeds.1))
      rw [List.cons_append, List.cons_append, List.cons_append, sameLineValue]
      cases inner : sameLineValue rest with
      | none =>
          rw [ih.1 inner]
          exact ⟨id, fun length found _ => found⟩
      | some extent =>
          refine ⟨fun impossible => ?_, fun length found continues => ?_⟩
          · cases impossible
          · obtain rfl : extent + 3 = length := Option.some.inj found
            rw [ih.2 extent inner (by simpa using continues)]
            rfl
  | case4 character rest feed returned horizontal ih =>
      have ih := ih (continues.tail (Or.inl (isBlank_of_isHorizontal horizontal)))
      have plain : character ≠ '\\' := by
        rintro rfl
        exact absurd horizontal (by decide)
      rw [List.cons_append, sameLineValue.eq_4 _ _ (fun _ same => absurd same plain)
        (fun _ same => absurd same plain), if_pos horizontal]
      refine ⟨fun none => ?_, fun length found continues => ?_⟩
      · rw [ih.1 (Option.map_eq_none_iff.mp none)]
        rfl
      · obtain ⟨extent, inner, rfl⟩ := Option.map_eq_some_iff.mp found
        rw [ih.2 extent inner (by simpa using continues)]
        rfl
  | case5 character rest feed returned plain value =>
      refine ⟨fun impossible => ?_, fun length found continues => ?_⟩
      · cases impossible
      · obtain rfl := Option.some.inj found
        obtain ⟨feedBehind, returnBehind⟩ := not_continuation continues.isUnbroken feed returned tail
        have valueBehind : startsValue (character :: (rest ++ tail)) = true := value
        rw [List.cons_append, sameLineValue.eq_4 _ _ feedBehind returnBehind, if_neg plain,
          if_pos valueBehind]
  | case6 character rest feed returned plain noValue =>
      refine ⟨fun _ => ?_, fun length impossible => ?_⟩
      · have noBackslash : character ≠ '\\' := by
          rintro rfl
          exact noValue rfl
        have noValueBehind : ¬ startsValue (character :: (rest ++ tail)) = true := noValue
        rw [List.cons_append, sameLineValue.eq_4 _ _ (fun _ same => absurd same noBackslash)
          (fun _ same => absurd same noBackslash), if_neg plain, if_neg noValueBehind]
      · cases impossible

/-! ### Regular expressions -/

def firstLine (text : List Char) : List Char :=
  text.takeWhile (· != '\n')

/-- A line without a slash closes no regular expression. -/
theorem regexpBody_of_line {text : List Char} (noSlash : '/' ∉ firstLine text) :
    regexpBody text = none := by
  fun_induction regexpBody text with
  | case1 => rfl
  | case2 rest => simp [firstLine] at noSlash
  | case3 rest => rfl
  | case4 escaped rest noFeed ih =>
      have plain : escaped ≠ '\n' := fun feed => noFeed feed
      rw [ih (by simpa [firstLine, plain] using noSlash : _ ∧ _).2]
      rfl
  | case5 => rfl
  | case6 rest => rfl
  | case7 character rest notSlash _ _ _ noFeed ih =>
      have plain : character ≠ '\n' := fun feed => noFeed feed
      rw [ih (by simpa [firstLine, plain] using noSlash : _ ∧ _).2]
      rfl

/-- A regular expression ends before its line does. -/
theorem regexpBody_append {tail : List Char} (noSlash : '/' ∉ firstLine tail) (rest : List Char) :
    regexpBody (rest ++ tail) = regexpBody rest := by
  fun_induction regexpBody rest with
  | case1 => exact regexpBody_of_line noSlash
  | case2 rest => rfl
  | case3 rest => rfl
  | case4 escaped rest noFeed ih =>
      rw [List.cons_append, List.cons_append, regexpBody.eq_4 _ _ noFeed, ih]
  | case5 =>
      have unclosed : '/' ∉ firstLine ('\\' :: tail) := by
        simpa [firstLine] using noSlash
      exact regexpBody_of_line unclosed
  | case6 => rfl
  | case7 character rest noSlash noEscapedFeed noEscape noLoneEscape noFeed ih =>
      have plain : character ≠ '\\' := by
        intro escape
        cases rest with
        | nil => exact noLoneEscape escape rfl
        | cons escaped others => exact noEscape escaped others escape rfl
      rw [List.cons_append, regexpBody.eq_7 _ _ noSlash
        (fun _ escape _ => plain escape) (fun _ _ escape _ => plain escape)
        (fun escape _ => plain escape) noFeed, ih]

/-- What is closed, or broken by the end of a line, does not see what follows. -/
theorem regexpBody_append_of_settled {rest : List Char}
    (settled : (regexpBody rest).isSome = true ∨ '\n' ∈ rest) (tail : List Char) :
    regexpBody (rest ++ tail) = regexpBody rest := by
  fun_induction regexpBody rest with
  | case1 => simp at settled
  | case2 rest => rfl
  | case3 rest => rfl
  | case4 escaped rest noFeed ih =>
      have plain : '\n' ≠ escaped := fun feed => noFeed feed.symm
      rw [List.cons_append, List.cons_append, regexpBody.eq_4 _ _ noFeed,
        ih (by simpa [plain] using settled)]
  | case5 => simp at settled
  | case6 => rfl
  | case7 character rest noSlash noEscapedFeed noEscape noLoneEscape noFeed ih =>
      have plain : character ≠ '\\' := by
        intro escape
        cases rest with
        | nil => exact noLoneEscape escape rfl
        | cons escaped others => exact noEscape escaped others escape rfl
      have noFeedToo : '\n' ≠ character := fun feed => noFeed feed.symm
      rw [List.cons_append, regexpBody.eq_7 _ _ noSlash
        (fun _ escape _ => plain escape) (fun _ _ escape _ => plain escape)
        (fun escape _ => plain escape) noFeed, ih (by simpa [noFeedToo] using settled)]

/-- Whether a text opens a regular expression that it neither closes nor breaks. -/
def opensRegexp : List Char → Bool
  | '/' :: body => (regexpBody body).isNone && !body.contains '\n'
  | _ => false

theorem regexp_append {tail : List Char} (isBreak : IsBreak tail) {rest : List Char}
    (settled : '/' ∉ firstLine tail ∨ opensRegexp rest = false) : regexp (rest ++ tail) = regexp rest := by
  have marks : ∀ character ∈ breakCharacters, character ≠ '/' := by decide
  cases rest with
  | nil =>
      cases isBreak with
      | ends => rfl
      | @mark character member rest => simp [regexp, marks character member]
  | cons character rest =>
      by_cases slash : character = '/'
      · subst slash
        rw [List.cons_append, regexp, regexp]
        rcases settled with noSlash | closed
        · rw [regexpBody_append noSlash]
        · rw [regexpBody_append_of_settled]
          cases body : regexpBody rest with
          | some length => exact Or.inl rfl
          | none =>
              simp only [opensRegexp, body, Option.isNone_none, Bool.true_and,
                Bool.not_eq_false', List.contains_iff_mem] at closed
              exact Or.inr closed
      · simp [regexp, slash]

/-- A statement break goes on behind the source only where the source ends. -/
theorem separator_append_of_continues {tail rest : List Char} {length : Nat}
    (scanned : separator rest = some length) (continues : Continues (rest.drop length)) :
    separator (rest ++ tail) = some length := by
  cases rest with
  | nil => cases scanned
  | cons character rest =>
      rw [List.cons_append]
      unfold separator at scanned ⊢
      dsimp only at scanned ⊢
      split at scanned
      · rename_i breaks
        cases scanned
        rw [if_pos breaks, countWhile_append_of_drop (by simpa using continues.ne_nil)]
      · rename_i plain
        rw [if_neg plain]
        exact scanned

theorem separator_append_of_none {rest : List Char} (filled : rest ≠ [])
    (scanned : separator rest = none) (tail : List Char) : separator (rest ++ tail) = none := by
  cases rest with
  | nil => exact absurd rfl filled
  | cons character rest =>
      rw [List.cons_append]
      unfold separator at scanned ⊢
      dsimp only at scanned ⊢
      split at scanned
      · cases scanned
      · rename_i plain
        rw [if_neg plain]
        exact scanned

end Lexeme

end RubySyntax
