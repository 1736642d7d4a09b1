import RubySyntax.Proofs.MatcherRuns
import RubySyntax.Proofs.WordBreaks

/-!
# Reserved words and identifiers

A reserved word is refused where it ends, and a question or exclamation mark goes
on with it.  An identifier takes such a mark only where no equals sign follows.
Between the two conditions one gap is left: in front of `?=` and `!=` a reserved
word is read as an identifier, and nowhere else.
-/

namespace RubySyntax

namespace Lexeme

/-! ### Words and marks -/

theorem reservedWords_word : ∀ word ∈ reservedWords,
    startsWithChar isNameStart word.toList = true ∧
      startsWithChar isWordCharacter word.toList = true ∧
      ∀ character ∈ word.toList, isWordCharacter character = true := by
  decide

/-- The marks that go on with a word without being part of it. -/
def wordMarks : List Char := ['?', '!']

theorem wordMarks_spec : ∀ mark ∈ wordMarks,
    isWordCharacter mark = false ∧ continuesWord mark = true ∧
      ∀ word ∈ reservedWords, ¬ word.toList ++ [mark] <+: "defined?".toList := by
  decide

theorem mark_not_mem_reservedWord {word : String} (reserved : word ∈ reservedWords) {mark : Char}
    (isMark : mark ∈ wordMarks) : mark ∉ word.toList := by
  intro member
  have isWord := (reservedWords_word word reserved).2.2 mark member
  rw [(wordMarks_spec mark isMark).1] at isWord
  cases isWord

theorem mem_wordMarks {character : Char} (goesOn : continuesWord character = true)
    (noWord : isWordCharacter character = false) : character ∈ wordMarks := by
  simpa [continuesWord, noWord, wordMarks] using goesOn

theorem name_append {word behind : List Char} (starts : startsWithChar isNameStart word = true)
    (isWord : ∀ character ∈ word, isWordCharacter character = true)
    (ends : startsWithChar isWordCharacter behind = false) :
    name (word ++ behind) = some word.length := by
  cases word with
  | nil => simp [startsWithChar] at starts
  | cons character rest =>
      have stops : behind.takeWhile isWordCharacter = [] := by
        cases behind with
        | nil => rfl
        | cons next behind =>
            have isEnd : isWordCharacter next = false := ends
            simp [isEnd]
      have whole : countWhile isWordCharacter (rest ++ behind) = rest.length := by
        rw [countWhile, List.takeWhile_append_of_pos fun other member =>
          isWord other (.tail _ member), stops, List.append_nil]
      have begins : isNameStart character = true := starts
      rw [List.cons_append, name, if_pos begins, whole, List.length_cons]

theorem spelling_isSome_iff {word : String}
    (isWord : startsWithChar isWordCharacter word.toList = true) (text : List Char) :
    (spelling word text).isSome = true ↔
      word.toList <+: text ∧ isWordEnd (text.drop word.toList.length) = true := by
  rw [spelling, isWord, String.length_toList, ← List.isPrefixOf_iff_prefix]
  split <;> simp_all

/-! ### Where a reserved word is an identifier -/

theorem startsReserved_mark {word : String} (reserved : word ∈ reservedWords) {mark : Char}
    (isMark : mark ∈ wordMarks) (rest : List Char) :
    startsReserved (word.toList ++ mark :: rest) = false := by
  obtain ⟨-, goesOn, noPredicate⟩ := wordMarks_spec mark isMark
  have marked : word.toList ++ [mark] <+: word.toList ++ mark :: rest := ⟨rest, by simp⟩
  rw [startsReserved, Bool.or_eq_false_iff, List.any_eq_false]
  constructor
  · intro other otherReserved spelled
    obtain ⟨-, startsWord, -⟩ := reservedWords_word other otherReserved
    obtain ⟨begins, ends⟩ := (spelling_isSome_iff startsWord _).mp spelled
    rcases Nat.lt_or_ge word.toList.length other.toList.length with longer | shorter
    · -- The mark would lie inside the other word.
      have inside : word.toList ++ [mark] <+: other.toList :=
        List.prefix_of_prefix_length_le marked begins (by rw [List.length_append]; exact longer)
      exact mark_not_mem_reservedWord otherReserved isMark (inside.subset (by simp))
    · -- The other word goes on with the rest of the word or with the mark.
      obtain ⟨tail, tail_eq⟩ : other.toList <+: word.toList :=
        List.prefix_of_prefix_length_le begins (List.prefix_append _ _) shorter
      rw [← tail_eq, List.append_assoc, List.drop_left] at ends
      cases tail with
      | nil => simp [isWordEnd, startsWithChar, goesOn] at ends
      | cons character tail =>
          have isWord := (reservedWords_word word reserved).2.2 character (by simp [← tail_eq])
          simp [isWordEnd, startsWithChar, continuesWord, isWord] at ends
  · rw [← Bool.not_eq_true, List.isPrefixOf_iff_prefix]
    intro begins
    have short : ∀ word ∈ reservedWords, word.toList.length < "defined?".toList.length := by decide
    refine noPredicate word reserved (List.prefix_of_prefix_length_le marked begins ?_)
    rw [List.length_append]
    exact short word reserved

/-- Behind an identifier that is a reserved word stand a mark and an equals sign. -/
private theorem exists_mark_of_identifier {text : List Char} {length : Nat}
    (scanned : identifier text = some length)
    (reserved : String.ofList (text.take length) ∈ reservedWords) :
    ∃ mark ∈ wordMarks, ∃ rest, text.drop length = mark :: '=' :: rest := by
  obtain ⟨free, stem, named, length_eq⟩ := identifier_eq_some scanned
  have noMark : startsWithMark (text.drop stem) = false := by
    rw [← Bool.not_eq_true]
    intro marked
    rw [if_pos marked] at length_eq
    cases behind_eq : text.drop stem with
    | nil => simp [behind_eq, startsWithMark] at marked
    | cons mark behind =>
        have isMark : mark ∈ wordMarks := by
          simp only [behind_eq, startsWithMark, Bool.and_eq_true, Bool.or_eq_true,
            beq_iff_eq] at marked
          simpa [wordMarks] using marked.1
        have present : text[stem]? = some mark := by rw [← List.head?_drop, behind_eq]; rfl
        refine absurd ?_ (mark_not_mem_reservedWord reserved isMark)
        rw [String.toList_ofList, length_eq, List.take_add_one, present]
        simp
  rw [noMark, if_neg (by decide)] at length_eq
  subst length
  have within : stem ≤ text.length := (identifier_cleanPrefix scanned).within
  have noEnd : isWordEnd (text.drop stem) = false := by
    obtain ⟨-, startsWord, -⟩ := reservedWords_word _ reserved
    rw [← Bool.not_eq_true]
    intro ends
    rw [startsReserved, Bool.or_eq_false_iff, List.any_eq_false] at free
    refine free.1 _ reserved ((spelling_isSome_iff startsWord text).mpr ?_)
    rw [String.toList_ofList, List.length_take, Nat.min_eq_left within]
    exact ⟨List.take_prefix stem text, ends⟩
  cases behind_eq : text.drop stem with
  | nil => simp [behind_eq, isWordEnd, startsWithChar] at noEnd
  | cons mark behind =>
      have present : text[stem]? = some mark := by rw [← List.head?_drop, behind_eq]; rfl
      have noWord : isWordCharacter mark = false := by
        obtain ⟨first, others, rfl, -, rfl⟩ := name_eq_some named
        exact test_countWhile (by simpa using present)
      rw [behind_eq] at noEnd noMark
      have isMark : mark ∈ wordMarks :=
        mem_wordMarks (by simpa [isWordEnd, startsWithChar] using noEnd) noWord
      refine ⟨mark, isMark, ?_⟩
      have listed : (mark == '?' || mark == '!') = true := by simpa [wordMarks] using isMark
      rw [startsWithMark, listed, Bool.true_and, Bool.not_eq_false'] at noMark
      cases behind with
      | nil => simp [startsWithChar] at noMark
      | cons sign rest =>
          obtain rfl : sign = '=' := by simpa [startsWithChar] using noMark
          exact ⟨rest, rfl⟩

/-- A reserved word is read as an identifier exactly where a mark and an equals sign follow. -/
theorem identifier_reserved_iff {text : List Char} :
    (∃ length, identifier text = some length ∧
        String.ofList (text.take length) ∈ reservedWords) ↔
      ∃ word ∈ reservedWords, ∃ mark ∈ wordMarks, word.toList ++ [mark, '='] <+: text := by
  constructor
  · rintro ⟨length, scanned, reserved⟩
    obtain ⟨mark, isMark, rest, behind_eq⟩ := exists_mark_of_identifier scanned reserved
    refine ⟨_, reserved, mark, isMark, rest, ?_⟩
    rw [String.toList_ofList, List.append_assoc]
    have behind : text.take length ++ (mark :: '=' :: rest) = text := by
      rw [← behind_eq, List.take_append_drop]
    exact behind
  · rintro ⟨word, reserved, mark, isMark, rest, rfl⟩
    obtain ⟨starts, -, isWord⟩ := reservedWords_word word reserved
    have split : word.toList ++ [mark, '='] ++ rest = word.toList ++ mark :: '=' :: rest := by simp
    have ends : startsWithChar isWordCharacter (mark :: '=' :: rest) = false :=
      (wordMarks_spec mark isMark).1
    refine ⟨word.toList.length, ?_, by simpa [split] using reserved⟩
    rw [split, identifier, startsReserved_mark reserved isMark, name_append starts isWord ends]
    simp [startsWithMark, startsWithChar]

example : identifier "if!=b".toList = some 2 := by decide

end Lexeme

/-- A leaf of a reserved word is read as an identifier exactly in front of a mark and an equals
sign. -/
theorem Matcher.identifier_reads_reserved_iff {cursor : Cursor} :
    (∃ leaf next, (terminal .identifier).Reads cursor leaf next ∧
        leaf.data ∈ Lexeme.reservedWords) ↔
      ∃ word ∈ Lexeme.reservedWords, ∃ mark ∈ Lexeme.wordMarks,
        word.toList ++ [mark, '='] <+: cursor.rest := by
  rw [← Lexeme.identifier_reserved_iff]
  constructor
  · rintro ⟨leaf, next, read, reserved⟩
    obtain ⟨length, scanned, rfl, -⟩ := reads_terminal.mp read
    exact ⟨length, scanned, reserved⟩
  · rintro ⟨length, scanned, reserved⟩
    exact ⟨_, _, reads_terminal.mpr ⟨length, scanned, rfl, rfl⟩, reserved⟩

end RubySyntax
