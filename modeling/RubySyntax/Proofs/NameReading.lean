import RubySyntax.Proofs.LongestSpelling
import RubySyntax.Proofs.OperatorSpellings
import RubySyntax.Proofs.WordReading

/-!
# Names in front of operators

What stands behind an operand of a phrase is neither one of its suffixes nor the
first argument of a call without parentheses.  The only followers that look like
an argument are operators that are spelled as words, and no argument begins with
one of these because they are reserved.
-/

namespace RubySyntax

/-! ### What follows an operand -/

namespace Phrase

/-- The words that may stand behind an operand: operators between two operands and the marks of
a conditional. -/
def followers (mode : Mode) : List String :=
  linkingSpellings mode ++ ["?", ":"]

/-- Whether a word begins a suffix that blanks may separate from its operand. -/
def startsSuffix (word : List Char) : Bool :=
  (Lexeme.punctuation "&." "" word).isSome || (Lexeme.punctuation "." "." word).isSome ||
    (Lexeme.punctuation "\x7b" "" word).isSome

theorem forall_followers {property : String → Prop}
    (each : ∀ word ∈ allInfixWords ++ [",", ";", "?", ":"], property word) (mode : Mode) :
    ∀ word ∈ followers mode, property word := by
  rw [List.forall_mem_append] at each
  intro word member
  rcases List.mem_append.mp member with linking | mark
  · rcases List.mem_append.mp linking with operator | separating
    · exact forall_infixSpellings each.1 mode word operator
    · cases mode with
      | statement => exact each.2 word (List.mem_append_left ["?", ":"] separating)
      | argument => cases separating
      | command => cases separating
  · exact each.2 word (List.mem_append_right [",", ";"] mark)

theorem followers_plain (mode : Mode) : ∀ word ∈ followers mode,
    word.toList ≠ [] ∧ startsToken word.toList = true ∧ startsSuffix word.toList = false :=
  forall_followers (by decide +kernel) mode

/-- Whether a word is spelled like a name and reserved for an operator between two operands. -/
def isWordOperator (word : List Char) : Bool :=
  startsWithChar isNameStart word && (Lexeme.name word == some word.length) &&
    (Lexeme.identifier word).isNone &&
    Matcher.definitionWords.all (fun keyword => (Lexeme.spelling keyword word).isNone) &&
    (Lexeme.oneOf (OperatorTables.standard.of .command).prefixSpellings word).isNone

/-- A follower that looks like the first argument of a call is an operator spelled as a word. -/
theorem followers_argument (mode : Mode) : ∀ word ∈ followers mode,
    Lexeme.startsArgument (word.toList ++ [' ']) = true → isWordOperator word.toList = true := by
  refine forall_followers ?_ mode
  unfold isWordOperator
  rw [prefixSpellings_eq]
  decide +kernel

end Phrase

/-- What stands behind an operand of a phrase: nothing, or an operator between two blanks. -/
inductive Follows (mode : Mode) : List Char → Prop
  | ends : Follows mode []
  | word {word : String} (member : word ∈ Phrase.followers mode) (rest : List Char) :
      Follows mode (' ' :: (word.toList ++ ' ' :: rest))

theorem Follows.isBreak {mode : Mode} {tail : List Char} (follows : Follows mode tail) :
    IsBreak tail := by
  cases follows with
  | ends => exact .ends
  | word member rest => exact .blank _

/-- What stands behind an operand begins, behind a blank, with a word that is no suffix. -/
theorem Follows.exists_word {mode : Mode} {tail : List Char} (follows : Follows mode tail) :
    ∃ lead word behind, tail = lead ++ (word ++ behind) ∧ IsLead lead ∧ IsBreak behind ∧
      startsToken (word ++ behind) = true ∧ Phrase.startsSuffix word = false := by
  cases follows with
  | ends =>
      exact ⟨[], [], [], rfl, .none, .ends, by decide, by decide⟩
  | @word word member rest =>
      obtain ⟨filled, starts, noSuffix⟩ := Phrase.followers_plain mode word member
      refine ⟨[' '], word.toList, ' ' :: rest, rfl, .blank, .blank rest, ?_, noSuffix⟩
      rw [startsToken_append_break (.blank rest) filled]
      exact starts

/-- The look-ahead for an argument does not see past the blank behind a word. -/
theorem Lexeme.startsArgument_append_blank {word : List Char} (filled : word ≠ [])
    (rest : List Char) :
    startsArgument (word ++ ' ' :: rest) = startsArgument (word ++ [' ']) := by
  match word, filled with
  | [first], _ => simp [startsArgument, startsWithChar]
  | [first, second], _ => simp [startsArgument, startsWithChar]
  | first :: second :: third :: others, _ => simp [startsArgument, startsWithChar]

theorem Stands.behind_blank {text rest : List Char} {offset : Nat}
    (stands : Stands text offset (' ' :: rest)) :
    (Cursor.within text offset).advance 1 = Cursor.within text (offset + 1) ∧
      Stands text (offset + 1) rest := by
  have blank : Stands text offset ([' '] ++ rest) := stands
  exact blank.advance

theorem Stands.behind_word {text lead tail : List Char} {offset : Nat} {word : String}
    (stands : Stands text offset (lead ++ (word.toList ++ tail))) :
    Stands text (offset + lead.length + word.length) tail := by
  have behind := stands.advance.2.advance.2
  rwa [String.length_toList] at behind

namespace Matcher

variable {text lead tail : List Char} {offset : Nat} {mode : Mode}

/-! ### No suffixes -/

theorem punctuation_rejects_break {symbol excluded : String}
    (solid : IsSolid symbol.toList ∧ IsSolid excluded.toList)
    (filled : Lexeme.punctuation symbol excluded [] = none) (isBreak : IsBreak tail)
    (stands : Stands text offset tail) :
    (punctuation symbol excluded).Rejects (Cursor.within text offset) := by
  have noWord : Stands text offset ([] ++ tail) := stands
  exact rejects_word (Lexeme.punctuation_stopsAtBreaks solid isBreak) noWord filled

/-- No suffix stands behind an operand of a phrase. -/
theorem suffix_rejects (rules : Rules) (follows : Follows mode tail)
    (stands : Stands text offset tail) : (suffix rules).Rejects (Cursor.within text offset) := by
  have isBreak := follows.isBreak
  have bracket : ∀ {tag opening closer : String}, IsSolid opening.toList →
      Lexeme.punctuation opening "" [] = none →
        (bracketSuffix rules tag opening closer).Rejects (Cursor.within text offset) :=
    fun solid filled => rejects_bind.mpr (Or.inl (rejects_bind.mpr (Or.inl
      (punctuation_rejects_break ⟨solid, by decide⟩ filled isBreak stands))))
  obtain ⟨lead, word, behind, rfl, isLead, wordBreak, starts, noSuffix⟩ := follows.exists_word
  obtain ⟨-, behindLead⟩ := stands.advance
  simp only [Phrase.startsSuffix, Bool.or_eq_false_iff, Option.isSome_eq_false_iff,
    Option.isNone_iff_eq_none] at noSuffix
  obtain ⟨⟨noCall, noMember⟩, noBlock⟩ := noSuffix
  have marked : ∀ {symbol excluded : String}, IsSolid symbol.toList ∧ IsSolid excluded.toList →
      Lexeme.punctuation symbol excluded word = none →
        (punctuation symbol excluded).Rejects (Cursor.within text (offset + lead.length)) :=
    fun solid scanned =>
      rejects_word (Lexeme.punctuation_stopsAtBreaks solid wordBreak) behindLead scanned
  have member : memberSuffix.Rejects (Cursor.within text offset) :=
    rejects_bind.mpr (Or.inl (spaced_rejects stands isLead starts (rejects_orElse.mpr
      ⟨marked (by decide) noCall, marked (by decide) noMember⟩)))
  have scope : scopeSuffix.Rejects (Cursor.within text offset) :=
    rejects_bind.mpr (Or.inl
      (punctuation_rejects_break (by decide) (by decide) isBreak stands))
  have block : (blockSuffix rules).Rejects (Cursor.within text offset) :=
    rejects_bind.mpr (Or.inl (afterSkip_rejects stands isLead starts (by decide)
      (rejects_bind.mpr (Or.inl (marked (by decide) noBlock)))))
  refine rejects_firstOf ?_
  simp only [List.forall_mem_cons, List.not_mem_nil, false_implies, implies_true, and_true]
  exact ⟨bracket (by decide) (by decide),
    bracket (by decide) (by decide), member, scope, block⟩

theorem operand_reads_name (rules : Rules) {name : String} (isName : Phrase.isName name = true)
    (isLead : IsLead lead) (follows : Follows mode tail)
    (stands : Stands text offset (lead ++ (name.toList ++ tail))) :
    (operand rules).Reads (Cursor.within text offset) (.token name (offset + lead.length))
      (Cursor.within text (offset + lead.length + name.length)) := by
  have behindName := stands.behind_word
  refine reads_bind.mpr ⟨_, _, primary_reads_name rules isName follows.isBreak isLead stands,
    reads_bind.mpr ⟨[], _, ?_, reads_pure.mpr ⟨rfl, rfl⟩⟩⟩
  exact reads_many .nil (suffix_rejects rules follows behindName) (Nat.zero_le _)

/-! ### No arguments -/

theorem oneOf_eq_none {spellings : List String} {word : List Char} (filled : spellings ≠ [])
    (each : ∀ spelling ∈ spellings, Lexeme.spelling spelling word = none) :
    Lexeme.oneOf spellings word = none :=
  (Lexeme.oneOf_eq_none_iff filled).mpr fun spelling member =>
    Lexeme.spelling_eq_none_iff.mp (each spelling member)

theorem prefixSpellings_solid (mode : Mode) :
    ∀ word ∈ (OperatorTables.standard.of mode).prefixSpellings, IsSolid word.toList := by
  have each : ∀ word ∈ Mode.prefixWords .statement, word.toList.all isSolidCharacter = true := by
    decide
  exact forall_prefixSpellings (fun word member => isSolid_of_all (each word member)) mode

theorem prefixed_rejects {word behind : List Char} (rules : Rules) (isLead : IsLead lead)
    (starts : startsToken (word ++ behind) = true) (isBreak : IsBreak behind)
    (scanned : Lexeme.oneOf (OperatorTables.standard.of mode).prefixSpellings word = none)
    (stands : Stands text offset (lead ++ (word ++ behind))) :
    (prefixed .standard rules mode).Rejects (Cursor.within text offset) :=
  rejects_bind.mpr (Or.inl (spaced_rejects stands isLead starts
    (rejects_word (Lexeme.oneOf_stopsAtBreaks (prefixSpellings_solid mode) isBreak)
      stands.advance.2 scanned)))

/-- What the look-up of a word operator answers. -/
theorem isWordOperator_spec {word : List Char} (isWord : Phrase.isWordOperator word = true) :
    IsWordLike word ∧ Lexeme.name word = some word.length ∧ Lexeme.identifier word = none ∧
      Lexeme.oneOf (OperatorTables.standard.of .command).prefixSpellings word = none := by
  simp only [Phrase.isWordOperator, Bool.and_eq_true, beq_iff_eq, Option.isNone_iff_eq_none,
    List.all_eq_true] at isWord
  obtain ⟨⟨⟨⟨starts, named⟩, reserved⟩, undefined⟩, noPrefix⟩ := isWord
  refine ⟨⟨?_, undefined⟩, named, reserved, noPrefix⟩
  cases word with
  | nil => cases starts
  | cons character rest => exact ⟨character, rest, rfl, starts⟩

theorem argument_rejects {word behind : List Char} (depth : Nat)
    (isWord : Phrase.isWordOperator word = true) (isBreak : IsBreak behind)
    (stands : Stands text offset (word ++ behind)) :
    (argument (ruleWithin .standard (depth + 1)) .command).Rejects
      (Cursor.within text offset) := by
  obtain ⟨wordLike, named, reserved, noPrefix⟩ := isWordOperator_spec isWord
  have starts : startsToken (word ++ behind) = true := wordLike.startsToken_eq behind
  have noLead : Stands text offset ([] ++ (word ++ behind)) := stands
  refine rejects_orElse.mpr ⟨rejects_bind.mpr (Or.inl ?_), rejects_bind.mpr (Or.inl ?_)⟩
  · refine spaced_rejects noLead .none starts (rejects_terminal.mpr ?_)
    rw [Cursor.rest_within, show text.drop (offset + [].length) = word ++ behind from
      stands.drop_eq]
    exact Lexeme.label_eq_none isBreak named
  · exact rejects_orElse.mpr ⟨prefixed_rejects _ .none starts isBreak noPrefix noLead,
      operand_rejects _ wordLike isBreak reserved .none noLead⟩

/-- In front of an operator one blank is the gap of a call without parentheses. -/
theorem commandStart_follower {word : List Char} (rest : List Char) (filled : word ≠ [])
    (starts : startsToken word = true) :
    Lexeme.commandStart (' ' :: (word ++ ' ' :: rest)) =
      if Lexeme.startsArgument (word ++ [' ']) then some 1 else none := by
  have gap : Lexeme.commandGapLength (' ' :: (word ++ ' ' :: rest)) = 1 := by
    cases word with
    | nil => exact (filled rfl).elim
    | cons character word =>
        obtain ⟨notBlank, notBackslash, -⟩ := startsToken_head starts
        have notSpace : character ≠ ' ' := by
          rintro rfl
          exact absurd notBlank (by decide)
        have notTab : character ≠ '\t' := by
          rintro rfl
          exact absurd notBlank (by decide)
        rw [Lexeme.commandGapLength.eq_4 _ _ (by simp) (by simp), List.cons_append,
          Lexeme.commandGapLength.eq_4 _ _ (by simp [notBackslash]) (by simp [notBackslash])]
        simp [notSpace, notTab]
  rw [Lexeme.commandStart, gap, List.drop_succ_cons, List.drop_zero,
    Lexeme.startsArgument_append_blank filled]
  simp

/-- A name in front of an operator is no call without parentheses. -/
theorem commandCall_reads_name {depth : Nat} (deep : 0 < depth) {name : String}
    (isName : Phrase.isName name = true) (isLead : IsLead lead) (follows : Follows mode tail)
    (stands : Stands text offset (lead ++ (name.toList ++ tail))) :
    (commandCall (ruleWithin .standard depth)).Reads (Cursor.within text offset)
      (.token name (offset + lead.length))
      (Cursor.within text (offset + lead.length + name.length)) := by
  have behindName := stands.behind_word
  refine reads_bind.mpr ⟨_, _, operand_reads_name _ isName isLead follows stands,
    reads_bind.mpr ⟨none, _, reads_optional.mpr (Or.inr ⟨rfl, rfl, ?_⟩),
      reads_pure.mpr ⟨rfl, rfl⟩⟩⟩
  cases follows with
  | ends =>
      refine rejects_bind.mpr (Or.inl (rejects_scan.mpr ?_))
      rw [Cursor.rest_within, behindName.drop_eq]
      rfl
  | @word word member rest =>
      obtain ⟨filled, starts, -⟩ := Phrase.followers_plain mode word member
      have scanned := commandStart_follower rest filled starts
      cases argued : Lexeme.startsArgument (word.toList ++ [' ']) with
      | false =>
          refine rejects_bind.mpr (Or.inl (rejects_scan.mpr ?_))
          rw [Cursor.rest_within, behindName.drop_eq, scanned, argued]
          rfl
      | true =>
          obtain ⟨smaller, rfl⟩ : ∃ smaller, depth = smaller + 1 := ⟨depth - 1, by omega⟩
          obtain ⟨advanced, behindBlank⟩ := behindName.behind_blank
          have isWord := Phrase.followers_argument mode word member argued
          refine rejects_bind.mpr (Or.inr ⟨(), _, reads_scan.mpr ⟨1, ?_, advanced.symm⟩, ?_⟩)
          · rw [Cursor.rest_within, behindName.drop_eq, scanned, argued]
            rfl
          · exact rejects_bind.mpr (Or.inr ⟨_, _, reads_here.mpr ⟨rfl, rfl⟩, rejects_bind.mpr
              (Or.inl (rejects_bind.mpr (Or.inl
                (argument_rejects smaller isWord (.blank rest) behindBlank))))⟩)

/-! ### Names as operands of chains -/

theorem prefixSpellings_apart (mode : Mode) :
    ∀ word ∈ (OperatorTables.standard.of mode).prefixSpellings,
      startsWithChar (fun mark => !isNameStart mark) word.toList = true ∨
        word ∈ Lexeme.reservedWords ∨ word = "defined?" :=
  forall_prefixSpellings (by decide +kernel) mode

theorem oneOf_prefixSpellings_name (mode : Mode) {name : String}
    (isName : Phrase.isName name = true) :
    Lexeme.oneOf (OperatorTables.standard.of mode).prefixSpellings name.toList = none := by
  obtain ⟨⟨⟨character, rest, name_eq, starts⟩, -⟩, free, -⟩ := isName_spec isName
  simp only [Lexeme.startsReserved, Bool.or_eq_false_iff, List.any_eq_false] at free
  have filled : (OperatorTables.standard.of mode).prefixSpellings ≠ [] := by
    rw [prefixSpellings_eq]
    cases mode <;> decide
  refine oneOf_eq_none filled fun word member => ?_
  rcases prefixSpellings_apart mode word member with marks | reserved | rfl
  · rw [name_eq]
    exact Lexeme.spelling_eq_none starts rest marks
  · simpa using free.1 word reserved
  · rw [Lexeme.spelling, free.2]
    rfl

theorem chainOperand_reads_name {depth : Nat} (deep : 0 < depth) {name : String}
    (isName : Phrase.isName name = true) (isLead : IsLead lead) (follows : Follows mode tail)
    (stands : Stands text offset (lead ++ (name.toList ++ tail))) :
    (chainOperand .standard (ruleWithin .standard depth) mode).Reads (Cursor.within text offset)
      (.token name (offset + lead.length))
      (Cursor.within text (offset + lead.length + name.length)) := by
  obtain ⟨wordLike, -, -⟩ := isName_spec isName
  refine reads_orElse.mpr (Or.inr ⟨prefixed_rejects _ isLead (wordLike.startsToken_eq tail)
    follows.isBreak (oneOf_prefixSpellings_name mode isName) stands, ?_⟩)
  cases mode with
  | statement => exact commandCall_reads_name deep isName isLead follows stands
  | argument | command => exact operand_reads_name _ isName isLead follows stands

end Matcher

end RubySyntax
