import RubySyntax.Proofs.CommentRun
import RubySyntax.Proofs.ShiftReduce
import RubySyntax.Proofs.WordBreaks

/-!
# Reading words

What the grammar reads where a word stands in front of a break.  A token is read
behind at most one blank, a name is an operand without suffixes, and no operator
is taken for an operand or for the first argument of a call.
-/

namespace RubySyntax

/-! ### Places of words -/

/-- The rest of a text from an offset on. -/
structure Stands (text : List Char) (offset : Nat) (rest : List Char) : Prop where
  within : offset ≤ text.length
  drop_eq : text.drop offset = rest

theorem Stands.advance {text : List Char} {offset : Nat} {front back : List Char}
    (stands : Stands text offset (front ++ back)) :
    (Cursor.within text offset).advance front.length =
        Cursor.within text (offset + front.length) ∧
      Stands text (offset + front.length) back := by
  have length_eq := congrArg List.length stands.drop_eq
  have within := stands.within
  simp only [List.length_drop, List.length_append] at length_eq
  refine ⟨Cursor.advance_within (by omega), by omega, ?_⟩
  rw [← List.drop_drop, stands.drop_eq, List.drop_left]

/-- What may stand in front of a word: nothing, or one blank. -/
inductive IsLead : List Char → Prop
  | none : IsLead []
  | blank : IsLead [' ']

/-- Whether a text begins neither with what is skipped nor with a comment. -/
def startsToken (text : List Char) : Bool :=
  !startsWithChar (fun character => isBlank character || character == '\\' || character == '#')
      text &&
    !"=begin".toList.isPrefixOf text

theorem startsToken_append_break {word behind : List Char} (isBreak : IsBreak behind)
    (filled : word ≠ []) : startsToken (word ++ behind) = startsToken word := by
  cases word with
  | nil => exact (filled rfl).elim
  | cons character word =>
      rw [startsToken, startsToken, isPrefixOf_append_break isBreak (by decide)]
      rfl

theorem startsToken_head {character : Char} {rest : List Char}
    (starts : startsToken (character :: rest) = true) :
    isBlank character = false ∧ character ≠ '\\' ∧ character ≠ '#' := by
  simp only [startsToken, startsWithChar, List.head?_cons, Option.any_some, Bool.and_eq_true,
    Bool.not_eq_true', Bool.or_eq_false_iff, beq_eq_false_iff_ne] at starts
  exact ⟨starts.1.1.1, starts.1.1.2, starts.1.2⟩

/-- In front of a token nothing but the blank is skipped, and no comment stands there. -/
theorem Skip.length_lead {kind : Skip} (solid : kind ≠ .gap) {lead rest : List Char}
    (isLead : IsLead lead) (starts : startsToken rest = true) :
    kind.length (lead ++ rest) = lead.length := by
  have none_eq : kind.length rest = 0 := by
    cases rest with
    | nil => cases kind <;> rfl
    | cons character rest =>
        obtain ⟨notBlank, notBackslash, -⟩ := startsToken_head starts
        cases kind with
        | blanks => simp [length, countWhile_cons, notBlank]
        | gap => exact (solid rfl).elim
        | horizontal =>
            have notHorizontal : Lexeme.isHorizontal character = false := by
              rw [← Bool.not_eq_true]
              intro horizontal
              rw [Lexeme.isBlank_of_isHorizontal horizontal] at notBlank
              cases notBlank
            rw [length, Lexeme.horizontalLength.eq_4 _ _ (by simp [notBackslash])
              (by simp [notBackslash])]
            simp [notHorizontal]
  cases isLead with
  | none => exact none_eq
  | blank =>
      cases kind with
      | blanks =>
          rw [length] at none_eq ⊢
          rw [List.cons_append, countWhile_cons, List.nil_append, none_eq]
          rfl
      | gap => exact (solid rfl).elim
      | horizontal =>
          rw [length] at none_eq ⊢
          rw [List.cons_append, List.nil_append, Lexeme.horizontalLength.eq_4 _ _ (by simp)
            (by simp), none_eq]
          rfl

namespace Matcher

variable {text lead rest word behind : List Char} {offset : Nat}

/-! ### Tokens behind blanks -/

theorem anyComment_rejects (stands : Stands text offset rest)
    (starts : startsToken rest = true) : anyComment.Rejects (Cursor.within text offset) := by
  refine rejects_orElse.mpr ⟨rejects_blockComment.mpr fun _ => ?_, rejects_commentOf.mpr ?_⟩
  · simp only [startsToken, Bool.and_eq_true, Bool.not_eq_true'] at starts
    rw [Cursor.rest_within, stands.drop_eq, CommentSpan.ofBlock?, CommentSpan.startsMarker,
      starts.2]
    rfl
  · rw [Cursor.rest_within, stands.drop_eq]
    cases rest with
    | nil => rfl
    | cons character rest =>
        rw [CommentSpan.ofLine?.eq_2 _ (by simp [(startsToken_head starts).2.2])]

theorem commentsBefore_reads (stands : Stands text offset (lead ++ rest)) (isLead : IsLead lead)
    (starts : startsToken rest = true) :
    (commentsBefore .blanks).Reads (Cursor.within text offset) [] (Cursor.within text offset) := by
  refine reads_many .nil (rejects_afterSkip.mpr ?_) (Nat.zero_le _)
  obtain ⟨advanced, behind⟩ := stands.advance
  rw [Cursor.rest_within, stands.drop_eq, Skip.length_lead (by decide) isLead starts, advanced]
  exact anyComment_rejects behind starts

theorem advance_lead {kind : Skip} (solid : kind ≠ .gap)
    (stands : Stands text offset (lead ++ rest)) (isLead : IsLead lead)
    (starts : startsToken rest = true) :
    (Cursor.within text offset).advance (kind.length (Cursor.within text offset).rest) =
      Cursor.within text (offset + lead.length) := by
  rw [Cursor.rest_within, stands.drop_eq, Skip.length_lead solid isLead starts]
  exact stands.advance.1

section

variable {matcher : Matcher Node} {node : Node} {next : Cursor}
  (stands : Stands text offset (lead ++ rest)) (isLead : IsLead lead)
  (starts : startsToken rest = true)

include stands isLead starts

theorem afterSkip_reads {kind : Skip} (solid : kind ≠ .gap)
    (reads : matcher.Reads (Cursor.within text (offset + lead.length)) node next) :
    (afterSkip kind matcher).Reads (Cursor.within text offset) node next := by
  rw [reads_afterSkip, advance_lead solid stands isLead starts]
  exact reads

theorem afterSkip_rejects {kind : Skip} (solid : kind ≠ .gap)
    (rejects : matcher.Rejects (Cursor.within text (offset + lead.length))) :
    (afterSkip kind matcher).Rejects (Cursor.within text offset) := by
  rw [rejects_afterSkip, advance_lead solid stands isLead starts]
  exact rejects

theorem spaced_reads
    (reads : matcher.Reads (Cursor.within text (offset + lead.length)) node next) :
    (spaced matcher).Reads (Cursor.within text offset) node next :=
  reads_bind.mpr ⟨[], _, commentsBefore_reads stands isLead starts, reads_bind.mpr ⟨node, next,
    afterSkip_reads stands isLead starts (by decide) reads,
    reads_pure.mpr ⟨(Node.withComments_nil node).symm, rfl⟩⟩⟩

theorem spaced_rejects
    (rejects : matcher.Rejects (Cursor.within text (offset + lead.length))) :
    (spaced matcher).Rejects (Cursor.within text offset) :=
  rejects_bind.mpr (Or.inr ⟨[], _, commentsBefore_reads stands isLead starts,
    rejects_bind.mpr (Or.inl (afterSkip_rejects stands isLead starts (by decide) rejects))⟩)

theorem beforeOperator_reads (mode : Mode)
    (reads : matcher.Reads (Cursor.within text (offset + lead.length)) node next) :
    (beforeOperator mode matcher).Reads (Cursor.within text offset) node next := by
  cases mode with
  | argument => exact spaced_reads stands isLead starts reads
  | _ => exact afterSkip_reads stands isLead starts (by decide) reads

theorem beforeOperator_rejects (mode : Mode)
    (rejects : matcher.Rejects (Cursor.within text (offset + lead.length))) :
    (beforeOperator mode matcher).Rejects (Cursor.within text offset) := by
  cases mode with
  | argument => exact spaced_rejects stands isLead starts rejects
  | _ => exact afterSkip_rejects stands isLead starts (by decide) rejects

end

/-! ### Single words -/

theorem reads_word {kind : Terminal} {word : String} (stops : Lexeme.StopsAt behind kind.scanner)
    (dataOf_eq : kind.dataOf = String.ofList)
    (stands : Stands text offset (word.toList ++ behind))
    (scanned : kind.scanner word.toList = some word.length) :
    (terminal kind).Reads (Cursor.within text offset) (.token word offset)
      (Cursor.within text (offset + word.length)) := by
  obtain ⟨advanced, -⟩ := stands.advance
  rw [String.length_toList] at advanced
  refine reads_terminal.mpr ⟨word.length, ?_, ?_, advanced.symm⟩
  · rw [Cursor.rest_within, stands.drop_eq, stops, scanned]
  · rw [leafAt, dataOf_eq, Cursor.rest_within, stands.drop_eq, ← String.length_toList,
      List.take_left, String.ofList_toList]
    rfl

theorem rejects_word {kind : Terminal} (stops : Lexeme.StopsAt behind kind.scanner)
    (stands : Stands text offset (word ++ behind))
    (scanned : kind.scanner word = none) :
    (terminal kind).Rejects (Cursor.within text offset) := by
  rw [rejects_terminal, Cursor.rest_within, stands.drop_eq, stops, scanned]

/-! ### Choices -/

theorem rejects_firstOf {α : Type} {matchers : List (Matcher α)} {cursor : Cursor}
    (rejects : ∀ matcher ∈ matchers, matcher.Rejects cursor) :
    (firstOf matchers).Rejects cursor := by
  induction matchers with
  | nil => exact rejects_firstOf_nil
  | cons matcher others ih =>
      exact rejects_firstOf_cons.mpr ⟨rejects matcher List.mem_cons_self,
        ih fun other member => rejects other (List.mem_cons_of_mem _ member)⟩

theorem reads_firstOf_append {α : Type} {front back : List (Matcher α)} {cursor next : Cursor}
    {value : α} (rejects : ∀ matcher ∈ front, matcher.Rejects cursor)
    (reads : (firstOf back).Reads cursor value next) :
    (firstOf (front ++ back)).Reads cursor value next := by
  induction front with
  | nil => exact reads
  | cons matcher others ih =>
      exact reads_firstOf_cons.mpr (Or.inr ⟨rejects matcher List.mem_cons_self,
        ih fun other member => rejects other (List.mem_cons_of_mem _ member)⟩)

/-! ### Names as operands -/

def definitionWords : List String :=
  ["def", "class", "module", "alias"]

/-- A word that begins like a name but begins no definition. -/
structure IsWordLike (word : List Char) : Prop where
  begins : ∃ character rest, word = character :: rest ∧ isNameStart character = true
  undefined : ∀ keyword ∈ definitionWords, Lexeme.spelling keyword word = none

theorem definitionWords_solid : ∀ word ∈ definitionWords, IsSolid word.toList := by
  decide

theorem IsWordLike.startsToken_eq (wordLike : IsWordLike word) (behind : List Char) :
    startsToken (word ++ behind) = true := by
  obtain ⟨character, rest, rfl, starts⟩ := wordLike.begins
  have notEquals : character ≠ '=' := Lexeme.ne_of_isNameStart starts (by decide)
  have unmarked : "=begin".toList.isPrefixOf (character :: rest ++ behind) = false := by
    rw [show "=begin".toList = '=' :: "begin".toList by decide]
    simp [List.isPrefixOf, notEquals.symm]
  have notBackslash : character ≠ '\\' := Lexeme.ne_of_isNameStart starts (by decide)
  have notSign : character ≠ '#' := Lexeme.ne_of_isNameStart starts (by decide)
  rw [startsToken, unmarked]
  simp [startsWithChar, Lexeme.isBlank_of_isNameStart starts, notBackslash, notSign]

/-- The operands that are tried in front of a name. -/
def earlyOperands (rules : Rules) : List (Matcher Node) :=
  [methodDefinition rules, classDefinition rules, moduleDefinition rules, aliasDefinition,
    terminal .number, terminal .symbol, terminal .globalVariable, terminal .instanceVariable,
    terminal .regexp]

/-- The operands that are tried behind a name. -/
def lateOperands (rules : Rules) : List (Matcher Node) :=
  [group rules, container rules "[" "]", container rules "\x7b" "\x7d"]

theorem primary_eq (rules : Rules) : primary rules =
    spaced (firstOf (earlyOperands rules ++ terminal .identifier :: lateOperands rules)) :=
  rfl

theorem definition_rejects {keyword : String} (member : keyword ∈ definitionWords)
    {parts : Matcher (List Node)} (wordLike : IsWordLike word) (isBreak : IsBreak behind)
    (stands : Stands text offset (word ++ behind)) :
    (definition keyword parts).Rejects (Cursor.within text offset) :=
  rejects_bind.mpr (Or.inl (rejects_word
    (Lexeme.spelling_stopsAtBreaks (definitionWords_solid keyword member) isBreak) stands
    (wordLike.undefined keyword member)))

theorem earlyOperands_reject (rules : Rules) (wordLike : IsWordLike word)
    (isBreak : IsBreak behind) (stands : Stands text offset (word ++ behind)) :
    ∀ matcher ∈ earlyOperands rules, matcher.Rejects (Cursor.within text offset) := by
  obtain ⟨character, rest, word_eq, starts⟩ := wordLike.begins
  have drop_eq : (Cursor.within text offset).rest = character :: (rest ++ behind) := by
    rw [Cursor.rest_within, stands.drop_eq, word_eq]
    rfl
  have defined : ∀ {keyword : String} {parts : Matcher (List Node)},
      keyword ∈ definitionWords →
        (definition keyword parts).Rejects (Cursor.within text offset) :=
    fun member => definition_rejects member wordLike isBreak stands
  intro matcher member
  simp only [earlyOperands, List.mem_cons, List.not_mem_nil, or_false] at member
  rcases member with rfl | rfl | rfl | rfl | rfl | rfl | rfl | rfl | rfl
  · exact defined (by decide)
  · exact defined (by decide)
  · exact defined (by decide)
  · exact defined (by decide)
  · exact rejects_terminal.mpr (drop_eq ▸ Lexeme.number_eq_none starts _)
  · exact rejects_terminal.mpr (drop_eq ▸ Lexeme.symbol_eq_none starts _)
  · exact rejects_terminal.mpr (drop_eq ▸ Lexeme.globalVariable_eq_none starts _)
  · exact rejects_terminal.mpr (drop_eq ▸ Lexeme.instanceVariable_eq_none starts _)
  · exact rejects_terminal.mpr (drop_eq ▸ Lexeme.regexp_eq_none starts _)

theorem lateOperands_reject (rules : Rules) (wordLike : IsWordLike word)
    (stands : Stands text offset (word ++ behind)) :
    ∀ matcher ∈ lateOperands rules, matcher.Rejects (Cursor.within text offset) := by
  obtain ⟨character, rest, word_eq, starts⟩ := wordLike.begins
  have drop_eq : (Cursor.within text offset).rest = character :: (rest ++ behind) := by
    rw [Cursor.rest_within, stands.drop_eq, word_eq]
    rfl
  have marked : ∀ {symbol excluded : String},
      startsWithChar (fun mark => !isNameStart mark) symbol.toList = true →
        (punctuation symbol excluded).Rejects (Cursor.within text offset) :=
    fun marks => rejects_terminal.mpr (drop_eq ▸ Lexeme.punctuation_eq_none starts _ marks _)
  intro matcher member
  simp only [lateOperands, List.mem_cons, List.not_mem_nil, or_false] at member
  rcases member with rfl | rfl | rfl
  · exact rejects_bind.mpr (Or.inl (marked (by decide)))
  · exact rejects_bind.mpr (Or.inl (rejects_bind.mpr (Or.inl (marked (by decide)))))
  · exact rejects_bind.mpr (Or.inl (rejects_bind.mpr (Or.inl (marked (by decide)))))

theorem operand_rejects (rules : Rules) (wordLike : IsWordLike word) (isBreak : IsBreak behind)
    (reserved : Lexeme.identifier word = none) (isLead : IsLead lead)
    (stands : Stands text offset (lead ++ (word ++ behind))) :
    (operand rules).Rejects (Cursor.within text offset) := by
  have behindLead := stands.advance.2
  refine rejects_bind.mpr (Or.inl ?_)
  rw [primary_eq]
  refine spaced_rejects stands isLead (wordLike.startsToken_eq behind) (rejects_firstOf ?_)
  intro matcher member
  rcases List.mem_append.mp member with early | late
  · exact earlyOperands_reject rules wordLike isBreak behindLead matcher early
  · rcases List.mem_cons.mp late with rfl | later
    · exact rejects_word (Lexeme.identifier_stopsAtBreaks isBreak) behindLead reserved
    · exact lateOperands_reject rules wordLike behindLead matcher later

theorem isName_spec {name : String} (isName : Phrase.isName name = true) :
    IsWordLike name.toList ∧ Lexeme.startsReserved name.toList = false ∧
      Lexeme.identifier name.toList = some name.length := by
  have scanned : Lexeme.identifier name.toList = some name.length := by
    simpa [Phrase.isName] using isName
  obtain ⟨free, stem, named, -⟩ := Lexeme.identifier_eq_some scanned
  obtain ⟨character, rest, word_eq, starts, -⟩ := Lexeme.name_eq_some named
  refine ⟨⟨⟨character, rest, word_eq, starts⟩, fun keyword member => ?_⟩, free, scanned⟩
  have reserved : ∀ word ∈ definitionWords, word ∈ Lexeme.reservedWords := by decide
  simp only [Lexeme.startsReserved, Bool.or_eq_false_iff, List.any_eq_false] at free
  simpa using free.1 keyword (reserved keyword member)

theorem primary_reads_name (rules : Rules) {name : String} (isName : Phrase.isName name = true)
    (isBreak : IsBreak behind) (isLead : IsLead lead)
    (stands : Stands text offset (lead ++ (name.toList ++ behind))) :
    (primary rules).Reads (Cursor.within text offset) (.token name (offset + lead.length))
      (Cursor.within text (offset + lead.length + name.length)) := by
  obtain ⟨wordLike, -, scanned⟩ := isName_spec isName
  have behindLead := stands.advance.2
  rw [primary_eq]
  refine spaced_reads stands isLead (wordLike.startsToken_eq behind) (reads_firstOf_append
    (earlyOperands_reject rules wordLike isBreak behindLead) (reads_firstOf_cons.mpr (Or.inl ?_)))
  exact reads_word (Lexeme.identifier_stopsAtBreaks isBreak) rfl behindLead scanned

end Matcher

end RubySyntax
