import RubySyntax.Proofs.CommentRun
import RubySyntax.Proofs.LexemeExtent
import RubySyntax.Proofs.MatcherAnswers

/-!
# Runs that come to an end

A run is over at once only where a bound is too small or a table lacks an
operator.  This file says when a matcher is not aborted on short texts and how
much it reads, with one rule for each way to put matchers together.  A
repetition comes to an end because each of its rounds reads something.
-/

namespace RubySyntax

namespace Matcher

variable {α β : Type}

/-- On texts shorter than a bound a matcher is not aborted, and where it fits it reads at
least a number of characters. -/
structure Consumes (least bound : Nat) (matcher : Matcher α) : Prop where
  /-- The run is not aborted. -/
  halts : ∀ cursor : Cursor, cursor.rest.length < bound →
    (∃ value next, matcher.Reads cursor value next) ∨ matcher.Rejects cursor
  /-- What is read is long enough. -/
  reads : ∀ {cursor next : Cursor} {value : α}, cursor.rest.length < bound →
    matcher.Reads cursor value next → next.rest.length + least ≤ cursor.rest.length

namespace Consumes

variable {least bound : Nat} {matcher : Matcher α}

theorem mono {other shorter : Nat} (consumes : Consumes least bound matcher)
    (fewer : other ≤ least) (short : shorter ≤ bound) : Consumes other shorter matcher where
  halts cursor within := consumes.halts cursor (by omega)
  reads within read := by
    have := consumes.reads (by omega) read
    omega

/-- What reads something at least moves on. -/
theorem weaken (consumes : Consumes least bound matcher) : Consumes 0 bound matcher :=
  consumes.mono (Nat.zero_le _) (Nat.le_refl _)

theorem ne_aborted (consumes : Consumes least bound matcher) {cursor : Cursor}
    (within : cursor.rest.length < bound) (fault : Fault) : matcher cursor ≠ .aborted fault := by
  intro aborted
  rcases consumes.halts cursor within with ⟨value, next, trace, run⟩ | ⟨trace, run⟩
  · rw [run] at aborted
    cases aborted
  · rw [run] at aborted
    cases aborted

/-- Nothing is to show for texts shorter than nothing. -/
theorem zero : Consumes least 0 matcher where
  halts _ within := absurd within (Nat.not_lt_zero _)
  reads within := absurd within (Nat.not_lt_zero _)

/-! ### Values and sequences -/

theorem pure {value : α} : Consumes 0 bound (pure value) where
  halts cursor _ := Or.inl ⟨value, cursor, reads_pure.mpr ⟨rfl, rfl⟩⟩
  reads _ read := by
    obtain ⟨-, rfl⟩ := reads_pure.mp read
    exact Nat.le_refl _

/-- In a sequence both parts read their share, the second one on the text that is left. -/
theorem bindAnswers {rest part others : Nat} {property : α → Prop} {continuation : α → Matcher β}
    (first : Consumes part bound matcher) (answers : Answers property matcher)
    (continues : ∀ value, property value → Consumes others rest (continuation value))
    (left : bound ≤ rest + part) : Consumes (part + others) bound (matcher >>= continuation) where
  halts cursor within := by
    rcases first.halts cursor within with ⟨value, next, read⟩ | rejects
    · have shrinks := first.reads within read
      rcases (continues value (answers read)).halts next (by omega) with
        ⟨answer, last, readOn⟩ | rejectsOn
      · exact Or.inl ⟨answer, last, reads_bind.mpr ⟨value, next, read, readOn⟩⟩
      · exact Or.inr (rejects_bind.mpr (Or.inr ⟨value, next, read, rejectsOn⟩))
    · exact Or.inr (rejects_bind.mpr (Or.inl rejects))
  reads within read := by
    obtain ⟨value, next, firstRead, readOn⟩ := reads_bind.mp read
    have shrinks := first.reads within firstRead
    have onward := (continues value (answers firstRead)).reads (by omega) readOn
    omega

/-- What follows may read nothing. -/
theorem bind {continuation : α → Matcher β} (first : Consumes least bound matcher)
    (continues : ∀ value, Consumes 0 bound (continuation value)) :
    Consumes least bound (matcher >>= continuation) :=
  first.bindAnswers (fun _ _ _ _ => trivial) (fun value _ => continues value) (by omega)

/-- What comes first may read nothing. -/
theorem bindAfter {continuation : α → Matcher β} (first : Consumes 0 bound matcher)
    (continues : ∀ value, Consumes least bound (continuation value)) :
    Consumes least bound (matcher >>= continuation) :=
  (first.bindAnswers (fun _ _ _ _ => trivial) (fun value _ => continues value)
    (by omega)).mono (by omega) (Nat.le_refl _)

/-- Behind something that was read a shorter bound is enough. -/
theorem guarding {continuation : α → Matcher β} (first : Consumes 1 (bound + 1) matcher)
    (continues : ∀ value, Consumes 0 bound (continuation value)) :
    Consumes 1 (bound + 1) (matcher >>= continuation) :=
  first.bindAnswers (fun _ _ _ _ => trivial) (fun value _ => continues value) (Nat.le_refl _)

theorem ofReduction {reduction : Except MissingOperator α}
    (succeeds : ∃ value, reduction = .ok value) : Consumes 0 bound (ofReduction reduction) := by
  obtain ⟨value, rfl⟩ := succeeds
  exact pure

/-! ### Choices -/

theorem orElse {second : Matcher α} (first : Consumes least bound matcher)
    (otherwise : Consumes least bound second) : Consumes least bound (matcher.orElse second) where
  halts cursor within := by
    rcases first.halts cursor within with ⟨value, next, read⟩ | rejects
    · exact Or.inl ⟨value, next, reads_orElse.mpr (Or.inl read)⟩
    · rcases otherwise.halts cursor within with ⟨value, next, read⟩ | alsoRejects
      · exact Or.inl ⟨value, next, reads_orElse.mpr (Or.inr ⟨rejects, read⟩)⟩
      · exact Or.inr (rejects_orElse.mpr ⟨rejects, alsoRejects⟩)
  reads within read := by
    rcases reads_orElse.mp read with read | ⟨-, read⟩
    · exact first.reads within read
    · exact otherwise.reads within read

theorem firstOf {matchers : List (Matcher α)}
    (each : ∀ matcher ∈ matchers, Consumes least bound matcher) :
    Consumes least bound (firstOf matchers) := by
  induction matchers with
  | nil => exact ⟨fun _ _ => Or.inr rejects_firstOf_nil, fun _ read => (reads_firstOf_nil read).elim⟩
  | cons matcher others ih =>
      exact (each matcher List.mem_cons_self).orElse
        (ih fun other member => each other (List.mem_cons_of_mem _ member))

theorem optional (consumes : Consumes least bound matcher) :
    Consumes 0 bound (optional matcher) where
  halts cursor within := by
    rcases consumes.halts cursor within with ⟨value, next, read⟩ | rejects
    · exact Or.inl ⟨some value, next, reads_optional.mpr (Or.inl ⟨value, rfl, read⟩)⟩
    · exact Or.inl ⟨none, cursor, reads_optional.mpr (Or.inr ⟨rfl, rfl, rejects⟩)⟩
  reads within read := by
    rcases reads_optional.mp read with ⟨value, -, read⟩ | ⟨-, rfl, -⟩
    · have := consumes.reads within read
      omega
    · omega

/-! ### Repetitions -/

/-- The rounds of a repetition come to an end, after at most as many as there are
characters. -/
private theorem exists_readsEach (consumes : Consumes 1 bound matcher) :
    ∀ (count : Nat) (cursor : Cursor), cursor.rest.length = count → count < bound →
      ∃ values last, matcher.ReadsEach cursor values last ∧ matcher.Rejects last ∧
        values.length ≤ count := by
  intro count
  induction count using Nat.strongRecOn with
  | ind count ih =>
      intro cursor length_eq within
      rcases consumes.halts cursor (by omega) with ⟨value, next, read⟩ | rejects
      · have shrinks := consumes.reads (by omega) read
        obtain ⟨values, last, each, rejects, few⟩ :=
          ih next.rest.length (by omega) next rfl (by omega)
        refine ⟨value :: values, last, .cons read each, rejects, ?_⟩
        rw [List.length_cons]
        omega
      · exact ⟨[], cursor, .nil, rejects, Nat.zero_le _⟩

private theorem reads_each (consumes : Consumes 1 bound matcher) {cursor last : Cursor}
    {values : List α} (each : matcher.ReadsEach cursor values last)
    (within : cursor.rest.length < bound) :
    values.length + last.rest.length ≤ cursor.rest.length := by
  induction each with
  | nil => simp
  | cons head tail ih =>
      have shrinks := consumes.reads within head
      have := ih (by omega)
      simp only [List.length_cons]
      omega

theorem many (consumes : Consumes 1 bound matcher) : Consumes 0 bound (many matcher) where
  halts cursor within := by
    obtain ⟨values, last, each, rejects, few⟩ := exists_readsEach consumes _ cursor rfl within
    exact Or.inl ⟨values, last, reads_many each rejects few⟩
  reads within read := by
    have := reads_each consumes read.each_of_many within
    omega

/-- Rounds that each read something are never too many for a repetition. -/
theorem manyOfEach (consumes : Consumes 1 bound matcher) {cursor last : Cursor} {values : List α}
    (each : matcher.ReadsEach cursor values last) (rejects : matcher.Rejects last)
    (within : cursor.rest.length < bound) : (Matcher.many matcher).Reads cursor values last := by
  refine reads_many each rejects ?_
  have := reads_each consumes each within
  omega

/-! ### Skips, scanners and terminals -/

private theorem length_advance (count : Nat) (cursor : Cursor) :
    (cursor.advance count).rest.length ≤ cursor.rest.length := by
  rw [Cursor.rest_advance, List.length_drop]
  omega

theorem here : Consumes 0 bound here where
  halts cursor _ := Or.inl ⟨_, cursor, reads_here.mpr ⟨rfl, rfl⟩⟩
  reads _ read := by
    obtain ⟨-, rfl⟩ := reads_here.mp read
    exact Nat.le_refl _

theorem skip (kind : Skip) : Consumes 0 bound (skip kind) where
  halts cursor _ := Or.inl ⟨(), _, reads_skip.mpr rfl⟩
  reads _ read := by
    rw [reads_skip.mp read]
    exact length_advance _ _

theorem scan (scanner : Scanner) : Consumes 0 bound (scan scanner) where
  halts cursor _ := by
    cases scanned : scanner cursor.rest with
    | some length => exact Or.inl ⟨(), _, reads_scan.mpr ⟨length, scanned, rfl⟩⟩
    | none => exact Or.inr (rejects_scan.mpr scanned)
  reads _ read := by
    obtain ⟨length, -, rfl⟩ := reads_scan.mp read
    exact length_advance _ _

theorem afterSkip {kind : Skip} (consumes : Consumes least bound matcher) :
    Consumes least bound (afterSkip kind matcher) :=
  (skip kind).bindAfter fun _ => consumes

/-- A terminal whose scanner reads at least a number of characters of the text. -/
theorem terminal {kind : Terminal}
    (reaches : ∀ {text : List Char} {length : Nat}, kind.scanner text = some length →
      least ≤ length ∧ (0 < least → length ≤ text.length)) :
    Consumes least bound (terminal kind) where
  halts cursor _ := by
    cases scanned : kind.scanner cursor.rest with
    | some length => exact Or.inl ⟨_, _, reads_terminal.mpr ⟨length, scanned, rfl, rfl⟩⟩
    | none => exact Or.inr (rejects_terminal.mpr scanned)
  reads _ read := by
    obtain ⟨length, scanned, -, rfl⟩ := reads_terminal.mp read
    obtain ⟨enough, inside⟩ := reaches scanned
    rw [Cursor.rest_advance, List.length_drop]
    rcases Nat.eq_zero_or_pos least with rfl | positive
    · omega
    · have := inside positive
      omega

theorem token (kind : Terminal) : Consumes 0 bound (Matcher.terminal kind) :=
  terminal fun _ => ⟨Nat.zero_le _, fun impossible => absurd impossible (Nat.lt_irrefl _)⟩

/-- The token of an operand is not empty. -/
theorem ofOperand {kind : Terminal} (operand : Lexeme.ReadsOperand kind.scanner) :
    Consumes 1 bound (Matcher.terminal kind) :=
  terminal fun scanned => ⟨operand.pos scanned, fun _ => operand.within scanned⟩

/-- A token that is spelled out is as long as its spelling. -/
private theorem ofWord {kind : Terminal}
    (spelled : ∀ {text : List Char} {length : Nat}, kind.scanner text = some length →
      ∃ word : String, word ≠ "" ∧ word.toList <+: text ∧ length = word.length) :
    Consumes 1 bound (Matcher.terminal kind) :=
  terminal fun scanned => by
    obtain ⟨word, nonempty, begins, rfl⟩ := spelled scanned
    have inside := begins.length_le
    have positive : 0 < word.toList.length :=
      List.length_pos_iff.mpr fun empty => nonempty (String.toList_eq_nil_iff.mp empty)
    rw [String.length_toList] at inside positive
    exact ⟨positive, fun _ => inside⟩

theorem punctuation {symbol excluded : String} (nonempty : symbol ≠ "") :
    Consumes 1 bound (punctuation symbol excluded) :=
  ofWord fun scanned =>
    have ⟨begins, length_eq⟩ := Lexeme.punctuation_eq_some scanned
    ⟨symbol, nonempty, begins, length_eq⟩

theorem keyword {word : String} (nonempty : word ≠ "") : Consumes 1 bound (keyword word) :=
  ofWord fun scanned =>
    have ⟨begins, length_eq⟩ := Lexeme.spelling_eq_some scanned
    ⟨word, nonempty, begins, length_eq⟩

theorem oneOf {spellings : List String} {name : String} (present : spellings ≠ [])
    (nonempty : "" ∉ spellings) :
    Consumes 1 bound (Matcher.terminal (.oneOf spellings name)) :=
  ofWord fun scanned =>
    have ⟨word, member, begins, length_eq⟩ := Lexeme.oneOf_eq_some present scanned
    ⟨word, fun empty => nonempty (empty ▸ member), begins, length_eq⟩

theorem label : Consumes 1 bound (Matcher.terminal .label) :=
  terminal fun scanned => by
    obtain ⟨stem, rest, rfl, positive, -, colon, -⟩ := Lexeme.label_eq_some scanned
    have := congrArg List.length colon
    rw [List.length_drop, List.length_cons] at this
    exact ⟨by omega, fun _ => by omega⟩

/-! ### Comments -/

private theorem commentOf (kind : String) (span? : List Char → Option CommentSpan) :
    Consumes 0 bound (commentOf kind span?) where
  halts cursor _ := by
    cases found : span? cursor.rest with
    | some span => exact Or.inl ⟨_, _, reads_commentOf.mpr ⟨span, found, rfl, rfl⟩⟩
    | none => exact Or.inr (rejects_commentOf.mpr found)
  reads _ read := by
    obtain ⟨span, -, rfl, -⟩ := reads_commentOf.mp read
    exact length_advance _ _

private theorem blockComment : Consumes 0 bound blockComment where
  halts cursor within := by
    by_cases lineStart : cursor.atLineStart = true
    · rcases (commentOf Tag.blockComment CommentSpan.ofBlock?).halts cursor within with
        ⟨value, next, read⟩ | rejects
      · exact Or.inl ⟨value, next, reads_blockComment.mpr ⟨lineStart, read⟩⟩
      · exact Or.inr (rejects_blockComment.mpr fun _ => rejects_commentOf.mp rejects)
    · exact Or.inr (rejects_blockComment.mpr fun starts => absurd starts lineStart)
  reads within read := (commentOf _ _).reads within (reads_blockComment.mp read).2

theorem commentsBefore (kind : Skip) : Consumes 0 bound (commentsBefore kind) := by
  have one : Consumes 0 bound (Matcher.afterSkip kind anyComment) :=
    (blockComment.orElse (commentOf _ _)).afterSkip
  exact many
    { halts := one.halts
      reads := fun _ read => anyComment_progresses _ _ _ read }

theorem spaced {node : Matcher Node} {kind : Skip} (consumes : Consumes least bound node) :
    Consumes least bound (spaced node kind) :=
  (commentsBefore kind).bindAfter fun _ => consumes.afterSkip.bind fun _ => pure

end Consumes

end Matcher

end RubySyntax
