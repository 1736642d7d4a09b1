import RubySyntax.ExpressionGrammar

/-!
# Runs of matchers

A run of a matcher at a cursor either reads up to another cursor, or does not
fit, or aborts.  This file names the first two cases apart from the trace and
says when a composed matcher is in one of them, so that later proofs take a
production apart into its tokens without unfolding any combinator.
-/

namespace RubySyntax

namespace Matcher

variable {α β : Type}

/-- The matcher reads from one cursor to another and answers a value. -/
def Reads (matcher : Matcher α) (cursor : Cursor) (value : α) (next : Cursor) : Prop :=
  ∃ trace, matcher cursor = .matched value next trace

/-- The matcher does not fit at a cursor. -/
def Rejects (matcher : Matcher α) (cursor : Cursor) : Prop :=
  ∃ trace, matcher cursor = .failed trace

theorem Reads.unique {matcher : Matcher α} {cursor next other : Cursor} {value another : α}
    (reads : matcher.Reads cursor value next) (again : matcher.Reads cursor another other) :
    value = another ∧ next = other := by
  obtain ⟨trace, run⟩ := reads
  obtain ⟨otherTrace, otherRun⟩ := again
  rw [run] at otherRun
  cases otherRun
  exact ⟨rfl, rfl⟩

theorem Reads.not_rejects {matcher : Matcher α} {cursor next : Cursor} {value : α}
    (reads : matcher.Reads cursor value next) : ¬ matcher.Rejects cursor := by
  rintro ⟨trace, rejected⟩
  obtain ⟨otherTrace, run⟩ := reads
  rw [run] at rejected
  cases rejected

/-! ### Values and sequences -/

@[simp]
theorem reads_pure {value answer : α} {cursor next : Cursor} :
    (pure value : Matcher α).Reads cursor answer next ↔ answer = value ∧ next = cursor := by
  constructor
  · rintro ⟨trace, run⟩
    cases run
    exact ⟨rfl, rfl⟩
  · rintro ⟨rfl, rfl⟩
    exact ⟨[], rfl⟩

@[simp]
theorem rejects_pure {value : α} {cursor : Cursor} :
    ¬ (pure value : Matcher α).Rejects cursor := by
  rintro ⟨trace, run⟩
  cases run

theorem bind_apply (first : Matcher α) (continuation : α → Matcher β)
    (cursor : Cursor) :
    (first >>= continuation) cursor =
      match first cursor with
      | .matched value next trace => (continuation value next).after trace
      | .failed trace => .failed trace
      | .aborted fault => .aborted fault :=
  rfl

theorem reads_bind {first : Matcher α} {continuation : α → Matcher β} {cursor last : Cursor}
    {answer : β} :
    (first >>= continuation).Reads cursor answer last ↔
      ∃ value next, first.Reads cursor value next ∧
        (continuation value).Reads next answer last := by
  constructor
  · rintro ⟨trace, run⟩
    rw [bind_apply] at run
    cases firstRun : first cursor with
    | matched value next firstTrace =>
        simp only [firstRun] at run
        cases secondRun : continuation value next with
        | matched other last secondTrace =>
            simp only [secondRun, Outcome.after, Outcome.matched.injEq] at run
            obtain ⟨rfl, rfl, -⟩ := run
            exact ⟨value, next, ⟨firstTrace, firstRun⟩, secondTrace, secondRun⟩
        | failed secondTrace => simp [secondRun, Outcome.after] at run
        | aborted fault => simp [secondRun, Outcome.after] at run
    | failed firstTrace => simp [firstRun] at run
    | aborted fault => simp [firstRun] at run
  · rintro ⟨value, next, ⟨firstTrace, firstRun⟩, secondTrace, secondRun⟩
    exact ⟨firstTrace ++ secondTrace, by rw [bind_apply, firstRun]; simp [secondRun, Outcome.after]⟩

theorem rejects_bind {first : Matcher α} {continuation : α → Matcher β} {cursor : Cursor} :
    (first >>= continuation).Rejects cursor ↔
      first.Rejects cursor ∨
        ∃ value next, first.Reads cursor value next ∧ (continuation value).Rejects next := by
  constructor
  · rintro ⟨trace, run⟩
    rw [bind_apply] at run
    cases firstRun : first cursor with
    | matched value next firstTrace =>
        simp only [firstRun] at run
        cases secondRun : continuation value next with
        | matched other last secondTrace => simp [secondRun, Outcome.after] at run
        | failed secondTrace =>
            exact Or.inr ⟨value, next, ⟨firstTrace, firstRun⟩, secondTrace, secondRun⟩
        | aborted fault => simp [secondRun, Outcome.after] at run
    | failed firstTrace => exact Or.inl ⟨firstTrace, firstRun⟩
    | aborted fault => simp [firstRun] at run
  · rintro (⟨trace, run⟩ | ⟨value, next, ⟨firstTrace, firstRun⟩, secondTrace, secondRun⟩)
    · exact ⟨trace, by rw [bind_apply, run]⟩
    · exact ⟨firstTrace ++ secondTrace, by
        rw [bind_apply, firstRun]; simp [secondRun, Outcome.after]⟩

/-- A reduction answers its value without reading, or else ends the run. -/
@[simp]
theorem reads_ofReduction {reduction : Except MissingOperator α} {cursor next : Cursor}
    {value : α} :
    (ofReduction reduction).Reads cursor value next ↔
      reduction = .ok value ∧ next = cursor := by
  cases reduction with
  | error missing =>
      constructor
      · rintro ⟨trace, run⟩
        simp [ofReduction, abort] at run
      · rintro ⟨impossible, -⟩
        cases impossible
  | ok answer =>
      simp only [ofReduction, reads_pure, Except.ok.injEq]
      exact and_congr_left fun _ => eq_comm

/-! ### Choices -/

theorem reads_orElse {first second : Matcher α} {cursor next : Cursor} {value : α} :
    (first.orElse second).Reads cursor value next ↔
      first.Reads cursor value next ∨ first.Rejects cursor ∧ second.Reads cursor value next := by
  constructor
  · rintro ⟨trace, run⟩
    cases firstRun : first cursor with
    | matched answer last firstTrace =>
        simp only [orElse, firstRun] at run
        exact Or.inl ⟨trace, by rw [firstRun, run]⟩
    | failed firstTrace =>
        simp only [orElse, firstRun] at run
        cases secondRun : second cursor with
        | matched answer last secondTrace =>
            simp only [secondRun, Outcome.after, Outcome.matched.injEq] at run
            obtain ⟨rfl, rfl, -⟩ := run
            exact Or.inr ⟨⟨firstTrace, firstRun⟩, secondTrace, secondRun⟩
        | failed secondTrace => simp [secondRun, Outcome.after] at run
        | aborted fault => simp [secondRun, Outcome.after] at run
    | aborted fault => simp [orElse, firstRun] at run
  · rintro (⟨trace, run⟩ | ⟨⟨firstTrace, firstRun⟩, secondTrace, secondRun⟩)
    · exact ⟨trace, by simp [orElse, run]⟩
    · exact ⟨firstTrace ++ secondTrace, by simp [orElse, firstRun, secondRun, Outcome.after]⟩

theorem rejects_orElse {first second : Matcher α} {cursor : Cursor} :
    (first.orElse second).Rejects cursor ↔ first.Rejects cursor ∧ second.Rejects cursor := by
  constructor
  · rintro ⟨trace, run⟩
    cases firstRun : first cursor with
    | matched answer last firstTrace => simp [orElse, firstRun] at run
    | failed firstTrace =>
        simp only [orElse, firstRun] at run
        cases secondRun : second cursor with
        | matched answer last secondTrace => simp [secondRun, Outcome.after] at run
        | failed secondTrace => exact ⟨⟨firstTrace, firstRun⟩, secondTrace, secondRun⟩
        | aborted fault => simp [secondRun, Outcome.after] at run
    | aborted fault => simp [orElse, firstRun] at run
  · rintro ⟨⟨firstTrace, firstRun⟩, secondTrace, secondRun⟩
    exact ⟨firstTrace ++ secondTrace, by simp [orElse, firstRun, secondRun, Outcome.after]⟩

@[simp]
theorem reads_firstOf_nil {cursor next : Cursor} {value : α} :
    ¬ (firstOf ([] : List (Matcher α))).Reads cursor value next := by
  rintro ⟨trace, run⟩
  cases run

@[simp]
theorem rejects_firstOf_nil {cursor : Cursor} :
    (firstOf ([] : List (Matcher α))).Rejects cursor :=
  ⟨[], rfl⟩

theorem reads_firstOf_cons {matcher : Matcher α} {others : List (Matcher α)}
    {cursor next : Cursor} {value : α} :
    (firstOf (matcher :: others)).Reads cursor value next ↔
      matcher.Reads cursor value next ∨
        matcher.Rejects cursor ∧ (firstOf others).Reads cursor value next :=
  reads_orElse

theorem rejects_firstOf_cons {matcher : Matcher α} {others : List (Matcher α)}
    {cursor : Cursor} :
    (firstOf (matcher :: others)).Rejects cursor ↔
      matcher.Rejects cursor ∧ (firstOf others).Rejects cursor :=
  rejects_orElse

theorem Reads.mem_firstOf {matchers : List (Matcher α)} {cursor next : Cursor} {value : α}
    (reads : (firstOf matchers).Reads cursor value next) :
    ∃ matcher ∈ matchers, matcher.Reads cursor value next := by
  induction matchers with
  | nil => exact (reads_firstOf_nil reads).elim
  | cons matcher others ih =>
      rcases reads_firstOf_cons.mp reads with first | ⟨-, later⟩
      · exact ⟨matcher, List.mem_cons_self, first⟩
      · obtain ⟨member, memberMem, memberReads⟩ := ih later
        exact ⟨member, List.mem_cons_of_mem matcher memberMem, memberReads⟩

theorem reads_optional {matcher : Matcher α} {cursor next : Cursor} {value? : Option α} :
    (optional matcher).Reads cursor value? next ↔
      (∃ value, value? = some value ∧ matcher.Reads cursor value next) ∨
        value? = none ∧ next = cursor ∧ matcher.Rejects cursor := by
  constructor
  · rintro ⟨trace, run⟩
    cases firstRun : matcher cursor with
    | matched value last firstTrace =>
        simp only [optional, firstRun, Outcome.matched.injEq] at run
        obtain ⟨rfl, rfl, -⟩ := run
        exact Or.inl ⟨value, rfl, firstTrace, firstRun⟩
    | failed firstTrace =>
        simp only [optional, firstRun, Outcome.matched.injEq] at run
        obtain ⟨rfl, rfl, -⟩ := run
        exact Or.inr ⟨rfl, rfl, firstTrace, firstRun⟩
    | aborted fault => simp [optional, firstRun] at run
  · rintro (⟨value, rfl, trace, run⟩ | ⟨rfl, rfl, trace, run⟩)
    · exact ⟨trace, by simp [optional, run]⟩
    · exact ⟨trace, by simp [optional, run]⟩

/-! ### Repetitions -/

/-- The matcher reads several values in a row. -/
inductive ReadsEach (matcher : Matcher α) : Cursor → List α → Cursor → Prop
  | nil {cursor : Cursor} : ReadsEach matcher cursor [] cursor
  | cons {cursor middle last : Cursor} {value : α} {values : List α}
      (head : matcher.Reads cursor value middle)
      (tail : ReadsEach matcher middle values last) :
      ReadsEach matcher cursor (value :: values) last

theorem manyUpTo_succ (matcher : Matcher α) (limit : Nat) (cursor : Cursor) :
    manyUpTo matcher (limit + 1) cursor =
      match matcher cursor with
      | .matched value next trace =>
        match manyUpTo matcher limit next with
        | .matched values last more => .matched (value :: values) last (trace ++ more)
        | .failed more => .failed (trace ++ more)
        | .aborted fault => .aborted fault
      | .failed trace => .matched [] cursor trace
      | .aborted fault => .aborted fault :=
  rfl

private theorem manyUpTo_reads {matcher : Matcher α} {limit : Nat} {cursor last : Cursor}
    {values : List α} (reads : (manyUpTo matcher limit).Reads cursor values last) :
    matcher.ReadsEach cursor values last ∧ matcher.Rejects last := by
  induction limit generalizing cursor values with
  | zero =>
      obtain ⟨trace, run⟩ := reads
      cases run
  | succ limit ih =>
      obtain ⟨trace, run⟩ := reads
      rw [manyUpTo_succ] at run
      cases headRun : matcher cursor with
      | matched value next headTrace =>
          simp only [headRun] at run
          cases tailRun : manyUpTo matcher limit next with
          | matched others last tailTrace =>
              simp only [tailRun, Outcome.matched.injEq] at run
              obtain ⟨rfl, rfl, -⟩ := run
              obtain ⟨each, rejects⟩ := ih ⟨tailTrace, tailRun⟩
              exact ⟨.cons ⟨headTrace, headRun⟩ each, rejects⟩
          | failed tailTrace => simp [tailRun] at run
          | aborted fault => simp [tailRun] at run
      | failed headTrace =>
          simp only [headRun, Outcome.matched.injEq] at run
          obtain ⟨rfl, rfl, -⟩ := run
          exact ⟨.nil, headTrace, headRun⟩
      | aborted fault => simp [headRun] at run

/-- A repetition reads its values one after another. -/
theorem Reads.each_of_many {matcher : Matcher α} {cursor last : Cursor} {values : List α}
    (reads : (many matcher).Reads cursor values last) :
    matcher.ReadsEach cursor values last := by
  obtain ⟨trace, run⟩ := reads
  exact (manyUpTo_reads ⟨trace, run⟩).1

/-- A repetition ends where its matcher does not fit. -/
theorem Reads.rejects_of_many {matcher : Matcher α} {cursor last : Cursor} {values : List α}
    (reads : (many matcher).Reads cursor values last) : matcher.Rejects last := by
  obtain ⟨trace, run⟩ := reads
  exact (manyUpTo_reads ⟨trace, run⟩).2

/-- A matcher that always reads something leaves less behind. -/
def Progresses (matcher : Matcher α) : Prop :=
  ∀ cursor value next, matcher.Reads cursor value next →
    next.rest.length < cursor.rest.length

private theorem manyUpTo_of_each {matcher : Matcher α} {cursor last : Cursor} {values : List α}
    (each : matcher.ReadsEach cursor values last) (rejects : matcher.Rejects last)
    {limit : Nat} (within : values.length < limit) :
    (manyUpTo matcher limit).Reads cursor values last := by
  induction each generalizing limit with
  | nil =>
      obtain ⟨limit, rfl⟩ : ∃ smaller, limit = smaller + 1 := ⟨limit - 1, by simp at within; omega⟩
      obtain ⟨trace, run⟩ := rejects
      exact ⟨trace, by rw [manyUpTo_succ, run]⟩
  | cons head tail ih =>
      obtain ⟨limit, rfl⟩ : ∃ smaller, limit = smaller + 1 := ⟨limit - 1, by omega⟩
      obtain ⟨headTrace, headRun⟩ := head
      have tailWithin : _ < limit := Nat.lt_of_succ_lt_succ within
      obtain ⟨tailTrace, tailRun⟩ := ih rejects tailWithin
      exact ⟨headTrace ++ tailTrace, by rw [manyUpTo_succ, headRun]; simp [tailRun]⟩

/-- Values in a row that nothing fits behind are what a repetition reads. -/
theorem reads_many {matcher : Matcher α} {cursor last : Cursor} {values : List α}
    (each : matcher.ReadsEach cursor values last) (rejects : matcher.Rejects last)
    (within : values.length ≤ cursor.rest.length) :
    (many matcher).Reads cursor values last :=
  manyUpTo_of_each each rejects (Nat.lt_succ_of_le within)

/-! ### Skips, scanners and terminals -/

@[simp]
theorem reads_here {cursor next : Cursor} {offset : Nat} :
    here.Reads cursor offset next ↔ offset = cursor.offset ∧ next = cursor := by
  constructor
  · rintro ⟨trace, run⟩
    cases run
    exact ⟨rfl, rfl⟩
  · rintro ⟨rfl, rfl⟩
    exact ⟨[], rfl⟩

@[simp]
theorem reads_skip {kind : Skip} {cursor next : Cursor} {value : Unit} :
    (skip kind).Reads cursor value next ↔ next = cursor.advance (kind.length cursor.rest) := by
  constructor
  · rintro ⟨trace, run⟩
    cases run
    rfl
  · rintro rfl
    exact ⟨[], rfl⟩

@[simp]
theorem rejects_skip {kind : Skip} {cursor : Cursor} : ¬ (skip kind).Rejects cursor := by
  rintro ⟨trace, run⟩
  cases run

theorem reads_scan {scanner : Scanner} {cursor next : Cursor} {value : Unit} :
    (scan scanner).Reads cursor value next ↔
      ∃ length, scanner cursor.rest = some length ∧ next = cursor.advance length := by
  constructor
  · rintro ⟨trace, run⟩
    cases scanned : scanner cursor.rest with
    | none => simp [scan, scanned] at run
    | some length =>
        simp only [scan, scanned, Outcome.matched.injEq] at run
        exact ⟨length, rfl, run.2.1.symm⟩
  · rintro ⟨length, scanned, rfl⟩
    exact ⟨[], by simp [scan, scanned]⟩

theorem rejects_scan {scanner : Scanner} {cursor : Cursor} :
    (scan scanner).Rejects cursor ↔ scanner cursor.rest = none := by
  cases scanned : scanner cursor.rest <;> simp [Rejects, scan, scanned]

theorem reads_afterSkip {kind : Skip} {matcher : Matcher α} {cursor next : Cursor} {value : α} :
    (afterSkip kind matcher).Reads cursor value next ↔
      matcher.Reads (cursor.advance (kind.length cursor.rest)) value next := by
  simp [afterSkip, reads_bind]

theorem rejects_afterSkip {kind : Skip} {matcher : Matcher α} {cursor : Cursor} :
    (afterSkip kind matcher).Rejects cursor ↔
      matcher.Rejects (cursor.advance (kind.length cursor.rest)) := by
  simp [afterSkip, rejects_bind]

/-- The leaf that a terminal answers for a number of characters at a cursor. -/
def leafAt (kind : Terminal) (cursor : Cursor) (length : Nat) : Node :=
  { data := kind.dataOf (cursor.rest.take length), offset := some (cursor.offset : Int) }

theorem reads_terminal {kind : Terminal} {cursor next : Cursor} {node : Node} :
    (terminal kind).Reads cursor node next ↔
      ∃ length, kind.scanner cursor.rest = some length ∧
        node = leafAt kind cursor length ∧ next = cursor.advance length := by
  constructor
  · rintro ⟨trace, run⟩
    cases scanned : kind.scanner cursor.rest with
    | none => simp [terminal, scanned] at run
    | some length =>
        simp only [terminal, scanned, Outcome.matched.injEq] at run
        exact ⟨length, rfl, run.1.symm, run.2.1.symm⟩
  · rintro ⟨length, scanned, rfl, rfl⟩
    exact ⟨[⟨cursor.offset, kind.name, true⟩], by simp [terminal, scanned, leafAt]⟩

theorem rejects_terminal {kind : Terminal} {cursor : Cursor} :
    (terminal kind).Rejects cursor ↔ kind.scanner cursor.rest = none := by
  cases scanned : kind.scanner cursor.rest <;> simp [Rejects, terminal, scanned]

end Matcher

end RubySyntax
