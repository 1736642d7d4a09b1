import RubySyntax.Proofs.CommentRun

/-!
# Traces of attempts

Whenever a token is read, another token is tried at or behind its end, unless the
whole matcher ends there.  So what a failed run has tried never reaches further
than what has failed in it.  Skips, raw scanners and comments leave no trace and
have to be followed by a matcher that does.
-/

namespace RubySyntax

/-- Some attempt of a trace failed at or behind an offset. -/
def FailsFrom (offset : Nat) (trace : List Attempt) : Prop :=
  ∃ attempt ∈ trace, attempt.matched = false ∧ offset ≤ attempt.offset

namespace FailsFrom

variable {offset : Nat} {front back : List Attempt}

theorem mono {earlier : Nat} (fails : FailsFrom offset front) (before : earlier ≤ offset) :
    FailsFrom earlier front := by
  obtain ⟨attempt, member, failed, reaches⟩ := fails
  exact ⟨attempt, member, failed, Nat.le_trans before reaches⟩

theorem left (fails : FailsFrom offset front) : FailsFrom offset (front ++ back) := by
  obtain ⟨attempt, member, failed, reaches⟩ := fails
  exact ⟨attempt, List.mem_append_left back member, failed, reaches⟩

theorem right (fails : FailsFrom offset back) : FailsFrom offset (front ++ back) := by
  obtain ⟨attempt, member, failed, reaches⟩ := fails
  exact ⟨attempt, List.mem_append_right front member, failed, reaches⟩

end FailsFrom

/-- Every attempt of a trace lies at or before an offset or before a failed one. -/
def TriedUpTo (offset : Nat) (trace : List Attempt) : Prop :=
  ∀ attempt ∈ trace, attempt.offset ≤ offset ∨ FailsFrom attempt.offset trace

namespace TriedUpTo

variable {offset : Nat} {front back : List Attempt}

theorem nil : TriedUpTo offset [] := by
  intro attempt member
  cases member

theorem append {later : Nat} (tried : TriedUpTo offset front) (onward : offset ≤ later)
    (rest : TriedUpTo later back) : TriedUpTo later (front ++ back) := by
  intro attempt member
  rcases List.mem_append.mp member with inFront | inBack
  · exact (tried attempt inFront).imp (fun before => Nat.le_trans before onward) .left
  · exact (rest attempt inBack).imp id .right

end TriedUpTo

/-- No attempt of a trace lies behind all the failed ones. -/
def EndsFailing (trace : List Attempt) : Prop :=
  ∀ attempt ∈ trace, FailsFrom attempt.offset trace

namespace EndsFailing

variable {offset : Nat} {front back : List Attempt}

theorem nil : EndsFailing [] := by
  intro attempt member
  cases member

theorem tried (failing : EndsFailing front) : TriedUpTo offset front :=
  fun attempt member => Or.inr (failing attempt member)

theorem append (failing : EndsFailing front) (rest : EndsFailing back) :
    EndsFailing (front ++ back) := by
  intro attempt member
  rcases List.mem_append.mp member with inFront | inBack
  · exact (failing attempt inFront).left
  · exact (rest attempt inBack).right

theorem afterTried (tried : TriedUpTo offset front) (fails : FailsFrom offset back)
    (rest : EndsFailing back) : EndsFailing (front ++ back) := by
  intro attempt member
  rcases List.mem_append.mp member with inFront | inBack
  · rcases tried attempt inFront with before | failed
    · exact (fails.mono before).right
    · exact failed.left
  · exact (rest attempt inBack).right

end EndsFailing

namespace Matcher

variable {α β : Type}

theorem offset_le_advance (count : Nat) (cursor : Cursor) :
    cursor.offset ≤ (cursor.advance count).offset := by
  induction count generalizing cursor with
  | zero => exact Nat.le_refl _
  | succ count ih =>
      obtain ⟨offset, atLineStart, rest⟩ := cursor
      cases rest with
      | nil => exact Nat.le_refl _
      | cons character rest =>
          exact Nat.le_trans (Nat.le_succ offset) (ih ⟨offset + 1, character == '\n', rest⟩)

/-! ### Runs with their traces -/

theorem bind_eq_matched {first : Matcher α} {continuation : α → Matcher β} {cursor last : Cursor}
    {answer : β} {trace : List Attempt}
    (run : (first >>= continuation) cursor = .matched answer last trace) :
    ∃ value next front back, first cursor = .matched value next front ∧
      continuation value next = .matched answer last back ∧ trace = front ++ back := by
  rw [bind_apply] at run
  cases firstRun : first cursor with
  | matched value next front =>
      simp only [firstRun] at run
      cases secondRun : continuation value next with
      | matched other behind back =>
          simp only [secondRun, Outcome.after, Outcome.matched.injEq] at run
          obtain ⟨rfl, rfl, rfl⟩ := run
          exact ⟨value, next, front, back, rfl, secondRun, rfl⟩
      | failed back => simp [secondRun, Outcome.after] at run
      | aborted fault => simp [secondRun, Outcome.after] at run
  | failed front => simp [firstRun] at run
  | aborted fault => simp [firstRun] at run

theorem bind_eq_failed {first : Matcher α} {continuation : α → Matcher β} {cursor : Cursor}
    {trace : List Attempt} (run : (first >>= continuation) cursor = .failed trace) :
    first cursor = .failed trace ∨ ∃ value next front back,
      first cursor = .matched value next front ∧ continuation value next = .failed back ∧
        trace = front ++ back := by
  rw [bind_apply] at run
  cases firstRun : first cursor with
  | matched value next front =>
      simp only [firstRun] at run
      cases secondRun : continuation value next with
      | matched other behind back => simp [secondRun, Outcome.after] at run
      | failed back =>
          simp only [secondRun, Outcome.after, Outcome.failed.injEq] at run
          exact Or.inr ⟨value, next, front, back, rfl, secondRun, run.symm⟩
      | aborted fault => simp [secondRun, Outcome.after] at run
  | failed front =>
      simp only [firstRun, Outcome.failed.injEq] at run
      exact Or.inl (congrArg _ run)
  | aborted fault => simp [firstRun] at run

theorem orElse_eq_matched {first second : Matcher α} {cursor next : Cursor} {value : α}
    {trace : List Attempt} (run : (first.orElse second) cursor = .matched value next trace) :
    first cursor = .matched value next trace ∨ ∃ front back, first cursor = .failed front ∧
      second cursor = .matched value next back ∧ trace = front ++ back := by
  rw [orElse] at run
  cases firstRun : first cursor with
  | matched answer last front =>
      simp only [firstRun] at run
      exact Or.inl run
  | failed front =>
      simp only [firstRun] at run
      cases secondRun : second cursor with
      | matched answer last back =>
          simp only [secondRun, Outcome.after, Outcome.matched.injEq] at run
          obtain ⟨rfl, rfl, rfl⟩ := run
          exact Or.inr ⟨front, back, rfl, rfl, rfl⟩
      | failed back => simp [secondRun, Outcome.after] at run
      | aborted fault => simp [secondRun, Outcome.after] at run
  | aborted fault => simp [firstRun] at run

theorem orElse_eq_failed {first second : Matcher α} {cursor : Cursor} {trace : List Attempt}
    (run : (first.orElse second) cursor = .failed trace) :
    ∃ front back, first cursor = .failed front ∧ second cursor = .failed back ∧
      trace = front ++ back := by
  rw [orElse] at run
  cases firstRun : first cursor with
  | matched answer last front => simp [firstRun] at run
  | failed front =>
      simp only [firstRun] at run
      cases secondRun : second cursor with
      | matched answer last back => simp [secondRun, Outcome.after] at run
      | failed back =>
          simp only [secondRun, Outcome.after, Outcome.failed.injEq] at run
          exact ⟨front, back, rfl, rfl, run.symm⟩
      | aborted fault => simp [secondRun, Outcome.after] at run
  | aborted fault => simp [firstRun] at run

theorem optional_eq_matched {matcher : Matcher α} {cursor next : Cursor} {value? : Option α}
    {trace : List Attempt} (run : optional matcher cursor = .matched value? next trace) :
    (∃ value, matcher cursor = .matched value next trace ∧ value? = some value) ∨
      matcher cursor = .failed trace ∧ value? = none ∧ next = cursor := by
  rw [optional] at run
  cases firstRun : matcher cursor with
  | matched value last front =>
      simp only [firstRun, Outcome.matched.injEq] at run
      obtain ⟨rfl, rfl, rfl⟩ := run
      exact Or.inl ⟨value, rfl, rfl⟩
  | failed front =>
      simp only [firstRun, Outcome.matched.injEq] at run
      obtain ⟨rfl, rfl, rfl⟩ := run
      exact Or.inr ⟨rfl, rfl, rfl⟩
  | aborted fault => simp [firstRun] at run

theorem optional_ne_failed (matcher : Matcher α) (cursor : Cursor) (trace : List Attempt) :
    optional matcher cursor ≠ .failed trace := by
  rw [optional]
  split <;> simp

/-- One more round of a repetition, or its end. -/
theorem manyUpTo_eq_matched {matcher : Matcher α} {limit : Nat} {cursor last : Cursor}
    {values : List α} {trace : List Attempt}
    (run : manyUpTo matcher (limit + 1) cursor = .matched values last trace) :
    (matcher cursor = .failed trace ∧ values = [] ∧ last = cursor) ∨
      ∃ value next others front back, matcher cursor = .matched value next front ∧
        manyUpTo matcher limit next = .matched others last back ∧ values = value :: others ∧
          trace = front ++ back := by
  rw [manyUpTo_succ] at run
  cases firstRun : matcher cursor with
  | matched value next front =>
      simp only [firstRun] at run
      cases restRun : manyUpTo matcher limit next with
      | matched others behind back =>
          simp only [restRun, Outcome.matched.injEq] at run
          obtain ⟨rfl, rfl, rfl⟩ := run
          exact Or.inr ⟨value, next, others, front, back, rfl, restRun, rfl, rfl⟩
      | failed back => simp [restRun] at run
      | aborted fault => simp [restRun] at run
  | failed front =>
      simp only [firstRun, Outcome.matched.injEq] at run
      obtain ⟨rfl, rfl, rfl⟩ := run
      exact Or.inl ⟨rfl, rfl, rfl⟩
  | aborted fault => simp [firstRun] at run

theorem manyUpTo_ne_failed (matcher : Matcher α) (limit : Nat) (cursor : Cursor)
    (trace : List Attempt) : manyUpTo matcher limit cursor ≠ .failed trace := by
  induction limit generalizing cursor trace with
  | zero => exact fun impossible => nomatch impossible
  | succ limit ih =>
      rw [manyUpTo_succ]
      cases matcher cursor with
      | matched value next front =>
          cases restRun : manyUpTo matcher limit next with
          | matched others last back => simp [restRun]
          | failed back => exact absurd restRun (ih next back)
          | aborted fault => simp [restRun]
      | failed front => simp
      | aborted fault => simp

theorem afterSkip_eq_matched {kind : Skip} {matcher : Matcher α} {cursor next : Cursor}
    {value : α} {trace : List Attempt}
    (run : afterSkip kind matcher cursor = .matched value next trace) :
    matcher (cursor.advance (kind.length cursor.rest)) = .matched value next trace := by
  obtain ⟨_, behind, front, back, skipRun, behindRun, rfl⟩ := bind_eq_matched run
  cases skipRun
  exact behindRun

theorem afterSkip_eq_failed {kind : Skip} {matcher : Matcher α} {cursor : Cursor}
    {trace : List Attempt} (run : afterSkip kind matcher cursor = .failed trace) :
    matcher (cursor.advance (kind.length cursor.rest)) = .failed trace := by
  rcases bind_eq_failed run with impossible | ⟨_, behind, front, back, skipRun, behindRun, rfl⟩
  · cases impossible
  · cases skipRun
    exact behindRun

/-! ### Matchers that cover what they try -/

/-- What a matcher tries lies before the end of what it reads, or before something that
failed. -/
structure Covers (matcher : Matcher α) : Prop where
  fits : ∀ {cursor next : Cursor} {value : α} {trace : List Attempt},
    matcher cursor = .matched value next trace →
      cursor.offset ≤ next.offset ∧ TriedUpTo next.offset trace
  refuses : ∀ {cursor : Cursor} {trace : List Attempt}, matcher cursor = .failed trace →
    EndsFailing trace

/-- A matcher that does not fit has tried something from its start on. -/
structure Records (matcher : Matcher α) : Prop extends Covers matcher where
  fails : ∀ {cursor : Cursor} {trace : List Attempt}, matcher cursor = .failed trace →
    FailsFrom cursor.offset trace

namespace Covers

variable {matcher : Matcher α}

theorem bind {continuation : α → Matcher β} (covers : Covers matcher)
    (continues : ∀ value, Records (continuation value)) :
    Covers (matcher >>= continuation) where
  fits run := by
    obtain ⟨value, next, front, back, firstRun, secondRun, rfl⟩ := bind_eq_matched run
    obtain ⟨onward, tried⟩ := covers.fits firstRun
    obtain ⟨further, triedOn⟩ := (continues value).fits secondRun
    exact ⟨Nat.le_trans onward further, tried.append further triedOn⟩
  refuses run := by
    rcases bind_eq_failed run with failed | ⟨value, next, front, back, firstRun, failed, rfl⟩
    · exact covers.refuses failed
    · exact .afterTried (covers.fits firstRun).2 ((continues value).fails failed)
        ((continues value).refuses failed)

theorem orElse {second : Matcher α} (covers : Covers matcher) (otherwise : Covers second) :
    Covers (matcher.orElse second) where
  fits run := by
    rcases orElse_eq_matched run with read | ⟨front, back, failed, read, rfl⟩
    · exact covers.fits read
    · obtain ⟨onward, tried⟩ := otherwise.fits read
      exact ⟨onward, (covers.refuses failed).tried.append (Nat.zero_le _) tried⟩
  refuses run := by
    obtain ⟨front, back, failed, failedToo, rfl⟩ := orElse_eq_failed run
    exact (covers.refuses failed).append (otherwise.refuses failedToo)

theorem nothing : Covers (Matcher.firstOf ([] : List (Matcher α))) where
  fits run := nomatch run
  refuses run := by
    cases run
    exact .nil

theorem scan (scanner : Scanner) : Covers (scan scanner) where
  fits := by
    intro cursor next value trace run
    rw [Matcher.scan] at run
    split at run
    · cases run
      exact ⟨offset_le_advance _ cursor, .nil⟩
    · cases run
  refuses := by
    intro cursor trace run
    rw [Matcher.scan] at run
    split at run
    · cases run
    · cases run
      exact .nil

theorem afterSkip {kind : Skip} (covers : Covers matcher) : Covers (afterSkip kind matcher) where
  fits run := by
    obtain ⟨onward, tried⟩ := covers.fits (afterSkip_eq_matched run)
    exact ⟨Nat.le_trans (offset_le_advance _ _) onward, tried⟩
  refuses run := covers.refuses (afterSkip_eq_failed run)

private theorem commentOf (kind : String) (span? : List Char → Option CommentSpan) :
    Covers (commentOf kind span?) where
  fits := by
    intro cursor next value trace run
    rw [Matcher.commentOf] at run
    split at run
    · cases run
      exact ⟨offset_le_advance _ cursor, .nil⟩
    · cases run
  refuses := by
    intro cursor trace run
    rw [Matcher.commentOf] at run
    split at run
    · cases run
    · cases run
      exact .nil

private theorem blockComment : Covers blockComment where
  fits := by
    intro cursor next value trace run
    rw [Matcher.blockComment] at run
    split at run
    · exact (commentOf _ _).fits run
    · cases run
  refuses := by
    intro cursor trace run
    rw [Matcher.blockComment] at run
    split at run
    · exact (commentOf _ _).refuses run
    · cases run
      exact .nil

/-- One comment of either kind. -/
theorem comment : Covers anyComment :=
  blockComment.orElse (commentOf _ _)

end Covers

/-! ### Matchers that record where they do not fit -/

namespace Records

variable {matcher : Matcher α}

theorem pure {value : α} : Records (pure value) where
  fits run := by
    cases run
    exact ⟨Nat.le_refl _, .nil⟩
  refuses run := nomatch run
  fails run := nomatch run

theorem abort {fault : Fault} : Records (abort fault : Matcher α) where
  fits run := nomatch run
  refuses run := nomatch run
  fails run := nomatch run

theorem ofReduction {reduction : Except MissingOperator α} : Records (ofReduction reduction) := by
  cases reduction with
  | ok value => exact pure
  | error missing => exact abort

theorem here : Records here where
  fits run := by
    cases run
    exact ⟨Nat.le_refl _, .nil⟩
  refuses run := nomatch run
  fails run := nomatch run

theorem bind {continuation : α → Matcher β} (records : Records matcher)
    (continues : ∀ value, Records (continuation value)) :
    Records (matcher >>= continuation) where
  toCovers := records.toCovers.bind continues
  fails run := by
    rcases bind_eq_failed run with failed | ⟨value, next, front, back, firstRun, failed, rfl⟩
    · exact records.fails failed
    · exact (((continues value).fails failed).mono (records.fits firstRun).1).right

/-- The first of two alternatives is always tried. -/
theorem orElse {second : Matcher α} (records : Records matcher) (otherwise : Covers second) :
    Records (matcher.orElse second) where
  toCovers := records.toCovers.orElse otherwise
  fails run := by
    obtain ⟨front, back, failed, -, rfl⟩ := orElse_eq_failed run
    exact (records.fails failed).left

theorem firstOf {matchers : List (Matcher α)} (nonempty : matchers ≠ [])
    (each : ∀ matcher ∈ matchers, Records matcher) : Records (firstOf matchers) := by
  have covers : ∀ {others : List (Matcher α)}, (∀ other ∈ others, Records other) →
      Covers (Matcher.firstOf others) := by
    intro others
    induction others with
    | nil => exact fun _ => .nothing
    | cons other others ih =>
        exact fun each => (each other List.mem_cons_self).toCovers.orElse
          (ih fun later member => each later (List.mem_cons_of_mem _ member))
  cases matchers with
  | nil => exact absurd rfl nonempty
  | cons matcher others =>
      exact (each matcher List.mem_cons_self).orElse
        (covers fun other member => each other (List.mem_cons_of_mem _ member))

/-- What is optional always fits. -/
theorem optional (covers : Covers matcher) : Records (optional matcher) where
  fits run := by
    rcases optional_eq_matched run with ⟨value, read, -⟩ | ⟨failed, -, rfl⟩
    · exact covers.fits read
    · exact ⟨Nat.le_refl _, (covers.refuses failed).tried⟩
  refuses run := absurd run (optional_ne_failed _ _ _)
  fails run := absurd run (optional_ne_failed _ _ _)

private theorem manyUpTo_tried (covers : Covers matcher) {limit : Nat} {cursor last : Cursor}
    {values : List α} {trace : List Attempt}
    (run : manyUpTo matcher limit cursor = .matched values last trace) :
    cursor.offset ≤ last.offset ∧ TriedUpTo last.offset trace := by
  induction limit generalizing cursor values trace with
  | zero => cases run
  | succ limit ih =>
      rcases manyUpTo_eq_matched run with
        ⟨failed, -, rfl⟩ | ⟨value, next, others, front, back, firstRun, restRun, -, rfl⟩
      · exact ⟨Nat.le_refl _, (covers.refuses failed).tried⟩
      · obtain ⟨onward, tried⟩ := covers.fits firstRun
        obtain ⟨further, triedOn⟩ := ih restRun
        exact ⟨Nat.le_trans onward further, tried.append further triedOn⟩

/-- A repetition always fits, and tries its last round in vain. -/
theorem many (covers : Covers matcher) : Records (many matcher) where
  fits run := manyUpTo_tried covers run
  refuses run := absurd run (manyUpTo_ne_failed _ _ _ _)
  fails run := absurd run (manyUpTo_ne_failed _ _ _ _)

theorem afterSkip {kind : Skip} (records : Records matcher) : Records (afterSkip kind matcher) where
  toCovers := records.toCovers.afterSkip
  fails run := (records.fails (afterSkip_eq_failed run)).mono (offset_le_advance _ _)

/-- A token is tried where it has to stand. -/
theorem terminal (kind : Terminal) : Records (terminal kind) where
  fits := by
    intro cursor next value trace run
    rw [Matcher.terminal] at run
    split at run
    · cases run
      refine ⟨offset_le_advance _ cursor, fun attempt member => Or.inl ?_⟩
      rw [List.mem_singleton.mp member]
      exact offset_le_advance _ cursor
    · cases run
  refuses := by
    intro cursor trace run attempt member
    rw [Matcher.terminal] at run
    split at run
    · cases run
    · cases run
      exact ⟨attempt, member, by rw [List.mem_singleton.mp member], Nat.le_refl _⟩
  fails := by
    intro cursor trace run
    rw [Matcher.terminal] at run
    split at run
    · cases run
    · cases run
      exact ⟨_, List.mem_cons_self, rfl, Nat.le_refl _⟩

theorem commentsBefore (kind : Skip) : Records (commentsBefore kind) :=
  many Covers.comment.afterSkip

theorem spaced {node : Matcher Node} {kind : Skip} (records : Records node) :
    Records (spaced node kind) :=
  (commentsBefore kind).bind fun _ => records.afterSkip.bind fun _ => pure

end Records

end Matcher

end RubySyntax
