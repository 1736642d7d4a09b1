import RubySyntax.Proofs.MatcherRuns

/-!
# Runs over two texts

The same matcher runs over two texts from places that are related.  As long as neither run is
aborted, both match with the same view of their values and reach places that are related
again, or both fail.  There is one rule for each way to put matchers together.
-/

namespace RubySyntax

/-- A relation between the places of one text and those of another. -/
abbrev PlaceRelation :=
  Cursor → Cursor → Prop

/-- Places from which skips lead to related places. -/
def PlaceRelation.behind (relation : PlaceRelation) (kind : Skip) : PlaceRelation :=
  fun cursor onward => relation (cursor.advance (kind.length cursor.rest))
    (onward.advance (kind.length onward.rest))

/-- Two outcomes are alike if both match with the same view of their values and at related
places, if both fail, or if one of them is aborted. -/
inductive Outcome.Alike {α β : Type} (ends : PlaceRelation) (view : α → β) :
    Outcome α → Outcome α → Prop
  | matched {value other : α} {next onward : Cursor} {trace more : List Attempt}
      (same : view value = view other) (alike : ends next onward) :
      Alike ends view (.matched value next trace) (.matched other onward more)
  | failed {trace more : List Attempt} : Alike ends view (.failed trace) (.failed more)
  | aborted {fault : Fault} {outcome : Outcome α} : Alike ends view (.aborted fault) outcome
  | abortedToo {outcome : Outcome α} {fault : Fault} : Alike ends view outcome (.aborted fault)

namespace Outcome.Alike

variable {α β : Type} {ends further : PlaceRelation} {view : α → β} {first second : Outcome α}

theorem after (alike : first.Alike ends view second) (earlier before : List Attempt) :
    (first.after earlier).Alike ends view (second.after before) := by
  cases alike with
  | matched same alike => exact .matched same alike
  | failed => exact .failed
  | aborted => exact .aborted
  | abortedToo => exact .abortedToo

theorem mono (alike : first.Alike ends view second)
    (includes : ∀ {cursor onward}, ends cursor onward → further cursor onward) :
    first.Alike further view second := by
  cases alike with
  | matched same alike => exact .matched same (includes alike)
  | failed => exact .failed
  | aborted => exact .aborted
  | abortedToo => exact .abortedToo

theorem coarsen {γ : Type} {coarser : α → γ} (alike : first.Alike ends view second)
    (forgets : ∀ value other, view value = view other → coarser value = coarser other) :
    first.Alike ends coarser second := by
  cases alike with
  | matched same alike => exact .matched (forgets _ _ same) alike
  | failed => exact .failed
  | aborted => exact .aborted
  | abortedToo => exact .abortedToo

theorem orElse {matcher other second otherwise : Matcher α} {cursor onward : Cursor}
    (alike : (matcher cursor).Alike ends view (other onward))
    (alternative : (second cursor).Alike ends view (otherwise onward)) :
    (matcher.orElse second cursor).Alike ends view (other.orElse otherwise onward) := by
  rw [Matcher.orElse, Matcher.orElse]
  generalize matcher cursor = outcome at alike
  generalize other onward = another at alike
  cases alike with
  | matched same alike => exact .matched same alike
  | failed => exact alternative.after _ _
  | aborted => exact .aborted
  | abortedToo => exact .abortedToo

/-! ### Tokens -/

section

variable {kind : Terminal} {cursor onward : Cursor} {look : Node → β}

theorem token {length count : Nat} (scanned : kind.scanner cursor.rest = some length)
    (scannedToo : kind.scanner onward.rest = some count)
    (same : look (Matcher.leafAt kind cursor length) = look (Matcher.leafAt kind onward count))
    (reached : ends (cursor.advance length) (onward.advance count)) :
    (Matcher.terminal kind cursor).Alike ends look (Matcher.terminal kind onward) := by
  rw [Matcher.terminal, Matcher.terminal, scanned, scannedToo]
  exact .matched same reached

theorem noToken (absent : kind.scanner cursor.rest = none)
    (absentToo : kind.scanner onward.rest = none) :
    (Matcher.terminal kind cursor).Alike ends look (Matcher.terminal kind onward) := by
  rw [Matcher.terminal, Matcher.terminal, absent, absentToo]
  exact .failed

end

end Outcome.Alike

namespace Matcher

variable {α β γ δ : Type}

/-- Two matchers answer alike from the places of one relation to those of another. -/
def Alike (starts ends : PlaceRelation) (view : α → γ) (matcher other : Matcher α) : Prop :=
  ∀ ⦃cursor onward : Cursor⦄, starts cursor onward →
    (matcher cursor).Alike ends view (other onward)

namespace Alike

variable {starts middle ends : PlaceRelation} {view : α → γ} {matcher other : Matcher α}

/-- Matchers that answer alike from some places do so from fewer, and reach more. -/
theorem mono {fewer further : PlaceRelation} (first : Alike starts ends view matcher other)
    (includes : ∀ {cursor onward}, fewer cursor onward → starts cursor onward)
    (reaches : ∀ {cursor onward}, ends cursor onward → further cursor onward) :
    Alike fewer further view matcher other :=
  fun _ _ alike => (first (includes alike)).mono reaches

/-! ### Values and sequences -/

theorem pure {value another : α} (same : view value = view another) :
    Alike starts starts view (pure value) (pure another) :=
  fun _ _ alike => .matched same alike

theorem abort {fault : Fault} : Alike starts ends view (abort fault) other :=
  fun _ _ _ => .aborted

theorem abortToo {fault : Fault} : Alike starts ends view matcher (Matcher.abort fault) :=
  fun _ _ _ => .abortedToo

theorem bind {viewAnswer : β → δ} {continuation continued : α → Matcher β}
    (first : Alike starts middle view matcher other)
    (continues : ∀ value another, view value = view another →
      Alike middle ends viewAnswer (continuation value) (continued another)) :
    Alike starts ends viewAnswer (matcher >>= continuation) (other >>= continued) := by
  intro cursor onward alike
  have run := first alike
  rw [bind_apply, bind_apply]
  generalize matcher cursor = outcome at run
  generalize other onward = another at run
  cases run with
  | matched same alike => exact (continues _ _ same alike).after _ _
  | failed => exact .failed
  | aborted => exact .aborted
  | abortedToo => exact .abortedToo

theorem ofReduction {reduction reduced : Except MissingOperator α}
    (same : ∀ value another, reduction = .ok value → reduced = .ok another →
      view value = view another) :
    Alike starts starts view (ofReduction reduction) (ofReduction reduced) := by
  cases reduction with
  | error missing => exact abort
  | ok value =>
      cases reduced with
      | error missing => exact abortToo
      | ok another => exact pure (same _ _ rfl rfl)

/-! ### Choices -/

theorem orElse {second otherwise : Matcher α} (first : Alike starts ends view matcher other)
    (alternative : Alike starts ends view second otherwise) :
    Alike starts ends view (matcher.orElse second) (other.orElse otherwise) :=
  fun _ _ alike => (first alike).orElse (alternative alike)

theorem firstOfNil : Alike starts ends view (firstOf []) (firstOf []) :=
  fun _ _ _ => .failed

theorem firstOfCons {matchers others : List (Matcher α)}
    (head : Alike starts ends view matcher other)
    (tail : Alike starts ends view (firstOf matchers) (firstOf others)) :
    Alike starts ends view (firstOf (matcher :: matchers)) (firstOf (other :: others)) :=
  head.orElse tail

theorem optional (first : Alike starts starts view matcher other) :
    Alike starts starts (Option.map view) (optional matcher) (optional other) := by
  intro cursor onward alike
  have run := first alike
  rw [Matcher.optional, Matcher.optional]
  generalize matcher cursor = outcome at run
  generalize other onward = another at run
  cases run with
  | matched same alike => exact .matched (congrArg some same) alike
  | failed => exact .matched rfl alike
  | aborted => exact .aborted
  | abortedToo => exact .abortedToo

/-- What goes on behind an optional part may depend on whether it is there. -/
theorem bindOptional {viewAnswer : β → δ} {continuation continued : Option α → Matcher β}
    (first : Alike starts starts view matcher other)
    (absent : Alike starts ends viewAnswer (continuation none) (continued none))
    (present : ∀ value another, view value = view another →
      Alike starts ends viewAnswer (continuation (some value)) (continued (some another))) :
    Alike starts ends viewAnswer (Matcher.optional matcher >>= continuation)
      (Matcher.optional other >>= continued) := by
  refine first.optional.bind fun value? other? same => ?_
  cases value? <;> cases other?
  · exact absent
  · cases same
  · cases same
  · exact present _ _ (Option.some.inj same)

/-! ### Repetitions -/

theorem manyUpTo (each : Alike starts starts view matcher other) (limit bound : Nat) :
    Alike starts starts (List.map view) (manyUpTo matcher limit) (manyUpTo other bound) := by
  induction limit generalizing bound with
  | zero => exact abort
  | succ limit ih =>
      cases bound with
      | zero => exact abortToo
      | succ bound =>
          intro cursor onward alike
          have run := each alike
          rw [manyUpTo_succ, manyUpTo_succ]
          generalize matcher cursor = outcome at run
          generalize other onward = another at run
          cases run with
          | @matched value another next onward trace more same alike =>
              have rest := ih bound alike
              dsimp only
              generalize Matcher.manyUpTo matcher limit next = others at rest
              generalize Matcher.manyUpTo other bound onward = furthers at rest
              cases rest with
              | matched sameRest alikeRest =>
                  exact .matched (by rw [List.map_cons, List.map_cons, same, sameRest]) alikeRest
              | failed => exact .failed
              | aborted => exact .aborted
              | abortedToo => exact .abortedToo
          | failed => exact .matched rfl alike
          | aborted => exact .aborted
          | abortedToo => exact .abortedToo

theorem many (each : Alike starts starts view matcher other) :
    Alike starts starts (List.map view) (many matcher) (many other) :=
  fun _ _ alike => each.manyUpTo _ _ alike

/-! ### Skips and scanners -/

theorem here : Alike starts starts (fun _ => ()) here here :=
  fun _ _ alike => .matched rfl alike

theorem skip (kind : Skip) : Alike (starts.behind kind) starts id (skip kind) (skip kind) :=
  fun _ _ alike => .matched rfl alike

theorem afterSkip {kind : Skip} (first : Alike starts ends view matcher other) :
    Alike (starts.behind kind) ends view (afterSkip kind matcher) (afterSkip kind other) :=
  (skip kind).bind fun _ _ _ => first

end Alike

end Matcher

end RubySyntax
