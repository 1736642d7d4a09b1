import RubySyntax.Proofs.MatcherRuns

/-!
# Answers of matchers

A property of everything that a matcher answers carries over from the parts of
the matcher to the whole.  There is one rule for each way to put matchers
together, so that a property of trees is shown production by production.
-/

namespace RubySyntax

namespace Matcher

variable {α β : Type}

/-- Whatever a matcher answers has a property. -/
def Answers (property : α → Prop) (matcher : Matcher α) : Prop :=
  ∀ ⦃cursor : Cursor⦄ ⦃value : α⦄ ⦃next : Cursor⦄, matcher.Reads cursor value next → property value

namespace Answers

variable {property : α → Prop} {other : β → Prop}

theorem pure {value : α} (holds : property value) : Answers property (pure value) := by
  intro cursor answer next reads
  obtain ⟨rfl, -⟩ := reads_pure.mp reads
  exact holds

theorem bind {first : Matcher α} {continuation : α → Matcher β} (answers : Answers property first)
    (continues : ∀ value, property value → Answers other (continuation value)) :
    Answers other (first >>= continuation) := by
  intro cursor answer last reads
  obtain ⟨value, next, firstRead, rest⟩ := reads_bind.mp reads
  exact continues value (answers firstRead) rest

/-- What is read before the answer may be anything. -/
theorem bindAny {first : Matcher α} {continuation : α → Matcher β}
    (continues : ∀ value, Answers other (continuation value)) :
    Answers other (first >>= continuation) := by
  intro cursor answer last reads
  obtain ⟨value, next, -, rest⟩ := reads_bind.mp reads
  exact continues value rest

theorem ofReduction {reduction : Except MissingOperator α}
    (holds : ∀ value, reduction = .ok value → property value) :
    Answers property (Matcher.ofReduction reduction) := by
  intro cursor value next reads
  exact holds value (reads_ofReduction.mp reads).1

theorem orElse {first second : Matcher α} (firstAnswers : Answers property first)
    (secondAnswers : Answers property second) : Answers property (first.orElse second) := by
  intro cursor value next reads
  rcases reads_orElse.mp reads with first | ⟨-, second⟩
  · exact firstAnswers first
  · exact secondAnswers second

theorem firstOf {matchers : List (Matcher α)}
    (each : ∀ matcher ∈ matchers, Answers property matcher) :
    Answers property (firstOf matchers) := by
  intro cursor value next reads
  obtain ⟨matcher, member, reads⟩ := reads.mem_firstOf
  exact each matcher member reads

theorem optional {matcher : Matcher α} (answers : Answers property matcher) :
    Answers (fun value? => ∀ value ∈ value?, property value) (optional matcher) := by
  intro cursor value? next reads value member
  rcases reads_optional.mp reads with ⟨found, rfl, foundRead⟩ | ⟨rfl, -⟩
  · cases member
    exact answers foundRead
  · cases member

theorem many {matcher : Matcher α} (answers : Answers property matcher) :
    Answers (fun values => ∀ value ∈ values, property value) (many matcher) := by
  intro cursor values next reads
  have each := reads.each_of_many
  clear reads
  induction each with
  | nil => simp
  | cons head tail ih =>
      rintro value (_ | ⟨_, member⟩)
      · exact answers head
      · exact ih value member

theorem afterSkip {kind : Skip} {matcher : Matcher α} (answers : Answers property matcher) :
    Answers property (afterSkip kind matcher) :=
  bindAny fun _ => answers

end Answers

end Matcher

end RubySyntax
