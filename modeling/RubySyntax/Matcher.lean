import RubySyntax.Lexeme
import RubySyntax.OperatorReduction

/-!
# Matchers

A matcher reads a part of the text at a cursor.  Choices are ordered and
repetitions are greedy, and neither gives back what it has read.  Every attempt
at a token is traced, also in alternatives that are abandoned later, so that a
failure can name what was expected at the furthest place.
-/

namespace RubySyntax

/-- A place in a text: its offset, whether a line starts there, and what follows. -/
structure Cursor where
  offset : Nat
  atLineStart : Bool
  rest : List Char

namespace Cursor

def ofText (text : List Char) : Cursor :=
  ⟨0, true, text⟩

/-- The place a number of characters further on. -/
def advance : Nat → Cursor → Cursor
  | 0, cursor => cursor
  | _ + 1, ⟨offset, atLineStart, []⟩ => ⟨offset, atLineStart, []⟩
  | count + 1, ⟨offset, _, character :: rest⟩ =>
    advance count ⟨offset + 1, character == '\n', rest⟩

/-- Advancing drops as many characters from what follows. -/
@[simp] theorem rest_advance (count : Nat) (cursor : Cursor) :
    (cursor.advance count).rest = cursor.rest.drop count := by
  induction count generalizing cursor with
  | zero => rfl
  | succ count ih =>
    obtain ⟨offset, atLineStart, rest⟩ := cursor
    cases rest with
    | nil => simp [advance]
    | cons character rest => simp [advance, ih]

theorem offset_advance (count : Nat) (cursor : Cursor) (within : count ≤ cursor.rest.length) :
    (cursor.advance count).offset = cursor.offset + count := by
  induction count generalizing cursor with
  | zero => rfl
  | succ count ih =>
    obtain ⟨offset, atLineStart, rest⟩ := cursor
    cases rest with
    | nil => simp at within
    | cons character rest =>
      simp only [List.length_cons] at within
      have := ih ⟨offset + 1, character == '\n', rest⟩ (by simp only; omega)
      simp only [advance, this]
      omega

end Cursor

structure Attempt where
  offset : Nat
  terminal : String
  matched : Bool
deriving DecidableEq, Repr

/-- What ends a whole run at once, whatever alternatives are left. -/
inductive Fault where
  /-- A reduction needs the level of an operator that its table lacks. -/
  | missingOperator (key : String)
  /-- The bound on the depth of nested rules or on the length of a repetition was too small. -/
  | exhausted
deriving DecidableEq, Repr

/-- The result of a matcher, with its attempts in order. -/
inductive Outcome (α : Type) where
  /-- The matcher read up to the next cursor. -/
  | matched (value : α) (next : Cursor) (trace : List Attempt)
  /-- The matcher does not fit here. -/
  | failed (trace : List Attempt)
  /-- The whole run is over. -/
  | aborted (fault : Fault)

namespace Outcome

/-- The result with attempts made before it. -/
def after {α : Type} (earlier : List Attempt) : Outcome α → Outcome α
  | matched value next trace => matched value next (earlier ++ trace)
  | failed trace => failed (earlier ++ trace)
  | aborted fault => aborted fault

def trace {α : Type} : Outcome α → List Attempt
  | matched _ _ trace => trace
  | failed trace => trace
  | aborted _ => []

end Outcome

/-- Reads a part of the text at a cursor. -/
def Matcher (α : Type) := Cursor → Outcome α

namespace Matcher

variable {α β : Type}

/-- Reads nothing and answers a value. -/
protected def pure (value : α) : Matcher α := fun cursor =>
  .matched value cursor []

/-- Reads one part and then the part that depends on its value. -/
protected def bind (first : Matcher α) (continuation : α → Matcher β) : Matcher β := fun cursor =>
  match first cursor with
  | .matched value next trace => (continuation value next).after trace
  | .failed trace => .failed trace
  | .aborted fault => .aborted fault

instance : Monad Matcher where
  pure := Matcher.pure
  bind := Matcher.bind

def abort (fault : Fault) : Matcher α := fun _ =>
  .aborted fault

/-- The value of a reduction, whose failure ends the whole run. -/
def ofReduction : Except MissingOperator α → Matcher α
  | .ok value => pure value
  | .error missing => abort (.missingOperator missing.key)

/-- Reads by the first matcher, or by the second where the first does not fit. -/
def orElse (first second : Matcher α) : Matcher α := fun cursor =>
  match first cursor with
  | .failed trace => (second cursor).after trace
  | outcome => outcome

/-- Reads by the first of several matchers that fits. -/
def firstOf : List (Matcher α) → Matcher α
  | [] => fun _ => .failed []
  | matcher :: others => matcher.orElse (firstOf others)

/-- Reads by a matcher where it fits and nothing elsewhere. -/
def optional (matcher : Matcher α) : Matcher (Option α) := fun cursor =>
  match matcher cursor with
  | .matched value next trace => .matched (some value) next trace
  | .failed trace => .matched none cursor trace
  | .aborted fault => .aborted fault

/-- Repeats a matcher while it fits, which has to be less often than a bound says. -/
def manyUpTo (matcher : Matcher α) : Nat → Matcher (List α)
  | 0 => abort .exhausted
  | limit + 1 => fun cursor =>
    match matcher cursor with
    | .matched value next trace =>
      match manyUpTo matcher limit next with
      | .matched values last more => .matched (value :: values) last (trace ++ more)
      | .failed more => .failed (trace ++ more)
      | .aborted fault => .aborted fault
    | .failed trace => .matched [] cursor trace
    | .aborted fault => .aborted fault

/-- Repeats a matcher while it fits.  One that reads something each time fits at most
as often as there are characters left, and never reaches the bound. -/
def many (matcher : Matcher α) : Matcher (List α) := fun cursor =>
  manyUpTo matcher (cursor.rest.length + 1) cursor

def here : Matcher Nat := fun cursor =>
  .matched cursor.offset cursor []

/-- Reads what a scanner answers, without a trace. -/
def scan (scanner : Scanner) : Matcher Unit := fun cursor =>
  match scanner cursor.rest with
  | some length => .matched () (cursor.advance length) []
  | none => .failed []

/-- Skips what may stand in front of a token. -/
def skip (kind : Skip) : Matcher Unit := fun cursor =>
  .matched () (cursor.advance (kind.length cursor.rest)) []

/-- Skips what may stand in front of a token and reads on. -/
def afterSkip (kind : Skip) (matcher : Matcher α) : Matcher α := do
  skip kind
  matcher

/-- Reads on the same line: blanks and line continuations may stand in front. -/
def onSameLine (matcher : Matcher α) : Matcher α :=
  afterSkip .horizontal matcher

end Matcher

end RubySyntax
