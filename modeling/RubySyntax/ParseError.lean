import RubySyntax.QuotedText
import RubySyntax.SourceExcerpt
import RubySyntax.SourcePosition
import RubySyntax.Matcher

/-!
# Parse errors

A parse error names the furthest place at which a token was looked for and what
was expected there.  The place and the names are read off the trace of attempts.
-/

namespace RubySyntax

/-- The furthest place at which tokens failed, and their names in order of first attempt. -/
structure FurthestFailure where
  offset : Nat
  expected : List String
deriving DecidableEq, Repr

namespace FurthestFailure

/-- Takes note of one more attempt. -/
def record (furthest : Option FurthestFailure) (attempt : Attempt) : Option FurthestFailure :=
  if attempt.matched then furthest
  else
    match furthest with
    | none => some ⟨attempt.offset, [attempt.terminal]⟩
    | some ⟨offset, expected⟩ =>
      if offset < attempt.offset then some ⟨attempt.offset, [attempt.terminal]⟩
      else if attempt.offset = offset ∧ attempt.terminal ∉ expected then
        some ⟨offset, expected ++ [attempt.terminal]⟩
      else furthest

/-- Forgets what was noted, before a new text is read. -/
def reset (_ : Option FurthestFailure) : Option FurthestFailure :=
  none

def ofTrace (trace : List Attempt) : Option FurthestFailure :=
  trace.foldl record none

/-- The failure that is reported where the end of the text was not found at an offset: the
furthest one noted, unless the end was looked for further on. -/
def reported (furthest : Option FurthestFailure) (endOffset : Nat) : FurthestFailure :=
  match furthest with
  | none => ⟨endOffset, ["Expected end of input"]⟩
  | some failure =>
    if endOffset ≤ failure.offset then failure else ⟨endOffset, ["Expected end of input"]⟩

end FurthestFailure

/-- What stands at an offset, in the words of an error message. -/
def describeFound (text : List Char) (offset : Int) : String :=
  if (text.length : Int) ≤ offset then "end of input"
  else
    let snippet := (sliceBetween text offset (offset + 12)).takeWhile (· != '\n')
    if snippet.isEmpty then "end of line" else quoted (String.ofList snippet)

/-- A text that does not match the grammar. -/
structure ParseError where
  message : String
  offset : Int
  position : Position
  expected : List String
  source : List Char

namespace ParseError

def messageFor (expected : List String) (found : String) : String :=
  if expected.isEmpty then "Unexpected " ++ found
  else "Expected " ++ " or ".intercalate expected ++ ", found " ++ found

def ofFailure (text : List Char) (failure : FurthestFailure) : ParseError where
  message := messageFor failure.expected (describeFound text failure.offset)
  offset := failure.offset
  position := (PositionTable.ofText text).clamped failure.offset
  expected := failure.expected
  source := text

/-- The line of the error, counted from one. -/
def line (error : ParseError) : Nat :=
  lineFeedCount (textBefore error.source error.offset) + 1

/-- The column of the error, counted from one. -/
def column (error : ParseError) : Int :=
  error.offset - (lastLineStart (textBefore error.source error.offset) : Int) + 1

/-- The message with its place and an excerpt of the source. -/
def format (error : ParseError) : String :=
  let header := "ParseError: " ++ error.message ++ " (line " ++ toString error.line ++ ", col " ++
    toString error.column ++ ")"
  let excerpt := sourceExcerpt error.source error.line (some error.column) 2
  if excerpt.isEmpty then header else header ++ "\n" ++ excerpt

end ParseError

end RubySyntax
