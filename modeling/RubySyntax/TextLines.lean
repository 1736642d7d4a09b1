/-!
# Lines of a text

Offsets count characters, and an offset below zero counts from the end of the
text.  A line ends at a line feed in positions; an excerpt also breaks at the
other characters that end a line on a terminal or in Unicode text.
-/

namespace RubySyntax

/-- The place in a text of the given length that an offset denotes. -/
def boundAt (length : Nat) (offset : Int) : Nat :=
  if offset < 0 then ((length : Int) + offset).toNat else min offset.toNat length

/-- A place at or after zero and within the text denotes itself. -/
@[simp] theorem boundAt_natCast {length offset : Nat} (within : offset ≤ length) :
    boundAt length (offset : Int) = offset := by
  simp only [boundAt]
  split <;> omega

/-- The characters between two offsets. -/
def sliceBetween (text : List Char) (start stop : Int) : List Char :=
  (text.take (boundAt text.length stop)).drop (boundAt text.length start)

def textBefore (text : List Char) (offset : Int) : List Char :=
  text.take (boundAt text.length offset)

def lineFeedCount (text : List Char) : Nat :=
  text.count '\n'

/-- The place just after the last line feed of a text, zero if it has none. -/
def lastLineStart (text : List Char) : Nat :=
  text.length - (text.reverse.takeWhile (· != '\n')).length

/-- A character after which an excerpt starts a new line. -/
def isLineBreak (character : Char) : Bool :=
  [0x0A, 0x0B, 0x0C, 0x0D, 0x1C, 0x1D, 0x1E, 0x85, 0x2028, 0x2029].contains character.toNat

/-- The lines of a text whose first line already holds some characters, last one first. -/
def splitLinesFrom (current : List Char) : List Char → List (List Char)
  | [] => if current.isEmpty then [] else [current.reverse]
  | '\r' :: '\n' :: rest => current.reverse :: splitLinesFrom [] rest
  | character :: rest =>
    if isLineBreak character then current.reverse :: splitLinesFrom [] rest
    else splitLinesFrom (character :: current) rest

/-- The lines of a text without their line breaks; a break at the end starts no line. -/
def splitLines (text : List Char) : List (List Char) :=
  splitLinesFrom [] text

/-- The text with each carriage return, alone or before a line feed, as one line feed. -/
def unifyLineBreaks : List Char → List Char
  | [] => []
  | '\r' :: '\n' :: rest => '\n' :: unifyLineBreaks rest
  | character :: rest =>
    (if character = '\r' then '\n' else character) :: unifyLineBreaks rest

/-- The text cut after each line feed, the line feeds kept. -/
def linesWithFeeds : List Char → List (List Char)
  | [] => []
  | character :: rest =>
    if character = '\n' then [character] :: linesWithFeeds rest
    else
      match linesWithFeeds rest with
      | [] => [[character]]
      | line :: lines => (character :: line) :: lines

end RubySyntax
