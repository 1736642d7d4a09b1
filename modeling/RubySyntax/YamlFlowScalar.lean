import RubySyntax.WordCharacters
import RubySyntax.YamlCursor

/-!
# Scalars within lines of YAML

Quoted and plain scalars may run over several lines.  A single line break inside
them counts as a space, and further ones count as themselves.
-/

namespace RubySyntax

namespace YamlFlowScalar

/-- The code points of a scalar and the place behind it. -/
abbrev Scanned := List Nat × YamlCursor

def codePoints (characters : List Char) : List Nat :=
  characters.map Char.toNat

/-- What a line break and the ones behind it count as. -/
def foldedBreaks (first : Char) (more : List Char) : List Char :=
  if first ≠ '\n' then first :: more
  else if more.isEmpty then [' ']
  else more

/-! ### Quoted scalars -/

/-- The further line breaks between two parts of a quoted scalar, where no document may end,
and the place behind them and their blanks. -/
def quotedBreaks : Nat → YamlCursor → Except YamlFault (List Char × YamlCursor)
  | 0, _ => .error .malformed
  | bound + 1, cursor =>
    if cursor.atDocumentBoundary then .error .malformed
    else
      let cursor := cursor.skipWhile YamlCharacter.isSpaceOrTab
      match cursor.takeBreak? with
      | none => .ok ([], cursor)
      | some (character, next) => do
        let (breaks, last) ← quotedBreaks bound next
        return (character :: breaks, last)

def simpleEscape? (letter : Char) : Option Nat :=
  [('0', 0x00), ('a', 0x07), ('b', 0x08), ('t', 0x09), ('\t', 0x09), ('n', 0x0A), ('v', 0x0B),
    ('f', 0x0C), ('r', 0x0D), ('e', 0x1B), (' ', 0x20), (Char.ofNat 0x22, 0x22), ('\\', 0x5C),
    ('/', 0x2F), ('N', 0x85), ('_', 0xA0), ('L', 0x2028), ('P', 0x2029)].lookup letter

/-- The number of hexadecimal digits behind the letter of an escape. -/
def escapeWidth? (letter : Char) : Option Nat :=
  [('x', 2), ('u', 4), ('U', 8)].lookup letter

/-- The code point of hexadecimal digits. -/
def readHex (width : Nat) (text : List Char) : Except YamlFault Nat :=
  let digits := (text.take width).map hexDigitValue?
  if digits.length < width ∨ digits.any Option.isNone then .error .malformed
  else
    let codePoint := digits.foldl (fun value digit => value * 16 + digit.getD 0) 0
    if 0x7FFFFFFF < codePoint then .error .codePointOverflow
    else if 0x10FFFF < codePoint then .error .codePointTooGreat
    else .ok codePoint

/-- The code points of an escape whose letter is next. -/
def readEscape (cursor : YamlCursor) : Except YamlFault Scanned :=
  match cursor.peek? with
  | none => .error .malformed
  | some letter =>
    match simpleEscape? letter, escapeWidth? letter, cursor.takeBreak? with
    | some codePoint, _, _ => .ok ([codePoint], cursor.step)
    | none, some width, _ => do
      let codePoint ← readHex width cursor.behind
      return ([codePoint], cursor.forward (width + 1))
    | none, none, some (_, next) => do
      let (breaks, last) ← quotedBreaks (next.rest.length + 1) next
      return (codePoints breaks, last)
    | none, none, none => .error .malformed

/-- The blanks or line breaks that are next, as they count, if there are any. -/
def readQuotedSpace? (cursor : YamlCursor) : Except YamlFault (Option Scanned) :=
  let (blanks, behind) := cursor.takeWhile YamlCharacter.isSpaceOrTab
  match behind.takeBreak? with
  | some (character, next) => do
    let (breaks, last) ← quotedBreaks (next.rest.length + 1) next
    return some (codePoints (foldedBreaks character breaks), last)
  | none => if blanks.isEmpty then .ok none else .ok (some (codePoints blanks, behind))

/-- The rest of a quoted scalar, up to its closing quote. -/
def quotedFrom (quote : Char) : Nat → YamlCursor → Except YamlFault Scanned
  | 0, _ => .error .malformed
  | bound + 1, cursor => do
    match ← readQuotedSpace? cursor with
    | some (space, next) =>
      let (content, last) ← quotedFrom quote bound next
      return (space ++ content, last)
    | none =>
      match cursor.rest with
      | [] => .error .malformed
      | character :: rest =>
        if character = quote ∧ quote = '\'' ∧ rest.head? = some quote then
          let (content, last) ← quotedFrom quote bound (cursor.forward 2)
          return (quote.toNat :: content, last)
        else if character = quote then return ([], cursor.step)
        else if character = '\\' ∧ quote ≠ '\'' then
          let (escaped, next) ← readEscape cursor.step
          let (content, last) ← quotedFrom quote bound next
          return (escaped ++ content, last)
        else
          let (content, last) ← quotedFrom quote bound cursor.step
          return (character.toNat :: content, last)

/-- The quoted scalar whose opening quote is next. -/
def quoted (quote : Char) (cursor : YamlCursor) : Except YamlFault Scanned :=
  quotedFrom quote (cursor.rest.length + 1) cursor.step

/-! ### Plain scalars -/

/-- Brackets, commas and question marks, which end a plain scalar inside brackets. -/
def endsInsideBrackets (character : Char) : Bool :=
  ",?[]\x7b\x7d".toList.contains character

/-- Whether a colon is followed by what makes it an indicator. -/
def isColonEnd (insideBrackets : Bool) (behind : List Char) : Bool :=
  YamlCharacter.endsOr (fun next => YamlCharacter.isSeparator next ||
    (insideBrackets && ",[]\x7b\x7d".toList.contains next)) behind

/-- The length of the part of a plain scalar up to the next separator or indicator. -/
def plainLength (insideBrackets : Bool) : List Char → Nat
  | [] => 0
  | character :: rest =>
    if YamlCharacter.isSeparator character ||
        (character == ':' && isColonEnd insideBrackets rest) ||
        (insideBrackets && endsInsideBrackets character) then 0
    else plainLength insideBrackets rest + 1

/-- The spaces and line breaks between two parts of a plain scalar. -/
structure PlainSpace where
  /-- What they count as, empty if the scalar cannot go on. -/
  content : List Char
  /-- Whether there is a line break among them. -/
  broken : Bool
  next : YamlCursor

/-- The further line breaks and spaces between two parts of a plain scalar, none if a document
ends there. -/
def plainBreaks : Nat → YamlCursor → Option (List Char) × YamlCursor
  | 0, cursor => (some [], cursor)
  | bound + 1, cursor =>
    if cursor.isAt ' ' then plainBreaks bound cursor.step
    else
      match cursor.takeBreak? with
      | none => (some [], cursor)
      | some (character, next) =>
        if next.atDocumentBoundary then (none, next)
        else
          let (breaks?, last) := plainBreaks bound next
          (breaks?.map (character :: ·), last)

/-- The spaces and line breaks that are next. -/
def plainSpace (cursor : YamlCursor) : PlainSpace :=
  let (spaces, behind) := cursor.takeWhile (· == ' ')
  match behind.takeBreak? with
  | none => { content := spaces, broken := false, next := behind }
  | some (character, next) =>
    if next.atDocumentBoundary then { content := [], broken := true, next := next }
    else
      let (breaks?, last) := plainBreaks (next.rest.length + 1) next
      { content := (breaks?.map (foldedBreaks character)).getD [], broken := true, next := last }

structure PlainScan where
  content : List Char
  next : YamlCursor
  /-- Whether a line break stands behind the last part of the scalar. -/
  brokenBehind : Bool

/-- The parts of a plain scalar, of which those so far are given.  Outside brackets, a line has
to be indented to go on with the scalar. -/
def plainFrom (insideBrackets : Bool) (indent : Nat) :
    Nat → PlainScan → List Char → PlainScan
  | 0, scan, _ => scan
  | bound + 1, scan, space =>
    let length := if scan.next.isAt '#' then 0 else plainLength insideBrackets scan.next.rest
    if length = 0 then scan
    else
      let content := scan.content ++ space ++ scan.next.rest.take length
      let behind := plainSpace (scan.next.forward length)
      let scan : PlainScan :=
        { content := content, next := behind.next, brokenBehind := behind.broken }
      if behind.content.isEmpty || behind.next.isAt '#' ||
          (!insideBrackets && behind.next.column < indent) then scan
      else plainFrom insideBrackets indent bound scan behind.content

def plain (insideBrackets : Bool) (indent : Nat) (cursor : YamlCursor) : PlainScan :=
  plainFrom insideBrackets indent (cursor.rest.length + 1)
    { content := [], next := cursor, brokenBehind := false } []

end YamlFlowScalar

end RubySyntax
