import RubySyntax.QuotedText
import RubySyntax.YamlPlainScalar

/-!
# Written scalars of YAML

A text is written without quotes if it reads back as the same text that way.
Otherwise it stands between single quotes, or between double quotes if it needs
escapes.  A line that has grown beyond the width is folded at a blank.
-/

namespace RubySyntax

namespace YamlScalarText

/-- The number of characters after which a line is folded. -/
def bestWidth : Nat := 80

/-- A character that ends a line inside a written text; a carriage return does not. -/
def isLineEnd (character : Char) : Bool :=
  [0x0A, 0x85, 0x2028, 0x2029].contains character.toNat

/-- Whether a text ends here or goes on with a blank that ends an indicator. -/
def endsIndicator (text : List Char) : Bool :=
  YamlCharacter.endsOr (fun next => next.toNat == 0 || YamlCharacter.isSeparator next) text

/-- A character that only stands in a text between double quotes. -/
def isSpecial (character : Char) : Bool :=
  let codePoint := character.toNat
  !(codePoint == 0x0A || (0x20 ≤ codePoint && codePoint ≤ 0x7E) || codePoint == 0x85 ||
    (((0xA0 ≤ codePoint && codePoint ≤ 0xD7FF) || (0xE000 ≤ codePoint && codePoint ≤ 0xFFFD) ||
      (0x10000 ≤ codePoint && codePoint < 0x10FFFF)) && codePoint != 0xFEFF))

/-- Characters that begin something else when a plain text starts with them. -/
def leadingIndicators : List Char :=
  "#,[]\x7b\x7d&*!|>'\"%@\x60".toList

/-- Whether the start of a text would be taken for something else than a plain text. -/
def startsIndicator (text : List Char) : Bool :=
  "---".toList.isPrefixOf text || "...".toList.isPrefixOf text ||
    (match text with
      | [] => false
      | first :: rest =>
        leadingIndicators.contains first ||
          ((first == '?' || first == ':' || first == '-') && endsIndicator rest))

/-- Whether a colon before a blank or a number sign behind one occurs after the first
character.  `previous` is the character in front of the text. -/
def holdsIndicator (previous : Char) : List Char → Bool
  | [] => false
  | character :: rest =>
    (character == ':' && endsIndicator rest) ||
      (character == '#' && (previous.toNat == 0 || YamlCharacter.isSeparator previous)) ||
      holdsIndicator character rest

/-- Whether a pair of neighbours that pass the two tests occurs in a text. -/
def hasNeighbours (first second : Char → Bool) : List Char → Bool
  | [] => false
  | [_] => false
  | left :: right :: rest =>
    (first left && second right) || hasNeighbours first second (right :: rest)

def isMargin (character : Char) : Bool :=
  character == ' ' || isLineEnd character

/-- Whether a text has to be written between double quotes. -/
def needsEscapes (text : List Char) : Bool :=
  text.any isSpecial || hasNeighbours (· == ' ') isLineEnd text ||
    hasNeighbours isLineEnd (· == ' ') text

/-- Whether a text starts with a space or the end of a line. -/
def startsWithMargin (text : List Char) : Bool :=
  text.head?.any isMargin

/-- Whether a text may be written without quotes. -/
def isPlain (text : List Char) : Bool :=
  PlainScalar.kindOf text == .text && !startsIndicator text &&
    !(match text with
      | [] => false
      | first :: rest => holdsIndicator first rest) &&
    !startsWithMargin text && !startsWithMargin text.reverse && !text.any isLineEnd &&
    !needsEscapes text

def brokenLine (indent : Nat) : List Char :=
  '\n' :: List.replicate indent ' '

/-- The characters of a plain text from some column on.  A single blank becomes a line break
where the line is too long. -/
def plainFrom (indent : Nat) : Nat → Nat → List Char → List Char
  | 0, _, _ => []
  | _ + 1, _, [] => []
  | bound + 1, column, text =>
    let word := text.takeWhile (· != ' ')
    let column := column + word.length
    let rest := text.drop word.length
    let gap := rest.takeWhile (· == ' ')
    let rest := rest.drop gap.length
    if gap.length = 1 ∧ bestWidth < column then
      word ++ brokenLine indent ++ plainFrom indent bound indent rest
    else word ++ gap ++ plainFrom indent bound (column + gap.length) rest

/-- What a text between single quotes is made of. -/
inductive Piece where
  /-- Spaces in a row. -/
  | spaces (count : Nat)
  /-- Line ends in a row. -/
  | breaks (characters : List Char)
  /-- Other characters in a row. -/
  | word (characters : List Char)
deriving DecidableEq, Repr

def pieceKind (character : Char) : Nat :=
  if character == ' ' then 0 else if isLineEnd character then 1 else 2

def consPiece (character : Char) (pieces : List Piece) : List Piece :=
  match pieceKind character, pieces with
  | 0, .spaces count :: rest => .spaces (count + 1) :: rest
  | 0, rest => .spaces 1 :: rest
  | 1, .breaks characters :: rest => .breaks (character :: characters) :: rest
  | 1, rest => .breaks [character] :: rest
  | _, .word characters :: rest => .word (character :: characters) :: rest
  | _, rest => .word [character] :: rest

def pieces (text : List Char) : List Piece :=
  text.foldr consPiece []

def doubledQuotes (word : List Char) : List Char :=
  word.flatMap fun character =>
    if character.toNat = 0x27 then [character, character] else [character]

/-- The line ends of a piece, with one more in front of a line feed. -/
def writtenBreaks (characters : List Char) : List Char :=
  match characters with
  | '\n' :: _ => '\n' :: characters
  | _ => characters

/-- Pieces between single quotes from some column on; `first` says that none is written yet.
A single space becomes a line break where the line is too long, but not at either end. -/
def singleQuotedFrom (indent : Nat) (first : Bool) (column : Nat) : List Piece → List Char
  | [] => []
  | .spaces count :: rest =>
    if count = 1 ∧ bestWidth < column ∧ !first ∧ !rest.isEmpty then
      brokenLine indent ++ singleQuotedFrom indent false indent rest
    else
      List.replicate count ' ' ++ singleQuotedFrom indent false (column + count) rest
  | .breaks characters :: rest =>
    writtenBreaks characters ++ List.replicate indent ' ' ++
      singleQuotedFrom indent false indent rest
  | .word characters :: rest =>
    let word := doubledQuotes characters
    word ++ singleQuotedFrom indent false (column + word.length) rest

def escapeLetter? (codePoint : Nat) : Option Char :=
  [(0x00, '0'), (0x07, 'a'), (0x08, 'b'), (0x09, 't'), (0x0A, 'n'), (0x0B, 'v'), (0x0C, 'f'),
    (0x0D, 'r'), (0x1B, 'e'), (0x22, Char.ofNat 0x22), (0x5C, '\\'), (0x85, 'N'), (0xA0, '_'),
    (0x2028, 'L'), (0x2029, 'P')].lookup codePoint

/-- The upper-case hexadecimal digits of a number, padded with zeros to a width. -/
def upperHexDigits (width value : Nat) : List Char :=
  (hexDigits width value).map Char.toUpper

def escape (character : Char) : List Char :=
  let codePoint := character.toNat
  match escapeLetter? codePoint with
  | some letter => ['\\', letter]
  | none =>
    if codePoint ≤ 0xFF then '\\' :: 'x' :: upperHexDigits 2 codePoint
    else if codePoint ≤ 0xFFFF then '\\' :: 'u' :: upperHexDigits 4 codePoint
    else '\\' :: 'U' :: upperHexDigits 8 codePoint

/-- Whether a character is written as an escape between double quotes. -/
def isEscaped (character : Char) : Bool :=
  let codePoint := character.toNat
  codePoint == 0x22 || codePoint == 0x5C || codePoint == 0xFEFF || codePoint == 0x2028 ||
    codePoint == 0x2029 ||
    !((0x20 ≤ codePoint && codePoint ≤ 0x7E) || (0xA0 ≤ codePoint && codePoint ≤ 0xD7FF) ||
      (0xE000 ≤ codePoint && codePoint ≤ 0xFFFD))

/-- A text between double quotes.  `pending` holds the characters since the last escape or
line break, which are not counted in the column yet.  A line that is too long is broken behind
an escape or before a space, but not at the first or the last character; a backslash keeps a
space that follows the break. -/
def doubleQuotedFrom (indent : Nat) (first : Bool) (column : Nat) (pending : List Char) :
    List Char → List Char
  | [] => pending
  | character :: rest =>
    let inside := !first && !rest.isEmpty
    if isEscaped character then
      let written := pending ++ escape character
      let column := column + written.length
      if inside && bestWidth + 1 < column then
        let keeper := if rest.head? = some ' ' then ['\\'] else []
        written ++ '\\' :: brokenLine indent ++ keeper ++
          doubleQuotedFrom indent false (indent + keeper.length) [] rest
      else written ++ doubleQuotedFrom indent false column [] rest
    else if inside && (character == ' ' || pending.isEmpty) &&
        bestWidth < column + pending.length then
      let keeper := if character = ' ' then ['\\'] else []
      pending ++ '\\' :: brokenLine indent ++ keeper ++
        doubleQuotedFrom indent false (indent + keeper.length) [character] rest
    else doubleQuotedFrom indent false column (pending ++ [character]) rest

def doubleQuote : Char :=
  Char.ofNat 0x22

/-- A text behind a column, with the blank in front of it.  Further lines of the text are
indented. -/
def write (indent column : Nat) (text : List Char) : List Char :=
  if isPlain text then ' ' :: plainFrom indent (text.length + 1) (column + 1) text
  else if needsEscapes text then
    ' ' :: doubleQuote :: doubleQuotedFrom indent true (column + 2) [] text ++ [doubleQuote]
  else ' ' :: '\'' :: singleQuotedFrom indent true (column + 2) (pieces text) ++ ['\'']

end YamlScalarText

end RubySyntax
