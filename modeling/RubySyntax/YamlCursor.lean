import RubySyntax.YamlCharacter

/-!
# Places in a YAML text

YAML depends on lines and columns, so a place counts both.  A line ends behind
each line break, a carriage return and a line feed counting once, and a byte
order mark takes no column.
-/

namespace RubySyntax

/-- Why a YAML text has no value. -/
inductive YamlFault where
  /-- The text breaks a rule of YAML. -/
  | malformed
  /-- An escape gives a code point that is too great. -/
  | codePointTooGreat
  /-- An escape gives a number that is no code point by far. -/
  | codePointOverflow
  /-- A scalar is no value of the kind that it is tagged as. -/
  | badValue (message : String)
  /-- A scalar is none of the words of its kind. -/
  | unknownWord (word : String)
  /-- A number has no digit at all. -/
  | missingDigits
  /-- A scalar does not have the form of its kind. -/
  | unrecognized
  /-- What has to be a text is none. -/
  | notText
  /-- An integer is too great for a floating-point number. -/
  | numberTooGreat
  /-- A default value stands for itself. -/
  | endless
deriving DecidableEq, Repr

/-- A place in a YAML text and what follows it. -/
structure YamlCursor where
  index : Nat
  line : Nat
  column : Nat
  rest : List Char

namespace YamlCursor

def ofText (text : List Char) : YamlCursor :=
  ⟨0, 0, 0, text⟩

def peek? (cursor : YamlCursor) : Option Char :=
  cursor.rest.head?

def isAt (cursor : YamlCursor) (character : Char) : Bool :=
  cursor.rest.head? == some character

/-- What follows the next character. -/
def behind (cursor : YamlCursor) : List Char :=
  cursor.rest.drop 1

/-- The place behind the next character. -/
def step (cursor : YamlCursor) : YamlCursor :=
  match cursor.rest with
  | [] => cursor
  | character :: rest =>
    let endsLine := (YamlCharacter.isBreak character && character != '\r') ||
      (character == '\r' && rest.head? != some '\n')
    if endsLine then ⟨cursor.index + 1, cursor.line + 1, 0, rest⟩
    else if character = YamlCharacter.byteOrderMark then
      ⟨cursor.index + 1, cursor.line, cursor.column, rest⟩
    else ⟨cursor.index + 1, cursor.line, cursor.column + 1, rest⟩

def forward : Nat → YamlCursor → YamlCursor
  | 0, cursor => cursor
  | count + 1, cursor => forward count cursor.step

/-- The characters in front of the first one that fails a test, and the place there. -/
def takeWhile (test : Char → Bool) (cursor : YamlCursor) : List Char × YamlCursor :=
  let taken := cursor.rest.takeWhile test
  (taken, cursor.forward taken.length)

/-- The place of the first character that fails a test. -/
def skipWhile (test : Char → Bool) (cursor : YamlCursor) : YamlCursor :=
  (cursor.takeWhile test).2

def skipSpaces (cursor : YamlCursor) : YamlCursor :=
  cursor.skipWhile (· == ' ')

/-- The place at the end of the line if a comment starts here. -/
def skipComment (cursor : YamlCursor) : YamlCursor :=
  if cursor.isAt '#' then cursor.skipWhile fun character => !YamlCharacter.isBreak character
  else cursor

/-- Whether a space, a line break or the end of the text is next. -/
def atSpaceOrLineEnd (cursor : YamlCursor) : Bool :=
  YamlCharacter.endsOr YamlCharacter.isSpaceOrBreak cursor.rest

/-- The line break that is next, as it counts in a scalar, and the place behind it. -/
def takeBreak? (cursor : YamlCursor) : Option (Char × YamlCursor) :=
  match cursor.rest with
  | '\r' :: '\n' :: _ => some ('\n', cursor.forward 2)
  | character :: _ =>
    if character.toNat = 0x2028 ∨ character.toNat = 0x2029 then some (character, cursor.step)
    else if YamlCharacter.isBreak character then some ('\n', cursor.step)
    else none
  | [] => none

/-- Whether the marker of a document boundary stands here. -/
def atDocumentMarker (marker : String) (cursor : YamlCursor) : Bool :=
  marker.toList.isPrefixOf cursor.rest && YamlCharacter.atSeparator (cursor.rest.drop 3)

/-- Whether one of the two markers of a document boundary stands here. -/
def atDocumentBoundary (cursor : YamlCursor) : Bool :=
  cursor.atDocumentMarker "---" || cursor.atDocumentMarker "..."

/-- The end of the line, where nothing but a comment may stand, and the place behind it. -/
def finishLine (cursor : YamlCursor) : Except YamlFault YamlCursor :=
  let cursor := cursor.skipSpaces.skipComment
  match cursor.takeBreak? with
  | some (_, next) => .ok next
  | none => if cursor.rest.isEmpty then .ok cursor else .error .malformed

end YamlCursor

end RubySyntax
