import RubySyntax.NumberText
import RubySyntax.Value

/-!
# Reading JSON

The reader accepts the usual grammar of JSON and three words for numbers that
are not finite.  A number without a fraction and an exponent is an integer, and one of
more than 4300 digits is refused.  A fault is located by the number of characters
left behind it, so that no reader has to count the characters before it.
-/

namespace RubySyntax

inductive JsonProblem where
  | byteOrderMark
  | expectingValue
  | extraData
  | expectingName
  | expectingColon
  | expectingComma
  | controlCharacter
  | unterminatedString
  | badEscape
  | badUnicodeEscape
  | tooManyDigits (digits : Nat)
  | nestedTooDeep
deriving DecidableEq, Repr

/-- A problem with the number of characters that are left where it lies. -/
structure JsonFault where
  problem : JsonProblem
  remaining : Nat
deriving DecidableEq, Repr

namespace JsonReader

def fail {α : Type} (problem : JsonProblem) (text : List Char) : Except JsonFault α :=
  .error ⟨problem, text.length⟩

def isJsonBlank (character : Char) : Bool :=
  character == ' ' || character == '\t' || character == '\n' || character == '\r'

def dropBlanks (text : List Char) : List Char :=
  text.dropWhile isJsonBlank

def afterWord? (word : String) (text : List Char) : Option (List Char) :=
  if word.toList.isPrefixOf text then some (text.drop word.length) else none

/-! ### Strings -/

/-- The four hexadecimal digits of an escape, of which `text` has the letter before them. -/
def readUnit (text : List Char) (digits : List Char) : Except JsonFault Nat :=
  match digits.map hexDigitValue? with
  | [some first, some second, some third, some fourth] =>
    .ok (((first * 16 + second) * 16 + third) * 16 + fourth)
  | _ => fail .badUnicodeEscape text

/-- Whether a code unit is the first half of a surrogate pair. -/
def isHighSurrogate (unit : Nat) : Bool :=
  0xD800 ≤ unit && unit ≤ 0xDBFF

/-- Whether a code unit is the second half of a surrogate pair. -/
def isLowSurrogate (unit : Nat) : Bool :=
  0xDC00 ≤ unit && unit ≤ 0xDFFF

def joinSurrogates (high low : Nat) : Nat :=
  0x10000 + (high - 0xD800) * 0x400 + (low - 0xDC00)

/-- The character behind a backslash, apart from the letter of a code unit. -/
def simpleEscape? : Char → Option Nat
  | '\\' => some 0x5C
  | '/' => some 0x2F
  | 'b' => some 0x08
  | 'f' => some 0x0C
  | 'n' => some 0x0A
  | 'r' => some 0x0D
  | 't' => some 0x09
  | character => if character.toNat = 0x22 then some 0x22 else none

/-- The code point of an escape whose letter and digits start the text, and the number of
characters it takes.  A text has to go on behind the digits, and a high surrogate takes
the low one that an escape right behind it gives. -/
def readCodePoint (text : List Char) : Except JsonFault (Nat × Nat) :=
  if text.length ≤ 5 then fail .badUnicodeEscape text
  else do
    let unit ← readUnit text ((text.drop 1).take 4)
    let next := text.drop 5
    if isHighSurrogate unit && 6 < next.length && (afterWord? "\\u" next).isSome then
      let second ← readUnit (next.drop 1) ((next.drop 2).take 4)
      if isLowSurrogate second then return (joinSurrogates unit second, 11)
      else return (unit, 5)
    else return (unit, 5)

/-- The code points of a string up to its closing quote.  `opening` is the text from the
opening quote on, and the bound is the number of characters left. -/
def readCodePoints (opening : List Char) :
    Nat → List Char → Except JsonFault (List Nat × List Char)
  | 0, _ => fail .unterminatedString opening
  | _ + 1, [] => fail .unterminatedString opening
  | bound + 1, character :: rest =>
    if character.toNat = 0x22 then .ok ([], rest)
    else if character.toNat ≤ 0x1F then fail .controlCharacter (character :: rest)
    else if character = '\\' then
      match rest with
      | [] => fail .unterminatedString opening
      | 'u' :: _ => do
        let (codePoint, length) ← readCodePoint rest
        let (codePoints, after) ← readCodePoints opening bound (rest.drop length)
        return (codePoint :: codePoints, after)
      | letter :: rest =>
        match simpleEscape? letter with
        | none => fail .badEscape (character :: letter :: rest)
        | some codePoint => do
          let (codePoints, after) ← readCodePoints opening bound rest
          return (codePoint :: codePoints, after)
    else do
      let (codePoints, after) ← readCodePoints opening bound rest
      return (character.toNat :: codePoints, after)

/-- The string whose opening quote starts the text. -/
def readString (text : List Char) : Except JsonFault (Value × List Char) := do
  let (codePoints, rest) ← readCodePoints text text.length (text.drop 1)
  return (Value.ofCodePoints codePoints, rest)

/-! ### Numbers -/

/-- The digits at the start of a text, and what follows them. -/
def spanAscii (text : List Char) : List Char × List Char :=
  (text.takeWhile Char.isDigit, text.dropWhile Char.isDigit)

def digitsValue (digits : List Char) : Nat :=
  NumberText.ofDigits 10 (digits.map fun digit => digit.toNat - 0x30)

/-- The digits of a fraction behind a point, if there are some. -/
def readFraction (text : List Char) : List Char × List Char :=
  match text with
  | '.' :: rest =>
    let (digits, after) := spanAscii rest
    if digits.isEmpty then ([], text) else (digits, after)
  | _ => ([], text)

/-- An exponent with its digits, if there is one. -/
def readExponent (text : List Char) : Option Int × List Char :=
  match text with
  | letter :: rest =>
    if letter == 'e' || letter == 'E' then
      let (negative, unsigned) := NumberText.splitSign rest
      let (digits, after) := spanAscii unsigned
      if digits.isEmpty then (none, text)
      else
        let magnitude : Int := (digitsValue digits : Nat)
        (some (if negative then -magnitude else magnitude), after)
    else (none, text)
  | [] => (none, text)

/-- The digits before the point: a zero, or digits without a leading zero. -/
def readWhole : List Char → List Char × List Char
  | '0' :: rest => (['0'], rest)
  | text => spanAscii text

/-- The minus sign in front of a number, and what follows it. -/
def splitMinus : List Char → Bool × List Char
  | '-' :: rest => (true, rest)
  | text => (false, text)

def readNumber (text : List Char) : Except JsonFault (Value × List Char) :=
  let (negative, unsigned) := splitMinus text
  let (whole, rest) := readWhole unsigned
  if whole.isEmpty then fail .expectingValue text
  else
    let (fraction, rest) := readFraction rest
    let (exponent?, rest) := readExponent rest
    if fraction.isEmpty && exponent?.isNone then
      if greatestDigitCount < whole.length then fail (.tooManyDigits whole.length) text
      else
        let magnitude : Int := (digitsValue whole : Nat)
        .ok (.int (if negative then -magnitude else magnitude), rest)
    else
      let magnitude := floatOfDecimal (digitsValue (whole ++ fraction))
        (exponent?.getD 0 - (fraction.length : Int))
      .ok (.float (if negative then -magnitude else magnitude), rest)

/-! ### Values -/

def words : List (String × Value) :=
  [("null", .null), ("true", .bool true), ("false", .bool false), ("NaN", .float (0.0 / 0.0)),
    ("Infinity", .float (1.0 / 0.0)), ("-Infinity", .float (-1.0 / 0.0))]

/-- A word or a number. -/
def readScalar (text : List Char) : Except JsonFault (Value × List Char) :=
  match words.findSome? fun (word, value) => (afterWord? word text).map fun rest => (value, rest)
  with
  | some reading => .ok reading
  | none => readNumber text

/-- The items of a list up to its closing bracket.  `element` reads one item. -/
def readItems (element : List Char → Except JsonFault (Value × List Char)) :
    Nat → List Char → Except JsonFault (List Value × List Char)
  | 0, text => fail .nestedTooDeep text
  | bound + 1, text => do
    let (item, rest) ← element text
    match dropBlanks rest with
    | ']' :: after => return ([item], after)
    | ',' :: after =>
      let (items, last) ← readItems element bound (dropBlanks after)
      return (item :: items, last)
    | other => fail .expectingComma other

def startsWithQuote (text : List Char) : Bool :=
  text.head?.any fun character => character.toNat == 0x22

def afterBrace? (text : List Char) : Option (List Char) :=
  afterWord? "\x7d" text

/-- The entries of a record up to its closing brace, added to the ones before them. -/
def readEntries (element : List Char → Except JsonFault (Value × List Char)) :
    Nat → List (Value × Value) → List Char → Except JsonFault (List (Value × Value) × List Char)
  | 0, _, text => fail .nestedTooDeep text
  | bound + 1, entries, text =>
    if startsWithQuote text then do
      let (key, rest) ← readString text
      match dropBlanks rest with
      | ':' :: afterColon =>
        let (value, rest) ← element (dropBlanks afterColon)
        let entries := Value.putEntry entries key value
        match dropBlanks rest with
        | ',' :: after => readEntries element bound entries (dropBlanks after)
        | other =>
          match afterBrace? other with
          | some after => return (entries, after)
          | none => fail .expectingComma other
      | other => fail .expectingColon other
    else fail .expectingName text

/-- The value that starts the text; the bound limits how deep values nest. -/
def readValue : Nat → List Char → Except JsonFault (Value × List Char)
  | 0, text => fail .nestedTooDeep text
  | bound + 1, text =>
    match text with
    | [] => fail .expectingValue text
    | character :: rest =>
      let inside := dropBlanks rest
      if character.toNat = 0x22 then readString text
      else if character = '[' then
        match afterWord? "]" inside with
        | some after => .ok (.list [], after)
        | none => do
          let (items, after) ← readItems (readValue bound) inside.length.succ inside
          return (.list items, after)
      else if character.toNat = 0x7B then
        match afterBrace? inside with
        | some after => .ok (.record [], after)
        | none => do
          let (entries, after) ← readEntries (readValue bound) inside.length.succ [] inside
          return (.record entries, after)
      else readScalar text

def readDocument (text : List Char) : Except JsonFault Value :=
  if text.head? = some (Char.ofNat 0xFEFF) then fail .byteOrderMark text
  else do
    let (value, rest) ← readValue (text.length + 1) (dropBlanks text)
    let rest := dropBlanks rest
    if rest.isEmpty then return value else fail .extraData rest

end JsonReader

def readJson (text : String) : Except JsonFault Value :=
  JsonReader.readDocument text.toList

namespace JsonProblem

def message : JsonProblem → String
  | byteOrderMark => "Unexpected UTF-8 BOM (decode using utf-8-sig)"
  | expectingValue => "Expecting value"
  | extraData => "Extra data"
  | expectingName => "Expecting property name enclosed in double quotes"
  | expectingColon => "Expecting ':' delimiter"
  | expectingComma => "Expecting ',' delimiter"
  | controlCharacter => "Invalid control character at"
  | unterminatedString => "Unterminated string starting at"
  | badEscape => "Invalid \\escape"
  | badUnicodeEscape => "Invalid \\uXXXX escape"
  | tooManyDigits digits => tooManyDigitsMessage digits
  | nestedTooDeep => "maximum recursion depth exceeded"

end JsonProblem

end RubySyntax
