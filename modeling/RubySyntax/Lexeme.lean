import RubySyntax.WordCharacters

/-!
# Lexemes

A scanner answers how many characters at the start of a text form a lexeme, or
that none does.  This module holds the scanners of all tokens of the language
and of the skips between them.
-/

namespace RubySyntax

/-- Answers the length of the lexeme at the start of a text, if there is one. -/
abbrev Scanner := List Char → Option Nat

/-- The number of characters at the start of a text that pass a test. -/
def countWhile (test : Char → Bool) (text : List Char) : Nat :=
  (text.takeWhile test).length

def startsWithChar (test : Char → Bool) (text : List Char) : Bool :=
  text.head?.any test

namespace Lexeme

def reservedWords : List String :=
  ["alias", "and", "begin", "class", "def", "do", "else", "elsif", "end", "ensure", "for",
    "if", "in", "module", "not", "or", "rescue", "then", "undef", "unless", "until", "when",
    "while"]

/-- A character that continues a word or marks its end as a predicate or a bang. -/
def continuesWord (character : Char) : Bool :=
  isWordCharacter character || character == '?' || character == '!'

def isWordEnd (text : List Char) : Bool :=
  !startsWithChar continuesWord text

/-- A word, which has to end there, or the characters of a symbol. -/
def spelling (word : String) : Scanner := fun text =>
  if word.toList.isPrefixOf text &&
      (!startsWithChar isWordCharacter word.toList || isWordEnd (text.drop word.length)) then
    some word.length
  else none

/-- The characters of a symbol, unless one of the excluded characters follows. -/
def punctuation (symbol : String) (excluded : String) : Scanner := fun text =>
  if symbol.toList.isPrefixOf text &&
      !startsWithChar excluded.toList.contains (text.drop symbol.length) then
    some symbol.length
  else none

/-- Inserts a spelling in front of the first one that is not longer. -/
def insertLongest (word : String) : List String → List String
  | [] => [word]
  | other :: others =>
    if other.length ≤ word.length then word :: other :: others
    else other :: insertLongest word others

/-- The spellings with the longest first and those of one length in their order. -/
def longestFirst (spellings : List String) : List String :=
  spellings.foldr insertLongest []

/-- The longest of several spellings; no spelling at all stands for the empty one. -/
def oneOf (spellings : List String) : Scanner := fun text =>
  if spellings.isEmpty then some 0
  else (longestFirst spellings).findSome? fun word => spelling word text

/-- A letter or underscore with the word characters behind it. -/
def name : Scanner
  | [] => none
  | character :: rest =>
    if isNameStart character then some (countWhile isWordCharacter rest + 1) else none

/-- A question or exclamation mark that no equals sign follows. -/
def startsWithMark : List Char → Bool
  | [] => false
  | character :: rest =>
    (character == '?' || character == '!') && !startsWithChar (· == '=') rest

def startsReserved (text : List Char) : Bool :=
  (reservedWords.any fun word => (spelling word text).isSome) ||
    "defined?".toList.isPrefixOf text

/-- A name with an optional mark, where no reserved word stands. -/
def identifier : Scanner := fun text =>
  if startsReserved text then none
  else (name text).map fun length =>
    if startsWithMark (text.drop length) then length + 1 else length

def globalPunctuation : List Char :=
  "!@&`'+~=/\\,;.<>_*$?:\"".toList

/-- A dollar sign with a word or one punctuation character. -/
def globalVariable : Scanner
  | '$' :: rest =>
    let length := countWhile isWordCharacter rest
    if 0 < length then some (length + 1)
    else if startsWithChar globalPunctuation.contains rest then some 2
    else none
  | _ => none

/-- One or two at signs with a name. -/
def instanceVariable : Scanner
  | '@' :: '@' :: rest => (name rest).map (· + 2)
  | '@' :: rest => (name rest).map (· + 1)
  | _ => none

/-- The operators that can be defined as methods, longer ones before their beginnings. -/
def operatorMethods : List String :=
  ["[]=", "[]", "<=>", "===", "==", "=~", "!=", "!~", "<<", ">>", "<=", ">=", "**", "-@", "+@",
    "-", "+", "*", "/", "%", "<", ">", "!", "~", "^", "&", "|"]

/-- An operator that can be defined as a method. -/
def operatorMethod : Scanner := fun text =>
  (operatorMethods.find? fun operator => operator.toList.isPrefixOf text).map String.length

/-- Whether a text starts with the equals sign of a setter and its parameter list. -/
def startsSetter : List Char → Bool
  | '=' :: '(' :: _ => true
  | _ => false

/-- The name of a method: a word with an optional mark, a setter or an operator. -/
def methodName : Scanner := fun text =>
  match name text with
  | some length =>
    let rest := text.drop length
    some (if startsWithMark rest || startsSetter rest then length + 1 else length)
  | none => operatorMethod text

/-- A colon with a variable or the name of a method. -/
def symbol : Scanner
  | ':' :: rest =>
    (globalVariable rest <|> instanceVariable rest <|> methodName rest).map (· + 1)
  | _ => none

def isDigitOrUnderscore (isDigit : Char → Bool) (character : Char) : Bool :=
  isDigit character || character == '_'

/-- A marked number: a zero, one of two letters, then digits. -/
def markedNumber (lower upper : Char) (isDigit : Char → Bool) : Scanner
  | '0' :: letter :: rest =>
    let length := countWhile (isDigitOrUnderscore isDigit) rest
    if (letter == lower || letter == upper) && 0 < length then some (length + 2) else none
  | _ => none

def isOctalDigit (character : Char) : Bool :=
  '0' ≤ character && character ≤ '7'

/-- A character that shows that a number was not octal. -/
def refutesOctal (character : Char) : Bool :=
  character == '.' || character == 'e' || character == 'E' || isDecimalDigit character

/-- The greatest length, from the given one down to one, that ends an octal number. -/
def octalEnd (text : List Char) : Nat → Option Nat
  | 0 => none
  | length + 1 =>
    if startsWithChar refutesOctal (text.drop (length + 1)) then octalEnd text length
    else some (length + 1)

/-- The longest run of octal digits that nothing refutes. -/
def octalDigits : Scanner := fun text =>
  octalEnd text (countWhile (isDigitOrUnderscore isOctalDigit) text)

/-- An octal number: a zero, an optional letter, then octal digits. -/
def octalNumber : Scanner
  | '0' :: 'o' :: rest => (octalDigits rest).map (· + 2)
  | '0' :: 'O' :: rest => (octalDigits rest).map (· + 2)
  | '0' :: rest => (octalDigits rest).map (· + 1)
  | _ => none

/-- The length of a run of digits and underscores that starts with a digit, else zero. -/
def digitRun (text : List Char) : Nat :=
  if startsWithChar isDecimalDigit text then
    countWhile (isDigitOrUnderscore isDecimalDigit) text
  else 0

/-- The length of a fraction: a point with a run of digits behind it. -/
def fractionLength : List Char → Nat
  | '.' :: rest => if 0 < digitRun rest then digitRun rest + 1 else 0
  | _ => 0

/-- The length of an exponent: a letter, an optional sign, then digits. -/
def exponentLength : List Char → Nat
  | [] => 0
  | letter :: rest =>
    if letter == 'e' || letter == 'E' then
      let sign := if startsWithChar (fun mark => mark == '+' || mark == '-') rest then 1 else 0
      let digits := countWhile isDecimalDigit (rest.drop sign)
      if 0 < digits then 1 + sign + digits else 0
    else 0

/-- A decimal number with an optional fraction and an optional exponent. -/
def decimalNumber : Scanner := fun text =>
  let whole := digitRun text
  if 0 < whole then
    let fraction := fractionLength (text.drop whole)
    some (whole + fraction + exponentLength (text.drop (whole + fraction)))
  else none

/-- A number in hexadecimal, binary, octal or decimal notation. -/
def number : Scanner := fun text =>
  markedNumber 'x' 'X' (fun digit => (hexDigitValue? digit).isSome) text <|>
    markedNumber 'b' 'B' (fun digit => digit == '0' || digit == '1') text <|>
    octalNumber text <|> decimalNumber text

/-- What follows the opening slash of a regular expression, up to the closing one. -/
def regexpBody : Scanner
  | [] => none
  | '/' :: _ => some 1
  | '\\' :: '\n' :: _ => none
  | '\\' :: _ :: rest => (regexpBody rest).map (· + 2)
  | '\\' :: [] => none
  | '\n' :: _ => none
  | _ :: rest => (regexpBody rest).map (· + 1)

/-- A regular expression between slashes, on one line. -/
def regexp : Scanner
  | '/' :: rest => (regexpBody rest).map (· + 1)
  | _ => none

/-- The colon of a label, which no second colon follows. -/
def startsLabelColon : List Char → Bool
  | ':' :: rest => !startsWithChar (· == ':') rest
  | _ => false

/-- A name with an optional mark and a colon. -/
def label : Scanner := fun text =>
  match name text with
  | none => none
  | some length =>
    let rest := text.drop length
    let marked := startsWithChar (fun mark => mark == '?' || mark == '!') rest
    let length := if marked then length + 1 else length
    if startsLabelColon (text.drop length) then some (length + 1) else none

def isGap (character : Char) : Bool :=
  isBlank character || character == ';'

/-- A statement break: a semicolon or line feed with the gap behind it, or nothing
in front of a comment. -/
def separator : Scanner
  | [] => none
  | character :: rest =>
    if character == ';' || character == '\n' then some (countWhile isGap rest + 1)
    else if character == '#' then some 0
    else none

def endOfInput : Scanner
  | [] => some 0
  | _ => none

/-! ### What is skipped between tokens -/

/-- A character that is skipped within a line. -/
def isHorizontal (character : Char) : Bool :=
  character == ' ' || character == '\t' || character == '\r' || character == '\x0c'

/-- The length of blanks within a line and of backslashes that continue it. -/
def horizontalLength : List Char → Nat
  | [] => 0
  | '\\' :: '\n' :: rest => horizontalLength rest + 2
  | '\\' :: '\r' :: '\n' :: rest => horizontalLength rest + 3
  | character :: rest => if isHorizontal character then horizontalLength rest + 1 else 0

/-- Whether the text starts what can only be an argument of a call. -/
def startsArgument : List Char → Bool
  | [] => false
  | character :: rest =>
    isWordCharacter character || ['@', '$', '(', '['].contains character ||
      (character == ':' && startsWithChar (fun next => isNameStart next || next == '@' ||
        next == '$') rest) ||
      (['*', '&', '!'].contains character && startsWithChar (fun next =>
        isWordCharacter next || ['@', '$', '(', '[', ':'].contains next) rest) ||
      (character == '*' && startsWithChar (· == '*') rest &&
        startsWithChar isWordCharacter (rest.drop 1))

/-- The length of spaces, tabs and line continuations. -/
def commandGapLength : List Char → Nat
  | [] => 0
  | '\\' :: '\n' :: rest => commandGapLength rest + 2
  | '\\' :: '\r' :: '\n' :: rest => commandGapLength rest + 3
  | character :: rest =>
    if character == ' ' || character == '\t' then commandGapLength rest + 1 else 0

/-- The gap between a callee and its first argument, if there are no parentheses. -/
def commandStart : Scanner := fun text =>
  let length := commandGapLength text
  if 0 < length && startsArgument (text.drop length) then some length else none

/-- The gap between the name of a method and its first parameter without parentheses. -/
def parameterStart : Scanner := fun text =>
  let length := countWhile (fun character => character == ' ' || character == '\t') text
  let startsParameter := fun character =>
    character == '*' || character == '&' || isNameStart character
  if 0 < length && startsWithChar startsParameter (text.drop length) then some length else none

/-- Whether the text starts with a character that can start a default value. -/
def startsValue : List Char → Bool :=
  startsWithChar fun character =>
    !isBlank character && !([',', ')', '|', '#', ';'] : List Char).contains character

/-- The longest horizontal skip in front of what can start a default value.  A line
continuation is given back if nothing behind it can. -/
def sameLineValue : Scanner
  | [] => none
  | '\\' :: '\n' :: rest => (sameLineValue rest).map (· + 2) <|> some 0
  | '\\' :: '\r' :: '\n' :: rest => (sameLineValue rest).map (· + 3) <|> some 0
  | character :: rest =>
    if isHorizontal character then (sameLineValue rest).map (· + 1)
    else if startsValue (character :: rest) then some 0
    else none

end Lexeme

/-- What may be skipped in front of a token. -/
inductive Skip where
  /-- Blanks, line breaks included. -/
  | blanks
  /-- Blanks and stray semicolons. -/
  | gap
  /-- Blanks within a line and line continuations. -/
  | horizontal
deriving DecidableEq, Repr

def Skip.length : Skip → List Char → Nat
  | blanks, text => countWhile isBlank text
  | gap, text => countWhile Lexeme.isGap text
  | horizontal, text => Lexeme.horizontalLength text

end RubySyntax
