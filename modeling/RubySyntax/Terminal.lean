import RubySyntax.Matcher
import RubySyntax.QuotedText

/-!
# Terminals

A terminal is a kind of token with the name that errors give it.  Reading one
yields a single leaf at the offset where the token began and traces the attempt.
-/

namespace RubySyntax

/-- A kind of token. -/
structure Terminal where
  /-- The name in the list of what was expected. -/
  name : String
  /-- The length of the token at the start of a text. -/
  scanner : Scanner
  /-- The data of the leaf, from the characters of the token. -/
  dataOf : List Char → String := String.ofList

namespace Terminal

/-- A name that is no reserved word. -/
def identifier : Terminal where
  name := "identifier"
  scanner := Lexeme.identifier

/-- A variable that is marked by a dollar sign. -/
def globalVariable : Terminal where
  name := "global variable"
  scanner := Lexeme.globalVariable

/-- A variable that is marked by one or two at signs. -/
def instanceVariable : Terminal where
  name := "instance variable"
  scanner := Lexeme.instanceVariable

/-- A name behind a colon. -/
def symbol : Terminal where
  name := "symbol"
  scanner := Lexeme.symbol

def number : Terminal where
  name := "number"
  scanner := Lexeme.number

/-- A regular expression literal. -/
def regexp : Terminal where
  name := "regexp"
  scanner := Lexeme.regexp

def methodName : Terminal where
  name := "method name"
  scanner := Lexeme.methodName

/-- A label, whose leaf holds the name without the colon. -/
def label : Terminal where
  name := "label"
  scanner := Lexeme.label
  dataOf := fun characters => String.ofList characters.dropLast

/-- A word of the language, which has to end where its spelling ends. -/
def keyword (word : String) : Terminal where
  name := quoted word
  scanner := Lexeme.spelling word

/-- A punctuation symbol that none of the excluded characters may follow. -/
def punctuation (symbol : String) (excluded : String := "") : Terminal where
  name := quoted symbol
  scanner := Lexeme.punctuation symbol excluded

/-- The longest of several spellings. -/
def oneOf (spellings : List String) (name : String) : Terminal where
  name := name
  scanner := Lexeme.oneOf spellings

/-- A break between statements, whose leaf holds a semicolon however it is spelled. -/
def separator : Terminal where
  name := "statement separator"
  scanner := Lexeme.separator
  dataOf := fun _ => Tag.sequence

def endOfInput : Terminal where
  name := "end of input"
  scanner := Lexeme.endOfInput

end Terminal

namespace Matcher

/-- Reads one token as a leaf and traces the attempt. -/
def terminal (kind : Terminal) : Matcher Node := fun cursor =>
  match kind.scanner cursor.rest with
  | some length =>
    .matched
      { data := kind.dataOf (cursor.rest.take length), offset := some (cursor.offset : Int) }
      (cursor.advance length) [⟨cursor.offset, kind.name, true⟩]
  | none => .failed [⟨cursor.offset, kind.name, false⟩]

end Matcher

end RubySyntax
