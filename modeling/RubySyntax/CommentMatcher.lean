import RubySyntax.Terminal

/-!
# Comments

A comment runs from a number sign to the end of its line, or between two marker
lines.  Comments are read right before a token and stay with the node that the
token begins; reading them leaves no trace.
-/

namespace RubySyntax

/-- The extent of a comment: its whole length and where its text lies inside it. -/
structure CommentSpan where
  length : Nat
  textStart : Nat
  textLength : Nat
deriving DecidableEq, Repr

namespace CommentSpan

/-- The extent of the line comment at the start of a text.  Blanks behind the number sign
and carriage returns before the line feed are not part of its text. -/
def ofLine? : List Char → Option CommentSpan
  | '#' :: rest =>
    let line := rest.takeWhile (· != '\n')
    let lead := countWhile (fun character => character == ' ' || character == '\t') line
    let trailing := countWhile (· == '\r') (line.drop lead).reverse
    some ⟨line.length + 1, lead + 1, line.length - lead - trailing⟩
  | _ => none

/-- Whether a line starts with a marker word that ends there. -/
def startsMarker (marker : String) (text : List Char) : Bool :=
  marker.toList.isPrefixOf text && !startsWithChar isWordCharacter (text.drop marker.length)

/-- Whether a line is the last one of a block comment. -/
def startsBlockEnd (text : List Char) : Bool :=
  startsMarker "=end" text

/-- The number of characters before the first line feed that the last line follows. -/
def blockTextLength? : List Char → Option Nat
  | [] => none
  | character :: rest =>
    if character == '\n' && startsBlockEnd rest then some 0
    else (blockTextLength? rest).map (· + 1)

/-- The extent of the block comment at the start of a line.  The last line is looked for
behind a line of text first, and right behind the opening line only if there is none. -/
def ofBlock? (text : List Char) : Option CommentSpan :=
  if startsMarker "=begin" text then
    let opening := countWhile (· != '\n') text
    match text.drop opening with
    | [] => none
    | _ :: body =>
      match blockTextLength? body with
      | some textLength =>
        let lastLine := countWhile (· != '\n') (body.drop (textLength + 1))
        some ⟨opening + 1 + textLength + 1 + lastLine, opening + 1, textLength⟩
      | none =>
        if startsBlockEnd body then
          some ⟨opening + 1 + countWhile (· != '\n') body, opening + 1, 0⟩
        else none
  else none

end CommentSpan

namespace Matcher

def commentOf (kind : String) (span? : List Char → Option CommentSpan) : Matcher Node :=
  fun cursor =>
    match span? cursor.rest with
    | some span =>
      let text := (cursor.rest.drop span.textStart).take span.textLength
      .matched
        (Node.comment kind (String.ofList text) cursor.offset
          ((cursor.offset + span.textStart : Nat) : Int))
        (cursor.advance span.length) []
    | none => .failed []

/-- Reads a comment up to the end of its line. -/
def lineComment : Matcher Node :=
  commentOf Tag.lineComment CommentSpan.ofLine?

/-- Reads a comment between two marker lines, which has to begin a line. -/
def blockComment : Matcher Node := fun cursor =>
  if cursor.atLineStart then commentOf Tag.blockComment CommentSpan.ofBlock? cursor
  else .failed []

/-- Reads all comments in front of a token, each after what may be skipped. -/
def commentsBefore (kind : Skip) : Matcher (List Node) :=
  many (afterSkip kind (blockComment.orElse lineComment))

/-- Reads comments and attaches them to the node that follows. -/
def withCommentsBefore (kind : Skip) (matcher : Matcher Node) : Matcher Node := do
  let comments ← commentsBefore kind
  let node ← matcher
  return node.withComments comments

/-- Reads a node behind blanks and comments, which the node keeps. -/
def spaced (matcher : Matcher Node) (kind : Skip := .blanks) : Matcher Node :=
  withCommentsBefore kind (afterSkip kind matcher)

end Matcher

end RubySyntax
