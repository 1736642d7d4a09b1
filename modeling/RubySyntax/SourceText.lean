import RubySyntax.ValueDisplay

/-!
# Source texts

A source may be given as any value: a text is taken as it is, another value by
its display, and only the absence of a value is refused.
-/

namespace RubySyntax

/-- The text of a source, none if there is no source. -/
def sourceText? : Value → Option (List Char)
  | .null => none
  | value => some value.toText.toList

def missingSourceMessage : String :=
  "parse() needs source text, got None"

/-- The characters of a text in UTF-8, none if the bytes are no such text. -/
def decodeUtf8? (bytes : List Nat) : Option (List Char) :=
  (String.fromUTF8? ⟨(bytes.map Nat.toUInt8).toArray⟩).map String.toList

/-- A source as a parser is given it. -/
inductive Source where
  | bytes (content : List Nat)
  | value (given : Value)

inductive SourceFault where
  | missing
  | notUtf8
deriving DecidableEq, Repr

/-- The text of a source, or why it has none. -/
def Source.text : Source → Except SourceFault (List Char)
  | bytes content =>
    match decodeUtf8? content with
    | some text => .ok text
    | none => .error .notUtf8
  | value given =>
    match sourceText? given with
    | some text => .ok text
    | none => .error .missing

end RubySyntax
