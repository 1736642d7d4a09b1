import RubySyntax.PrintableCharacters

/-!
# Quoted texts

A quoted text shows every character unambiguously on one line.  It stands
between single quotes, or between double quotes if it holds a single quote and
no double quote.  The quote in use, the backslash and everything that is not
printable are escaped.  Quoting is defined on code points, so that it also
covers a surrogate that has no partner.
-/

namespace RubySyntax

/-- The lower-case hexadecimal digits of a number, padded with zeros to a width. -/
def hexDigits (width value : Nat) : List Char :=
  let digits := Nat.toDigits 16 value
  List.replicate (width - digits.length) '0' ++ digits

/-- An escape that spells a code point in two, four or eight hexadecimal digits. -/
def numericEscape (codePoint : Nat) : List Char :=
  if codePoint < 0x100 then '\\' :: 'x' :: hexDigits 2 codePoint
  else if codePoint < 0x10000 then '\\' :: 'u' :: hexDigits 4 codePoint
  else '\\' :: 'U' :: hexDigits 8 codePoint

/-- One code point between the given quotes; `isShown` says which stand for themselves. -/
def quotedCodePoint (isShown : Nat → Bool) (quote : Char) (codePoint : Nat) : List Char :=
  if codePoint = quote.toNat then ['\\', quote]
  else if codePoint = 0x5C then ['\\', '\\']
  else if codePoint = 0x09 then ['\\', 't']
  else if codePoint = 0x0A then ['\\', 'n']
  else if codePoint = 0x0D then ['\\', 'r']
  else if isShown codePoint then [Char.ofNat codePoint]
  else numericEscape codePoint

/-- The quote that a text is put between. -/
def preferredQuote (codePoints : List Nat) : Char :=
  if codePoints.contains 0x27 && !codePoints.contains 0x22 then '"' else '\''

def quotedWith (isShown : Nat → Bool) (codePoints : List Nat) : String :=
  let quote := preferredQuote codePoints
  String.ofList (quote :: codePoints.flatMap (quotedCodePoint isShown quote) ++ [quote])

def isPrintableCodePoint (codePoint : Nat) : Bool :=
  decide codePoint.isValidChar && isPrintable (Char.ofNat codePoint)

/-- A text of code points between quotes, printable characters shown as themselves. -/
def quotedCodePoints (codePoints : List Nat) : String :=
  quotedWith isPrintableCodePoint codePoints

def quoted (text : String) : String :=
  quotedCodePoints (text.toList.map Char.toNat)

/-- A sequence of bytes between quotes, marked with a leading `b`; only ASCII is shown. -/
def quotedBytes (bytes : List Nat) : String :=
  "b" ++ quotedWith (fun byte => 0x20 ≤ byte && byte < 0x7F) bytes

end RubySyntax
