import RubySyntax.SyntaxNode
import RubySyntax.ValueDisplay

/-!
# Trees as values

A tree is interchanged as a record with its data and, where they are not empty
or unset, its children, comments and position.  Offsets are not interchanged.
In the other direction the data may be any value, which is taken as text.
-/

namespace RubySyntax

namespace Node

def positionEntry : Option Position → List (Value × Value)
  | none => []
  | some position =>
    [(.text "position",
      .record [(.text "line", .int position.line), (.text "column", .int position.column)])]

/-- The entry of a list, unless it is empty. -/
def listEntry (name : String) : List Value → List (Value × Value)
  | [] => []
  | item :: items => [(.text name, .list (item :: items))]

mutual

def toValue : Node → Value
  | ⟨data, children, comments, _, position⟩ =>
    .record ((.text "data", .text data) ::
      (listEntry "children" (toValues children) ++
        (listEntry "comments" (toValues comments) ++ positionEntry position)))

def toValues : List Node → List Value
  | [] => []
  | node :: nodes => node.toValue :: toValues nodes

end

end Node

inductive TreeFault where
  /-- The value is no record with data. -/
  | notANode (value : Value)
  /-- A position lacks a field. -/
  | missingField (name : String)
  /-- A value cannot be used where it stands. -/
  | unusable
  /-- A text is no integer. -/
  | invalidInteger (shown : String)
  /-- A text has more digits than an integer may have. -/
  | tooManyDigits (digits : Nat)
  /-- A floating-point number without a value is no integer. -/
  | notANumber
  /-- An infinite number is no integer. -/
  | infiniteNumber
  /-- An integer has more digits than can be displayed. -/
  | hugeInteger
  /-- A tree is a part of itself. -/
  | endless

/-- The greatest length of the shown text in the message about an invalid integer. -/
def greatestShownLength : Nat := 200

/-- The message about a text that is no integer in a base, of which the beginning is shown. -/
def invalidIntegerMessage (base : Nat) (shown : String) : String :=
  "invalid literal for int() with base " ++ toString base ++ ": " ++
    String.ofList (shown.toList.take greatestShownLength)

namespace Node

/-- The integer that a text writes, given how the text is shown. -/
def integerOfRead (read : Except IntegerFault Int) (shown : String) : Except TreeFault Int :=
  match read with
  | .ok value => .ok value
  | .error .malformed => .error (.invalidInteger shown)
  | .error (.tooLong digits) => .error (.tooManyDigits digits)

def integerOf : Value → Except TreeFault Int
  | .int value => .ok value
  | .bool value => .ok (if value then 1 else 0)
  | .float value =>
    match truncateFloat value with
    | .integer value => .ok value
    | .infinite => .error .infiniteNumber
    | .notANumber => .error .notANumber
  | .text value => integerOfRead (readInteger 10 value.toList) (quoted value)
  | .brokenText codePoints =>
    integerOfRead (readInteger 10 (codePoints.map Char.ofNat)) (quotedCodePoints codePoints)
  | .bytes content =>
    integerOfRead (readAsciiInteger 10 (content.map Char.ofNat))
      (quotedBytes (content.take greatestShownLength))
  | _ => .error .unusable

def positionField (entries : List (Value × Value)) (name : String) : Except TreeFault Int :=
  match Value.entry? entries name with
  | some value => integerOf value
  | none => .error (.missingField name)

/-- The position that a value stands for; null is an unset one. -/
def positionOf : Option Value → Except TreeFault (Option Position)
  | none => .ok none
  | some .null => .ok none
  | some (.record entries) => do
    let line ← positionField entries "line"
    let column ← positionField entries "column"
    return some ⟨line, column⟩
  | some _ => .error .unusable

/-- The fault of a value that is no tree, which shows the value if it can be displayed. -/
def notANode (value : Value) : TreeFault :=
  if value.holdsHugeInteger then .hugeInteger else .notANode value

/-- The text that a value stands for, if it can be displayed. -/
def textOf (value : Value) : Except TreeFault String :=
  if value.holdsHugeInteger then .error .hugeInteger else .ok value.toText

/-- The failure to read trees from the parts of an atomic value, of which each is no tree. -/
def refuseParts (parts : List Value) : Except TreeFault (List Node) :=
  match parts with
  | [] => .ok []
  | part :: _ => .error (.notANode part)

mutual

def ofValue : Value → Except TreeFault Node
  | .record entries =>
    match Value.entry? entries "data" with
    | none => .error (notANode (.record entries))
    | some data => do
      let position ← positionOf (Value.entry? entries "position")
      let data ← textOf data
      let children ← ofEntry "children" entries
      let comments ← ofEntry "comments" entries
      return { data := data, children := children, comments := comments, position := position }
  | .recurrence .record => .error .endless
  | value => .error (notANode value)

/-- The trees in the first entry under a key, none without such an entry. -/
def ofEntry (key : String) : List (Value × Value) → Except TreeFault (List Node)
  | [] => .ok []
  | (.text name, value) :: entries => if name == key then ofParts value else ofEntry key entries
  | _ :: entries => ofEntry key entries

/-- The trees that the parts of a value stand for; a value that is not present has none. -/
def ofParts : Value → Except TreeFault (List Node)
  | .list items => ofValues items
  | .set members => ofValues members
  | .record entries => ofKeys entries
  | .text value => refuseParts (value.toList.map fun character => .text character.toString)
  | .brokenText codePoints =>
    refuseParts (codePoints.map fun codePoint =>
      if codePoint.isValidChar then .text (Char.ofNat codePoint).toString
      else .brokenText [codePoint])
  | .bytes content => refuseParts (content.map fun (byte : Nat) => .int byte)
  | value => if value.isPresent then .error .unusable else .ok []

def ofValues : List Value → Except TreeFault (List Node)
  | [] => .ok []
  | value :: values => do
    let node ← ofValue value
    let nodes ← ofValues values
    return node :: nodes

/-- The trees that the keys of a record stand for. -/
def ofKeys : List (Value × Value) → Except TreeFault (List Node)
  | [] => .ok []
  | (key, _) :: entries => do
    let node ← ofValue key
    let nodes ← ofKeys entries
    return node :: nodes

end

end Node

namespace TreeFault

def message? : TreeFault → Option String
  | notANode value => some ("Not a serialized node: " ++ value.display)
  | missingField name => some (quoted name)
  | unusable => none
  | invalidInteger shown => some (invalidIntegerMessage 10 shown)
  | tooManyDigits digits => some (tooManyDigitsMessage digits)
  | notANumber => some "cannot convert float NaN to integer"
  | infiniteNumber => none
  | hugeInteger => some hugeIntegerMessage
  | endless => none

end TreeFault

end RubySyntax
