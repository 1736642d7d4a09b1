import RubySyntax.Calendar
import RubySyntax.FloatText
import RubySyntax.QuotedText

/-!
# Values of interchange formats

A value is what a document of an interchange format denotes.  Records keep
their entries in order, and a key that is written again replaces the earlier
value in its place.
-/

namespace RubySyntax

/-- The kind of a value that holds itself. -/
inductive RecurrenceKind where
  | list
  | pair
  | record
deriving DecidableEq, Repr

inductive Value where
  | null
  | bool (value : Bool)
  | int (value : Int)
  | float (value : Float)
  | text (value : String)
  /-- A text that holds a surrogate without its partner, as code points. -/
  | brokenText (codePoints : List Nat)
  | bytes (content : List Nat)
  | day (value : Day)
  | moment (value : Moment)
  | list (items : List Value)
  /-- A pair of values that belong together. -/
  | pair (first second : Value)
  | record (entries : List (Value × Value))
  | set (members : List Value)
  /-- A value that holds itself, at the place where it recurs. -/
  | recurrence (kind : RecurrenceKind)

instance : Inhabited Value := ⟨.null⟩

namespace Value

def entry? (entries : List (Value × Value)) (key : String) : Option Value :=
  entries.findSome? fun
    | (.text name, value) => if name == key then some value else none
    | _ => none

def equalInteger? : Value → Option Int
  | bool value => some (if value then 1 else 0)
  | int value => some value
  | float value =>
    match truncateFloat value with
    | .integer integer => if Float.ofInt integer == value then some integer else none
    | _ => none
  | _ => none

/-- Whether two keys of a record are the same; numbers of one value are, whatever their kind. -/
def sameKey (left right : Value) : Bool :=
  match left.equalInteger?, right.equalInteger? with
  | some left, some right => left == right
  | none, none =>
    match left, right with
    | null, null => true
    | float left, float right => left == right
    | text left, text right => left == right
    | brokenText left, brokenText right => left == right
    | bytes left, bytes right => left == right
    | day left, day right => left == right
    | moment left, moment right => left.coincides right
    | _, _ => false
  | _, _ => false

/-- A record with one more entry, which replaces the value of an equal key. -/
def putEntry (entries : List (Value × Value)) (key value : Value) : List (Value × Value) :=
  if entries.any fun entry => sameKey entry.1 key then
    entries.map fun entry => if sameKey entry.1 key then (entry.1, value) else entry
  else entries ++ [(key, value)]

/-- The text of code points, which is broken if a surrogate is among them. -/
def ofCodePoints (codePoints : List Nat) : Value :=
  if codePoints.all fun codePoint => codePoint.isValidChar then
    text (String.ofList (codePoints.map Char.ofNat))
  else brokenText codePoints

/-- Whether a value counts as present: not null, false, zero or without content. -/
def isPresent : Value → Bool
  | null => false
  | bool value => value
  | int value => value != 0
  | float value => value != 0.0
  | text value => !value.isEmpty
  | brokenText codePoints => !codePoints.isEmpty
  | bytes content => !content.isEmpty
  | day _ => true
  | moment _ => true
  | list items => !items.isEmpty
  | pair _ _ => true
  | record entries => !entries.isEmpty
  | set members => !members.isEmpty
  | recurrence _ => true

end Value

end RubySyntax
