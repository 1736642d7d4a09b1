import RubySyntax.ValueDisplay
import RubySyntax.YamlScalarText

/-!
# Writing YAML

Records and lists are written in block style.  The entries of a record stand
below each other; the items of a list stand at the indentation of the entry that
holds them, each behind a dash.  As in JSON, integers of too many digits are
refused before anything is written.
-/

namespace RubySyntax

namespace YamlWriter

def margin (indent : Nat) : List Char :=
  List.replicate indent ' '

def scalar (indent column : Nat) : Value → List Char
  | .text text => YamlScalarText.write indent column text.toList
  | .null => " null".toList
  | .bool value => if value then " true".toList else " false".toList
  | value => ' ' :: value.toText.toList

mutual

/-- A value behind the colon of its key, at the indentation of the record. -/
def entryValue (indent column : Nat) : Value → List Char
  | .record [] => " \x7b\x7d\n".toList
  | .record (entry :: entries) =>
    '\n' :: margin (indent + 2) ++ recordEntries (indent + 2) (entry :: entries)
  | .list [] => " []\n".toList
  | .list (item :: items) => '\n' :: listItems indent false (item :: items)
  | value => scalar (indent + 2) column value ++ ['\n']

/-- The entries of a record; the line of the first one is already indented. -/
def recordEntries (indent : Nat) : List (Value × Value) → List Char
  | [] => []
  | (key, value) :: entries =>
    let name := key.toText.toList
    name ++ ':' :: entryValue indent (indent + name.length + 1) value ++
      (if entries.isEmpty then [] else margin indent) ++ recordEntries indent entries

/-- The items of a list, each on a line of its own; `atMargin` says that the line of the
first one is already indented. -/
def listItems (indent : Nat) (atMargin : Bool) : List Value → List Char
  | [] => []
  | item :: items =>
    (if atMargin then [] else margin indent) ++ '-' :: itemValue indent item ++
      listItems indent false items

def itemValue (indent : Nat) : Value → List Char
  | .record [] => " \x7b\x7d\n".toList
  | .record (entry :: entries) => ' ' :: recordEntries (indent + 2) (entry :: entries)
  | .list [] => " []\n".toList
  | .list (item :: items) => ' ' :: listItems (indent + 2) true (item :: items)
  | value => scalar (indent + 2) (indent + 1) value ++ ['\n']

end

def document : Value → List Char
  | .record (entry :: entries) => recordEntries 0 (entry :: entries)
  | .list (item :: items) => listItems 0 false (item :: items)
  | .record [] => "\x7b\x7d\n".toList
  | .list [] => "[]\n".toList
  | value => (scalar 2 0 value).drop 1 ++ ['\n']

end YamlWriter

def writeYaml (value : Value) : String :=
  String.ofList (YamlWriter.document value)

end RubySyntax
