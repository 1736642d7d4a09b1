import RubySyntax.YamlPlainScalar

/-!
# Tags of YAML

A tag says what kind of value a node denotes.  The standard kinds have tags of a
common beginning, which the handle of two exclamation marks abbreviates.
-/

namespace RubySyntax

namespace YamlTag

def ofText (text : String) : List Nat :=
  text.toList.map Char.toNat

/-- What all tags of the standard kinds start with. -/
def beginning : List Nat :=
  ofText "tag:yaml.org,2002:"

def standard (kind : String) : List Nat :=
  beginning ++ ofText kind

/-- The name of a standard kind, if the tag is that of one. -/
def kind? (tag : List Nat) : Option String :=
  if beginning.isPrefixOf tag then
    some (String.ofList ((tag.drop beginning.length).map Char.ofNat))
  else none

def ofPlainKind : PlainKind → List Nat
  | .bool => standard "bool"
  | .float => standard "float"
  | .int => standard "int"
  | .merge => standard "merge"
  | .null => standard "null"
  | .timestamp => standard "timestamp"
  | .value => standard "value"
  | .indicator => standard "yaml"
  | .text => standard "str"

def text : List Nat := standard "str"

def sequence : List Nat := standard "seq"

def mapping : List Nat := standard "map"

/-- The tag of the key that merges other mappings. -/
def merge : List Nat := standard "merge"

/-- The tag of the key of a default value. -/
def value : List Nat := standard "value"

/-- The tag that asks for the usual kind. -/
def unspecific : List Nat := ofText "!"

/-- The handles that every document knows. -/
def standardHandles : List (List Nat × List Nat) :=
  [(ofText "!", ofText "!"), (ofText "!!", beginning)]

end YamlTag

end RubySyntax
