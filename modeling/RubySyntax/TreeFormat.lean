import RubySyntax.JsonReader
import RubySyntax.JsonWriter
import RubySyntax.SourceText
import RubySyntax.TreeInterchange
import RubySyntax.TextLines
import RubySyntax.YamlConstruction
import RubySyntax.YamlWriter

/-!
# Trees as documents

A tree is written to and read from documents of an interchange format, which is
asked for by its name in letters of any case.
-/

namespace RubySyntax

inductive TreeFormat where
  | json
  | yaml
deriving DecidableEq, Repr

inductive FormatFault where
  /-- The name is that of no format. -/
  | unsupported (requested : Value)
  /-- The value is no name. -/
  | notAName

namespace TreeFormat

def name : TreeFormat → String
  | json => "json"
  | yaml => "yaml"

def ofName? (requested : String) : Option TreeFormat :=
  [json, yaml].find? fun format => format.name.toList == requested.toList.map Char.toLower

/-- The format that a value asks for.  A value that is not present is an empty name. -/
def ofValue (requested : Value) : Except FormatFault TreeFormat :=
  match requested with
  | .text requested =>
    match ofName? requested with
    | some format => .ok format
    | none => .error (.unsupported (.text requested))
  | other => .error (if other.isPresent then .notAName else .unsupported other)

end TreeFormat

def FormatFault.message? : FormatFault → Option String
  | unsupported requested =>
    some ("Unsupported serialization format: " ++ requested.display)
  | notAName => none

inductive DocumentFault where
  | format (fault : FormatFault)
  | json (text : List Char) (fault : JsonFault)
  | yaml (fault : YamlFault)
  | tree (fault : TreeFault)

namespace Node

/-- The document of a tree; `pretty` asks for one line per item in JSON. -/
def document (format : TreeFormat) (pretty : Bool) (node : Node) : String :=
  match format with
  | .json => writeJson pretty node.toValue
  | .yaml => writeYaml node.toValue

/-- The document of a tree whose integers can all be displayed. -/
def serialize (format : TreeFormat) (pretty : Bool) (node : Node) : Except TreeFault String :=
  if node.toValue.holdsHugeInteger then .error .hugeInteger
  else .ok (node.document format pretty)

def documentValue (format : TreeFormat) (text : List Char) : Except DocumentFault Value :=
  match format with
  | .json => (JsonReader.readDocument text).mapError (.json text)
  | .yaml => ((readYaml text).map SharedValue.toTree).mapError .yaml

def deserialize (format : TreeFormat) (text : List Char) : Except DocumentFault Node := do
  let value ← documentValue format text
  (ofValue value).mapError .tree

def deserializeAs (requested : Value) (text : List Char) : Except DocumentFault Node := do
  let format ← (TreeFormat.ofValue requested).mapError .format
  deserialize format text

end Node

/-- The message of a fault in a JSON text, with its place. -/
def JsonFault.message (text : List Char) (fault : JsonFault) : String :=
  let offset := text.length - fault.remaining
  let before := text.take offset
  fault.problem.message ++ ": line " ++ toString (lineFeedCount before + 1) ++ " column " ++
    toString (offset - lastLineStart before + 1) ++ " (char " ++ toString offset ++ ")"

end RubySyntax
