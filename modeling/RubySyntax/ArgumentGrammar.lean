import RubySyntax.GrammarRule

/-!
# Arguments and parameters

Arguments are expressions or labels with their values.  Parameters are names,
names with defaults, labels, and names behind a splat.
-/

namespace RubySyntax

namespace Matcher

def labelPair (rules : Rules) (mode : Mode) : Matcher Node := do
  let key ← spaced (terminal .label)
  let value ← rules (.expression mode)
  return pairNode key [value]

def argument (rules : Rules) (mode : Mode) : Matcher Node :=
  (labelPair rules mode).orElse (rules (.expression mode))

def bracketArguments (rules : Rules) : Matcher Node :=
  trailedItemList (argument rules .argument) comma

/-- The arguments of a call without parentheses. -/
def commandArguments (rules : Rules) : Matcher Node :=
  itemList (argument rules .command) commaOnSameLine

/-- Arguments between brackets under the opening bracket.  Comments in front of the
closing bracket go to the arguments. -/
def bracketed (rules : Rules) (opening closer : String) : Matcher (Node × Node) := do
  let bracket ← punctuation opening
  let arguments ← bracketArguments rules
  let trailing ← closingBracket closer
  return (bracket, arguments.appendComments trailing)

def splatParameter : Matcher Node := do
  let operator ← spaced (terminal (.oneOf ["**", "*", "&"] "splat"))
  let name ← terminal .identifier
  return operator.withChildren [name]

/-- A label, with a default value if one follows on the same line. -/
def labelParameter (default : Matcher Node) : Matcher Node := do
  let key ← spaced (terminal .label)
  let value? ← optional do
    scan Lexeme.sameLineValue
    default
  return pairNode key value?.toList

/-- A name, with a default value if an equals sign follows on the same line. -/
def namedParameter (default : Matcher Node) : Matcher Node := do
  let name ← spaced (terminal .identifier)
  let default? ← optional do
    let equals ← onSameLine (punctuation "=" "=~>")
    let value ← default
    return (equals, value)
  match default? with
  | some (equals, value) => return equals.withChildren [name, value]
  | none => return name

def parameter (default : Matcher Node) : Matcher Node :=
  firstOf [splatParameter, labelParameter default, namedParameter default]

end Matcher

end RubySyntax
