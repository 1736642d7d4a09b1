import RubySyntax.ArgumentGrammar

/-!
# Operands

An operand is a literal, a name, a bracketed form or a definition, with any
number of calls, indexes, members, scopes and blocks behind it.
-/

namespace RubySyntax

/-- What stands behind an operand and takes it in. -/
inductive Suffix where
  /-- An operator over the operand and one more child. -/
  | wrap (operator child : Node)
  /-- A brace block. -/
  | block (block : Node)

namespace Suffix

/-- A block joins the call before it, or makes one of its callee. -/
def attachBlock (callee block : Node) : Node :=
  if callee.data == Tag.invoke && callee.children.length == 2 then
    callee.withChildren (callee.children ++ [block])
  else
    { data := Tag.invoke
      children := [callee, { data := Tag.list, offset := block.offset }, block]
      offset := block.offset }

def attach (operand : Node) : Suffix → Node
  | .wrap operator child => operator.withChildren [operand, child]
  | .block added => attachBlock operand added

end Suffix

namespace Matcher

/-- The word of a definition and the nodes behind it, which become its children. -/
def definition (word : String) (parts : Matcher (List Node)) : Matcher Node := do
  let keyword ← keyword word
  return keyword.withChildren (← parts)

/-- The name of a method, with a receiver and a dot in front of it for a singleton. -/
def definedName : Matcher Node := do
  let name ← spaced (terminal .methodName)
  let singleton? ← optional do
    let dot ← punctuation "."
    let member ← terminal .methodName
    return (dot, member)
  match singleton? with
  | some (dot, member) => return dot.withChildren [name, member]
  | none => return name

/-- Parameters between parentheses on the line of the name. -/
def parenthesizedParameters (rules : Rules) : Matcher Node := do
  let _ ← onSameLine (punctuation "(")
  let parameters ← optionalItemList (parameter (rules (.expression .argument))) comma
  return parameters.appendComments (← closingBracket ")")

/-- Parameters without parentheses on the line of the name. -/
def bareParameters (rules : Rules) : Matcher Node := do
  scan Lexeme.parameterStart
  itemList (parameter (rules (.expression .command))) commaOnSameLine

def methodDefinition (rules : Rules) : Matcher Node :=
  definition "def" do
    let name ← definedName
    let parameters ← orEmpty ((parenthesizedParameters rules).orElse (bareParameters rules))
    let body ← bodyUpToEnd rules
    return [name, parameters, body]

def singletonTarget (rules : Rules) : Matcher (List Node) := do
  let shift ← spaced (punctuation "<<")
  let target ← rules .operand
  return [shift.withChildren [target]]

/-- The parent of a class, which keeps the comments in front of its sign. -/
def parentClass (rules : Rules) : Matcher Node := do
  let less ← spaced (punctuation "<" "<=")
  let parent ← rules .operand
  return parent.withComments less.comments

/-- The name of a class and its parent, if it has one. -/
def classHeader (rules : Rules) : Matcher (List Node) := do
  let name ← rules .operand
  let parent ← orEmpty (parentClass rules)
  return [name, parent]

/-- The definition of a class or of a singleton class. -/
def classDefinition (rules : Rules) : Matcher Node :=
  definition "class" do
    let header ← (singletonTarget rules).orElse (classHeader rules)
    let body ← bodyUpToEnd rules
    return header ++ [body]

def moduleDefinition (rules : Rules) : Matcher Node :=
  definition "module" do
    let name ← rules .operand
    let body ← bodyUpToEnd rules
    return [name, body]

def aliasName : Matcher Node :=
  onSameLine (firstOf [terminal .symbol, terminal .globalVariable, terminal .methodName])

/-- A second name for a method or a global variable. -/
def aliasDefinition : Matcher Node :=
  definition "alias" do
    let newName ← aliasName
    let oldName ← aliasName
    return [newName, oldName]

/-- Statements between parentheses. -/
def group (rules : Rules) : Matcher Node := do
  let opening ← punctuation "("
  let body ← bodyUpTo rules (closingBody ")")
  return (opening.retag Tag.group).withChildren [body]

/-- An array or a hash, tagged with its opening bracket. -/
def container (rules : Rules) (opening closer : String) : Matcher Node := do
  let (bracket, elements) ← bracketed rules opening closer
  return bracket.withChildren [elements]

/-- An operand without suffixes, behind blanks and comments. -/
def primary (rules : Rules) : Matcher Node :=
  spaced (firstOf [
    methodDefinition rules,
    classDefinition rules,
    moduleDefinition rules,
    aliasDefinition,
    terminal .number,
    terminal .symbol,
    terminal .globalVariable,
    terminal .instanceVariable,
    terminal .regexp,
    terminal .identifier,
    group rules,
    container rules "[" "]",
    container rules "\x7b" "\x7d"])

/-- Arguments in brackets that touch the operand. -/
def bracketSuffix (rules : Rules) (tag opening closer : String) : Matcher Suffix := do
  let (bracket, arguments) ← bracketed rules opening closer
  return .wrap (bracket.retag tag) arguments

/-- A dot and the name of a member, behind blanks and comments. -/
def memberSuffix : Matcher Suffix := do
  let dot ← spaced ((punctuation "&.").orElse (punctuation "." "."))
  let name ← afterSkip .blanks (terminal .methodName)
  return .wrap dot name

/-- Two colons and a name that touch the operand. -/
def scopeSuffix : Matcher Suffix := do
  let colons ← punctuation "::"
  let name ← terminal .methodName
  return .wrap colons name

/-- A vertical bar of a parameter list. -/
def bar : Matcher Node :=
  afterSkip .blanks (punctuation "|")

def blockParameters (rules : Rules) : Matcher Node := do
  let _ ← bar
  let parameters ← optionalItemList (parameter (rules .operand)) comma
  let _ ← bar
  return parameters

def braceBlock (rules : Rules) : Matcher Node := do
  let brace ← punctuation "\x7b"
  let parameters ← orEmpty (blockParameters rules)
  let body ← bodyUpTo rules (closingBody "\x7d")
  return (brace.retag Tag.block).withChildren [parameters, body]

/-- A brace block on the line of the operand. -/
def blockSuffix (rules : Rules) : Matcher Suffix := do
  let block ← onSameLine (braceBlock rules)
  return .block block

def suffix (rules : Rules) : Matcher Suffix :=
  firstOf [
    bracketSuffix rules Tag.invoke "(" ")",
    bracketSuffix rules Tag.index "[" "]",
    memberSuffix,
    scopeSuffix,
    blockSuffix rules]

def operand (rules : Rules) : Matcher Node := do
  let first ← primary rules
  let suffixes ← many (suffix rules)
  return suffixes.foldl Suffix.attach first

end Matcher

end RubySyntax
