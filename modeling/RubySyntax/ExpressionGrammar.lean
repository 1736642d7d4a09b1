import RubySyntax.OperandGrammar

/-!
# Expressions and programs

An expression is a chain of operands and operators, reduced by the operator
table of its context.  The rules are tied together by a bound on their nesting:
a rule that is referred to starts behind a token, so the number of characters
that are left bounds how deep rules nest.
-/

namespace RubySyntax

namespace Matcher

/-- A prefix operator with the chain behind it, reduced into that chain. -/
def prefixed (tables : OperatorTables) (rules : Rules) (mode : Mode) : Matcher Node := do
  let table := tables.of mode
  let operator ← spaced (terminal (.oneOf table.prefixSpellings "unary operator"))
  let operand ← rules (.expression mode)
  ofReduction (table.reduceAs (OperatorTable.prefixKey operator.data) operator [] operand)

/-- An operand that may be called with arguments and no parentheses. -/
def commandCall (rules : Rules) : Matcher Node := do
  let callee ← operand rules
  let arguments? ← optional do
    scan Lexeme.commandStart
    commandArguments rules
  match arguments? with
  | some arguments =>
    return { data := Tag.invoke, children := [callee, arguments], offset := callee.offset }
  | none => return callee

/-- An operand without a prefix operator, as the context allows it. -/
def plainOperand (rules : Rules) : Mode → Matcher Node
  | .statement => commandCall rules
  | .argument => operand rules
  | .command => operand rules

def chainOperand (tables : OperatorTables) (rules : Rules) (mode : Mode) : Matcher Node :=
  (prefixed tables rules mode).orElse (plainOperand rules mode)

/-- What may stand in front of an operator: line breaks matter outside brackets. -/
def beforeOperator (mode : Mode) (matcher : Matcher Node) : Matcher Node :=
  match mode with
  | .argument => spaced matcher
  | .statement => onSameLine matcher
  | .command => onSameLine matcher

/-- A question mark with the operand between it and its colon, which takes the comments
in front of the colon. -/
def conditionalLink (rules : Rules) (mode : Mode) : Matcher ChainLink := do
  let question ← beforeOperator mode (punctuation "?")
  let middle ← rules (.expression .argument)
  let colon ← spaced (punctuation ":" ":")
  return .conditional question (middle.appendComments colon.comments)

def operatorLink (mode : Mode) (matcher : Matcher Node) : Matcher ChainLink := do
  let operator ← beforeOperator mode matcher
  return .operator operator

/-- What stands between two operands.  Commas and breaks only link statements. -/
def chainLink (tables : OperatorTables) (rules : Rules) (mode : Mode) : Matcher ChainLink :=
  let common := [
    operatorLink mode (terminal (.oneOf (tables.of mode).infixSpellings "operator")),
    conditionalLink rules mode]
  match mode with
  | .statement =>
    firstOf (common ++
      [operatorLink mode (punctuation ","), operatorLink mode (terminal .separator)])
  | .argument => firstOf common
  | .command => firstOf common

def chainStep (tables : OperatorTables) (rules : Rules) (mode : Mode) :
    Matcher (ChainLink × Node) := do
  let link ← chainLink tables rules mode
  let next ← chainOperand tables rules mode
  return (link, next)

def chain (tables : OperatorTables) (rules : Rules) (mode : Mode) : Matcher Node := do
  let first ← chainOperand tables rules mode
  let links ← many (chainStep tables rules mode)
  ofReduction ((tables.of mode).reduceChain first links)

def production (tables : OperatorTables) (rules : Rules) : Rule → Matcher Node
  | .operand => operand rules
  | .expression mode => chain tables rules mode

/-- A rule whose references nest at most a number of levels deep. -/
def ruleWithin (tables : OperatorTables) : Nat → Rules
  | 0 => fun _ => abort .exhausted
  | depth + 1 => production tables (ruleWithin tables depth)

def rule (tables : OperatorTables) (reference : Rule) : Matcher Node := fun cursor =>
  ruleWithin tables (cursor.rest.length + 1) reference cursor

/-- A whole program: statements, comments behind them, and the end of the text. -/
def program (tables : OperatorTables) : Matcher Node := do
  let root ← body (rule tables)
  let trailing ← commentsBefore .gap
  let _ ← afterSkip .gap (terminal .endOfInput)
  return root.appendComments trailing

end Matcher

end RubySyntax
