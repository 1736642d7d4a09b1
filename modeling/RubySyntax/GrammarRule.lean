import RubySyntax.CommentMatcher
import RubySyntax.OperatorDefaults

/-!
# Rules of the grammar

The grammar is recursive through two kinds of rules: expressions, which depend
on the context, and operands with their suffixes.  Every production is written
over a matcher for the rules, and only calls it after it has read a token.
-/

namespace RubySyntax

/-- The context of an expression. -/
inductive Mode where
  /-- Bodies, groups and the program: line breaks separate statements. -/
  | statement
  /-- Between brackets: line breaks never matter. -/
  | argument
  /-- The arguments of a call without parentheses: a line break ends them. -/
  | command
deriving DecidableEq, Repr

namespace Mode

def name : Mode → String
  | statement => "statement"
  | argument => "argument"
  | command => "command"

def ofName? (name : String) : Option Mode :=
  [statement, argument, command].find? fun mode => mode.name == name

/-- Every context is found by its name. -/
@[simp] theorem ofName?_name (mode : Mode) : ofName? mode.name = some mode := by
  cases mode <;> decide

end Mode

def OperatorTables.of (tables : OperatorTables) : Mode → OperatorTable
  | .statement => tables.statement
  | .argument => tables.argument
  | .command => tables.command

/-- The rules that productions refer to. -/
inductive Rule where
  /-- An operand with its calls, indexes, members and blocks. -/
  | operand
  /-- A chain of operands and operators. -/
  | expression (mode : Mode)
deriving DecidableEq, Repr

abbrev Rules := Rule → Matcher Node

namespace Matcher

def punctuation (symbol : String) (excluded : String := "") : Matcher Node :=
  terminal (.punctuation symbol excluded)

def keyword (word : String) : Matcher Node :=
  terminal (.keyword word)

/-- A matcher that answers the empty node where it does not fit. -/
def orEmpty (matcher : Matcher Node) : Matcher Node := do
  let offset ← here
  let node? ← optional matcher
  return node?.getD (Node.emptyAt offset)

/-- The closing token of a form.  Answers the comments in front of it. -/
def closing (closer : Matcher Node) (kind : Skip) : Matcher (List Node) := do
  let comments ← commentsBefore kind
  let _ ← afterSkip kind closer
  return comments

def closingBracket (symbol : String) : Matcher (List Node) :=
  closing (punctuation symbol) .blanks

def closingBody (symbol : String) : Matcher (List Node) :=
  closing (punctuation symbol) .gap

def comma : Matcher Node :=
  afterSkip .blanks (punctuation ",")

def commaOnSameLine : Matcher Node :=
  onSameLine (punctuation ",")

/-- One or more items with a separator between each two. -/
def separated (item separator : Matcher Node) : Matcher (List Node) := do
  let first ← item
  let others ← many do
    let _ ← separator
    item
  return first :: others

/-- A list node over items, at the offset of the first one. -/
def listNode (offset : Nat) (items : List Node) : Node where
  data := Tag.list
  children := items
  offset := match items with
    | [] => some (offset : Int)
    | first :: _ => first.offset

def itemList (item separator : Matcher Node) : Matcher Node := do
  let offset ← here
  return listNode offset (← separated item separator)

def optionalItemList (item separator : Matcher Node) : Matcher Node := do
  let offset ← here
  let items? ← optional (separated item separator)
  return listNode offset (items?.getD [])

/-- A list of any number of items, the last of which a separator may follow. -/
def trailedItemList (item separator : Matcher Node) : Matcher Node := do
  let offset ← here
  let items? ← optional do
    let items ← separated item separator
    let _ ← optional separator
    return items
  return listNode offset (items?.getD [])

/-- The node of a label and its value, at the colon behind the label. -/
def pairNode (key : Node) (value : List Node) : Node where
  data := Tag.pair
  children := key :: value
  offset := key.offset.map (· + (key.data.length : Int))

/-- Statements behind a gap, or the empty node. -/
def body (rules : Rules) : Matcher Node :=
  orEmpty (afterSkip .gap (rules (.expression .statement)))

/-- Statements up to a closing token, whose comments go to the statements. -/
def bodyUpTo (rules : Rules) (closer : Matcher (List Node)) : Matcher Node := do
  let statements ← body rules
  return statements.appendComments (← closer)

/-- Statements up to the word `end`. -/
def bodyUpToEnd (rules : Rules) : Matcher Node :=
  bodyUpTo rules (closing (keyword "end") .gap)

end Matcher

end RubySyntax
