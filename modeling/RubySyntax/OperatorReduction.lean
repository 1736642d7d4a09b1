import RubySyntax.OperatorTable
import RubySyntax.SyntaxNode

/-!
# Reduction of operator chains

The grammar reads a chain of operands and operators from left to right and
reduces it from the right.  Each reduction is rotated into the left edge of its
right operand for as long as its operator has to be applied before the operator
found there, which restores precedence and associativity.
-/

namespace RubySyntax

/-- The failure of a look-up: a table has no level for the key. -/
structure MissingOperator where
  key : String
deriving DecidableEq, Repr

namespace OperatorTable

/-- The level of an operator that the table has to have. -/
def levelOf (table : OperatorTable) (key : String) : Except MissingOperator Nat :=
  match table.precedence? key with
  | some level => .ok level
  | none => .error ⟨key⟩

/-- Whether `outer` is applied before `inner`: it binds tighter, or both have one
level and `outer` associates to the left. -/
def bindsBefore (table : OperatorTable) (outer inner : String) : Except MissingOperator Bool := do
  let outerLevel ← table.levelOf outer
  let innerLevel ← table.levelOf inner
  if outerLevel ≠ innerLevel then
    return decide (outerLevel < innerLevel)
  else
    return !table.isRightAssociative outer

/-- Whether a reduction of `key` goes below the root of its right operand.  Only an
operator of this table with two or more children qualifies. -/
def rotates (table : OperatorTable) (key : String) (operand : Node) :
    Except MissingOperator Bool :=
  if operand.children.length < 2 || !table.contains operand.data then .ok false
  else table.bindsBefore key operand.data

end OperatorTable

/-- The operators whose chains become one node with many children. -/
def listOperators : List String :=
  [Tag.list, Tag.sequence]

/-- An operator over its children; a list operator extends a list of its own kind. -/
def joinOperator (operator : Node) (children : List Node) : Node :=
  match children with
  | [] => operator.withChildren []
  | first :: rest =>
    if listOperators.contains operator.data && first.data == operator.data &&
        2 ≤ first.children.length then
      first.withChildren (first.children ++ rest)
    else operator.withChildren children

namespace OperatorTable

/-- Reduces an operator over its leading operands and the last one.  `key` looks the
operator up in the table. -/
def reduceAs (table : OperatorTable) (key : String) (operator : Node) (leading : List Node) :
    Node → Except MissingOperator Node
  | last@⟨_, first :: others, _, _, _⟩ => do
    if ← table.rotates key last then
      let inner ← table.reduceAs key operator leading first
      return joinOperator last (inner :: others)
    else
      return joinOperator operator (leading ++ [last])
  | last => .ok (joinOperator operator (leading ++ [last]))

/-- Reduces an operator that is looked up by its own spelling. -/
def reduce (table : OperatorTable) (operator : Node) (leading : List Node) (last : Node) :
    Except MissingOperator Node :=
  table.reduceAs operator.data operator leading last

end OperatorTable

/-- What stands between two operands of a chain. -/
inductive ChainLink where
  /-- An infix operator. -/
  | operator (node : Node)
  /-- A question mark with the operand between it and its colon. -/
  | conditional (question middle : Node)

namespace OperatorTable

/-- Reduces one link over its two operands. -/
def reduceLink (table : OperatorTable) (left : Node) (link : ChainLink) (right : Node) :
    Except MissingOperator Node :=
  match link with
  | .operator node => table.reduce node [left] right
  | .conditional question middle => table.reduce question [left, middle] right

/-- Reduces a chain from its right end. -/
def reduceChain (table : OperatorTable) (first : Node) :
    List (ChainLink × Node) → Except MissingOperator Node
  | [] => .ok first
  | (link, next) :: links => do
    let right ← table.reduceChain next links
    table.reduceLink first link right

end OperatorTable

end RubySyntax
