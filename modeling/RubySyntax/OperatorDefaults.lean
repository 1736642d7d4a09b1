import RubySyntax.OperatorTable

/-!
# The default operator tables

The language has three contexts.  Statements take every operator, with the
comma tighter than assignment and the separator loosest.  Arguments between
brackets take hash pairs but no statement modifiers.  The arguments of a call
without parentheses take neither modifiers nor the spelled-out logical operators.
-/

namespace RubySyntax

/-- The tables of the three contexts. -/
structure OperatorTables where
  statement : OperatorTable
  argument : OperatorTable
  command : OperatorTable

namespace OperatorDefaults

/-- The operators of expressions, tightest first, `none` between two levels. -/
def expressionOperators : List (Option String) :=
  [some ".", some "::", none,
    some "!@", some "~@", some "+@", some "-@", none,
    some "**", none,
    some "*", some "/", some "%", none,
    some "+", some "-", none,
    some "<<", some ">>", none,
    some "&", none,
    some "|", some "^", none,
    some ">", some ">=", some "<", some "<=", none,
    some "<=>", some "==", some "===", some "!=", some "=~", some "!~", none,
    some "&&", none,
    some "||", none,
    some "..", some "...", none,
    some "?"]

/-- The prefixes that spread an argument. -/
def splatOperators : List (Option String) :=
  [some "*@", some "**@", some "&@"]

def rescueModifier : List (Option String) :=
  [some "rescue"]

def assignmentSpellings : List String :=
  ["=", "+=", "-=", "*=", "/=", "%=", "**=", "<<=", ">>=", "&&=", "||=", "&=", "|=", "^="]

/-- The assignments, all of one level. -/
def assignmentOperators : List (Option String) :=
  assignmentSpellings.map some

def wordOperators : List (Option String) :=
  [some "defined?@", none, some "not@", none, some "and", some "or"]

def modifierOperators : List (Option String) :=
  [some "if", some "unless", some "while", some "until"]

/-- The comma between the targets or values of an assignment. -/
def statementComma : List (Option String) :=
  [some ","]

def statementSeparator : List (Option String) :=
  [some ";"]

/-- The arrow between a hash key and its value. -/
def hashPair : List (Option String) :=
  [some "=>"]

/-- The operators that associate to the right unless a table says otherwise. -/
def rightAssociative : List String :=
  ["!@", "~@", "+@", "-@", "*@", "**@", "&@", "defined?@", "not@", "**", "?"] ++
    assignmentSpellings

def statement : OperatorTable :=
  .ofLists
    [expressionOperators, splatOperators, rescueModifier, statementComma, assignmentOperators,
      wordOperators, modifierOperators, statementSeparator]
    rightAssociative

def argument : OperatorTable :=
  .ofLists [expressionOperators, splatOperators, assignmentOperators, wordOperators, hashPair]
    rightAssociative

/-- The table of the arguments of a call without parentheses. -/
def command : OperatorTable :=
  .ofLists [expressionOperators, splatOperators, assignmentOperators, hashPair]
    rightAssociative

end OperatorDefaults

def OperatorTables.standard : OperatorTables where
  statement := OperatorDefaults.statement
  argument := OperatorDefaults.argument
  command := OperatorDefaults.command

end RubySyntax
