/-!
# Operator tables

An operator table gives each operator of one grammar context a level, the
tightest first, and says which operators associate to the right.  A prefix
operator is keyed by its spelling with a marker behind it, so that a spelling
can have one level as a prefix and another between two operands.
-/

namespace RubySyntax

/-- The levels of the operators of one context, in order of first mention. -/
structure OperatorTable where
  levels : List (String × Nat)
  rightAssociative : List String

namespace OperatorTable

def prefixMarker : Char := '@'

def prefixKey (spelling : String) : String :=
  spelling.push prefixMarker

def isPrefixKey (key : String) : Bool :=
  key.toList.getLast? == some prefixMarker

def prefixSpelling (key : String) : String :=
  String.ofList key.toList.dropLast

/-- The levels with one more operator, unless it has a level already. -/
def addLevel (levels : List (String × Nat)) (key : String) (level : Nat) : List (String × Nat) :=
  if levels.any fun entry => entry.1 == key then levels else levels ++ [(key, level)]

/-- Adds the operators of one list from a level on; `none` moves to the next level. -/
def addSymbols (levels : List (String × Nat)) (level : Nat) :
    List (Option String) → List (String × Nat) × Nat
  | [] => (levels, level + 1)
  | none :: symbols => addSymbols levels (level + 1) symbols
  | some key :: symbols => addSymbols (addLevel levels key level) level symbols

/-- Adds the operators of several lists; the end of each moves to the next level. -/
def addLists (levels : List (String × Nat)) (level : Nat) :
    List (List (Option String)) → List (String × Nat)
  | [] => levels
  | symbols :: lists =>
    let (more, next) := addSymbols levels level symbols
    addLists more next lists

/-- The table of ordered operator lists, tightest first. -/
def ofLists (lists : List (List (Option String))) (rightAssociative : List String) :
    OperatorTable where
  levels := addLists [] 0 lists
  rightAssociative := rightAssociative

def precedence? (table : OperatorTable) (key : String) : Option Nat :=
  table.levels.lookup key

def contains (table : OperatorTable) (key : String) : Bool :=
  (table.precedence? key).isSome

def isRightAssociative (table : OperatorTable) (key : String) : Bool :=
  table.rightAssociative.contains key

/-- Operators that have productions of their own instead of the general infix one. -/
def dedicatedOperators : List String :=
  [".", "::", "?", ",", ";"]

/-- The spellings of the general infix operators, in table order. -/
def infixSpellings (table : OperatorTable) : List String :=
  (table.levels.map Prod.fst).filter fun key =>
    !isPrefixKey key && !dedicatedOperators.contains key

/-- The spellings of the prefix operators, in table order. -/
def prefixSpellings (table : OperatorTable) : List String :=
  ((table.levels.map Prod.fst).filter isPrefixKey).map prefixSpelling

end OperatorTable

end RubySyntax
