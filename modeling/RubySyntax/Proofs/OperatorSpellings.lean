import RubySyntax.GrammarRule

/-!
# The operators of the language

The tables of the language are built from lists of keys, in which prefix operators carry
a marker and `none` ends a level.  The levels of each context are written out here, with
the spellings that the grammar reads for them, so that facts about all operators of a
context are facts about a list of words, and runs on given texts have a finished table.
-/

namespace RubySyntax

/-- The signs between two operands that every context has. -/
def binarySigns : List String :=
  ["**", "*", "/", "%", "+", "-", "<<", ">>", "&", "|", "^", ">", ">=", "<", "<=", "<=>", "==",
    "===", "!=", "=~", "!~", "&&", "||", "..", "..."]

def prefixSigns : List String :=
  ["!", "~", "+", "-", "*", "**", "&"]

def allInfixWords : List String :=
  binarySigns ++ OperatorDefaults.assignmentSpellings ++
    ["rescue", "and", "or", "if", "unless", "while", "until", "=>"]

/-- The keys that every context has apart from the assignments, level by level. -/
def expressionLevels : List (List String) :=
  [[".", "::"], ["!@", "~@", "+@", "-@"], ["**"], ["*", "/", "%"], ["+", "-"], ["<<", ">>"], ["&"],
    ["|", "^"], [">", ">=", "<", "<="], ["<=>", "==", "===", "!=", "=~", "!~"], ["&&"], ["||"],
    ["..", "..."], ["?"], ["*@", "**@", "&@"]]

namespace Mode

/-- The keys of the operators of a context, level by level. -/
def operatorLevels : Mode → List (List String)
  | statement => expressionLevels ++ [["rescue"], [","], OperatorDefaults.assignmentSpellings,
      ["defined?@"], ["not@"], ["and", "or"], ["if", "unless", "while", "until"], [";"]]
  | argument => expressionLevels ++ [OperatorDefaults.assignmentSpellings, ["defined?@"], ["not@"],
      ["and", "or"], ["=>"]]
  | command => expressionLevels ++ [OperatorDefaults.assignmentSpellings, ["=>"]]

def operatorKeys (mode : Mode) : List String :=
  mode.operatorLevels.flatten

def infixWords : Mode → List String
  | statement => binarySigns ++ ["rescue"] ++ OperatorDefaults.assignmentSpellings ++
      ["and", "or", "if", "unless", "while", "until"]
  | argument => binarySigns ++ OperatorDefaults.assignmentSpellings ++ ["and", "or", "=>"]
  | command => binarySigns ++ OperatorDefaults.assignmentSpellings ++ ["=>"]

def prefixWords : Mode → List String
  | statement => prefixSigns ++ ["defined?", "not"]
  | argument => prefixSigns ++ ["defined?", "not"]
  | command => prefixSigns

end Mode

namespace OperatorTable

/-- The table of the given keys, level by level. -/
def ofLevels (levels : List (List String)) : OperatorTable where
  levels := levels.zipIdx.flatMap fun (keys, level) => keys.map (·, level)
  rightAssociative := OperatorDefaults.rightAssociative

theorem keys_ofLevels (levels : List (List String)) :
    (ofLevels levels).levels.map Prod.fst = levels.flatten := by
  simp only [ofLevels, List.map_flatMap, List.map_map, Function.comp_def, List.map_id']
  rw [List.flatMap_def, List.zipIdx_map_fst]

theorem contains_iff {table : OperatorTable} {key : String} :
    table.contains key = true ↔ key ∈ table.levels.map Prod.fst := by
  rw [contains, precedence?, List.lookup_isSome_iff, List.mem_map]
  simp only [beq_iff_eq, @eq_comm _ key]

end OperatorTable

/-- No key is listed twice, so each has the level of its place. -/
theorem OperatorTables.of_standard (mode : Mode) :
    OperatorTables.standard.of mode = .ofLevels mode.operatorLevels := by
  have levels : (OperatorTables.standard.of mode).levels =
      (OperatorTable.ofLevels mode.operatorLevels).levels := by
    cases mode <;> decide +kernel
  have associativity : (OperatorTables.standard.of mode).rightAssociative =
      OperatorDefaults.rightAssociative := by
    cases mode <;> rfl
  calc OperatorTables.standard.of mode
      = ⟨(OperatorTables.standard.of mode).levels,
          (OperatorTables.standard.of mode).rightAssociative⟩ := rfl
    _ = .ofLevels mode.operatorLevels := by
        rw [levels, associativity]
        rfl

theorem OperatorTables.standard_eq : OperatorTables.standard =
    { statement := .ofLevels Mode.statement.operatorLevels
      argument := .ofLevels Mode.argument.operatorLevels
      command := .ofLevels Mode.command.operatorLevels } := by
  simp only [← of_standard]
  rfl

/-- The table of a context lists each of its keys once. -/
theorem operatorKeys_eq (mode : Mode) :
    (OperatorTables.standard.of mode).levels.map Prod.fst = mode.operatorKeys := by
  rw [OperatorTables.of_standard, OperatorTable.keys_ofLevels, Mode.operatorKeys]

theorem infixSpellings_eq (mode : Mode) :
    (OperatorTables.standard.of mode).infixSpellings = mode.infixWords := by
  rw [OperatorTable.infixSpellings, operatorKeys_eq]
  cases mode <;> decide +kernel

theorem prefixSpellings_eq (mode : Mode) :
    (OperatorTables.standard.of mode).prefixSpellings = mode.prefixWords := by
  rw [OperatorTable.prefixSpellings, operatorKeys_eq]
  cases mode <;> decide +kernel

/-- What holds of every infix operator of the language holds of those of each context. -/
theorem forall_infixSpellings {property : String → Prop} (each : ∀ word ∈ allInfixWords, property word)
    (mode : Mode) : ∀ word ∈ (OperatorTables.standard.of mode).infixSpellings, property word := by
  intro word member
  refine each word ?_
  rw [infixSpellings_eq] at member
  cases mode <;>
    simp only [Mode.infixWords, allInfixWords, List.mem_append, List.mem_cons] at member ⊢ <;>
    grind

theorem forall_prefixSpellings {property : String → Prop}
    (each : ∀ word ∈ Mode.prefixWords .statement, property word) (mode : Mode) :
    ∀ word ∈ (OperatorTables.standard.of mode).prefixSpellings, property word := by
  intro word member
  refine each word ?_
  rw [prefixSpellings_eq] at member
  cases mode with
  | statement => exact member
  | argument => exact member
  | command => exact List.mem_append_left _ member

theorem contains_standard_iff {mode : Mode} {key : String} :
    (OperatorTables.standard.of mode).contains key = true ↔ key ∈ mode.operatorKeys := by
  rw [OperatorTable.contains_iff, operatorKeys_eq]

theorem contains_standard_eq_false {mode : Mode} {key : String} :
    (OperatorTables.standard.of mode).contains key = false ↔ key ∉ mode.operatorKeys := by
  rw [← Bool.not_eq_true, contains_standard_iff]

end RubySyntax
