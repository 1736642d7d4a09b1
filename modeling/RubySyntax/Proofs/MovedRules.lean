import RubySyntax.Proofs.GrammarTotality
import RubySyntax.Proofs.MovedRuns

/-!
# Rules at another place and depth

Every production answers the same tree at another offset of a text, moved by as
much, and over rules that nest deeper.  Over usable tables this makes a rule of
the grammar its own production over the rules of the grammar.
-/

namespace RubySyntax

/-! ### Trees that productions build -/

namespace Node

variable (distance : Nat)

@[simp]
theorem emptyAt_moved (offset : Nat) :
    (emptyAt offset).moved distance = emptyAt (offset + distance : Nat) := by
  simp [moved_eq, emptyAt]

@[simp]
theorem pairNode_moved (key : Node) (value : List Node) :
    (Matcher.pairNode key value).moved distance =
      Matcher.pairNode (key.moved distance) (value.map (moved distance)) := by
  cases offset_eq : key.offset <;> simp [moved_eq, Matcher.pairNode, offset_eq, Int.add_right_comm]

@[simp]
theorem listNode_moved (offset : Nat) (items : List Node) :
    (Matcher.listNode offset items).moved distance =
      Matcher.listNode (offset + distance) (items.map (moved distance)) := by
  cases items <;> simp [moved_eq, Matcher.listNode]

end Node

namespace Matcher

namespace Moves

variable {distance : Nat}

abbrev Trees (distance : Nat) (matcher other : Matcher Node) : Prop :=
  Moves distance (Node.moved distance) matcher other

abbrev Lists (distance : Nat) (matcher other : Matcher (List Node)) : Prop :=
  Moves distance (List.map (Node.moved distance)) matcher other

/-! ### Parts of productions -/

theorem orEmpty {matcher other : Matcher Node} (moves : Trees distance matcher other) :
    Trees distance (orEmpty matcher) (orEmpty other) :=
  here.bind fun offset => moves.optional.bind fun node? => pure (by cases node? <;> simp)

theorem closing (kind : Skip) (closer : Terminal) :
    Lists distance (closing (Matcher.terminal closer) kind)
      (Matcher.closing (Matcher.terminal closer) kind) :=
  (commentsBefore kind).bind fun _ => (terminal closer).afterSkip.bind fun _ => pure rfl

theorem comma : Trees distance comma comma :=
  (terminal _).afterSkip

theorem commaOnSameLine : Trees distance commaOnSameLine commaOnSameLine :=
  (terminal _).afterSkip

section

variable {item other separator : Matcher Node} (items : Trees distance item other)
  (separators : Trees distance separator separator)
include items separators

theorem separated : Lists distance (separated item separator) (separated other separator) :=
  items.bind fun _ => (separators.bind fun _ => items).many.bind fun _ => pure (by simp)

theorem itemList : Trees distance (itemList item separator) (itemList other separator) :=
  here.bind fun _ => (items.separated separators).bind fun _ => pure (by simp)

theorem optionalItemList :
    Trees distance (optionalItemList item separator) (optionalItemList other separator) :=
  here.bind fun _ => (items.separated separators).optional.bind fun items? =>
    pure (by cases items? <;> simp)

theorem trailedItemList :
    Trees distance (trailedItemList item separator) (trailedItemList other separator) :=
  here.bind fun _ => Moves.bind
    (optional ((items.separated separators).bind fun _ => separators.optional.bind fun _ =>
      pure rfl)) fun items? => pure (by cases items? <;> simp)

end

theorem splatParameter : Trees distance splatParameter splatParameter :=
  (terminal _).spaced.bind fun _ => (terminal _).bind fun _ => pure (by simp)

theorem parameter {default other : Matcher Node} (values : Trees distance default other) :
    Trees distance (parameter default) (parameter other) := by
  have labelled : Trees distance (labelParameter default) (labelParameter other) :=
    (terminal _).spaced.bind fun _ => ((scan _).bind fun _ => values).optional.bind fun value? =>
      pure (by cases value? <;> simp)
  have named : Trees distance (namedParameter default) (namedParameter other) := by
    have defaults : Moves distance (Prod.map (Node.moved distance) (Node.moved distance))
        (do
          let equals ← onSameLine (punctuation "=" "=~>")
          let value ← default
          return (equals, value))
        (do
          let equals ← onSameLine (punctuation "=" "=~>")
          let value ← other
          return (equals, value)) :=
      (terminal _).afterSkip.bind fun _ => values.bind fun _ => pure rfl
    refine (terminal _).spaced.bind fun name => defaults.optional.bind fun default? => ?_
    rcases default? with _ | ⟨equals, value⟩
    · exact pure rfl
    · exact pure (by simp)
  exact splatParameter.firstOfCons (labelled.firstOfCons (named.firstOfCons firstOfNil))

theorem definition {word : String} {parts others : Matcher (List Node)}
    (moves : Lists distance parts others) :
    Trees distance (definition word parts) (definition word others) :=
  (terminal _).bind fun _ => moves.bind fun _ => pure (by simp)

theorem definedName : Trees distance definedName definedName := by
  have singletons : Moves distance (Prod.map (Node.moved distance) (Node.moved distance))
      (do
        let dot ← punctuation "."
        let member ← Matcher.terminal .methodName
        return (dot, member))
      (do
        let dot ← punctuation "."
        let member ← Matcher.terminal .methodName
        return (dot, member)) :=
    (terminal _).bind fun _ => (terminal _).bind fun _ => pure rfl
  refine (terminal _).spaced.bind fun name => singletons.optional.bind fun singleton? => ?_
  rcases singleton? with _ | ⟨dot, member⟩
  · exact pure rfl
  · exact pure (by simp)

theorem aliasDefinition : Trees distance aliasDefinition aliasDefinition := by
  have names : Trees distance aliasName aliasName :=
    ((terminal _).firstOfCons ((terminal _).firstOfCons
      ((terminal _).firstOfCons firstOfNil))).afterSkip
  exact definition (names.bind fun _ => names.bind fun _ => pure rfl)

/-! ### Productions -/

section

variable {rules others : Rules}
  (expressions : ∀ reference, Trees distance (rules reference) (others reference))
include expressions

theorem body : Trees distance (body rules) (body others) :=
  (expressions (.expression .statement)).afterSkip.orEmpty

theorem bodyUpTo (kind : Skip) (closer : Terminal) :
    Trees distance (bodyUpTo rules (Matcher.closing (Matcher.terminal closer) kind))
      (bodyUpTo others (Matcher.closing (Matcher.terminal closer) kind)) :=
  (body expressions).bind fun _ => (closing kind closer).bind fun _ => pure (by simp)

theorem argument (mode : Mode) : Trees distance (argument rules mode) (argument others mode) := by
  have labelled : Trees distance (labelPair rules mode) (labelPair others mode) :=
    (terminal _).spaced.bind fun _ => (expressions (.expression mode)).bind fun _ =>
      pure (by simp)
  exact labelled.orElse (expressions (.expression mode))

theorem bracketed (opening closer : String) :
    Moves distance (Prod.map (Node.moved distance) (Node.moved distance))
      (bracketed rules opening closer) (bracketed others opening closer) :=
  (terminal _).bind fun _ => ((argument expressions .argument).trailedItemList comma).bind
    fun _ => (closing _ _).bind fun _ => pure (by simp)

theorem methodDefinition : Trees distance (methodDefinition rules) (methodDefinition others) := by
  have parenthesized :
      Trees distance (parenthesizedParameters rules) (parenthesizedParameters others) :=
    (terminal _).afterSkip.bind fun _ =>
      ((parameter (expressions (.expression .argument))).optionalItemList comma).bind fun _ =>
        (closing _ _).bind fun _ => pure (by simp)
  have bare : Trees distance (bareParameters rules) (bareParameters others) :=
    (scan _).bind fun _ =>
      (parameter (expressions (.expression .command))).itemList commaOnSameLine
  exact definition (definedName.bind fun _ => (parenthesized.orElse bare).orEmpty.bind fun _ =>
    (bodyUpTo expressions _ _).bind fun _ => pure rfl)

theorem classDefinition : Trees distance (classDefinition rules) (classDefinition others) := by
  have singleton : Lists distance (singletonTarget rules) (singletonTarget others) :=
    (terminal _).spaced.bind fun _ => (expressions .operand).bind fun _ => pure (by simp)
  have parent : Trees distance (parentClass rules) (parentClass others) :=
    (terminal _).spaced.bind fun _ => (expressions .operand).bind fun _ => pure (by simp)
  have header : Lists distance (classHeader rules) (classHeader others) :=
    (expressions .operand).bind fun _ => parent.orEmpty.bind fun _ => pure rfl
  exact definition ((singleton.orElse header).bind fun _ =>
    (bodyUpTo expressions _ _).bind fun _ => pure (by simp))

theorem moduleDefinition : Trees distance (moduleDefinition rules) (moduleDefinition others) :=
  definition ((expressions .operand).bind fun _ => (bodyUpTo expressions _ _).bind fun _ =>
    pure rfl)

theorem primary : Trees distance (primary rules) (primary others) := by
  have group : Trees distance (group rules) (Matcher.group others) :=
    (terminal _).bind fun _ => (bodyUpTo expressions _ _).bind fun _ => pure (by simp)
  have containers (opening closer : String) :
      Trees distance (container rules opening closer) (container others opening closer) :=
    (bracketed expressions opening closer).bind fun _ => pure (by simp)
  exact ((methodDefinition expressions).firstOfCons
    ((classDefinition expressions).firstOfCons
    ((moduleDefinition expressions).firstOfCons
    (aliasDefinition.firstOfCons
    ((terminal _).firstOfCons
    ((terminal _).firstOfCons
    ((terminal _).firstOfCons
    ((terminal _).firstOfCons
    ((terminal _).firstOfCons
    ((terminal _).firstOfCons
    (group.firstOfCons
    ((containers _ _).firstOfCons
    ((containers _ _).firstOfCons firstOfNil))))))))))))).spaced

theorem suffix :
    Moves distance (Suffix.map (Node.moved distance)) (suffix rules) (suffix others) := by
  have brackets (tag opening closer : String) : Moves distance (Suffix.map (Node.moved distance))
      (bracketSuffix rules tag opening closer) (bracketSuffix others tag opening closer) :=
    (bracketed expressions opening closer).bind fun _ => pure (by simp [Suffix.map])
  have member : Moves distance (Suffix.map (Node.moved distance)) memberSuffix memberSuffix :=
    ((terminal _).orElse (terminal _)).spaced.bind fun _ => (terminal _).afterSkip.bind fun _ =>
      pure rfl
  have scope : Moves distance (Suffix.map (Node.moved distance)) scopeSuffix scopeSuffix :=
    (terminal _).bind fun _ => (terminal _).bind fun _ => pure rfl
  have parameters : Trees distance (blockParameters rules) (blockParameters others) :=
    (terminal _).afterSkip.bind fun _ =>
      ((parameter (expressions .operand)).optionalItemList comma).bind fun _ =>
        (terminal _).afterSkip.bind fun _ => pure rfl
  have braces : Trees distance (braceBlock rules) (braceBlock others) :=
    (terminal _).bind fun _ => parameters.orEmpty.bind fun _ =>
      (bodyUpTo expressions _ _).bind fun _ => pure (by simp)
  have block : Moves distance (Suffix.map (Node.moved distance)) (blockSuffix rules)
      (blockSuffix others) :=
    braces.afterSkip.bind fun _ => pure rfl
  exact (brackets _ _ _).firstOfCons ((brackets _ _ _).firstOfCons
    (member.firstOfCons (scope.firstOfCons (block.firstOfCons firstOfNil))))

theorem operand : Trees distance (operand rules) (operand others) :=
  (primary expressions).bind fun _ => (suffix expressions).many.bind fun _ =>
    pure ((Node.moved_keepsShape distance).attachAll _ _).symm

variable (tables : OperatorTables)

theorem chainOperand (mode : Mode) :
    Trees distance (chainOperand tables rules mode) (chainOperand tables others mode) := by
  have plain : Trees distance (plainOperand rules mode) (plainOperand others mode) := by
    cases mode with
    | statement =>
        refine (operand expressions).bind fun callee => ((scan _).bind fun _ =>
          (argument expressions .command).itemList commaOnSameLine).optional.bind
            fun arguments? => ?_
        cases arguments? with
        | none => exact pure rfl
        | some arguments => exact pure (by simp [Node.moved_eq])
    | argument => exact operand expressions
    | command => exact operand expressions
  refine Moves.orElse ((terminal _).spaced.bind fun operator => (expressions _).bind
    fun last => ofReduction fun result reduced => ?_) plain
  rw [Node.moved_data]
  exact (Node.moved_keepsShape distance).reduceAs reduced

theorem chainLink (mode : Mode) : Moves distance (ChainLink.map (Node.moved distance))
    (chainLink tables rules mode) (chainLink tables others mode) := by
  have before {matcher other : Matcher Node} (moves : Trees distance matcher other) :
      Trees distance (beforeOperator mode matcher) (beforeOperator mode other) := by
    cases mode with
    | statement => exact moves.afterSkip
    | argument => exact moves.spaced
    | command => exact moves.afterSkip
  have operators (kind : Terminal) : Moves distance (ChainLink.map (Node.moved distance))
      (operatorLink mode (Matcher.terminal kind)) (operatorLink mode (Matcher.terminal kind)) :=
    (before (terminal kind)).bind fun _ => pure rfl
  have conditional : Moves distance (ChainLink.map (Node.moved distance))
      (conditionalLink rules mode) (conditionalLink others mode) :=
    (before (terminal _)).bind fun _ => (expressions _).bind fun _ =>
      (terminal _).spaced.bind fun _ => pure (by simp [ChainLink.map])
  cases mode with
  | statement =>
      exact (operators _).firstOfCons (conditional.firstOfCons
        ((operators _).firstOfCons ((operators _).firstOfCons firstOfNil)))
  | argument => exact (operators _).firstOfCons (conditional.firstOfCons firstOfNil)
  | command => exact (operators _).firstOfCons (conditional.firstOfCons firstOfNil)

end

end Moves

/-! ### Productions -/

namespace Moves

section

variable {distance : Nat} {rules others : Rules}
  (expressions : ∀ reference, Trees distance (rules reference) (others reference))
include expressions

theorem chainStep (tables : OperatorTables) (mode : Mode) :
    Moves distance (Prod.map (ChainLink.map (Node.moved distance)) (Node.moved distance))
      (chainStep tables rules mode) (chainStep tables others mode) :=
  (chainLink expressions tables mode).bind fun _ =>
    (chainOperand expressions tables mode).bind fun _ => pure rfl

theorem production (tables : OperatorTables) (reference : Rule) :
    Trees distance (production tables rules reference) (production tables others reference) := by
  cases reference with
  | operand => exact operand expressions
  | expression mode =>
      exact (chainOperand expressions tables mode).bind fun _ =>
        (chainStep expressions tables mode).many.bind fun _ =>
          ofReduction fun _ reduced => (Node.moved_keepsShape distance).reduceChain reduced

end

/-- A rule that may nest as deep or deeper answers the same at any place. -/
theorem ruleWithin (tables : OperatorTables) {distance depth deeper : Nat} (le : depth ≤ deeper)
    (reference : Rule) :
    Trees distance (ruleWithin tables depth reference) (ruleWithin tables deeper reference) := by
  induction depth generalizing deeper reference with
  | zero => exact abort
  | succ depth ih =>
      obtain ⟨deeper, rfl⟩ : ∃ smaller, deeper = smaller + 1 := ⟨deeper - 1, by omega⟩
      exact production (ih (Nat.le_of_succ_le_succ le)) tables reference

/-- A rule of the grammar answers the same wherever the text stands. -/
theorem rule (tables : OperatorTables) (distance : Nat) (reference : Rule) :
    Trees distance (rule tables reference) (Matcher.rule tables reference) :=
  fun cursor => ruleWithin tables (Nat.le_refl (cursor.rest.length + 1)) reference cursor

/-- Nothing changes where nothing is moved. -/
theorem eq_of_zero {matcher other : Matcher Node} (moves : Trees 0 matcher other) {cursor : Cursor}
    (halts : (∃ value next, matcher.Reads cursor value next) ∨ matcher.Rejects cursor) :
    other cursor = matcher cursor := by
  have attempts (trace : List Attempt) : trace.map (Attempt.moved 0) = trace :=
    List.map_id _
  rcases halts with ⟨value, next, trace, run⟩ | ⟨trace, run⟩
  · rcases moves cursor with ⟨fault, aborted⟩ | moved
    · rw [run] at aborted
      cases aborted
    · rw [run] at moved ⊢
      rw [Outcome.moved, Node.moved_zero, attempts] at moved
      exact moved
  · rcases moves cursor with ⟨fault, aborted⟩ | moved
    · rw [run] at aborted
      cases aborted
    · rw [run] at moved ⊢
      rw [Outcome.moved, attempts] at moved
      exact moved

end Moves

variable {tables : OperatorTables} (usable : tables.Usable)
include usable

/-- However deep a rule may nest, it answers what the rule of the grammar answers. -/
theorem ruleWithin_moves (depth : Nat) (reference : Rule) :
    Moves.Trees 0 (ruleWithin tables depth reference) (rule tables reference) := by
  intro cursor
  rcases Nat.le_total depth (cursor.rest.length + 1) with shallow | deep
  · exact Moves.ruleWithin tables shallow reference cursor
  · right
    have halts := (Consumes.ruleWithin usable (cursor.rest.length + 1) reference).halts cursor
      (Nat.lt_succ_self _)
    have deeper : ruleWithin tables depth reference cursor = rule tables reference cursor :=
      (Moves.ruleWithin tables deep reference).eq_of_zero halts
    rw [deeper]
    rcases Moves.rule tables 0 reference cursor with ⟨fault, aborted⟩ | moved
    · rw [rule] at aborted
      rcases halts with ⟨value, next, trace, run⟩ | ⟨trace, run⟩
      · rw [run] at aborted
        cases aborted
      · rw [run] at aborted
        cases aborted
    · exact moved

theorem rule_eq_production (reference : Rule) :
    rule tables reference = production tables (rule tables) reference := by
  funext cursor
  have moves : Moves.Trees 0 (ruleWithin tables (cursor.rest.length + 1) reference)
      (production tables (rule tables) reference) :=
    Moves.production (ruleWithin_moves usable cursor.rest.length) tables reference
  exact (moves.eq_of_zero ((Consumes.ruleWithin usable _ reference).halts cursor
    (Nat.lt_succ_self _))).symm

end Matcher

end RubySyntax
