import RubySyntax.Proofs.GrammarTotality

/-!
# Shapes of trees

The tag of a composite node says how many children it has and what they are, so
that a reader of a tree can rely on the positions of the children.  A sequence of
statements only stands where statements do, and a list never holds another list
as an item.  A reduction keeps these shapes: an operator that would get a
sequence or a list as an operand goes below it instead.
-/

namespace RubySyntax

namespace Node

/-- A composite node with the given tag. -/
def IsOver (node : Node) (tag : String) : Prop :=
  node.data = tag ∧ node.children ≠ []

/-- A node that may stand for one value: it is no sequence of statements, and no list of a
single value. -/
structure StandsAlone (node : Node) : Prop where
  notSequence : ¬ node.IsOver Tag.sequence
  wide : node.IsOver Tag.list → 2 ≤ node.children.length

/-- A node that may be an item under a list tag. -/
structure IsItem (tag : String) (node : Node) : Prop extends StandsAlone node where
  apart : ¬ node.IsOver tag

end Node

/-- The tags that a form of the language has to itself: no operator is spelled like one. -/
def formTags : List String :=
  ["def", "class", "module", "alias", Tag.group, "[", "\x7b", Tag.invoke, Tag.index, Tag.block, ".",
    "&.", "::", "?", Tag.pair, Tag.sequence, Tag.list]

/-- The shapes of composite nodes, by their tag and their children.  A body may be anything;
no other child is a sequence of statements. -/
inductive CompositeShape : String → List Node → Prop
  | method {name parameters body : Node} (named : name.children = [] ∨ name.data = ".")
      (listed : parameters.isEmpty = true ∨ parameters.data = Tag.list) :
      CompositeShape "def" [name, parameters, body]
  | singletonClass {shift body : Node} (shifts : shift.data = "<<" ∧ shift.children.length = 1) :
      CompositeShape "class" [shift, body]
  | derivedClass {name parent body : Node} (named : name.StandsAlone)
      (parented : parent.StandsAlone) : CompositeShape "class" [name, parent, body]
  | moduleDefinition {name body : Node} (named : name.StandsAlone) :
      CompositeShape "module" [name, body]
  | aliasDefinition {newName oldName : Node} (leaves : newName.children = [] ∧ oldName.children = []) :
      CompositeShape "alias" [newName, oldName]
  | group {body : Node} : CompositeShape Tag.group [body]
  | container {bracket : String} (brackets : bracket ∈ ["[", "\x7b"]) {elements : Node}
      (listed : elements.data = Tag.list) : CompositeShape bracket [elements]
  | call {callee arguments : Node} (called : callee.StandsAlone)
      (listed : arguments.data = Tag.list) : CompositeShape Tag.invoke [callee, arguments]
  | blockCall {callee arguments block : Node} (called : callee.StandsAlone)
      (listed : arguments.data = Tag.list) (blocked : block.data = Tag.block) :
      CompositeShape Tag.invoke [callee, arguments, block]
  | index {receiver arguments : Node} (received : receiver.StandsAlone)
      (listed : arguments.data = Tag.list) : CompositeShape Tag.index [receiver, arguments]
  | block {parameters body : Node}
      (listed : parameters.isEmpty = true ∨ parameters.data = Tag.list) :
      CompositeShape Tag.block [parameters, body]
  | member {dot : String} (dots : dot ∈ [".", "&.", "::"]) {receiver name : Node}
      (received : receiver.StandsAlone) (named : name.children = []) :
      CompositeShape dot [receiver, name]
  | conditional {condition consequent alternative : Node} (condition_alone : condition.StandsAlone)
      (consequent_alone : consequent.StandsAlone) (alternative_alone : alternative.StandsAlone) :
      CompositeShape "?" [condition, consequent, alternative]
  | label {key : Node} (keyed : key.children = []) : CompositeShape Tag.pair [key]
  | pair {key value : Node} (keyed : key.children = []) (valued : value.StandsAlone) :
      CompositeShape Tag.pair [key, value]
  | sequence {statements : List Node} (several : 2 ≤ statements.length)
      (each : ∀ statement ∈ statements, statement.IsItem Tag.sequence) :
      CompositeShape Tag.sequence statements
  | list {items : List Node} (each : ∀ item ∈ items, item.IsItem Tag.list) :
      CompositeShape Tag.list items
  | unary {operator : String} (other : operator ∉ formTags)
      (spelled : ∃ mode, operator ∈ (OperatorTables.standard.of mode).prefixSpellings)
      {operand : Node} (alone : operand.StandsAlone) : CompositeShape operator [operand]
  | binary {operator : String} (other : operator ∉ formTags)
      (spelled : ∃ mode, operator ∈ (OperatorTables.standard.of mode).infixSpellings)
      {left right : Node} (left_alone : left.StandsAlone) (right_alone : right.StandsAlone) :
      CompositeShape operator [left, right]

/-- A tree all of whose composite nodes have one of the shapes, but for the sign of a singleton
class over its target. -/
inductive Shaped : Node → Prop
  | leaf {node : Node} (bare : node.children = []) : Shaped node
  | composite {node : Node} (shape : CompositeShape node.data node.children)
      (each : ∀ child ∈ node.children, Shaped child) : Shaped node
  | singletonClass {node shift target body : Node} (data_eq : node.data = "class")
      (children_eq : node.children = [shift, body]) (shift_eq : shift.data = "<<")
      (target_eq : shift.children = [target]) (alone : target.StandsAlone)
      (targetShaped : Shaped target) (bodyShaped : Shaped body) : Shaped node

/-- A shaped tree that is neither a sequence nor a list. -/
structure Plain (node : Node) : Prop where
  shaped : Shaped node
  notSequence : ¬ node.IsOver Tag.sequence
  notList : ¬ node.IsOver Tag.list

/-- A tree that an expression of the given context may be. -/
structure Expression (mode : Mode) (tree : Node) : Prop where
  shaped : Shaped tree
  wide : tree.IsOver Tag.list → 2 ≤ tree.children.length
  single : mode ≠ .statement → ¬ tree.IsOver Tag.sequence

namespace Plain

variable {node : Node}

theorem leaf (bare : node.children = []) : Plain node :=
  ⟨.leaf bare, fun tagged => tagged.2 bare, fun tagged => tagged.2 bare⟩

theorem standsAlone (plain : Plain node) : node.StandsAlone :=
  ⟨plain.notSequence, fun tagged => absurd tagged plain.notList⟩

theorem isItem {tag : String} (plain : Plain node) (member : tag ∈ listOperators) :
    node.IsItem tag := by
  refine ⟨plain.standsAlone, ?_⟩
  simp only [listOperators, List.mem_cons, List.not_mem_nil, or_false] at member
  rcases member with rfl | rfl
  · exact plain.notList
  · exact plain.notSequence

theorem expression (plain : Plain node) (mode : Mode) : Expression mode node :=
  ⟨plain.shaped, fun tagged => absurd tagged plain.notList, fun _ => plain.notSequence⟩

theorem composite (tag : String) {children : List Node} (data_eq : node.data = tag)
    (children_eq : node.children = children) (apart : tag ∉ listOperators)
    (shape : CompositeShape tag children) (each : ∀ child ∈ children, Shaped child) :
    Plain node := by
  subst data_eq children_eq
  simp only [listOperators, List.mem_cons, List.not_mem_nil, or_false, not_or] at apart
  exact ⟨.composite shape each, fun tagged => apart.2 tagged.1, fun tagged => apart.1 tagged.1⟩

end Plain

theorem Shaped.inv {node : Node} (shaped : Shaped node) :
    node.children = [] ∨ node.data = "class" ∨
      CompositeShape node.data node.children ∧ ∀ child ∈ node.children, Shaped child := by
  cases shaped with
  | leaf bare => exact Or.inl bare
  | composite shape each => exact Or.inr (Or.inr ⟨shape, each⟩)
  | singletonClass data_eq => exact Or.inr (Or.inl data_eq)

theorem Shaped.sameBody {node other : Node} (shaped : Shaped node) (data_eq : other.data = node.data)
    (children_eq : other.children = node.children) : Shaped other := by
  cases shaped with
  | leaf bare => exact .leaf (children_eq.trans bare)
  | composite shape each =>
      rw [← data_eq, ← children_eq] at shape
      exact .composite shape (children_eq ▸ each)
  | singletonClass class_eq parts shift_eq target_eq alone targetShaped bodyShaped =>
      exact .singletonClass (data_eq.trans class_eq) (children_eq.trans parts) shift_eq target_eq
        alone targetShaped bodyShaped

/-! ### Shapes of operators -/

/-- No operator is spelled like the tag of another form. -/
theorem formTags_unspelled : (∀ word ∈ Mode.prefixWords .statement, word ∉ formTags) ∧
    ∀ word ∈ allInfixWords, word ∉ formTags := by
  decide +kernel

theorem not_formTag_of_leading {mode : Mode} {operator : String}
    (spelled : operator ∈ (OperatorTables.standard.of mode).prefixSpellings) :
    operator ∉ formTags :=
  forall_prefixSpellings formTags_unspelled.1 mode operator spelled

theorem not_formTag_of_linking {mode : Mode} {operator : String}
    (spelled : operator ∈ (OperatorTables.standard.of mode).infixSpellings) :
    operator ∉ formTags :=
  forall_infixSpellings formTags_unspelled.2 mode operator spelled

theorem CompositeShape.ofPrefix {mode : Mode} {operator : String} {operand : Node}
    (spelled : operator ∈ (OperatorTables.standard.of mode).prefixSpellings)
    (alone : operand.StandsAlone) : CompositeShape operator [operand] :=
  .unary (not_formTag_of_leading spelled) ⟨mode, spelled⟩ alone

theorem CompositeShape.ofInfix {mode : Mode} {operator : String} {left right : Node}
    (spelled : operator ∈ (OperatorTables.standard.of mode).infixSpellings)
    (left_alone : left.StandsAlone) (right_alone : right.StandsAlone) :
    CompositeShape operator [left, right] :=
  .binary (not_formTag_of_linking spelled) ⟨mode, spelled⟩ left_alone right_alone

/-! ### Shapes under list tags -/

theorem CompositeShape.items {tag : String} {children : List Node}
    (shape : CompositeShape tag children) (member : tag ∈ listOperators) :
    (tag = Tag.sequence → 2 ≤ children.length) ∧ ∀ child ∈ children, child.IsItem tag := by
  have isForm : ∀ tag ∈ listOperators, tag ∈ formTags := by decide
  cases shape with
  | sequence several each => exact ⟨fun _ => several, each⟩
  | list each => exact ⟨fun impossible => absurd impossible (by decide), each⟩
  | unary other spelled alone => exact absurd (isForm tag member) other
  | binary other spelled left right => exact absurd (isForm tag member) other
  | container brackets listed =>
      have apart : ∀ bracket ∈ ["[", "\x7b"], bracket ∉ listOperators := by decide
      exact absurd member (apart _ brackets)
  | member dots received named =>
      have apart : ∀ dot ∈ [".", "&.", "::"], dot ∉ listOperators := by decide
      exact absurd member (apart _ dots)
  | _ => exact absurd member (by decide)

theorem CompositeShape.ofItems {tag : String} {children : List Node} (member : tag ∈ listOperators)
    (several : 2 ≤ children.length) (each : ∀ child ∈ children, child.IsItem tag) :
    CompositeShape tag children := by
  simp only [listOperators, List.mem_cons, List.not_mem_nil, or_false] at member
  rcases member with rfl | rfl
  · exact .list each
  · exact .sequence several each

theorem Shaped.items {tag : String} {node : Node} (shaped : Shaped node) (tagged : node.IsOver tag)
    (member : tag ∈ listOperators) : (tag = Tag.sequence → 2 ≤ node.children.length) ∧
      ∀ child ∈ node.children, Shaped child ∧ child.IsItem tag := by
  obtain ⟨rfl, filled⟩ := tagged
  rcases shaped.inv with bare | isClass | ⟨shape, each⟩
  · exact absurd bare filled
  · rw [isClass] at member
    exact absurd member (by decide)
  · obtain ⟨several, items⟩ := shape.items member
    exact ⟨several, fun child childMem => ⟨each child childMem, items child childMem⟩⟩

/-- A list operator over a first operand, which may be a list of its own, and over items. -/
theorem Shaped.joinItems {operator first : Node} {rest : List Node}
    (member : operator.data ∈ listOperators) (nonempty : rest ≠ []) (firstShaped : Shaped first)
    (wide : first.IsOver operator.data → 2 ≤ first.children.length)
    (alone : ¬ first.IsOver operator.data → first.StandsAlone)
    (items : ∀ child ∈ rest, Shaped child ∧ child.IsItem operator.data) :
    Shaped (joinOperator operator (first :: rest)) := by
  have isList : listOperators.contains operator.data = true := by
    simpa using member
  have positive := List.length_pos_iff.mpr nonempty
  by_cases tagged : first.IsOver operator.data
  · obtain ⟨-, inner⟩ := firstShaped.items tagged member
    rw [joinOperator_splice isList ⟨tagged.1, wide tagged⟩]
    have each : ∀ child ∈ first.children ++ rest, Shaped child ∧ child.IsItem operator.data :=
      fun child childMem => (List.mem_append.mp childMem).elim (inner child) (items child)
    refine .composite ?_ fun child childMem => (each child childMem).1
    have data_eq : (first.withChildren (first.children ++ rest)).data = operator.data := tagged.1
    rw [data_eq]
    refine .ofItems member ?_ fun child childMem => (each child childMem).2
    have := wide tagged
    simp only [Node.withChildren, List.length_append]
    omega
  · rw [joinOperator_keep fun spliced => tagged ⟨spliced.1, fun bare => by simp [bare] at spliced⟩]
    have each : ∀ child ∈ first :: rest, Shaped child ∧ child.IsItem operator.data := by
      rintro child (_ | ⟨_, childMem⟩)
      · exact ⟨firstShaped, alone tagged, tagged⟩
      · exact items child childMem
    refine .composite (.ofItems member ?_ fun child childMem => (each child childMem).2)
      fun child childMem => (each child childMem).1
    simp only [Node.withChildren, List.length_cons]
    omega

/-! ### Tables of the language -/

namespace OperatorTable

theorem contains_of_binds {table : OperatorTable} {outer inner : String}
    (before : table.binds outer inner = true) : table.contains inner = true := by
  obtain ⟨outerLevel, innerLevel, -, innerFound, -⟩ := binds_iff.mp before
  rw [contains, innerFound]
  rfl

end OperatorTable

theorem separator_level : ∀ key ∈ Mode.operatorKeys .statement,
    (OperatorTables.standard.of .statement).binds key Tag.sequence = true ∧
      ((OperatorTables.standard.of .statement).binds Tag.sequence key = true →
        key = Tag.sequence) := by
  rw [OperatorTables.of_standard]
  decide +kernel

theorem binds_separator {key : String}
    (known : (OperatorTables.standard.of .statement).contains key = true) :
    (OperatorTables.standard.of .statement).binds key Tag.sequence = true :=
  (separator_level key (contains_standard_iff.mp known)).1

/-- The separator of statements only goes below another one. -/
theorem separator_binds {key : String}
    (before : (OperatorTables.standard.of .statement).binds Tag.sequence key = true) :
    key = Tag.sequence :=
  (separator_level key
    (contains_standard_iff.mp (OperatorTable.contains_of_binds before))).2 before

theorem listOperators_standard {mode : Mode} {tag : String} (member : tag ∈ listOperators)
    (known : (OperatorTables.standard.of mode).contains tag = true) : mode = .statement := by
  have each : ∀ tag ∈ listOperators, (OperatorTables.standard.of .argument).contains tag = false ∧
      (OperatorTables.standard.of .command).contains tag = false := by
    simp only [contains_standard_eq_false]
    decide +kernel
  cases mode with
  | statement => rfl
  | argument =>
      rw [(each tag member).1] at known
      cases known
  | command =>
      rw [(each tag member).2] at known
      cases known

/-! ### Operators that a context reads -/

/-- An operator of a context with operands in front of its last one. -/
inductive Pending.Fits (mode : Mode) : Pending → Prop
  | prefixed {operator : Node}
      (spelled : operator.data ∈ (OperatorTables.standard.of mode).prefixSpellings) :
      Fits mode (.prefixed operator)
  | linking {left operator : Node}
      (spelled : operator.data ∈ (OperatorTables.standard.of mode).infixSpellings)
      (plain : Plain left) : Fits mode (.linking left operator [])
  | conditional {left question middle : Node} (spelled : question.data = "?") (plain : Plain left)
      (consequent : Plain middle) : Fits mode (.linking left question [middle])
  | listing {left operator : Node} (listed : operator.data ∈ listOperators)
      (statements : mode = .statement) (plain : Plain left) : Fits mode (.linking left operator [])

namespace Pending.Fits

variable {mode : Mode} {pending : Pending}

theorem known (fits : pending.Fits mode) :
    (OperatorTables.standard.of mode).contains pending.key = true := by
  cases fits with
  | prefixed spelled => exact OperatorTable.contains_of_mem_prefixSpellings spelled
  | linking spelled plain => exact OperatorTable.contains_of_mem_infixSpellings spelled
  | conditional spelled plain consequent =>
      rw [Pending.key, spelled]
      exact (usable_standard.context mode).hasConditional
  | listing listed statements plain =>
      subst statements
      simp only [listOperators, List.mem_cons, List.not_mem_nil, or_false] at listed
      rw [Pending.key]
      rcases listed with data_eq | data_eq <;> rw [data_eq]
      · exact usable_standard.hasComma
      · exact usable_standard.hasSeparator

theorem reduceAs_eq (fits : pending.Fits mode) (tree : Node) :
    (OperatorTables.standard.of mode).reduceAs pending.key pending.operator pending.leading tree =
      .ok (pending.insert (OperatorTables.standard.of mode) tree) := by
  refine Pending.reduceAs_eq_insert fits.known (fun none_eq => ?_) tree
  cases fits with
  | prefixed spelled =>
      exact not_listOperators_of_mem_leadingOperators ((prefixSpellings_standard mode).2 _ spelled)
  | _ => cases none_eq

theorem of_listed (fits : pending.Fits mode) (listed : pending.operator.data ∈ listOperators) :
    mode = .statement ∧ ∃ left operator, pending = .linking left operator [] ∧ Plain left := by
  have notListed : ∀ {word : String}, word ≠ Tag.list ∧ word ≠ Tag.sequence →
      word ∉ listOperators := by
    intro word apart listed
    simp only [listOperators, List.mem_cons, List.not_mem_nil, or_false] at listed
    exact listed.elim apart.1 apart.2
  cases fits with
  | prefixed spelled =>
      exact absurd listed (notListed
        (LeadingForm.operator ((prefixSpellings_standard mode).2 _ spelled)).not_listTag)
  | linking spelled plain =>
      exact absurd listed (notListed
        (LinkingForm.operator ((infixSpellings_standard mode).2 _ spelled)).not_listTag)
  | conditional spelled plain consequent =>
      rw [Pending.operator, spelled] at listed
      exact absurd listed (by decide)
  | @listing left operator listed statements plain => exact ⟨statements, left, operator, rfl, plain⟩

end Pending.Fits

/-! ### Reductions -/

theorem CompositeShape.replaceFirst {mode : Mode} {tag : String} {first : Node}
    {others : List Node} (shape : CompositeShape tag (first :: others)) (several : others ≠ [])
    (known : (OperatorTables.standard.of mode).contains tag = true) :
    first.StandsAlone ∧ (tag ∉ listOperators →
      ∀ inner : Node, inner.StandsAlone → CompositeShape tag (inner :: others)) := by
  have operators : ∀ other ∈ [Tag.block, "def", "class", "module", "alias", Tag.invoke, Tag.index,
      Tag.pair], (OperatorTables.standard.of mode).contains other = false := by
    simp only [contains_standard_eq_false]
    cases mode <;> decide +kernel
  have unknown {other : String} (member : other ∈ [Tag.block, "def", "class", "module", "alias",
      Tag.invoke, Tag.index, Tag.pair]) (tag_eq : tag = other) : False := by
    rw [tag_eq, operators other member] at known
    cases known
  cases shape with
  | method => exact (unknown (by simp) rfl).elim
  | singletonClass => exact (unknown (by simp) rfl).elim
  | derivedClass => exact (unknown (by simp) rfl).elim
  | moduleDefinition => exact (unknown (by simp) rfl).elim
  | aliasDefinition => exact (unknown (by simp) rfl).elim
  | group => exact absurd rfl several
  | container => exact absurd rfl several
  | call => exact (unknown (by simp) rfl).elim
  | blockCall => exact (unknown (by simp) rfl).elim
  | index => exact (unknown (by simp) rfl).elim
  | block => exact (unknown (by simp) rfl).elim
  | member dots received named =>
      exact ⟨received, fun _ inner alone => .member dots alone named⟩
  | conditional condition consequent alternative =>
      exact ⟨condition, fun _ inner alone => .conditional alone consequent alternative⟩
  | label => exact absurd rfl several
  | pair => exact (unknown (by simp) rfl).elim
  | sequence several each =>
      exact ⟨(each first List.mem_cons_self).toStandsAlone, fun apart => absurd (by decide) apart⟩
  | list each =>
      exact ⟨(each first List.mem_cons_self).toStandsAlone, fun apart => absurd (by decide) apart⟩
  | unary => exact absurd rfl several
  | binary other spelled left right =>
      exact ⟨left, fun _ inner alone => .binary other spelled alone right⟩

namespace Expression

variable {mode : Mode} {pending : Pending} {tree : Node}

/-- An expression that an operator does not go below may be its last operand. -/
theorem standsAlone (expression : Expression mode tree) (fits : pending.Fits mode)
    (above : (OperatorTables.standard.of mode).goesBelow pending.key tree = false) :
    tree.StandsAlone := by
  refine ⟨fun tagged => ?_, expression.wide⟩
  by_cases statements : mode = .statement
  · subst statements
    obtain ⟨several, -⟩ := expression.shaped.items tagged (by decide)
    have below := OperatorTable.goesBelow_iff.mpr
      ⟨several rfl, tagged.1 ▸ binds_separator fits.known⟩
    rw [below] at above
    cases above
  · exact expression.single statements tagged

/-- An operator over its last operand. -/
theorem reduced (expression : Expression mode tree) (fits : pending.Fits mode)
    (above : (OperatorTables.standard.of mode).goesBelow pending.key tree = false) :
    Shaped (pending.reduced tree) := by
  have alone := expression.standsAlone fits above
  cases fits with
  | @prefixed operator spelled =>
      refine .composite (.ofPrefix spelled alone) fun child member => ?_
      rw [List.mem_singleton.mp member]
      exact expression.shaped
  | @linking left operator spelled plain =>
      have noList : listOperators.contains operator.data = false := by
        have apart := (LinkingForm.operator ((infixSpellings_standard mode).2 _ spelled)).not_listTag
        simpa [listOperators] using apart
      rw [Pending.reduced, List.nil_append, joinOperator_of_not_list noList]
      refine .composite (.ofInfix spelled plain.standsAlone alone) ?_
      rintro child (_ | ⟨_, _ | ⟨_, member⟩⟩)
      · exact plain.shaped
      · exact expression.shaped
      · cases member
  | @conditional left question middle spelled plain consequent =>
      have noList : listOperators.contains question.data = false := by
        rw [spelled]
        decide
      rw [Pending.reduced, joinOperator_of_not_list noList]
      refine .composite ?_ ?_
      · rw [show (question.withChildren (left :: ([middle] ++ [tree]))).data = "?" from spelled]
        exact .conditional plain.standsAlone consequent.standsAlone alone
      · rintro child (_ | ⟨_, _ | ⟨_, _ | ⟨_, member⟩⟩⟩)
        · exact plain.shaped
        · exact consequent.shaped
        · exact expression.shaped
        · cases member
  | @listing left operator listed statements plain =>
      subst statements
      refine Shaped.joinItems listed (List.cons_ne_nil _ _) plain.shaped
        (fun tagged => absurd tagged (plain.isItem listed).apart) (fun _ => plain.standsAlone) ?_
      intro child member
      rw [List.mem_singleton.mp member]
      refine ⟨expression.shaped, alone, fun tagged => ?_⟩
      -- A list of the same kind has several items, and its operator associates to the left.
      have several : 2 ≤ tree.children.length := by
        simp only [listOperators, List.mem_cons, List.not_mem_nil, or_false] at listed
        rcases listed with data_eq | data_eq <;> rw [data_eq] at tagged
        · exact alone.wide tagged
        · exact absurd tagged alone.notSequence
      have leftward : ∀ tag ∈ listOperators,
          (OperatorTables.standard.of .statement).binds tag tag = true := by
        rw [OperatorTables.of_standard]
        decide +kernel
      have below : (OperatorTables.standard.of .statement).goesBelow operator.data tree = true :=
        OperatorTable.goesBelow_iff.mpr ⟨several, by rw [tagged.1]; exact leftward _ listed⟩
      exact absurd (below.symm.trans above) (by decide)

theorem insert_data (mode : Mode) (pending : Pending) (tree : Node) :
    (pending.insert (OperatorTables.standard.of mode) tree).data =
      if (OperatorTables.standard.of mode).goesBelow pending.key tree = true then tree.data
      else pending.operator.data := by
  cases below : (OperatorTables.standard.of mode).goesBelow pending.key tree with
  | false =>
      rw [Pending.insert_of_not_goesBelow below]
      cases pending with
      | prefixed operator => rfl
      | linking left operator middle => exact joinOperator_data operator left _
  | true =>
      obtain ⟨several, -⟩ := OperatorTable.goesBelow_iff.mp below
      cases children_eq : tree.children with
      | nil => simp [children_eq] at several
      | cons first others =>
          rw [Pending.insert_of_goesBelow children_eq below]
          exact joinOperator_data tree _ others

theorem insert_notListed (fits : pending.Fits mode) (outside : mode ≠ .statement) (tree : Node) :
    (pending.insert (OperatorTables.standard.of mode) tree).data ∉ listOperators := by
  rw [insert_data]
  split
  · rename_i below
    have known := OperatorTable.contains_of_binds (OperatorTable.goesBelow_iff.mp below).2
    exact fun listed => outside (listOperators_standard listed known)
  · exact fun listed => outside (fits.of_listed listed).1

theorem insert {tree : Node} (fits : pending.Fits mode) (expression : Expression mode tree) :
    Expression mode (pending.insert (OperatorTables.standard.of mode) tree) := by
  cases below : (OperatorTables.standard.of mode).goesBelow pending.key tree with
  | false =>
      have shaped := expression.reduced fits below
      have data_eq := insert_data mode pending tree
      rw [Pending.insert_of_not_goesBelow below] at data_eq ⊢
      rw [below, if_neg Bool.false_ne_true] at data_eq
      refine ⟨shaped, fun tagged => ?_, fun outside tagged => ?_⟩
      · obtain ⟨-, left, operator, rfl, -⟩ :=
          fits.of_listed (by rw [← data_eq, tagged.1]; decide)
        exact joinOperator_several operator left tree []
      · exact outside (fits.of_listed (by rw [← data_eq, tagged.1]; decide)).1
  | true =>
      obtain ⟨several, before⟩ := OperatorTable.goesBelow_iff.mp below
      have known := OperatorTable.contains_of_binds before
      obtain ⟨first, others, children_eq, smaller⟩ : ∃ first others,
          tree.children = first :: others ∧ sizeOf first < sizeOf tree := by
        rcases tree with ⟨data, _ | ⟨first, others⟩, comments, offset, position⟩
        · simp at several
        · refine ⟨first, others, rfl, ?_⟩
          simp only [Node.mk.sizeOf_spec, List.cons.sizeOf_spec]
          omega
      have nonempty : others ≠ [] := by
        rintro rfl
        simp [children_eq] at several
      obtain ⟨shape, each⟩ : CompositeShape tree.data tree.children ∧
          ∀ child ∈ tree.children, Shaped child := by
        rcases expression.shaped.inv with bare | isClass | composite
        · simp [children_eq] at bare
        · have unknown := linksOperators_standard mode "class" (by simp)
          rw [isClass, unknown] at known
          cases known
        · exact composite
      rw [children_eq] at shape each
      obtain ⟨firstAlone, replaced⟩ := shape.replaceFirst nonempty known
      have inner : Expression mode (pending.insert (OperatorTables.standard.of mode) first) :=
        insert fits ⟨each first List.mem_cons_self, firstAlone.wide,
          fun _ => firstAlone.notSequence⟩
      -- Only a separator makes a sequence, and it does not go below anything else.
      have innerAlone : tree.data ≠ Tag.sequence →
          (pending.insert (OperatorTables.standard.of mode) first).StandsAlone := by
        refine fun other => ⟨fun tagged => ?_, inner.wide⟩
        have data_eq := insert_data mode pending first
        rw [tagged.1] at data_eq
        split at data_eq
        · rename_i deeper
          have filled := (OperatorTable.goesBelow_iff.mp deeper).1
          refine firstAlone.notSequence ⟨data_eq.symm, fun bare => ?_⟩
          rw [bare] at filled
          simp at filled
        · obtain ⟨statements, left, operator, rfl, -⟩ :=
            fits.of_listed (by rw [← data_eq]; decide)
          subst statements
          rw [Pending.key, ← show Tag.sequence = operator.data from data_eq] at before
          exact other (separator_binds before)
      rw [Pending.insert_of_goesBelow children_eq below]
      refine ⟨?_, fun tagged => ?_, fun outside tagged => ?_⟩
      · by_cases listed : tree.data ∈ listOperators
        · refine Shaped.joinItems listed nonempty inner.shaped (fun tagged => ?_) (fun apart => ?_) ?_
          · simp only [listOperators, List.mem_cons, List.not_mem_nil, or_false] at listed
            rcases listed with data_eq | data_eq <;> rw [data_eq] at tagged
            · exact inner.wide tagged
            · exact (inner.shaped.items tagged (by decide)).1 rfl
          · by_cases sequence : tree.data = Tag.sequence
            · exact ⟨sequence ▸ apart, inner.wide⟩
            · exact innerAlone sequence
          · intro child member
            exact ⟨each child (List.mem_cons_of_mem _ member),
              (shape.items listed).2 child (List.mem_cons_of_mem _ member)⟩
        · have alone := innerAlone fun sequence => listed (by rw [sequence]; decide)
          rw [joinOperator_of_not_list (by simpa using listed)]
          refine .composite (replaced listed _ alone) ?_
          rintro child (_ | ⟨_, member⟩)
          · exact inner.shaped
          · exact each child (List.mem_cons_of_mem _ member)
      · cases others with
        | nil => exact absurd rfl nonempty
        | cons second rest => exact joinOperator_several tree _ second rest
      · rw [Node.IsOver, joinOperator_data] at tagged
        exact outside (listOperators_standard (by rw [tagged.1]; decide) known)
termination_by sizeOf tree

end Expression

end RubySyntax
