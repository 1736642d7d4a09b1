import RubySyntax.OperatorReduction

/-!
# Rotations

A reduction goes below the operators at the left edge of its right operand for as
long as it has to be applied before them.  This file states reductions without
failures and shows the law that makes a reduction from the right agree with one
from the left: an operator that has to be applied before the next one may as well
be reduced over the operand between them.
-/

namespace RubySyntax

/-! ### Joins -/

theorem joinOperator_of_not_list {operator first : Node} {rest : List Node}
    (noList : listOperators.contains operator.data = false) :
    joinOperator operator (first :: rest) = operator.withChildren (first :: rest) := by
  rw [joinOperator, noList]
  rfl

theorem joinOperator_splice {operator first : Node} {rest : List Node}
    (isList : listOperators.contains operator.data = true)
    (spliced : first.data = operator.data ∧ 2 ≤ first.children.length) :
    joinOperator operator (first :: rest) = first.withChildren (first.children ++ rest) := by
  rw [joinOperator, isList, spliced.1, beq_self_eq_true, decide_eq_true spliced.2]
  rfl

theorem joinOperator_keep {operator first : Node} {rest : List Node}
    (kept : ¬(first.data = operator.data ∧ 2 ≤ first.children.length)) :
    joinOperator operator (first :: rest) = operator.withChildren (first :: rest) := by
  rw [joinOperator, if_neg]
  simpa only [Bool.and_eq_true, beq_iff_eq, decide_eq_true_eq, and_assoc, not_and] using
    fun _ => not_and.mp kept

/-- A join extends its first child exactly if that is a list of the same kind. -/
theorem joinOperator_eq_ite {operator first : Node} {rest : List Node} {onward : Bool}
    (onward_iff : onward = true ↔ listOperators.contains operator.data = true ∧
      first.data = operator.data ∧ 2 ≤ first.children.length) :
    joinOperator operator (first :: rest) =
      if onward then first.withChildren (first.children ++ rest)
      else operator.withChildren (first :: rest) := by
  split
  next goesOn =>
    obtain ⟨isList, spliced⟩ := onward_iff.mp goesOn
    exact joinOperator_splice isList spliced
  next stops =>
    by_cases isList : listOperators.contains operator.data = true
    · exact joinOperator_keep fun spliced => stops (onward_iff.mpr ⟨isList, spliced⟩)
    · exact joinOperator_of_not_list (by simpa using isList)

/-- A join either extends its first child or keeps all children apart. -/
theorem joinOperator_cases (operator first : Node) :
    (listOperators.contains operator.data = true ∧ first.data = operator.data ∧
      2 ≤ first.children.length ∧ ∀ rest, joinOperator operator (first :: rest) =
        first.withChildren (first.children ++ rest)) ∨
    (∀ rest, joinOperator operator (first :: rest) = operator.withChildren (first :: rest)) := by
  by_cases spliced : first.data = operator.data ∧ 2 ≤ first.children.length
  · by_cases isList : listOperators.contains operator.data = true
    · exact Or.inl ⟨isList, spliced.1, spliced.2, fun rest => joinOperator_splice isList spliced⟩
    · exact Or.inr fun rest => joinOperator_of_not_list (by simpa using isList)
  · exact Or.inr fun rest => joinOperator_keep spliced

@[simp]
theorem joinOperator_data (operator first : Node) (rest : List Node) :
    (joinOperator operator (first :: rest)).data = operator.data := by
  rcases joinOperator_cases operator first with ⟨-, data_eq, -, join_eq⟩ | join_eq
  · rw [join_eq]
    exact data_eq
  · rw [join_eq]
    rfl

theorem joinOperator_several (operator first second : Node) (rest : List Node) :
    2 ≤ (joinOperator operator (first :: second :: rest)).children.length := by
  rcases joinOperator_cases operator first with ⟨-, -, several, join_eq⟩ | join_eq
  · rw [join_eq]
    simp only [Node.withChildren, List.length_append]
    omega
  · rw [join_eq]
    simp [Node.withChildren]

@[simp]
theorem joinOperator_withChildren (operator : Node) (children others : List Node) :
    joinOperator (operator.withChildren children) others = joinOperator operator others := by
  cases others <;> rfl

/-- More children behind the last one stand behind those of the join. -/
theorem joinOperator_append (operator first : Node) (rest others : List Node) :
    joinOperator operator (first :: (rest ++ others)) =
      (joinOperator operator (first :: rest)).withChildren
        ((joinOperator operator (first :: rest)).children ++ others) := by
  rcases joinOperator_cases operator first with ⟨-, -, -, join_eq⟩ | join_eq
  · rw [join_eq, join_eq]
    simp [Node.withChildren]
  · rw [join_eq, join_eq]
    simp [Node.withChildren]

/-! ### Which operator is applied first -/

namespace OperatorTable

variable {table : OperatorTable}

/-- Whether the table has both operators and applies the first one before the second. -/
def binds (table : OperatorTable) (outer inner : String) : Bool :=
  match table.bindsBefore outer inner with
  | .ok answer => answer
  | .error _ => false

theorem levelOf_eq (table : OperatorTable) {key : String} {level : Nat}
    (found : table.precedence? key = some level) : table.levelOf key = .ok level := by
  rw [levelOf, found]

theorem bindsBefore_eq (table : OperatorTable) {outer inner : String} {outerLevel innerLevel : Nat}
    (outerFound : table.precedence? outer = some outerLevel)
    (innerFound : table.precedence? inner = some innerLevel) :
    table.bindsBefore outer inner =
      .ok (if outerLevel = innerLevel then !table.isRightAssociative outer
        else decide (outerLevel < innerLevel)) := by
  rw [bindsBefore, levelOf_eq table outerFound, levelOf_eq table innerFound]
  by_cases same : outerLevel = innerLevel
  · simp [same, bind, Except.bind, pure, Except.pure]
  · simp [same, bind, Except.bind, pure, Except.pure]

theorem binds_iff {outer inner : String} :
    table.binds outer inner = true ↔ ∃ outerLevel innerLevel,
      table.precedence? outer = some outerLevel ∧ table.precedence? inner = some innerLevel ∧
        (outerLevel < innerLevel ∨
          outerLevel = innerLevel ∧ table.isRightAssociative outer = false) := by
  cases outerFound : table.precedence? outer with
  | none => simp [binds, bindsBefore, levelOf, outerFound, bind, Except.bind]
  | some outerLevel =>
      cases innerFound : table.precedence? inner with
      | none => simp [binds, bindsBefore, levelOf, outerFound, innerFound, bind, Except.bind]
      | some innerLevel =>
          rw [binds, bindsBefore_eq table outerFound innerFound]
          by_cases same : outerLevel = innerLevel
          · simp [same]
          · simp [same]

/-- An operator that is applied before a second one is applied before what the second one
is applied before. -/
theorem binds_trans {first second third : String} (front : table.binds first second = true)
    (back : table.binds second third = true) : table.binds first third = true := by
  obtain ⟨firstLevel, secondLevel, firstFound, secondFound, order⟩ := binds_iff.mp front
  obtain ⟨otherLevel, thirdLevel, otherFound, thirdFound, behind⟩ := binds_iff.mp back
  rw [secondFound] at otherFound
  obtain rfl := Option.some.inj otherFound
  refine binds_iff.mpr ⟨firstLevel, thirdLevel, firstFound, thirdFound, ?_⟩
  rcases order with less | ⟨rfl, left⟩
  · left
    omega
  · rcases behind with less | ⟨rfl, -⟩
    · exact Or.inl less
    · exact Or.inr ⟨rfl, left⟩

/-- Whether a reduction goes below the root of its right operand. -/
def goesBelow (table : OperatorTable) (key : String) (operand : Node) : Bool :=
  decide (2 ≤ operand.children.length) && table.binds key operand.data

theorem goesBelow_iff {key : String} {operand : Node} :
    table.goesBelow key operand = true ↔
      2 ≤ operand.children.length ∧ table.binds key operand.data = true := by
  simp [goesBelow]

/-- A reduction by an operator of the table never fails to tell whether it rotates. -/
theorem rotates_eq {key : String} (known : table.contains key = true) (operand : Node) :
    table.rotates key operand = .ok (table.goesBelow key operand) := by
  obtain ⟨level, found⟩ := Option.isSome_iff_exists.mp known
  rw [rotates, goesBelow]
  by_cases several : 2 ≤ operand.children.length
  · cases operandFound : table.precedence? operand.data with
    | none =>
        simp [contains, operandFound, binds, bindsBefore, levelOf, found, bind, Except.bind]
    | some operandLevel =>
        have few : ¬ operand.children.length < 2 := by omega
        simp [contains, operandFound, few, several, binds, bindsBefore_eq table found operandFound]
  · have few : operand.children.length < 2 := by omega
    simp [few, several]

end OperatorTable

/-! ### Operators that wait for their last operand -/

/-- An operator with the operands in front of its last one. -/
inductive Pending where
  /-- A prefix operator. -/
  | prefixed (operator : Node)
  /-- An operator behind its left operand, with the operands between it and its last one. -/
  | linking (left operator : Node) (middle : List Node)

namespace Pending

variable {table : OperatorTable}

def operator : Pending → Node
  | prefixed operator => operator
  | linking _ operator _ => operator

def key : Pending → String
  | prefixed operator => OperatorTable.prefixKey operator.data
  | linking _ operator _ => operator.data

def leading : Pending → List Node
  | prefixed _ => []
  | linking left _ middle => left :: middle

def reduced (last : Node) : Pending → Node
  | prefixed operator => operator.withChildren [last]
  | linking left operator middle => joinOperator operator (left :: (middle ++ [last]))

/-- The operator reduced into a tree that may have been reduced too early. -/
def insert (table : OperatorTable) (pending : Pending) : Node → Node
  | last@⟨_, first :: others, _, _, _⟩ =>
    if table.goesBelow pending.key last then
      joinOperator last (pending.insert table first :: others)
    else pending.reduced last
  | last => pending.reduced last

theorem insert_of_goesBelow {pending : Pending} {tree first : Node} {others : List Node}
    (children_eq : tree.children = first :: others)
    (below : table.goesBelow pending.key tree = true) :
    pending.insert table tree = joinOperator tree (pending.insert table first :: others) := by
  obtain ⟨data, children, comments, offset, position⟩ := tree
  obtain rfl : children = first :: others := children_eq
  rw [insert, if_pos below]

theorem insert_of_not_goesBelow {pending : Pending} {tree : Node}
    (above : table.goesBelow pending.key tree = false) :
    pending.insert table tree = pending.reduced tree := by
  rcases tree with ⟨data, _ | ⟨first, others⟩, comments, offset, position⟩
  · rw [insert]
    rintro _ _ _ _ _ _ ⟨⟩
  · rw [insert, if_neg (by simp [above])]

theorem goesBelow_prefixed (key : String) (operator last : Node) :
    table.goesBelow key ((prefixed operator).reduced last) = false := by
  simp [OperatorTable.goesBelow, reduced, Node.withChildren]

/-- An operator over several operands is rotated into by what is applied before it. -/
theorem goesBelow_linking (key : String) (left operator last : Node) (middle : List Node) :
    table.goesBelow key ((linking left operator middle).reduced last) =
      table.binds key operator.data := by
  have several : 2 ≤ ((linking left operator middle).reduced last).children.length := by
    rw [reduced]
    cases middle with
    | nil => exact joinOperator_several operator left last []
    | cons second rest => exact joinOperator_several operator left second (rest ++ [last])
  have data_eq : ((linking left operator middle).reduced last).data = operator.data :=
    joinOperator_data operator left (middle ++ [last])
  rw [OperatorTable.goesBelow, decide_eq_true several, data_eq, Bool.true_and]

/-- The reduction of the table is the one without failures. -/
theorem reduceAs_eq_insert {pending : Pending} (known : table.contains pending.key = true)
    (plain : pending.leading = [] → listOperators.contains pending.operator.data = false)
    (tree : Node) : table.reduceAs pending.key pending.operator pending.leading tree =
      .ok (pending.insert table tree) := by
  have reduced_eq : ∀ last : Node,
      joinOperator pending.operator (pending.leading ++ [last]) = pending.reduced last := by
    intro last
    cases pending with
    | prefixed operator => exact joinOperator_of_not_list (plain rfl)
    | linking left operator middle => rfl
  rcases tree with ⟨data, _ | ⟨first, others⟩, comments, offset, position⟩
  · rw [OperatorTable.reduceAs.eq_2 _ _ _ _ _ (by simp), reduced_eq, insert]
    rintro _ _ _ _ _ _ ⟨⟩
  · have inner := reduceAs_eq_insert known plain first
    rw [OperatorTable.reduceAs, OperatorTable.rotates_eq known, insert, inner]
    cases below : table.goesBelow pending.key ⟨data, first :: others, comments, offset, position⟩
    · simp [bind, Except.bind, pure, Except.pure, reduced_eq]
    · simp [bind, Except.bind, pure, Except.pure]
termination_by sizeOf tree

/-! ### The law of rotations -/

/-- What is applied before the root of a tree is reduced into the first child of the root. -/
theorem insert_joinOperator {front : Pending} {tree : Node} {others : List Node}
    (passes : table.binds front.key tree.data = true) {first : Node}
    (several : 2 ≤ (first :: others).length) (inner : Node) :
    front.insert table (joinOperator tree (inner :: others)) =
      joinOperator tree (front.insert table inner :: others) := by
  rcases joinOperator_cases tree inner with ⟨isList, data_eq, innerSeveral, spliced⟩ | keeps
  · -- The first child is a list of the same kind, and what is inserted goes below it too.
    obtain ⟨child, rest, children_eq⟩ : ∃ child rest, inner.children = child :: rest := by
      cases children_eq : inner.children with
      | nil => simp [children_eq] at innerSeveral
      | cons child rest => exact ⟨child, rest, rfl⟩
    have goesInner : table.goesBelow front.key inner = true :=
      OperatorTable.goesBelow_iff.mpr ⟨innerSeveral, data_eq ▸ passes⟩
    have goesOuter : table.goesBelow front.key
        (inner.withChildren (child :: (rest ++ others))) = true := by
      refine OperatorTable.goesBelow_iff.mpr ⟨?_, data_eq ▸ passes⟩
      rw [children_eq] at innerSeveral
      simp only [Node.withChildren, List.length_cons, List.length_append] at innerSeveral ⊢
      omega
    rw [spliced, children_eq, List.cons_append, insert_of_goesBelow rfl goesOuter,
      joinOperator_withChildren, joinOperator_append, insert_of_goesBelow children_eq goesInner]
    refine (joinOperator_splice isList ⟨?_, ?_⟩).symm
    · rw [joinOperator_data, data_eq]
    · rw [children_eq] at innerSeveral
      cases rest with
      | nil => simp at innerSeveral
      | cons second rest => exact joinOperator_several inner _ second rest
  · rw [keeps]
    have goes : table.goesBelow front.key (tree.withChildren (inner :: others)) = true :=
      OperatorTable.goesBelow_iff.mpr ⟨several, passes⟩
    rw [insert_of_goesBelow rfl goes, joinOperator_withChildren]

/-- An operator that is applied before the next one may as well be reduced into the operand
between them first. -/
theorem insert_insert_linking {front : Pending} {left operator : Node} {middle : List Node}
    (before : table.binds front.key operator.data = true) (tree : Node) :
    front.insert table ((linking left operator middle).insert table tree) =
      (linking (front.insert table left) operator middle).insert table tree := by
  cases below : table.goesBelow operator.data tree with
  | false =>
      -- The next operator stands above the tree, and the one in front goes below it.
      have link_eq : (linking left operator middle).insert table tree =
          (linking left operator middle).reduced tree := insert_of_not_goesBelow below
      have result_eq : (linking (front.insert table left) operator middle).insert table tree =
          (linking (front.insert table left) operator middle).reduced tree :=
        insert_of_not_goesBelow below
      rw [link_eq, result_eq]
      exact insert_joinOperator before (show 2 ≤ (left :: (middle ++ [tree])).length by simp) left
  | true =>
      obtain ⟨several, behind⟩ := OperatorTable.goesBelow_iff.mp below
      have passes : table.binds front.key tree.data = true :=
        OperatorTable.binds_trans before behind
      obtain ⟨first, others, children_eq, smaller⟩ : ∃ first others,
          tree.children = first :: others ∧ sizeOf first < sizeOf tree := by
        rcases tree with ⟨data, _ | ⟨first, others⟩, comments, offset, position⟩
        · simp at several
        · refine ⟨first, others, rfl, ?_⟩
          simp only [Node.mk.sizeOf_spec, List.cons.sizeOf_spec]
          omega
      have ih : front.insert table ((linking left operator middle).insert table first) =
          (linking (front.insert table left) operator middle).insert table first :=
        insert_insert_linking before first
      have link_eq : (linking left operator middle).insert table tree = joinOperator tree
          ((linking left operator middle).insert table first :: others) :=
        insert_of_goesBelow children_eq below
      have result_eq : (linking (front.insert table left) operator middle).insert table tree =
          joinOperator tree
            ((linking (front.insert table left) operator middle).insert table first :: others) :=
        insert_of_goesBelow children_eq below
      rw [link_eq, result_eq, ← ih]
      exact insert_joinOperator passes (children_eq ▸ several) _
termination_by sizeOf tree

/-- An operator that does not go below the operand in front of the next one is reduced over it. -/
theorem insert_insert {front : Pending} {left operator : Node} {middle : List Node}
    (before : table.binds front.key operator.data = true)
    (apart : table.goesBelow front.key left = false) (tree : Node) :
    front.insert table ((linking left operator middle).insert table tree) =
      (linking (front.reduced left) operator middle).insert table tree := by
  rw [insert_insert_linking before, insert_of_not_goesBelow apart]

end Pending

/-! ### Links that wait for their right operand -/

def OperatorTable.HasLink (table : OperatorTable) : ChainLink → Prop
  | .operator node => table.contains node.data = true
  | .conditional question _ => table.contains question.data = true

instance (table : OperatorTable) : DecidablePred table.HasLink
  | .operator node => inferInstanceAs (Decidable (table.contains node.data = true))
  | .conditional question _ => inferInstanceAs (Decidable (table.contains question.data = true))

/-- A link behind its left operand, which waits for the right one. -/
def ChainLink.pending (left : Node) : ChainLink → Pending
  | .operator node => .linking left node []
  | .conditional question middle => .linking left question [middle]

theorem ChainLink.contains_key {table : OperatorTable} {link : ChainLink}
    (known : table.HasLink link) (left : Node) :
    table.contains (link.pending left).key = true := by
  cases link <;> exact known

theorem OperatorTable.reduceLink_eq_insert {table : OperatorTable} {link : ChainLink}
    (known : table.HasLink link) (left right : Node) :
    table.reduceLink left link right = .ok ((link.pending left).insert table right) := by
  have reduced := Pending.reduceAs_eq_insert (link.contains_key known left)
    (fun bare => by cases link <;> cases bare) right
  cases link <;> exact reduced

end RubySyntax
