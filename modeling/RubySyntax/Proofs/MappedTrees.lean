import RubySyntax.OperandGrammar

/-!
# Trees with other annotations

What a chain or a suffix makes of its operands depends on their data and their shape alone.
A map of trees that keeps both may be applied before or after.
-/

namespace RubySyntax

/-- A map of trees that keeps the data and the children of every node. -/
structure KeepsShape (map : Node → Node) : Prop where
  data (node : Node) : (map node).data = node.data
  children (node : Node) : (map node).children = node.children.map map
  withChildren (node : Node) (children : List Node) :
    map (node.withChildren children) = (map node).withChildren (children.map map)
  made (data : String) (children : List Node) (node : Node) :
    map { data := data, children := children, offset := node.offset } =
      { data := data, children := children.map map, offset := (map node).offset }

def Suffix.map (map : Node → Node) : Suffix → Suffix
  | .wrap operator child => .wrap (map operator) (map child)
  | .block added => .block (map added)

def ChainLink.map (map : Node → Node) : ChainLink → ChainLink
  | .operator node => .operator (map node)
  | .conditional question middle => .conditional (map question) (map middle)

namespace KeepsShape

variable {map : Node → Node} (keeps : KeepsShape map)
include keeps

theorem attach (operand : Node) (suffix : Suffix) :
    map (Suffix.attach operand suffix) = Suffix.attach (map operand) (suffix.map map) := by
  cases suffix with
  | wrap operator child => exact keeps.withChildren _ _
  | block block =>
      rw [Suffix.attach, Suffix.map, Suffix.attach, Suffix.attachBlock, Suffix.attachBlock,
        keeps.data, keeps.children, List.length_map]
      split
      · rw [keeps.withChildren, List.map_append, List.map_singleton]
      · have list := keeps.made Tag.list [] block
        rw [keeps.made, List.map_cons, List.map_cons, list, List.map_singleton, List.map_nil]

theorem attachAll (operand : Node) (suffixes : List Suffix) :
    map (suffixes.foldl Suffix.attach operand) =
      (suffixes.map (Suffix.map map)).foldl Suffix.attach (map operand) := by
  induction suffixes generalizing operand with
  | nil => rfl
  | cons suffix suffixes ih =>
      rw [List.map_cons, List.foldl_cons, List.foldl_cons, ← keeps.attach]
      exact ih _

theorem joinOperator (operator : Node) (children : List Node) :
    map (joinOperator operator children) =
      RubySyntax.joinOperator (map operator) (children.map map) := by
  cases children with
  | nil => exact keeps.withChildren _ _
  | cons first rest =>
      rw [RubySyntax.joinOperator, List.map_cons, RubySyntax.joinOperator, keeps.data, keeps.data,
        keeps.children, List.length_map]
      split
      · rw [keeps.withChildren, List.map_append]
      · exact keeps.withChildren _ _

variable {table : OperatorTable}

theorem rotates (key : String) (operand : Node) :
    table.rotates key (map operand) = table.rotates key operand := by
  rw [OperatorTable.rotates, OperatorTable.rotates, keeps.data, keeps.children, List.length_map]

omit keeps in
private theorem reduceAs_below {key : String} {operator last first : Node}
    {leading others : List Node} (children_eq : last.children = first :: others) :
    table.reduceAs key operator leading last = (do
      if ← table.rotates key last then
        let inner ← table.reduceAs key operator leading first
        return RubySyntax.joinOperator last (inner :: others)
      else
        return RubySyntax.joinOperator operator (leading ++ [last])) := by
  obtain ⟨data, children, comments, offset, position⟩ := last
  obtain rfl : children = first :: others := children_eq
  rw [OperatorTable.reduceAs]

omit keeps in
private theorem reduceAs_leaf {key : String} {operator last : Node} {leading : List Node}
    (children_eq : last.children = []) :
    table.reduceAs key operator leading last =
      .ok (RubySyntax.joinOperator operator (leading ++ [last])) := by
  obtain ⟨data, children, comments, offset, position⟩ := last
  obtain rfl : children = [] := children_eq
  rw [OperatorTable.reduceAs]
  rintro _ _ _ _ _ _ ⟨⟩

theorem reduceAs {key : String} {operator : Node} {leading : List Node} {last result : Node}
    (reduced : table.reduceAs key operator leading last = .ok result) :
    table.reduceAs key (map operator) (leading.map map) (map last) = .ok (map result) := by
  cases children_eq : last.children with
  | nil =>
      rw [reduceAs_leaf children_eq] at reduced
      cases reduced
      rw [reduceAs_leaf (by simp [keeps.children, children_eq]), keeps.joinOperator]
      simp
  | cons first others =>
      rw [reduceAs_below children_eq] at reduced
      rw [reduceAs_below (by rw [keeps.children, children_eq, List.map_cons]), keeps.rotates]
      cases rotated : table.rotates key last with
      | error missing =>
          rw [rotated] at reduced
          cases reduced
      | ok below =>
          rw [rotated] at reduced
          cases below with
          | false =>
              cases reduced
              simp [bind, Except.bind, pure, Except.pure, keeps.joinOperator]
          | true =>
              simp only [bind, Except.bind, if_pos] at reduced ⊢
              cases innerReduced : table.reduceAs key operator leading first with
              | error missing =>
                  rw [innerReduced] at reduced
                  cases reduced
              | ok inner =>
                  rw [innerReduced] at reduced
                  cases reduced
                  rw [reduceAs innerReduced]
                  simp [pure, Except.pure, keeps.joinOperator]
termination_by sizeOf last
decreasing_by
  obtain ⟨data, children, comments, offset, position⟩ := last
  obtain rfl : children = first :: others := children_eq
  simp only [Node.mk.sizeOf_spec, List.cons.sizeOf_spec]
  omega

theorem reduceChain {first result : Node} {links : List (ChainLink × Node)}
    (reduced : table.reduceChain first links = .ok result) :
    table.reduceChain (map first) (links.map (Prod.map (ChainLink.map map) map)) =
      .ok (map result) := by
  induction links generalizing first result with
  | nil =>
      cases reduced
      rfl
  | cons head links ih =>
      obtain ⟨link, next⟩ := head
      rw [OperatorTable.reduceChain] at reduced
      rw [List.map_cons, Prod.map, OperatorTable.reduceChain]
      cases rightReduced : table.reduceChain next links with
      | error missing =>
          rw [rightReduced] at reduced
          cases reduced
      | ok right =>
          rw [rightReduced] at reduced
          rw [ih rightReduced]
          cases link with
          | operator node =>
              have mapped := keeps.reduceAs reduced
              rw [List.map_singleton, ← keeps.data node] at mapped
              exact mapped
          | conditional question middle =>
              have mapped := keeps.reduceAs reduced
              rw [List.map_cons, List.map_singleton, ← keeps.data question] at mapped
              exact mapped

end KeepsShape

end RubySyntax
