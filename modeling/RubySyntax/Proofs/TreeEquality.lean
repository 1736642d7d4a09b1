import Mathlib.Data.List.Forall2
import RubySyntax.NodeEquality
import RubySyntax.Proofs.MovedRules
import RubySyntax.Proofs.ResolutionLayout

/-!
# What equality sees of a tree

Two trees are equal if they are the same once comments, offsets and positions are
stripped off everywhere.  Moving a tree, giving it comments or resolving its positions
makes it no other tree.
-/

namespace RubySyntax

namespace Node

mutual

/-- The tree with nothing but the data and the children of its nodes. -/
def bare : Node → Node
  | ⟨data, children, _, _, _⟩ => { data := data, children := bareAll children }

/-- Several trees with nothing but the data and the children of their nodes. -/
def bareAll : List Node → List Node
  | [] => []
  | node :: others => node.bare :: bareAll others

end

@[simp]
theorem bareAll_eq_map (nodes : List Node) : bareAll nodes = nodes.map bare := by
  induction nodes with
  | nil => rfl
  | cons node others ih => rw [bareAll, ih, List.map_cons]

theorem bare_eq (node : Node) :
    node.bare = { data := node.data, children := node.children.map bare } := by
  cases node
  rw [bare, bareAll_eq_map]

@[simp]
theorem bare_data (node : Node) : node.bare.data = node.data := by
  rw [bare_eq]

@[simp]
theorem bare_children (node : Node) : node.bare.children = node.children.map bare := by
  rw [bare_eq]

mutual

@[simp]
theorem bare_bare (node : Node) : node.bare.bare = node.bare := by
  obtain ⟨data, children, comments, offset, position⟩ := node
  rw [bare, bare, bareAll_bareAll children]

theorem bareAll_bareAll (nodes : List Node) : bareAll (bareAll nodes) = bareAll nodes := by
  cases nodes with
  | nil => rfl
  | cons node others => rw [bareAll, bareAll, bare_bare node, bareAll_bareAll others]

end

theorem bare_inj {node other : Node} : node.bare = other.bare ↔
    node.data = other.data ∧ node.children.map bare = other.children.map bare := by
  rw [bare_eq, bare_eq, Node.mk.injEq]
  simp

/-! ### The comparison -/

theorem map_bare_eq_iff {nodes others : List Node} : nodes.map bare = others.map bare ↔
    nodes.length = others.length ∧ ∀ pair ∈ nodes.zip others, pair.1.bare = pair.2.bare := by
  rw [← List.forall₂_eq_eq_eq, List.forall₂_map_left_iff, List.forall₂_map_right_iff,
    List.forall₂_iff_zip]
  simp

theorem allEqual_iff (pending : List (Node × Node)) :
    allEqual pending = true ↔ ∀ pair ∈ pending, pair.1.bare = pair.2.bare := by
  fun_induction allEqual pending with
  | case1 => simp
  | case2 left right rest unequal =>
      simp only [Bool.or_eq_true, bne_iff_ne, ne_eq] at unequal
      simp only [Bool.false_eq_true, List.forall_mem_cons, false_iff, not_and]
      intro same
      obtain ⟨data_eq, children_eq⟩ := bare_inj.mp same
      exact absurd unequal (by simp [data_eq, (map_bare_eq_iff.mp children_eq).1])
  | case3 left right rest alike ih =>
      simp only [Bool.or_eq_true, bne_iff_ne, ne_eq, not_or, Decidable.not_not] at alike
      rw [ih, List.forall_mem_append, List.forall_mem_cons, bare_inj, map_bare_eq_iff]
      simp [alike.1, alike.2]

/-- Equality of trees is equality of what it sees of them. -/
theorem beq_iff_bare {node other : Node} : (node == other) = true ↔ node.bare = other.bare := by
  show allEqual [(node, other)] = true ↔ _
  simp [allEqual_iff]

theorem beqAll_iff_bare {nodes others : List Node} :
    (nodes == others) = true ↔ nodes.map bare = others.map bare := by
  induction nodes generalizing others with
  | nil => cases others <;> simp
  | cons node nodes ih =>
      cases others with
      | nil => simp
      | cons other others => simp [beq_iff_bare, ih]

/-! ### What makes no other tree -/

@[simp]
theorem bare_withComments (node : Node) (comments : List Node) :
    (node.withComments comments).bare = node.bare := by
  simp [bare_eq, withComments]

@[simp]
theorem bare_appendComments (node : Node) (comments : List Node) :
    (node.appendComments comments).bare = node.bare := by
  simp [bare_eq, appendComments]

@[simp]
theorem bare_withChildren (node : Node) (children : List Node) :
    (node.withChildren children).bare =
      { data := node.data, children := children.map bare } := by
  simp [bare_eq, withChildren]

mutual

@[simp]
theorem bare_moved (distance : Nat) (node : Node) : (node.moved distance).bare = node.bare := by
  obtain ⟨data, children, comments, offset, position⟩ := node
  rw [moved, bare, bare, bareAll_moved distance children]

theorem bareAll_moved (distance : Nat) (nodes : List Node) :
    bareAll (movedAll distance nodes) = bareAll nodes := by
  cases nodes with
  | nil => rfl
  | cons node others =>
      rw [movedAll, bareAll, bareAll, bare_moved distance node, bareAll_moved distance others]

end

mutual

theorem bare_located (table : PositionTable) (node : Node) :
    (node.located table).bare = node.bare := by
  obtain ⟨data, children, comments, offset, position⟩ := node
  rw [located, bare, bare, bareAll_located table children]

theorem bareAll_located (table : PositionTable) (nodes : List Node) :
    bareAll (locatedAll table nodes) = bareAll nodes := by
  cases nodes with
  | nil => rfl
  | cons node others =>
      rw [locatedAll, bareAll, bareAll, bare_located table node, bareAll_located table others]

end

@[simp]
theorem bare_resolve (table : PositionTable) (node : Node) :
    (node.resolve table).bare = node.bare := by
  rw [resolve_eq_located, bare_located]

end Node

end RubySyntax
