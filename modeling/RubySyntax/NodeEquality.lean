import RubySyntax.SyntaxNode

/-!
# Equality of syntax trees

Two trees are equal if they have the same data and the same number of children
at every node.  Comments, offsets and positions do not count.  The comparison
keeps a list of the pairs that are still to be compared, so that its depth does
not grow with the depth of the trees.
-/

namespace RubySyntax

namespace Node

/-- The number of nodes on the left sides of some pairs. -/
def pendingSize (pending : List (Node × Node)) : Nat :=
  sizeOfAll (pending.map Prod.fst)

def allEqual (pending : List (Node × Node)) : Bool :=
  match pending with
  | [] => true
  | (left, right) :: rest =>
    if left.data != right.data || left.children.length != right.children.length then false
    else allEqual ((left.children.zip right.children).reverse ++ rest)
termination_by pendingSize pending
decreasing_by
  rename_i unequal
  simp only [Bool.or_eq_true, bne_iff_ne, ne_eq, not_or, Decidable.not_not] at unequal
  obtain ⟨-, sameLength⟩ := unequal
  have reversed : ∀ nodes : List Node, sizeOfAll nodes.reverse = sizeOfAll nodes := by
    intro nodes
    induction nodes with
    | nil => rfl
    | cons node nodes ih => simp [sizeOfAll, ih, Nat.add_comm]
  have zipped : (left.children.zip right.children).map Prod.fst = left.children :=
    List.map_fst_zip (by omega)
  simp only [pendingSize, List.map_append, List.map_reverse, zipped, sizeOfAll_append,
    reversed, List.map_cons, sizeOfAll]
  cases left
  simp only [size]
  omega

instance : BEq Node where
  beq left right := allEqual [(left, right)]

end Node

end RubySyntax
