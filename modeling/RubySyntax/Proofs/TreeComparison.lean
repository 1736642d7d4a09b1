import RubySyntax.Proofs.NodeLayout
import RubySyntax.Proofs.TreeEquality

/-!
# The comparison of trees

The comparison takes one pair of nodes off its list in every turn, and the pairs that it
adds are the children of that pair.  It ends after no more turns than the first tree has
nodes, and it answers whether both trees have the same data and equally many children at
every place.  So equality is an equivalence, and it is kept when an equal child takes the
place of another.
-/

namespace RubySyntax

namespace Node

/-! ### Trees that are the same at every place -/

mutual

/-- Two trees have the same data and equally many children, and these are the same one by one. -/
def SameTree : Node → Node → Prop
  | ⟨data, children, _, _, _⟩, ⟨otherData, otherChildren, _, _, _⟩ =>
    data = otherData ∧ SameTrees children otherChildren

/-- Two lists are equally long, and their trees are the same one by one. -/
def SameTrees : List Node → List Node → Prop
  | [], [] => True
  | node :: nodes, other :: others => SameTree node other ∧ SameTrees nodes others
  | _, _ => False

end

mutual

theorem sameTree_iff_bare (node other : Node) :
    SameTree node other ↔ node.bare = other.bare := by
  obtain ⟨data, children, comments, offset, position⟩ := node
  obtain ⟨otherData, otherChildren, otherComments, otherOffset, otherPosition⟩ := other
  rw [SameTree, sameTrees_iff_bare children otherChildren, bare, bare, mk.injEq]
  simp

theorem sameTrees_iff_bare (nodes others : List Node) :
    SameTrees nodes others ↔ bareAll nodes = bareAll others := by
  match nodes, others with
  | [], [] => simp [SameTrees]
  | [], _ :: _ => simp [SameTrees]
  | _ :: _, [] => simp [SameTrees]
  | node :: nodes, other :: others =>
      rw [SameTrees, sameTree_iff_bare node other, sameTrees_iff_bare nodes others, bareAll,
        bareAll, List.cons.injEq]

end

/-- The data and the number of children of the node that a path of child numbers leads to. -/
def outlineAt? (node : Node) : List Nat → Option (String × Nat)
  | [] => some (node.data, node.children.length)
  | number :: path => node.children[number]?.bind (·.outlineAt? path)

@[simp]
theorem outlineAt?_nil (node : Node) :
    node.outlineAt? [] = some (node.data, node.children.length) :=
  rfl

@[simp]
theorem outlineAt?_cons (node : Node) (number : Nat) (path : List Nat) :
    node.outlineAt? (number :: path) = node.children[number]?.bind (·.outlineAt? path) :=
  rfl

@[simp]
theorem outlineAt?_bare (node : Node) (path : List Nat) :
    node.bare.outlineAt? path = node.outlineAt? path := by
  induction path generalizing node with
  | nil => simp
  | cons number path ih =>
      simp only [outlineAt?_cons, bare_children, List.getElem?_map, Option.bind_map,
        Function.comp_def, ih]

theorem bare_eq_of_outlineAt? {node other : Node}
    (agree : ∀ path, node.outlineAt? path = other.outlineAt? path) :
    node.bare = other.bare := by
  induction node using Node.inductionOnChildren generalizing other with
  | step node ih =>
      have root := agree []
      simp only [outlineAt?_nil, Option.some.injEq, Prod.mk.injEq] at root
      obtain ⟨data_eq, length_eq⟩ := root
      refine bare_inj.mpr ⟨data_eq, List.ext_getElem (by simpa using length_eq) ?_⟩
      intro number within otherWithin
      rw [List.length_map] at within otherWithin
      rw [List.getElem_map, List.getElem_map]
      refine ih _ (List.getElem_mem within) fun path => ?_
      simpa [List.getElem?_eq_getElem within, List.getElem?_eq_getElem otherWithin] using
        agree (number :: path)

theorem sameTree_iff_outlineAt? {node other : Node} :
    SameTree node other ↔ ∀ path, node.outlineAt? path = other.outlineAt? path := by
  rw [sameTree_iff_bare]
  refine ⟨fun same path => ?_, bare_eq_of_outlineAt?⟩
  rw [← outlineAt?_bare node, same, outlineAt?_bare]

/-! ### The turns of the comparison -/

/-- What the comparison of some pairs answers if it ends within so many turns. -/
def answerWithin : Nat → List (Node × Node) → Option Bool
  | _, [] => some true
  | 0, _ :: _ => none
  | turns + 1, (left, right) :: rest =>
    if left.data != right.data || left.children.length != right.children.length then some false
    else answerWithin turns ((left.children.zip right.children).reverse ++ rest)

/-- The number of nodes on the left sides of some pairs, comments apart. -/
def pendingNodes (pending : List (Node × Node)) : Nat :=
  (nodesOfAll (pending.map Prod.fst)).length

@[simp]
theorem pendingNodes_cons (pair : Node × Node) (rest : List (Node × Node)) :
    pendingNodes (pair :: rest) =
      (nodesOfAll pair.1.children).length + pendingNodes rest + 1 := by
  simp [pendingNodes]

theorem length_nodesOfAll_reverse (nodes : List Node) :
    (nodesOfAll nodes.reverse).length = (nodesOfAll nodes).length := by
  induction nodes with
  | nil => rfl
  | cons node others ih =>
      simp [ih]
      omega

theorem pendingNodes_turn {left right : Node} (rest : List (Node × Node))
    (sameLength : left.children.length = right.children.length) :
    pendingNodes ((left.children.zip right.children).reverse ++ rest) + 1 =
      pendingNodes ((left, right) :: rest) := by
  have zipped : (left.children.zip right.children).map Prod.fst = left.children :=
    List.map_fst_zip (Nat.le_of_eq sameLength)
  rw [pendingNodes_cons, pendingNodes, pendingNodes, List.map_append, nodesOfAll_append,
    List.length_append, List.map_reverse, zipped, length_nodesOfAll_reverse]

theorem answerWithin_eq {turns : Nat} {pending : List (Node × Node)}
    (enough : pendingNodes pending ≤ turns) :
    answerWithin turns pending = some (allEqual pending) := by
  fun_induction allEqual pending generalizing turns with
  | case1 => simp [answerWithin]
  | case2 left right rest unequal =>
      obtain ⟨turns, rfl⟩ : ∃ fewer, turns = fewer + 1 :=
        Nat.exists_eq_add_one.mpr (by simp at enough; omega)
      rw [answerWithin, if_pos unequal]
  | case3 left right rest alike ih =>
      have lengths : left.children.length = right.children.length := by
        simp only [Bool.or_eq_true, bne_iff_ne, ne_eq, not_or, Decidable.not_not] at alike
        exact alike.2
      have turn := pendingNodes_turn rest lengths
      obtain ⟨turns, rfl⟩ : ∃ fewer, turns = fewer + 1 :=
        Nat.exists_eq_add_one.mpr (by omega)
      rw [answerWithin, if_neg alike]
      exact ih (by omega)

/-! ### Equality -/

instance : EquivBEq Node where
  rfl := beq_iff_bare.mpr rfl
  symm same := beq_iff_bare.mpr (beq_iff_bare.mp same).symm
  trans first second := beq_iff_bare.mpr ((beq_iff_bare.mp first).trans (beq_iff_bare.mp second))

theorem beq_iff_sameTree {node other : Node} : (node == other) = true ↔ SameTree node other := by
  rw [beq_iff_bare, sameTree_iff_bare]

theorem beq_withChildren_set (node : Node) (index : Fin node.children.length) (child : Node) :
    (node == node.withChildren (node.children.set index child)) =
      (node.children[index] == child) := by
  rw [Bool.eq_iff_iff, beq_iff_bare, beq_iff_bare, bare_withChildren, bare_eq node, mk.injEq]
  constructor
  · rintro ⟨-, same, -⟩
    have atIndex := congrArg (·[index.val]?) same
    simpa using atIndex
  · intro same
    have kept : (node.children.set index child).map bare = node.children.map bare := by
      rw [List.map_set, ← same, Fin.getElem_fin, ← List.map_set, List.set_getElem_self]
    exact ⟨rfl, kept.symm, rfl, rfl, rfl⟩

/-- The comparison of two trees ends after at most one turn for each node of the first one.  It
answers whether the trees have the same data and equally many children at every place, whatever
their comments, offsets and positions.  Equality is an equivalence, and a tree in which another
one takes the place of a child is equal to what it was exactly if both children are equal. -/
theorem comparison_decides_sameTree (left right : Node) :
    answerWithin left.nodes.length [(left, right)] = some (left == right) ∧
      ((left == right) = true ↔ SameTree left right) ∧
      (SameTree left right ↔ ∀ path, left.outlineAt? path = right.outlineAt? path) ∧
      Equivalence (fun one other : Node => (one == other) = true) ∧
      ∀ (index : Fin left.children.length) (child : Node),
        (left == left.withChildren (left.children.set index child)) =
          (left.children[index] == child) := by
  refine ⟨?turns, beq_iff_sameTree, sameTree_iff_outlineAt?, ?equivalence,
    beq_withChildren_set left⟩
  case turns => exact answerWithin_eq (by simp [pendingNodes, nodes_eq])
  case equivalence => exact ⟨fun _ => BEq.rfl, BEq.symm, BEq.trans⟩

/-- A comment and an offset make no other tree. -/
example :
    ({ data := "+", children := [{ data := "1", offset := some 4 }, { data := "2" }] } : Node) ==
      { data := "+", offset := some 2,
        children := [{ data := "1", comments := [comment "#" "one" 0 2] }, { data := "2" }] } := by
  cbv

end Node

end RubySyntax
