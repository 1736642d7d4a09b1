import RubySyntax.Proofs.ShapeReading
import RubySyntax.Proofs.TreeEquality

/-!
# Sequences of statements

A program of several statements is one node over all of them, and a program of one
statement is that statement.  A separator between two programs joins their statements
to one sequence, whichever of the two are sequences already.
-/

namespace RubySyntax

namespace Node

/-- The statements of a tree: those of a sequence, none of the empty node, and otherwise the tree
itself. -/
def statements (tree : Node) : List Node :=
  if tree.isEmpty then []
  else if tree.data == Tag.sequence then tree.children
  else [tree]

/-- A tree that is neither the empty node nor a sequence without statements. -/
def IsWorded (tree : Node) : Prop :=
  tree.children = [] → tree.data ≠ Tag.empty ∧ tree.data ≠ Tag.sequence

variable {tree other : Node}

theorem statements_emptyAt (offset : Int) : (emptyAt offset).statements = [] :=
  rfl

theorem statements_of_sequence (tagged : tree.data = Tag.sequence) :
    tree.statements = tree.children := by
  rw [statements, isEmpty, tagged]
  rfl

theorem IsWorded.statements_eq (worded : tree.IsWorded) (apart : ¬ tree.IsOver Tag.sequence) :
    tree.statements = [tree] := by
  have other : tree.data ≠ Tag.sequence := fun tagged =>
    apart ⟨tagged, fun leaf => (worded leaf).2 tagged⟩
  have filled : tree.isEmpty = false := by
    rw [isEmpty, Bool.and_eq_false_imp, beq_iff_eq]
    intro untagged
    rw [List.isEmpty_eq_false_iff]
    exact fun leaf => (worded leaf).1 untagged
  rw [statements, filled, if_neg (by simp), if_neg (by simpa using other)]

theorem map_bare_statements (tree : Node) :
    tree.statements.map bare = tree.bare.statements := by
  have isEmpty_eq : tree.bare.isEmpty = tree.isEmpty := by
    rw [isEmpty, isEmpty, bare_data, bare_children]
    cases tree.children <;> rfl
  rw [statements, statements, isEmpty_eq, bare_data, bare_children]
  split
  · rfl
  · split <;> rfl

/-- Equal trees have equal statements. -/
theorem map_bare_statements_congr (same : tree.bare = other.bare) :
    tree.statements.map bare = other.statements.map bare := by
  rw [map_bare_statements, map_bare_statements, same]

end Node

/-! ### Every tree that is read is worded -/

theorem Laid.isWorded {text : List Char} {start stop : Nat} {tree : Node} (filled : start < stop)
    (laid : Laid text start (.tree tree) stop) : tree.IsWorded := by
  intro leaf
  have unparted : ∀ {start stop : Nat} {parts : List Part},
      Laid text start (.parts parts []) stop → parts = [] := by
    intro start stop parts laid
    cases laid with
    | nil => rfl
    | dropped _ _ _ followed => exact absurd rfl followed.ne_nil
  cases laid with
  | leaf lead token =>
      have starts := token.starts
      refine ⟨fun data_eq => ?_, fun data_eq => ?_⟩ <;> rw [data_eq] at starts <;>
        exact absurd starts (by decide)
  | vacant => exact absurd filled (Nat.lt_irrefl _)
  | leading form _ _ _ rest =>
      rw [leaf] at rest
      rw [unparted rest] at form
      generalize tree.data = data at form
      cases form
  | linking _ children_eq =>
      rw [leaf] at children_eq
      cases children_eq
  | bare form _ _ _ _ _ rest =>
      rw [leaf] at rest
      have none_eq := unparted rest
      generalize tree.data = data at form
      cases form with
      | list count => cases count <;> cases none_eq
      | sequence count => cases none_eq
      | command => cases none_eq
      | blockCall => cases none_eq

theorem Matcher.rule_isWorded (reference : Rule) {text : List Char} {offset : Nat}
    (inside : offset ≤ text.length) {tree : Node} {next : Cursor}
    (read : (rule .standard reference).Reads (.within text offset) tree next) : tree.IsWorded := by
  obtain ⟨stop, -, filled, laid⟩ := rule_readsTrees reference inside read
  exact laid.isWorded filled

/-! ### Sequences that are joined -/

namespace Pending

variable {front separator : Node}

theorem statements_reduced (separates : separator.data = Tag.sequence)
    (wide : front.IsOver Tag.sequence → 2 ≤ front.children.length) (worded : front.IsWorded)
    (tree : Node) :
    ((linking front separator []).reduced tree).data = Tag.sequence ∧
      ((linking front separator []).reduced tree).children = front.statements ++ [tree] := by
  have isList : listOperators.contains separator.data = true := by
    rw [separates]
    decide
  rw [reduced, List.nil_append]
  by_cases tagged : front.IsOver Tag.sequence
  · rw [joinOperator_splice isList ⟨tagged.1.trans separates.symm, wide tagged⟩,
      Node.statements_of_sequence tagged.1]
    exact ⟨tagged.1, rfl⟩
  · rw [joinOperator_keep, worded.statements_eq tagged]
    · exact ⟨separates, rfl⟩
    · rintro ⟨data_eq, several⟩
      refine tagged ⟨data_eq.trans separates, ?_⟩
      rintro leaf
      rw [leaf] at several
      cases several

/-- Statements in front of a separator and statements behind it are one sequence. -/
theorem statements_insert {tree : Node} (separates : separator.data = Tag.sequence)
    (wide : front.IsOver Tag.sequence → 2 ≤ front.children.length) (worded : front.IsWorded)
    (operand : Operand .statement tree) (treeWorded : tree.IsWorded) :
    ((linking front separator []).insert (OperatorTables.standard.of .statement) tree).statements =
      front.statements ++ tree.statements := by
  have binds : (OperatorTables.standard.of .statement).binds Tag.sequence Tag.sequence = true :=
    binds_separator usable_standard.hasSeparator
  by_cases tagged : tree.IsOver Tag.sequence
  · -- The separator goes below the sequence behind it, in front of its first statement.
    obtain ⟨several, items⟩ := operand.shaped.items tagged (by decide)
    have several := several rfl
    have below : (OperatorTables.standard.of .statement).goesBelow
        (linking front separator []).key tree = true :=
      OperatorTable.goesBelow_iff.mpr ⟨several, by rw [key, separates, tagged.1]; exact binds⟩
    obtain ⟨first, others, children_eq⟩ : ∃ first others, tree.children = first :: others := by
      cases children_eq : tree.children with
      | nil => exact absurd children_eq tagged.2
      | cons first others => exact ⟨first, others, rfl⟩
    have above : (OperatorTables.standard.of .statement).goesBelow
        (linking front separator []).key first = false := by
      rw [Bool.eq_false_iff]
      intro deeper
      obtain ⟨wide, before⟩ := OperatorTable.goesBelow_iff.mp deeper
      rw [key, separates] at before
      refine (items first (by simp [children_eq])).2.apart ⟨separator_binds before, fun leaf => ?_⟩
      simp [leaf] at wide
    obtain ⟨data_eq, joined⟩ := statements_reduced separates wide worded first
    rw [insert_of_goesBelow children_eq below, insert_of_not_goesBelow above,
      joinOperator_splice (by rw [tagged.1]; decide) ⟨data_eq.trans tagged.1.symm, ?_⟩,
      Node.statements_of_sequence (by exact data_eq), joined,
      Node.statements_of_sequence tagged.1, children_eq]
    · simp [Node.withChildren]
    · exact joinOperator_several separator front first []
  · have above : (OperatorTables.standard.of .statement).goesBelow
        (linking front separator []).key tree = false := by
      rw [Bool.eq_false_iff]
      intro below
      obtain ⟨wide, before⟩ := OperatorTable.goesBelow_iff.mp below
      rw [key, separates] at before
      refine tagged ⟨separator_binds before, fun leaf => ?_⟩
      simp [leaf] at wide
    obtain ⟨data_eq, joined⟩ := statements_reduced separates wide worded tree
    rw [insert_of_not_goesBelow above, Node.statements_of_sequence data_eq, joined,
      treeWorded.statements_eq tagged]

end Pending

end RubySyntax
