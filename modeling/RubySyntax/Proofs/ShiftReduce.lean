import RubySyntax.GrammarRule
import RubySyntax.Proofs.OperatorRotation

/-!
# A shift-reduce operator parser

A phrase is a sequence of operands and operators as its tokens stand in the
source.  The reference parser of phrases reads these tokens from left to right
with a stack of operators that wait for their last operand, and reduces the top
of the stack exactly when it has to be applied before the incoming operator.  It
only brackets the phrase; the tree of a bracketing runs the left-nested uses of a
list operator together into one node.  Reading a phrase from its right end with
rotations builds that tree.
-/

namespace RubySyntax

/-! ### Phrases -/

/-- A sequence of operands and operators: a name is an operand, prefix operators may stand in
front of it, and an operator or a conditional may follow it. -/
inductive Phrase where
  /-- A name at the end of the phrase. -/
  | name (word : String)
  /-- A prefix operator in front of the rest. -/
  | prefixed (operator : String) (rest : Phrase)
  /-- A name, an operator and the rest. -/
  | linked (word operator : String) (rest : Phrase)
  /-- A name, a question mark, a phrase of its own up to the colon, and the rest. -/
  | conditional (word : String) (middle rest : Phrase)

namespace Phrase

/-- The tokens of a phrase in their order. -/
def words : Phrase → List String
  | name word => [word]
  | prefixed operator rest => operator :: rest.words
  | linked word operator rest => word :: operator :: rest.words
  | conditional word middle rest => word :: "?" :: (middle.words ++ ":" :: rest.words)

/-- The text of a phrase, with one blank between two tokens. -/
def text (phrase : Phrase) : List Char :=
  List.intercalate [' '] (phrase.words.map String.toList)

/-- Whether a word is a name of the language and not reserved. -/
def isName (word : String) : Bool :=
  Lexeme.identifier word.toList == some word.length

/-- The operators between two operands: those of the table, and in statements the comma and the
break as well. -/
def linkingSpellings (mode : Mode) : List String :=
  (OperatorTables.standard.of mode).infixSpellings ++
    match mode with
    | .statement => [Tag.list, Tag.sequence]
    | .argument => []
    | .command => []

/-- Whether a phrase is built from names and from operators of a context.  The phrase between a
question mark and its colon is one of arguments. -/
def fits (mode : Mode) : Phrase → Bool
  | name word => isName word
  | prefixed operator rest =>
    (OperatorTables.standard.of mode).prefixSpellings.contains operator && rest.fits mode
  | linked word operator rest =>
    isName word && (linkingSpellings mode).contains operator && rest.fits mode
  | conditional word middle rest =>
    isName word && middle.fits .argument && rest.fits mode

end Phrase

/-! ### The reference parser -/

/-- The leaf of a token at an offset. -/
def Node.token (word : String) (offset : Nat) : Node :=
  { data := word, offset := some (offset : Int) }

/-- Applies the frames on top of a stack for as long as they are due, each to what the ones above
it made. -/
def reduceWhile {Frame Tree : Type} (due : Frame → Bool) (apply : Frame → Tree → Tree) :
    List Frame → Tree → Tree × List Frame
  | [], last => (last, [])
  | top :: stack, last =>
    if due top then reduceWhile due apply stack (apply top last) else (last, top :: stack)

/-- What the reference parser has found out about a phrase: each operator with what it is applied
to, as brackets would show it. -/
inductive Bracketing where
  | name (word : String) (offset : Nat)
  | prefixed (operator : String) (offset : Nat) (operand : Bracketing)
  | linked (left : Bracketing) (operator : String) (offset : Nat) (right : Bracketing)
  | conditional (left : Bracketing) (offset : Nat) (middle right : Bracketing)

namespace Bracketing

/-- Whether a list operator behind a bracketing goes on with the list of the bracketing. -/
def goesOn (key : String) : Bracketing → Bool
  | linked _ operator _ _ => listOperators.contains key && operator == key
  | _ => false

/-- The tree of a bracketing.  A list that goes on takes its further item as a child. -/
def tree : Bracketing → Node
  | name word offset => .token word offset
  | prefixed operator offset operand => (Node.token operator offset).withChildren [operand.tree]
  | linked left operator offset right =>
    if left.goesOn operator then left.tree.withChildren (left.tree.children ++ [right.tree])
    else (Node.token operator offset).withChildren [left.tree, right.tree]
  | conditional left offset middle right =>
    (Node.token "?" offset).withChildren [left.tree, middle.tree, right.tree]

/-- An operator that waits for its last operand, with the operands that it has already. -/
inductive Frame where
  | prefixed (operator : String) (offset : Nat)
  | linked (left : Bracketing) (operator : String) (offset : Nat)
  | conditional (left : Bracketing) (offset : Nat) (middle : Bracketing)

/-- What the operator of a frame is looked up by. -/
def Frame.key : Frame → String
  | prefixed operator _ => OperatorTable.prefixKey operator
  | linked _ operator _ => operator
  | conditional _ _ _ => "?"

def Frame.applied (last : Bracketing) : Frame → Bracketing
  | prefixed operator offset => .prefixed operator offset last
  | linked left operator offset => .linked left operator offset last
  | conditional left offset middle => .conditional left offset middle last

/-- Reduces the top of the stack while it is applied before an incoming operator. -/
def reduceBefore (table : OperatorTable) (key : String) :
    List Frame → Bracketing → Bracketing × List Frame :=
  reduceWhile (fun top => table.binds top.key key) fun top last => top.applied last

/-- Reduces the whole stack. -/
def reduceAll (stack : List Frame) (last : Bracketing) : Bracketing :=
  stack.foldl (fun last top => top.applied last) last

end Bracketing

/-- Reads a phrase at an offset from left to right, behind the operators of a stack. -/
def Phrase.shiftReduce (mode : Mode) (stack : List Bracketing.Frame) (offset : Nat) :
    Phrase → Bracketing
  | name word => Bracketing.reduceAll stack (.name word offset)
  | prefixed operator rest =>
    rest.shiftReduce mode (.prefixed operator offset :: stack) (offset + operator.length + 1)
  | linked word operator rest =>
    let place := offset + word.length + 1
    let (left, stack) := Bracketing.reduceBefore (OperatorTables.standard.of mode) operator stack
      (.name word offset)
    rest.shiftReduce mode (.linked left operator place :: stack) (place + operator.length + 1)
  | conditional word middle rest =>
    let place := offset + word.length + 1
    let (left, stack) := Bracketing.reduceBefore (OperatorTables.standard.of mode) "?" stack
      (.name word offset)
    let between := middle.shiftReduce .argument [] (place + 2)
    rest.shiftReduce mode (.conditional left place between :: stack)
      (place + 2 + middle.text.length + 3)

/-! ### Stacks that stand for each other -/

section

variable {Frame Tree Other OtherTree : Type} {due : Frame → Bool} {apply : Frame → Tree → Tree}
  {dueToo : Other → Bool} {applyToo : Other → OtherTree → OtherTree} {frame : Frame → Other}
  {tree : Tree → OtherTree} {stack : List Frame}

theorem mem_of_mem_reduceWhile {last : Tree} {top : Frame}
    (member : top ∈ (reduceWhile due apply stack last).2) : top ∈ stack := by
  induction stack generalizing last with
  | nil => exact member
  | cons other stack ih =>
      rw [reduceWhile] at member
      split at member
      · exact .tail _ (ih member)
      · exact member

/-- Frames that stand for others are reduced as the others are. -/
theorem reduceWhile_map (same : ∀ top, dueToo (frame top) = due top)
    (applied : ∀ top ∈ stack, ∀ last, applyToo (frame top) (tree last) = tree (apply top last))
    (last : Tree) : reduceWhile dueToo applyToo (stack.map frame) (tree last) =
      (tree (reduceWhile due apply stack last).1,
        (reduceWhile due apply stack last).2.map frame) := by
  induction stack generalizing last with
  | nil => rfl
  | cons top stack ih =>
      rw [List.map_cons, reduceWhile, reduceWhile, same, applied top (.head _)]
      split
      · exact ih (fun other member => applied other (.tail _ member)) _
      · rfl

theorem foldl_map_applied
    (applied : ∀ top ∈ stack, ∀ last, applyToo (frame top) (tree last) = tree (apply top last))
    (last : Tree) : (stack.map frame).foldl (fun last top => applyToo top last) (tree last) =
      tree (stack.foldl (fun last top => apply top last) last) := by
  induction stack generalizing last with
  | nil => rfl
  | cons top stack ih =>
      rw [List.map_cons, List.foldl_cons, List.foldl_cons, applied top (.head _)]
      exact ih (fun other member => applied other (.tail _ member)) _

end

/-! ### Reading from the right -/

/-- The tree of a phrase at an offset, reduced from its right end with rotations. -/
def Phrase.folded (mode : Mode) (offset : Nat) : Phrase → Node
  | name word => .token word offset
  | prefixed operator rest =>
    (Pending.prefixed (.token operator offset)).insert (OperatorTables.standard.of mode)
      (rest.folded mode (offset + operator.length + 1))
  | linked word operator rest =>
    let place := offset + word.length + 1
    (Pending.linking (.token word offset) (.token operator place) []).insert
      (OperatorTables.standard.of mode) (rest.folded mode (place + operator.length + 1))
  | conditional word middle rest =>
    let place := offset + word.length + 1
    (Pending.linking (.token word offset) (.token "?" place)
        [middle.folded .argument (place + 2)]).insert (OperatorTables.standard.of mode)
      (rest.folded mode (place + 2 + middle.text.length + 3))

namespace Pending

variable {table : OperatorTable}

/-- Reduces the top of a stack while it is applied before an incoming operator. -/
def reduceBefore (table : OperatorTable) (key : String) :
    List Pending → Node → Node × List Pending :=
  reduceWhile (fun top => table.binds top.key key) fun top last => top.reduced last

theorem reduceBefore_cons (key : String) (top : Pending) (stack : List Pending) (operand : Node) :
    reduceBefore table key (top :: stack) operand =
      if table.binds top.key key then reduceBefore table key stack (top.reduced operand)
      else (operand, top :: stack) :=
  rfl

/-- Reduces a whole stack. -/
def reduceAll (stack : List Pending) (operand : Node) : Node :=
  stack.foldl (fun last top => top.reduced last) operand

/-- The operators of a stack reduced into a tree, the top first. -/
def insertAll (table : OperatorTable) (stack : List Pending) (tree : Node) : Node :=
  stack.foldl (fun last top => top.insert table last) tree

/-- No operator of a stack is rotated into what the one above it builds. -/
def Settled (table : OperatorTable) : List Pending → Prop
  | upper :: lower :: stack =>
    (∀ last, table.goesBelow lower.key (upper.reduced last) = false) ∧
      Settled table (lower :: stack)
  | _ => True

/-- The top of a stack is not rotated into an operand. -/
def Rests (table : OperatorTable) (stack : List Pending) (operand : Node) : Prop :=
  ∀ top ∈ stack.head?, table.goesBelow top.key operand = false

theorem Settled.tail {top : Pending} {stack : List Pending}
    (settled : Settled table (top :: stack)) : Settled table stack := by
  cases stack with
  | nil => trivial
  | cons lower stack => exact settled.2

theorem Settled.rests {top : Pending} {stack : List Pending}
    (settled : Settled table (top :: stack)) (last : Node) :
    Rests table stack (top.reduced last) := by
  cases stack with
  | nil => simp [Rests]
  | cons lower stack =>
      rintro other ⟨⟩
      exact settled.1 last

theorem rests_token (stack : List Pending) (word : String) (offset : Nat) :
    Rests table stack (.token word offset) := by
  intro top _
  simp [OperatorTable.goesBelow, Node.token]

theorem Settled.cons {top : Pending} {stack : List Pending}
    (settled : Settled table stack) (rests : ∀ last, Rests table stack (top.reduced last)) :
    Settled table (top :: stack) := by
  cases stack with
  | nil => trivial
  | cons lower stack => exact ⟨fun last => rests last lower rfl, settled⟩

/-- Reducing a settled stack rotates nothing. -/
theorem reduceAll_eq {stack : List Pending} (settled : Settled table stack) {operand : Node}
    (rests : Rests table stack operand) :
    reduceAll stack operand = insertAll table stack operand := by
  induction stack generalizing operand with
  | nil => rfl
  | cons top stack ih =>
      have here : top.insert table operand = top.reduced operand :=
        insert_of_not_goesBelow (rests top rfl)
      show reduceAll stack (top.reduced operand) = insertAll table stack (top.insert table operand)
      rw [here]
      exact ih settled.tail (settled.rests operand)

/-- What is left of a settled stack in front of an incoming operator is settled, and the operator
is applied before its top. -/
theorem reduceBefore_settled {stack : List Pending} (settled : Settled table stack)
    (key : String) (operand : Node) :
    Settled table (reduceBefore table key stack operand).2 ∧
      ∀ top ∈ (reduceBefore table key stack operand).2.head?, table.binds top.key key = false := by
  induction stack generalizing operand with
  | nil => exact ⟨trivial, by simp [reduceBefore, reduceWhile]⟩
  | cons top stack ih =>
      rw [reduceBefore_cons]
      by_cases before : table.binds top.key key = true
      · rw [if_pos before]
        exact ih settled.tail (top.reduced operand)
      · rw [if_neg before]
        refine ⟨settled, ?_⟩
        rintro other ⟨⟩
        simpa using before

/-- The operands that are reduced in front of an incoming operator may as well be reduced into
what the operator builds. -/
theorem insertAll_linking {stack : List Pending} (settled : Settled table stack)
    {left : Node} (rests : Rests table stack left) (operator : Node) (middle : List Node)
    (tree : Node) :
    insertAll table (reduceBefore table operator.data stack left).2
        ((linking (reduceBefore table operator.data stack left).1 operator middle).insert table
          tree) =
      insertAll table stack ((linking left operator middle).insert table tree) := by
  induction stack generalizing left with
  | nil => rfl
  | cons top stack ih =>
      rw [reduceBefore_cons]
      by_cases before : table.binds top.key operator.data = true
      · rw [if_pos before, ih settled.tail (settled.rests left)]
        show _ = insertAll table stack
          (top.insert table ((linking left operator middle).insert table tree))
        rw [insert_insert before (rests top rfl)]
      · rw [if_neg before]

/-- An operator over the operand that it finds stands on what it leaves of a settled stack as it
stands behind the operand on the whole stack. -/
theorem pushed_linking {stack behind : List Pending} {operand left : Node} (operator : Node)
    (middle : List Node) (settled : Settled table stack) (rests : Rests table stack operand)
    (reduced : reduceBefore table operator.data stack operand = (left, behind)) :
    Settled table (.linking left operator middle :: behind) ∧
      ∀ tree, insertAll table (.linking left operator middle :: behind) tree =
        insertAll table stack ((linking operand operator middle).insert table tree) := by
  obtain ⟨rest, later⟩ := reduceBefore_settled settled operator.data operand
  have insert_eq := insertAll_linking settled rests operator middle
  rw [reduced] at rest later insert_eq
  refine ⟨rest.cons fun last top member => ?_, insert_eq⟩
  rw [goesBelow_linking]
  exact later top member

end Pending

namespace Bracketing

theorem tree_linked (left : Bracketing) (operator : String) (offset : Nat) (right : Bracketing) :
    (linked left operator offset right).tree.data = operator ∧
      2 ≤ (linked left operator offset right).tree.children.length := by
  rw [tree]
  split
  next onward =>
    cases left with
    | name word place => cases onward
    | prefixed sign place operand => cases onward
    | conditional first place middle second => cases onward
    | linked first inner place second =>
        obtain ⟨data_eq, several⟩ := tree_linked first inner place second
        rw [goesOn, Bool.and_eq_true, beq_iff_eq] at onward
        refine ⟨data_eq.trans onward.2, ?_⟩
        simp only [Node.withChildren, List.length_append]
        omega
  next => exact ⟨rfl, Nat.le_refl 2⟩

/-- A list goes on where its tree is a list of the same kind. -/
theorem goesOn_iff {bracketing : Bracketing} {key : String} :
    bracketing.goesOn key = true ↔ listOperators.contains key = true ∧
      bracketing.tree.data = key ∧ 2 ≤ bracketing.tree.children.length := by
  cases bracketing with
  | name word offset => simp [goesOn, tree, Node.token]
  | prefixed operator offset operand => simp [goesOn, tree, Node.withChildren]
  | linked left operator offset right =>
      obtain ⟨data_eq, several⟩ := tree_linked left operator offset right
      simp [goesOn, data_eq, several]
  | conditional left offset middle right =>
      refine ⟨fun onward => (Bool.false_ne_true onward).elim, fun same => ?_⟩
      obtain ⟨isList, rfl, -⟩ := same
      have noList : listOperators.contains (Node.token "?" offset).data = false := rfl
      exact (Bool.false_ne_true (noList.symm.trans isList)).elim

/-- An operator that waits over trees. -/
def Frame.pending : Frame → Pending
  | prefixed operator offset => .prefixed (.token operator offset)
  | linked left operator offset => .linking left.tree (.token operator offset) []
  | conditional left offset middle => .linking left.tree (.token "?" offset) [middle.tree]

theorem Frame.key_pending (frame : Frame) : frame.pending.key = frame.key := by
  cases frame <;> rfl

/-- A join over trees builds the tree of the bracketing. -/
theorem Frame.reduced_pending (frame : Frame) (last : Bracketing) :
    frame.pending.reduced last.tree = (frame.applied last).tree := by
  cases frame with
  | prefixed operator offset => rfl
  | linked left operator offset =>
      have onward_iff : left.goesOn operator = true ↔ _ := goesOn_iff
      exact joinOperator_eq_ite onward_iff
  | conditional left offset middle =>
      have noList : listOperators.contains (Node.token "?" offset).data = false := rfl
      exact joinOperator_of_not_list noList

/-- Reducing in front of an operator is the same on bracketings and on their trees. -/
theorem reduceBefore_tree (table : OperatorTable) (key : String) (stack : List Frame)
    (last : Bracketing) : Pending.reduceBefore table key (stack.map Frame.pending) last.tree =
      ((reduceBefore table key stack last).1.tree,
        (reduceBefore table key stack last).2.map Frame.pending) :=
  reduceWhile_map (fun top => by rw [Frame.key_pending]) (fun top _ => top.reduced_pending) last

theorem reduceAll_tree (stack : List Frame) (last : Bracketing) :
    Pending.reduceAll (stack.map Frame.pending) last.tree = (reduceAll stack last).tree :=
  foldl_map_applied (fun top _ => top.reduced_pending) last

end Bracketing

/-- The reference parser builds the tree that reading from the right with rotations builds. -/
theorem Phrase.tree_shiftReduce {mode : Mode} {stack : List Bracketing.Frame}
    (settled : Pending.Settled (OperatorTables.standard.of mode)
      (stack.map Bracketing.Frame.pending))
    (offset : Nat) (phrase : Phrase) : (phrase.shiftReduce mode stack offset).tree =
      Pending.insertAll (OperatorTables.standard.of mode) (stack.map Bracketing.Frame.pending)
        (phrase.folded mode offset) := by
  induction phrase generalizing mode stack offset with
  | name word =>
      exact (Bracketing.reduceAll_tree stack (.name word offset)).symm.trans
        (Pending.reduceAll_eq settled (Pending.rests_token _ word offset))
  | prefixed operator rest ih =>
      have pushed : Pending.Settled (OperatorTables.standard.of mode)
          (.prefixed (.token operator offset) :: stack.map Bracketing.Frame.pending) :=
        settled.cons fun last top _ => Pending.goesBelow_prefixed top.key _ last
      exact @ih mode (.prefixed operator offset :: stack) pushed (offset + operator.length + 1)
  | linked word operator rest ih =>
      have reduced := Bracketing.reduceBefore_tree (OperatorTables.standard.of mode) operator stack
        (.name word offset)
      obtain ⟨pushed, insert_eq⟩ := Pending.pushed_linking
        (.token operator (offset + word.length + 1)) [] settled
        (Pending.rests_token _ word offset) reduced
      rw [shiftReduce]
      exact (ih pushed _).trans (insert_eq _)
  | conditional word middle rest middleIH restIH =>
      have reduced := Bracketing.reduceBefore_tree (OperatorTables.standard.of mode) "?" stack
        (.name word offset)
      obtain ⟨pushed, insert_eq⟩ := Pending.pushed_linking
        (.token "?" (offset + word.length + 1))
        [(middle.shiftReduce .argument [] (offset + word.length + 1 + 2)).tree] settled
        (Pending.rests_token _ word offset) reduced
      have between : (middle.shiftReduce .argument [] (offset + word.length + 1 + 2)).tree =
          middle.folded .argument (offset + word.length + 1 + 2) :=
        @middleIH .argument [] trivial _
      rw [shiftReduce]
      refine (restIH pushed _).trans ((insert_eq _).trans ?_)
      rw [between, folded]

end RubySyntax
