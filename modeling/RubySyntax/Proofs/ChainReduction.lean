import RubySyntax.Proofs.ShiftReduce

/-!
# Operator chains under any table

A chain is a first operand and links, each with the operand behind it.  The
reference parser reads a chain from left to right into a derivation, which keeps
every link where it was applied, and it asks of two operators only which one is
applied first.  The tree of a derivation runs the left-nested uses of a list
operator together into one node.

Reducing a chain from its right end with rotations builds that tree under every
table, also where operators of one level associate to different sides.  Read in
order, the tree gives the chain back.
-/

namespace RubySyntax

/-! ### Links and tokens -/

namespace ChainLink

def sign : ChainLink → Node
  | operator node => node
  | conditional question _ => question

/-- The operands that a link brings between its own two. -/
def middle : ChainLink → List Node
  | operator _ => []
  | conditional _ middle => [middle]

theorem pending_eq (link : ChainLink) (left : Node) :
    link.pending left = .linking left link.sign link.middle := by
  cases link <;> rfl

theorem contains_sign {table : OperatorTable} {link : ChainLink} (known : table.HasLink link) :
    table.contains link.sign.data = true := by
  cases link <;> exact known

end ChainLink

/-- An operand or an operator of a chain, with its comments and its offset. -/
inductive ChainToken where
  | operand (node : Node)
  | operator (node : Node)

/-- Whether a token is an operator whose chains become one node. -/
def ChainToken.isListOperator : ChainToken → Bool
  | operand _ => false
  | operator node => listOperators.contains node.data

def ChainLink.tokens (link : ChainLink) : List ChainToken :=
  .operator link.sign :: link.middle.map .operand

/-- The tokens of the links of a chain with the operands behind them. -/
def linkTokens (links : List (ChainLink × Node)) : List ChainToken :=
  links.flatMap fun entry => entry.1.tokens ++ [.operand entry.2]

/-- The tokens of a chain in their order. -/
def chainTokens (first : Node) (links : List (ChainLink × Node)) : List ChainToken :=
  .operand first :: linkTokens links

/-- A way to read a tree in order: an operand as it stands, or the first child of an operator, the
operator itself and its remaining children. -/
inductive Node.ReadsInOrder : Node → List ChainToken → Prop where
  | operand (node : Node) : ReadsInOrder node [.operand node]
  | applied {first : Node} {front : List ChainToken} (operator : Node)
      {parts : List (Node × List ChainToken)} (reads : ReadsInOrder first front)
      (each : ∀ part ∈ parts, ReadsInOrder part.1 part.2) :
      ReadsInOrder (operator.withChildren (first :: parts.map Prod.fst))
        (front ++ .operator operator :: parts.flatMap Prod.snd)

/-! ### Derivations -/

/-- What a parser has found out about a chain: an operand, or a link over two derivations. -/
inductive Derivation where
  | operand (node : Node)
  | applied (left : Derivation) (link : ChainLink) (right : Derivation)

namespace Derivation

/-- Whether a list operator behind a derivation goes on with the list of the derivation. -/
def goesOn (key : String) : Derivation → Bool
  | operand _ => false
  | applied _ link _ => listOperators.contains key && link.sign.data == key

theorem goesOn_applied {left right : Derivation} {link : ChainLink} {key : String} :
    (applied left link right).goesOn key = true ↔
      listOperators.contains key = true ∧ link.sign.data = key := by
  rw [goesOn, Bool.and_eq_true, beq_iff_eq]

/-- The tree of a derivation.  A list that goes on takes its further items as children. -/
def tree : Derivation → Node
  | operand node => node
  | applied left link right =>
    let behind := link.middle ++ [right.tree]
    if left.goesOn link.sign.data then left.tree.withChildren (left.tree.children ++ behind)
    else link.sign.withChildren (left.tree :: behind)

/-- The tokens of a derivation in their order. -/
def tokens : Derivation → List ChainToken
  | operand node => [.operand node]
  | applied left link right => left.tokens ++ (link.tokens ++ right.tokens)

/-! ### The reference parser -/

/-- A derivation in front of a link that waits for its right operand. -/
structure Frame where
  left : Derivation
  link : ChainLink

/-- Applies the links on top of a stack for as long as they are applied before an operator. -/
def reduceBefore (before : String → String → Bool) (key : String) :
    List Frame → Derivation → Derivation × List Frame :=
  reduceWhile (fun top => before top.link.sign.data key) fun top last =>
    .applied top.left top.link last

/-- Applies all links of a stack. -/
def reduceAll (stack : List Frame) (last : Derivation) : Derivation :=
  stack.foldl (fun right top => .applied top.left top.link right) last

/-- Reads an operand and the links behind it, over the links that wait on a stack. -/
def shiftReduce (before : String → String → Bool) (stack : List Frame) (operand : Node) :
    List (ChainLink × Node) → Derivation
  | [] => reduceAll stack (.operand operand)
  | (link, next) :: links =>
    let (left, rest) := reduceBefore before link.sign.data stack (.operand operand)
    shiftReduce before (⟨left, link⟩ :: rest) next links

/-! ### The tokens of a derivation -/

/-- The tokens of a stack, the bottom first. -/
def stackTokens : List Frame → List ChainToken
  | [] => []
  | top :: stack => stackTokens stack ++ (top.left.tokens ++ top.link.tokens)

theorem tokens_reduceAll (stack : List Frame) (last : Derivation) :
    (reduceAll stack last).tokens = stackTokens stack ++ last.tokens := by
  induction stack generalizing last with
  | nil => rfl
  | cons top stack ih =>
      show (reduceAll stack (.applied top.left top.link last)).tokens = _
      rw [ih]
      simp [tokens, stackTokens]

theorem tokens_reduceBefore (before : String → String → Bool) (key : String)
    (stack : List Frame) (last : Derivation) :
    stackTokens (reduceBefore before key stack last).2 ++
        (reduceBefore before key stack last).1.tokens = stackTokens stack ++ last.tokens := by
  induction stack generalizing last with
  | nil => rfl
  | cons top stack ih =>
      rw [reduceBefore, reduceWhile]
      split
      · refine (ih _).trans ?_
        simp [tokens, stackTokens]
      · rfl

/-- A parser that only shifts and reduces keeps the tokens that it has read in their order. -/
theorem tokens_shiftReduce (before : String → String → Bool) (stack : List Frame) (operand : Node)
    (links : List (ChainLink × Node)) : (shiftReduce before stack operand links).tokens =
      stackTokens stack ++ chainTokens operand links := by
  induction links generalizing stack operand with
  | nil => exact tokens_reduceAll stack (.operand operand)
  | cons entry links ih =>
      obtain ⟨link, next⟩ := entry
      have front := tokens_reduceBefore before link.sign.data stack (.operand operand)
      rw [shiftReduce, ih, stackTokens, ← List.append_assoc, front]
      simp [tokens, chainTokens, linkTokens]

/-! ### Reading the tree of a derivation -/

/-- The first tokens are the second ones without some list operators. -/
def LeavesOutLists (kept all : List ChainToken) : Prop :=
  kept.Sublist all ∧
    (kept.filter fun token => !token.isListOperator) =
      all.filter fun token => !token.isListOperator

theorem LeavesOutLists.refl (tokens : List ChainToken) : LeavesOutLists tokens tokens :=
  ⟨.refl tokens, rfl⟩

theorem LeavesOutLists.append {kept all moreKept more : List ChainToken}
    (front : LeavesOutLists kept all) (back : LeavesOutLists moreKept more) :
    LeavesOutLists (kept ++ moreKept) (all ++ more) :=
  ⟨front.1.append back.1, by rw [List.filter_append, List.filter_append, front.2, back.2]⟩

theorem LeavesOutLists.tokens {link : ChainLink}
    (isList : listOperators.contains link.sign.data = true) :
    LeavesOutLists (link.middle.map .operand) link.tokens := by
  have dropped : (ChainToken.operator link.sign).isListOperator = true := isList
  refine ⟨List.sublist_cons_self _ _, ?_⟩
  simp [ChainLink.tokens, dropped]

/-- The operands that a link brings, each read as it stands. -/
private theorem flatMap_operands (nodes : List Node) :
    (nodes.map fun node => (node, [ChainToken.operand node])).flatMap Prod.snd =
      nodes.map .operand := by
  induction nodes with
  | nil => rfl
  | cons node nodes ih => simpa using ih

/-- A tree is read in order as tokens, some list operators left out. -/
def ReadsAs (node : Node) (tokens : List ChainToken) : Prop :=
  ∃ kept, node.ReadsInOrder kept ∧ LeavesOutLists kept tokens

/-- A tree is read as tokens with an operator at its root. -/
def ReadsAsOperator (node : Node) (tokens : List ChainToken) : Prop :=
  ∃ (operator first : Node) (front : List ChainToken) (parts : List (Node × List ChainToken)),
    node = operator.withChildren (first :: parts.map Prod.fst) ∧ first.ReadsInOrder front ∧
      (∀ part ∈ parts, part.1.ReadsInOrder part.2) ∧
      LeavesOutLists (front ++ .operator operator :: parts.flatMap Prod.snd) tokens

theorem ReadsAsOperator.readsAs {node : Node} {tokens : List ChainToken}
    (reads : ReadsAsOperator node tokens) : ReadsAs node tokens := by
  obtain ⟨operator, first, front, parts, rfl, firstReads, each, leaves⟩ := reads
  exact ⟨_, .applied operator firstReads each, leaves⟩

/-- The parts behind an operator: the operands that its link brings, and the right one. -/
private theorem exists_parts (link : ChainLink) {right : Node} {tokens : List ChainToken}
    (reads : ReadsAs right tokens) : ∃ parts : List (Node × List ChainToken),
      parts.map Prod.fst = link.middle ++ [right] ∧
      (∀ part ∈ parts, part.1.ReadsInOrder part.2) ∧
      LeavesOutLists (parts.flatMap Prod.snd) (link.middle.map .operand ++ tokens) := by
  obtain ⟨kept, rightReads, leaves⟩ := reads
  refine ⟨(link.middle.map fun node => (node, [ChainToken.operand node])) ++ [(right, kept)],
    by simp [Function.comp_def], ?_, ?_⟩
  · intro part member
    rcases List.mem_append.mp member with inside | last
    · obtain ⟨node, -, rfl⟩ := List.mem_map.mp inside
      exact .operand node
    · obtain rfl := List.mem_singleton.mp last
      exact rightReads
  · rw [List.flatMap_append, flatMap_operands]
    simpa using (LeavesOutLists.refl _).append leaves

theorem readsAsOperator_applied {left right : Derivation} (link : ChainLink)
    (leftReads : ReadsAs left.tree left.tokens) (rightReads : ReadsAs right.tree right.tokens)
    (listReads : ∀ key, left.goesOn key = true → ReadsAsOperator left.tree left.tokens) :
    ReadsAsOperator (applied left link right).tree (applied left link right).tokens := by
  obtain ⟨parts, parts_eq, eachPart, partsLeave⟩ := exists_parts link rightReads
  by_cases onward : left.goesOn link.sign.data = true
  · obtain ⟨operator, first, front, others, left_eq, firstReads, each, leaves⟩ :=
      listReads _ onward
    have isList : listOperators.contains link.sign.data = true := by
      cases left with
      | operand node => cases onward
      | applied _ inner _ => exact (goesOn_applied.mp onward).1
    refine ⟨operator, first, front, others ++ parts, ?_, firstReads, ?_, ?_⟩
    · rw [tree, if_pos onward, left_eq, List.map_append, parts_eq]
      rfl
    · intro part member
      exact (List.mem_append.mp member).elim (each part) (eachPart part)
    · have dropped : LeavesOutLists (parts.flatMap Prod.snd) (link.tokens ++ right.tokens) :=
        ⟨partsLeave.1.trans ((LeavesOutLists.tokens isList).1.append (.refl _)), by
          rw [partsLeave.2, List.filter_append, (LeavesOutLists.tokens isList).2,
            List.filter_append]⟩
      simpa [tokens] using leaves.append dropped
  · obtain ⟨kept, reads, leaves⟩ := leftReads
    refine ⟨link.sign, left.tree, kept, parts, ?_, reads, eachPart, ?_⟩
    · rw [tree, if_neg onward, parts_eq]
    · exact leaves.append ((LeavesOutLists.refl [_]).append partsLeave)

/-- The tree of a derivation is read in order as the tokens of the derivation. -/
theorem readsAs_tree (derivation : Derivation) : ReadsAs derivation.tree derivation.tokens := by
  suffices both : ReadsAs derivation.tree derivation.tokens ∧
      ∀ key, derivation.goesOn key = true →
        ReadsAsOperator derivation.tree derivation.tokens from both.1
  induction derivation with
  | operand node => exact ⟨⟨_, .operand node, .refl _⟩, by simp [goesOn]⟩
  | applied left link right leftIH rightIH =>
      have reads := readsAsOperator_applied link leftIH.1 rightIH.1 leftIH.2
      exact ⟨reads.readsAs, fun _ _ => reads⟩

/-! ### The reference parser and rotations -/

variable {table : OperatorTable}

/-- A derivation in front of an operator is no list that was there before. -/
def IsPlain : Derivation → Prop
  | operand node => listOperators.contains node.data = true → node.children.length < 2
  | applied _ _ _ => True

/-- The link of a frame behind the tree in front of it. -/
def Frame.pending (frame : Frame) : Pending :=
  frame.link.pending frame.left.tree

theorem Frame.key_pending (frame : Frame) : frame.pending.key = frame.link.sign.data := by
  rw [pending, ChainLink.pending_eq]
  rfl

theorem tree_data_applied (left : Derivation) (link : ChainLink) (right : Derivation) :
    (applied left link right).tree.data = link.sign.data ∧
      2 ≤ (applied left link right).tree.children.length := by
  induction left generalizing link right with
  | operand node => simp [tree, goesOn, Node.withChildren]
  | applied first inner second firstIH =>
      rw [tree]
      split
      next onward =>
        obtain ⟨data_eq, several⟩ := firstIH inner second
        refine ⟨data_eq.trans (goesOn_applied.mp onward).2, ?_⟩
        simp only [Node.withChildren, List.length_append]
        omega
      next => simp [Node.withChildren]

/-- A list goes on where its tree is a list of the same kind, if it was not there before. -/
theorem goesOn_iff {derivation : Derivation} (plain : derivation.IsPlain) {key : String} :
    derivation.goesOn key = true ↔ listOperators.contains key = true ∧
      derivation.tree.data = key ∧ 2 ≤ derivation.tree.children.length := by
  cases derivation with
  | operand node =>
      refine ⟨fun onward => (Bool.false_ne_true onward).elim, fun same => ?_⟩
      obtain ⟨isList, data_eq, several⟩ := same
      have few : node.children.length < 2 := plain (data_eq ▸ isList)
      exact absurd several (Nat.not_le.mpr few)
  | applied left link right =>
      obtain ⟨data_eq, several⟩ := tree_data_applied left link right
      simp [goesOn, data_eq, several]

/-- A join over the trees of derivations builds the tree of the derivation over them. -/
theorem Frame.reduced_pending {frame : Frame} (plain : frame.left.IsPlain) (last : Derivation) :
    frame.pending.reduced last.tree = (applied frame.left frame.link last).tree := by
  rw [pending, ChainLink.pending_eq]
  exact joinOperator_eq_ite (goesOn_iff plain)

/-- Reducing in front of an operator is the same on derivations and on their trees. -/
theorem reduceBefore_tree (table : OperatorTable) (key : String) {stack : List Frame}
    (plainStack : ∀ frame ∈ stack, frame.left.IsPlain) (last : Derivation) :
    Pending.reduceBefore table key (stack.map Frame.pending) last.tree =
      ((reduceBefore table.binds key stack last).1.tree,
        (reduceBefore table.binds key stack last).2.map Frame.pending) :=
  reduceWhile_map (fun top => by rw [Frame.key_pending])
    (fun top member => Frame.reduced_pending (plainStack top member)) last

theorem reduceBefore_isPlain (table : OperatorTable) (key : String) (stack : List Frame) {last : Derivation}
    (plain : last.IsPlain) : (reduceBefore table.binds key stack last).1.IsPlain := by
  induction stack generalizing last with
  | nil => exact plain
  | cons top stack ih =>
      rw [reduceBefore, reduceWhile]
      split
      · exact ih trivial
      · exact plain

theorem reduceAll_tree {stack : List Frame} {last : Derivation}
    (plainStack : ∀ frame ∈ stack, frame.left.IsPlain) :
    (reduceAll stack last).tree = Pending.reduceAll (stack.map Frame.pending) last.tree :=
  (foldl_map_applied (fun top member => Frame.reduced_pending (plainStack top member)) last).symm

end Derivation

/-- A chain reduced from its right end with rotations, where every operator has a level. -/
def OperatorTable.foldedChain (table : OperatorTable) (first : Node) :
    List (ChainLink × Node) → Node
  | [] => first
  | (link, next) :: links => (link.pending first).insert table (table.foldedChain next links)

theorem OperatorTable.reduceChain_eq_foldedChain {table : OperatorTable}
    {links : List (ChainLink × Node)} (known : ∀ entry ∈ links, table.HasLink entry.1)
    (first : Node) : table.reduceChain first links = .ok (table.foldedChain first links) := by
  induction links generalizing first with
  | nil => rfl
  | cons entry links ih =>
      obtain ⟨link, next⟩ := entry
      rw [reduceChain, ih (fun other member => known other (.tail _ member))]
      exact reduceLink_eq_insert (known _ (.head _)) first _

/-- The reference parser builds the tree of the chain reduced from its right end: what waits on the
stack may as well be reduced into what is read behind it. -/
theorem Derivation.tree_shiftReduce {table : OperatorTable} {stack : List Derivation.Frame}
    {operand : Node} {links : List (ChainLink × Node)}
    (settled : Pending.Settled table (stack.map Frame.pending))
    (rests : Pending.Rests table (stack.map Frame.pending) operand)
    (plainStack : ∀ frame ∈ stack, frame.left.IsPlain)
    (plain : ∀ node ∈ operand :: links.map Prod.snd, (Derivation.operand node).IsPlain)
    (apart : ∀ entry ∈ links, table.goesBelow entry.1.sign.data entry.2 = false) :
    (shiftReduce table.binds stack operand links).tree =
      Pending.insertAll table (stack.map Frame.pending) (table.foldedChain operand links) := by
  induction links generalizing stack operand with
  | nil =>
      rw [shiftReduce, reduceAll_tree plainStack]
      exact Pending.reduceAll_eq settled rests
  | cons entry links ih =>
      obtain ⟨link, next⟩ := entry
      obtain ⟨left, rest, reduced⟩ : ∃ left rest,
          reduceBefore table.binds link.sign.data stack (.operand operand) = (left, rest) :=
        ⟨_, _, rfl⟩
      have reduced_eq := reduceBefore_tree table link.sign.data plainStack (.operand operand)
      have leftPlain := reduceBefore_isPlain table link.sign.data stack
        (plain operand (.head _))
      have restPlain : ∀ frame ∈ (reduceBefore table.binds link.sign.data stack
          (.operand operand)).2, frame.left.IsPlain :=
        fun frame member => plainStack frame (mem_of_mem_reduceWhile member)
      rw [reduced] at reduced_eq leftPlain restPlain
      have pending_eq : Frame.pending ⟨left, link⟩ = .linking left.tree link.sign link.middle :=
        link.pending_eq left.tree
      obtain ⟨pushed, insert_eq⟩ :=
        Pending.pushed_linking link.sign link.middle settled rests reduced_eq
      rw [← pending_eq] at pushed insert_eq
      have behind : Pending.Rests table (List.map Frame.pending (⟨left, link⟩ :: rest)) next := by
        rintro top ⟨⟩
        rw [Frame.key_pending]
        exact apart _ (.head _)
      have stackPlain : ∀ frame ∈ (⟨left, link⟩ :: rest : List Frame), frame.left.IsPlain :=
        List.forall_mem_cons.mpr ⟨leftPlain, restPlain⟩
      calc (shiftReduce table.binds stack operand ((link, next) :: links)).tree
          = (shiftReduce table.binds (⟨left, link⟩ :: rest) next links).tree := by
            rw [shiftReduce, reduced]
        _ = Pending.insertAll table (List.map Frame.pending (⟨left, link⟩ :: rest))
              (table.foldedChain next links) :=
            ih pushed behind stackPlain (fun node member => plain node (.tail _ member))
              fun entry member => apart entry (.tail _ member)
        _ = Pending.insertAll table (stack.map Frame.pending)
              (table.foldedChain operand ((link, next) :: links)) := by
            rw [OperatorTable.foldedChain, ChainLink.pending_eq]
            exact insert_eq _

/-- Reducing a chain from its right end with rotations builds the tree of the reference parser,
under every table that has the operators of the chain.  The operands must not be lists that a list
operator behind them would extend, and no operator may rotate into the operand behind it. -/
theorem OperatorTable.reduceChain_eq_shiftReduce {table : OperatorTable} {first : Node}
    {links : List (ChainLink × Node)} (known : ∀ entry ∈ links, table.HasLink entry.1)
    (plain : ∀ operand ∈ first :: links.map Prod.snd,
      listOperators.contains operand.data = true → operand.children.length < 2)
    (apart : ∀ entry ∈ links, table.rotates entry.1.sign.data entry.2 ≠ .ok true) :
    ∃ result tokens, table.reduceChain first links = .ok result ∧
      result = (Derivation.shiftReduce table.binds [] first links).tree ∧
      result.ReadsInOrder tokens ∧ tokens.Sublist (chainTokens first links) ∧
      (tokens.filter fun token => !token.isListOperator) =
        (chainTokens first links).filter fun token => !token.isListOperator := by
  have stays : ∀ entry ∈ links, table.goesBelow entry.1.sign.data entry.2 = false := by
    intro entry member
    have answer := apart entry member
    rw [OperatorTable.rotates_eq (ChainLink.contains_sign (known entry member))] at answer
    simpa using answer
  have tree_eq : (Derivation.shiftReduce table.binds [] first links).tree =
      table.foldedChain first links :=
    Derivation.tree_shiftReduce (show Pending.Settled table ([].map Derivation.Frame.pending) from
      trivial) (by simp [Pending.Rests]) (by simp) plain stays
  obtain ⟨tokens, reads, sublist, filter_eq⟩ :=
    (Derivation.shiftReduce table.binds [] first links).readsAs_tree
  rw [Derivation.tokens_shiftReduce] at sublist filter_eq
  exact ⟨_, tokens, reduceChain_eq_foldedChain known first, tree_eq.symm, tree_eq ▸ reads, sublist,
    filter_eq⟩

/-- A table with a level whose operators associate to different sides. -/
def mixedTable : OperatorTable :=
  .ofLists [[some "+", some "^", none, some "?"], [some ","]] ["^", "?"]

/-- The links of `a + b ^ (x) + c ? y : d , e , f` behind its first operand. -/
def mixedLinks : List (ChainLink × Node) :=
  [(.operator (.token "+" 2), .token "b" 4),
    (.operator (.token "^" 6), (Node.token "(" 8).withChildren [.token "x" 9]),
    (.operator (.token "+" 12), .token "c" 14),
    (.conditional (.token "?" 16) (.token "y" 18), .token "d" 22),
    (.operator (.token "," 24), .token "e" 26),
    (.operator (.token "," 28), .token "f" 30)]

/-- The tree of `a + b ^ (x) + c ? y : d , e , f` under the table. -/
def mixedTree : Node :=
  let sum := (Node.token "+" 2).withChildren [.token "a" 0, .token "b" 4]
  let group := (Node.token "(" 8).withChildren [.token "x" 9]
  let power := (Node.token "^" 6).withChildren
    [sum, (Node.token "+" 12).withChildren [group, .token "c" 14]]
  (Node.token "," 24).withChildren
    [(Node.token "?" 16).withChildren [power, .token "y" 18, .token "d" 22], .token "e" 26,
      .token "f" 30]

theorem OperatorTable.reduceChain_eq_shiftReduce_mixed :
    (∀ entry ∈ mixedLinks, mixedTable.HasLink entry.1) ∧
      (∀ operand ∈ .token "a" 0 :: mixedLinks.map Prod.snd,
        listOperators.contains operand.data = true → operand.children.length < 2) ∧
      (∀ entry ∈ mixedLinks, mixedTable.rotates entry.1.sign.data entry.2 ≠ .ok true) ∧
      ∃ tokens : List ChainToken,
        mixedTable.reduceChain (.token "a" 0) mixedLinks = .ok mixedTree ∧
        mixedTree.ReadsInOrder tokens ∧
        tokens.Sublist (chainTokens (.token "a" 0) mixedLinks) ∧
        (tokens.filter fun token => !token.isListOperator) =
          (chainTokens (.token "a" 0) mixedLinks).filter fun token => !token.isListOperator := by
  have known : ∀ entry ∈ mixedLinks, mixedTable.HasLink entry.1 := by decide
  have plain : ∀ operand ∈ .token "a" 0 :: mixedLinks.map Prod.snd,
      listOperators.contains operand.data = true → operand.children.length < 2 := by decide
  have stays : ∀ entry ∈ mixedLinks,
      mixedTable.goesBelow entry.1.sign.data entry.2 = false := by decide
  have apart : ∀ entry ∈ mixedLinks,
      mixedTable.rotates entry.1.sign.data entry.2 ≠ .ok true := by
    intro entry member
    rw [rotates_eq (ChainLink.contains_sign (known entry member)), stays entry member]
    simp
  obtain ⟨result, tokens, reduced, result_eq, reads⟩ :=
    reduceChain_eq_shiftReduce known plain apart
  obtain rfl : result = mixedTree := result_eq.trans rfl
  exact ⟨known, plain, apart, tokens, reduced, reads⟩

end RubySyntax
