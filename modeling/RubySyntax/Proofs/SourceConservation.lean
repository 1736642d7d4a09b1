import RubySyntax.Proofs.ProgramLayout
import RubySyntax.Proofs.UnresolvedTrees

/-!
# Conservation of the source

A tree keeps its source: every node has the offset and the position of its place,
the leaves spell the text at their offsets one behind the other, and what neither
a token of a node nor a comment covers is spacing, punctuation that leaves no node
behind, or the word that ends a body.
-/

namespace RubySyntax

open Node

namespace Node

/-- Whether a node is a leaf that stands for a token: neither the placeholder of something left
out nor an empty list. -/
def isTokenLeaf (node : Node) : Bool :=
  node.isLeaf && node.data != Tag.empty && node.data != Tag.list

/-- The leaves of a tree that stand for tokens, in the order of the children. -/
def tokenLeaves (tree : Node) : List Node :=
  tree.nodes.filter isTokenLeaf

/-- The characters of the tokens that leave no node behind, apart from words. -/
def droppedCharacters : List Char :=
  [',', ')', ']', '\x7d', '|', '(', ':', '<']

end Node

/-! ### The order of leaves -/

/-- Leaves stand one behind the other between two offsets. -/
structure LeavesBetween (start stop : Nat) (leaves : List Node) : Prop where
  bounds : ∀ leaf ∈ leaves, start ≤ leaf.start ∧ leaf.start + leaf.data.length ≤ stop
  ordered : leaves.Pairwise fun one other => one.start + one.data.length ≤ other.start

namespace LeavesBetween

theorem nil (start stop : Nat) : LeavesBetween start stop [] :=
  ⟨by simp, List.Pairwise.nil⟩

theorem append {start middle behind stop : Nat} {front back : List Node}
    (frontBetween : LeavesBetween start middle front) (le : middle ≤ behind)
    (backBetween : LeavesBetween behind stop back) (startLe : start ≤ behind)
    (leStop : middle ≤ stop) : LeavesBetween start stop (front ++ back) := by
  refine ⟨fun leaf member => ?_, List.pairwise_append.mpr
    ⟨frontBetween.ordered, backBetween.ordered, fun one oneMem other otherMem => ?_⟩⟩
  · rcases List.mem_append.mp member with early | late
    · have := frontBetween.bounds leaf early
      omega
    · have := backBetween.bounds leaf late
      omega
  · have := frontBetween.bounds one oneMem
    have := backBetween.bounds other otherMem
    omega

theorem mono {start stop before behind : Nat} {leaves : List Node}
    (between : LeavesBetween before behind leaves) (after : start ≤ before)
    (within : behind ≤ stop) : LeavesBetween start stop leaves := by
  refine ⟨fun leaf member => ?_, between.ordered⟩
  have := between.bounds leaf member
  omega

end LeavesBetween

theorem Node.tokenLeaves_eq (node : Node) :
    node.tokenLeaves =
      (if node.isTokenLeaf then [node] else []) ++ node.children.flatMap tokenLeaves := by
  have below : ∀ trees : List Node,
      (nodesOfAll trees).filter isTokenLeaf = trees.flatMap tokenLeaves := by
    intro trees
    induction trees with
    | nil => rfl
    | cons tree others ih =>
        rw [nodesOfAll, List.filter_append, ih, List.flatMap_cons, tokenLeaves]
  rw [tokenLeaves, nodes_eq, List.filter_cons, below]
  split <;> rfl

theorem IsVacant.tokenLeaves_eq {data : String} {offset : Nat} {node : Node}
    (isVacant : IsVacant data offset node) (tag : data = Tag.empty ∨ data = Tag.list) :
    node.tokenLeaves = [] := by
  rw [Node.tokenLeaves_eq, isVacant.children_eq]
  rcases tag with rfl | rfl <;> simp [isTokenLeaf, isVacant.data_eq]

/-- The leaves of children that lie one behind the other do so too. -/
theorem ChildrenLaid.leavesBetween {text : List Char} {tokens : List OwnedToken}
    {start stop : Nat} {children : List Node}
    (laid : ChildrenLaid text tokens start children stop)
    (each : ∀ child ∈ children, ∀ {before middle : Nat} {inner : Node},
      Laid text before (.tree inner) middle → SameBody child inner →
        LeavesBetween before middle child.tokenLeaves) :
    LeavesBetween start stop (children.flatMap tokenLeaves) := by
  induction laid with
  | nil le => exact .nil _ _
  | vacant tag isVacant after before rest ih =>
      rw [List.flatMap_cons, isVacant.tokenLeaves_eq tag]
      exact ih fun child member => each child (List.mem_cons_of_mem _ member)
  | cons after laid same commentsLaid le rest ih =>
      have restLe := rest.le
      have laidLe := laid.bounds.1
      have front := each _ List.mem_cons_self laid same
      have back := ih fun child member => each child (List.mem_cons_of_mem _ member)
      rw [List.flatMap_cons]
      exact (front.mono after (Nat.le_refl _)).append le back (by omega) (by omega)

/-- A leaf that stands for a token spells its text. -/
theorem TokenForm.leafToken {text : List Char} {node : Node} (form : TokenForm text node)
    (leaf : node.isTokenLeaf = true) : ∃ place, LeafToken text place node := by
  simp only [isTokenLeaf, Bool.and_eq_true, bne_iff_ne] at leaf
  obtain ⟨⟨isLeaf_eq, named⟩, unlisted⟩ := leaf
  cases form with
  | none word_eq tagged =>
      rcases tagged isLeaf_eq with empty | list
      · exact absurd empty named
      · exact absurd list unlisted
  | @leaf place token => exact ⟨place, token⟩
  | form word_eq composite =>
      rw [isLeaf_eq] at composite
      cases composite

/-- The leaves of a tree stand one behind the other inside its layout. -/
theorem Laid.leavesBetween {text : List Char} {tree : Node} :
    ∀ {start stop : Nat} {inner : Node}, Laid text start (.tree inner) stop →
      SameBody tree inner → LeavesBetween start stop tree.tokenLeaves := by
  induction tree using Node.inductionOnChildren with
  | step tree ih =>
      intro start stop inner laid same
      have below := laid.children
      rw [← same.children_eq] at below
      have belowBetween := below.leavesBetween fun child member => ih child member
      rw [Node.tokenLeaves_eq]
      by_cases leaf : tree.isTokenLeaf = true
      · obtain ⟨place, token⟩ := (laid.tokenForm.of_sameBody same).leafToken leaf
        have ends := laid.stop_eq
        rw [Node.stop_eq, ← same.start_eq, ← same.tokenWord_eq, token.tokenWord_eq,
          ← same.children_eq, token.children_eq, stopOfAll] at ends
        obtain ⟨offset, offset_eq, after, -⟩ := laid.offset_bounds
        have begins := start_eq (same.offset_eq.trans offset_eq)
        rw [if_pos leaf, token.children_eq]
        refine ⟨?_, List.pairwise_singleton _ _⟩
        rintro other (_ | ⟨_, impossible⟩)
        · omega
        · cases impossible
      · rw [if_neg leaf]
        exact belowBetween

/-! ### The three laws -/

namespace ProgramLaid

variable {text : List Char} {tree : Node}

/-- Every node of a program, comments included, has an offset inside the text. -/
theorem offset_le (laid : ProgramLaid text tree) {node : Node} (member : node ∈ tree.allNodes) :
    ∃ offset : Nat, offset ≤ text.length ∧ node.offset = some (offset : Int) := by
  rcases mem_allNodes_cases member with own | ⟨owner, ownerMem, comment, commentMem, within⟩
  · obtain ⟨before, middle, inner, innerLaid, same⟩ := laid.of_mem_nodes own
    obtain ⟨offset, offset_eq, -, le, -⟩ := innerLaid.offset_bounds
    exact ⟨offset, Nat.le_trans le innerLaid.bounds.2, same.offset_eq.trans offset_eq⟩
  · obtain ⟨offset, span, isComment⟩ := (laid.commentsLaid ownerMem).isComment comment commentMem
    obtain ⟨-, begins, ends, bound⟩ := commentSpan?_bounds isComment.found
    obtain ⟨body, children_eq, allNodes_eq, -⟩ := isComment.allNodes_pair
    obtain ⟨child, child_eq, -, -, childOffset, -⟩ := isComment.children_eq
    obtain rfl : child = body := by simpa [children_eq] using child_eq.symm
    simp only [allNodes_eq, List.mem_cons, List.not_mem_nil, or_false] at within
    rcases within with rfl | rfl
    · exact ⟨offset, by omega, isComment.offset_eq⟩
    · exact ⟨offset + span.textStart, by omega, childOffset⟩

theorem leaf_slice (laid : ProgramLaid text tree) {leaf : Node} (member : leaf ∈ tree.tokenLeaves) :
    (text.drop leaf.start).take leaf.data.length = leaf.data.toList ∧ 0 < leaf.data.length := by
  obtain ⟨leafMem, isTokenLeaf⟩ := List.mem_filter.mp member
  obtain ⟨place, token⟩ := (laid.tokenForm leafMem).leafToken isTokenLeaf
  refine ⟨?_, token.length_pos⟩
  rw [start_eq token.offset_eq, ← String.length_toList]
  exact (List.prefix_iff_eq_take.mp token.spelled).symm

theorem leaves_ordered (laid : ProgramLaid text tree) :
    tree.tokenLeaves.Pairwise fun one other => one.start + one.data.length ≤ other.start := by
  obtain ⟨statements, trailing, before, stop, spacing, rootLaid, run, rfl⟩ := laid
  have same : SameBody (statements.appendComments trailing) statements := ⟨rfl, rfl, rfl⟩
  exact (rootLaid.leavesBetween same).ordered

theorem tokenWord_spelled (laid : ProgramLaid text tree) {node : Node}
    (member : node ∈ tree.nodes) : Spelled text node.start node.tokenWord := by
  by_cases worded : node.tokenWord = ""
  · rw [worded]
    exact List.nil_prefix
  · have own : (⟨node.start, node.tokenWord, node⟩ : OwnedToken) ∈ node.ownToken := by
      rw [ownToken, if_neg worded]
      exact List.mem_singleton_self _
    exact ((laid.tokenForm member).ownToken_spelled _ own).1

end ProgramLaid

/-- The words of the tokens that belong to a child, apart from the one that ends a body, are
single characters which leave no node behind. -/
theorem childWords_dropped : ∀ word ∈ childWords, word ≠ "end" →
    word.toList.all droppedCharacters.contains = true := by
  decide

theorem droppedSymbols_dropped : ∀ symbol ∈ droppedSymbols,
    0 < symbol.length ∧ symbol.toList.all droppedCharacters.contains = true := by
  decide

theorem mem_droppedCharacters {word : String} {character : Char}
    (dropped : word.toList.all droppedCharacters.contains = true)
    (member : character ∈ word.toList) : character ∈ droppedCharacters :=
  List.contains_iff_mem.mp (List.all_eq_true.mp dropped character member)

/-- What a character of the source is for: it belongs to the token of a node or to a comment, it
separates tokens, it spells a token that leaves no node behind, or it ends a body. -/
inductive CharacterRole (text : List Char) (tree : Node) (index : Nat) : Prop
  | token {node : Node} (member : node ∈ tree.nodes) (after : node.start ≤ index)
      (before : index < node.start + node.tokenWord.length)
  | comment {comment : Node} (member : comment ∈ tree.attachedComments)
      (after : comment.start ≤ index) (before : index < commentEnd text comment)
  | spacing (separates : isSpacingAt text index = true)
  | dropped {character : Char} (present : text[index]? = some character)
      (member : character ∈ droppedCharacters)
  | bodyEnd {node : Node} {closing : OwnedToken} (member : node ∈ tree.nodes)
      (closes : closing ∈ node.childTokens text) (word_eq : closing.word = "end")
      (covers : closing.covers index = true)

theorem ProgramLaid.characterRole {text : List Char} {tree : Node} (laid : ProgramLaid text tree)
    {index : Nat} (inside : index < text.length) : CharacterRole text tree index := by
  rcases laid.coveredOnce.inside index (Nat.zero_le _) inside with once | ⟨-, spacing | dropped⟩
  · by_cases commented : 0 < commentHits text index tree.treeComments
    · obtain ⟨comment, commentMem, covers⟩ := List.countP_pos_iff.mp commented
      simp only [commentCovers, Bool.and_eq_true, decide_eq_true_eq] at covers
      rw [← laid.attachedComments_eq] at commentMem
      exact .comment commentMem covers.1 covers.2
    · have hit : 0 < tokenHits index (tree.tokens text) := by
        rw [treeHits] at once
        omega
      obtain ⟨token, tokenMem, covers⟩ := List.countP_pos_iff.mp hit
      obtain ⟨node, nodeMem, localMem⟩ := List.mem_flatMap.mp tokenMem
      rcases List.mem_append.mp localMem with own | child
      · rw [ownToken] at own
        split at own
        · cases own
        · rw [List.mem_singleton] at own
          subst own
          simp only [OwnedToken.covers, Bool.and_eq_true, decide_eq_true_eq] at covers
          exact .token nodeMem covers.1 covers.2
      · have isChildToken := laid.childTokens_spelled nodeMem token child
        by_cases ends : token.word = "end"
        · exact .bodyEnd nodeMem child ends covers
        · have dropped := childWords_dropped _ isChildToken.member ends
          have present := List.getElem?_eq_getElem inside
          have held := OwnedToken.mem_of_covers isChildToken.spelled covers present
          exact .dropped present (mem_droppedCharacters dropped held)
  · exact .spacing spacing
  · obtain ⟨symbol, member, spelled⟩ := dropped
    obtain ⟨positive, allDropped⟩ := droppedSymbols_dropped symbol member
    have here := spelled.getElem? positive
    have present := List.getElem?_eq_getElem inside
    rw [Nat.add_zero, present] at here
    exact .dropped present (mem_droppedCharacters allDropped (List.mem_of_getElem? here.symm))

/-- A tree conserves its source: every node has an offset inside the text and its position, the
leaves spell the text one behind the other, and each character has a role. -/
theorem parse_conserves_source {text : List Char} {tree : Node}
    (parsed : parse .standard text = .ok tree) :
    (∀ node ∈ tree.allNodes, ∃ offset : Nat, offset ≤ text.length ∧
      node.offset = some (offset : Int) ∧ ∃ position, node.position = some position ∧
        (PositionTable.ofText text).get? offset = some position) ∧
    (∀ leaf ∈ tree.tokenLeaves,
      (text.drop leaf.start).take leaf.data.length = leaf.data.toList ∧
        0 < leaf.data.length) ∧
    (tree.tokenLeaves.Pairwise fun one other => one.start + one.data.length ≤ other.start) ∧
    (∀ node ∈ tree.nodes, Spelled text node.start node.tokenWord) ∧
    ∀ index < text.length, CharacterRole text tree index := by
  have laid := parse_laid parsed
  refine ⟨fun node member => ?_, fun leaf member => laid.leaf_slice member, laid.leaves_ordered,
    fun node member => laid.tokenWord_spelled member,
    fun index inside => laid.characterRole inside⟩
  obtain ⟨offset, within, offset_eq⟩ := laid.offset_le member
  refine ⟨offset, within, offset_eq, (PositionTable.ofText text).clamped offset, ?_,
    PositionTable.get?_eq_clamped within⟩
  rw [parse_position parsed node member, offset_eq, Option.map_some]

theorem parse_conserves_source_call :
    ∃ tree, parse .standard "a(1) # b".toList = .ok tree ∧
      (∀ leaf ∈ tree.tokenLeaves,
        ("a(1) # b".toList.drop leaf.start).take leaf.data.length = leaf.data.toList ∧
          0 < leaf.data.length) ∧
      CharacterRole "a(1) # b".toList tree 3 := by
  have accepted : accepts .standard "a(1) # b".toList = true := by
    rw [OperatorTables.standard_eq]
    decide +kernel
  obtain ⟨tree, parsed⟩ := accepts_iff.mp accepted
  obtain ⟨-, leaves, -, -, roles⟩ := parse_conserves_source parsed
  exact ⟨tree, parsed, leaves, roles 3 (by decide)⟩

end RubySyntax
