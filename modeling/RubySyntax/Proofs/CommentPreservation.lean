import RubySyntax.Proofs.ProgramLayout

/-!
# Comments are preserved

A program loses no comment, and none of its comments is attached twice.  A number
sign of the source either belongs to a regular expression or to exactly one
comment of the tree.  Both sides are counted over the whole tree, so a comment
that is dropped or attached twice changes the count.
-/

namespace RubySyntax

open Node

/-! ### Leaves of regular expressions -/

namespace Node

/-- Whether a node is the literal of a regular expression. -/
def isRegexp (node : Node) : Bool :=
  node.isLeaf && Lexeme.regexp node.data.toList == some node.data.length

/-- The literals of regular expressions of a tree. -/
def regexpLeaves (tree : Node) : List Node :=
  tree.nodes.filter isRegexp

end Node

def leafCovers (index : Nat) (leaf : Node) : Bool :=
  leaf.start ≤ index && index < leaf.start + leaf.data.length

theorem childWords_plain : ∀ word ∈ childWords, '#' ∉ word.toList := by
  decide

theorem tokenHits_childTokens {text : List Char} {tokens : List OwnedToken} {index : Nat}
    (spelled : ∀ token ∈ tokens, IsChildToken text token) (sign : text[index]? = some '#') :
    tokenHits index tokens = 0 := by
  rw [tokenHits, List.countP_eq_zero]
  intro token member covers
  have isChildToken := spelled token member
  exact childWords_plain _ isChildToken.member
    (OwnedToken.mem_of_covers isChildToken.spelled covers sign)

theorem tokenHits_singleton (index : Nat) (token : OwnedToken) :
    tokenHits index [token] = if token.covers index then 1 else 0 := by
  rw [tokenHits, List.countP_singleton]

/-- The token of a node covers a number sign only as a regular expression. -/
theorem TokenForm.tokenHits_ownToken {text : List Char} {node : Node} {index : Nat}
    (form : TokenForm text node) (sign : text[index]? = some '#') :
    tokenHits index node.ownToken =
      if node.isRegexp && leafCovers index node then 1 else 0 := by
  have spelled := form.ownToken_spelled
  cases form with
  | none word_eq tagged =>
      have plain : node.isRegexp = false := by
        rw [isRegexp, Bool.and_eq_false_iff]
        by_cases leaf : node.isLeaf = true
        · right
          rcases tagged leaf with data_eq | data_eq <;> rw [data_eq] <;> decide
        · exact Or.inl (by simpa using leaf)
      simp [ownToken, word_eq, plain]
  | @leaf place token =>
      have positive := token.length_pos
      have worded : node.data ≠ "" := by
        intro empty
        simp [empty] at positive
      have own : node.ownToken = [⟨node.start, node.data, node⟩] := by
        rw [ownToken, token.tokenWord_eq, if_neg worded]
      have covers_eq : (⟨node.start, node.data, node⟩ : OwnedToken).covers index =
          leafCovers index node := rfl
      rw [own, tokenHits_singleton, covers_eq]
      by_cases covers : leafCovers index node = true
      · have spelledHere := (spelled _ (own ▸ List.mem_singleton_self _)).1
        have held := OwnedToken.mem_of_covers spelledHere (covers_eq.trans covers) sign
        have regexp : node.isRegexp = true := by
          simp [isRegexp, isLeaf, token.children_eq, token.regexp_of_sign held]
        simp [covers, regexp]
      · simp [covers]
  | form word_eq composite offset_eq wordSpelled plain =>
      have absent : tokenHits index node.ownToken = 0 := by
        rw [tokenHits, List.countP_eq_zero]
        intro token member covers
        have held := OwnedToken.mem_of_covers (spelled token member).1 covers sign
        rw [ownToken] at member
        split at member
        · cases member
        · rw [List.mem_singleton] at member
          subst member
          rw [word_eq] at held
          exact plain held
      simp [absent, isRegexp, composite]

theorem not_loose_of_sign {text : List Char} {index : Nat} (sign : text[index]? = some '#') :
    ¬ IsLooseAt text index := by
  have within := (List.getElem?_eq_some_iff.mp sign).1
  rintro (spacing | ⟨symbol, member, spelled⟩)
  · have begins : text.drop index = '#' :: text.drop (index + 1) := by
      rw [List.drop_eq_getElem_cons within, (List.getElem?_eq_some_iff.mp sign).2]
    rw [isSpacingAt, begins] at spacing
    exact absurd (show Lexeme.isGap '#' = true from spacing) (by decide)
  · have plain : ∀ symbol ∈ droppedSymbols, '#' ∉ symbol.toList ∧ 0 < symbol.length := by
      decide
    have here := spelled.getElem? (plain symbol member).2
    rw [Nat.add_zero, sign] at here
    exact (plain symbol member).1 (List.mem_of_getElem? here.symm)

/-! ### Counting over a tree -/

private theorem countP_flatMap_eq {α β : Type} {test : β → Bool} {counts : α → Bool}
    {parts : α → List β} {items : List α}
    (each : ∀ item ∈ items, (parts item).countP test = if counts item then 1 else 0) :
    (items.flatMap parts).countP test = items.countP counts := by
  induction items with
  | nil => rfl
  | cons item others ih =>
      rw [List.flatMap_cons, List.countP_append, List.countP_cons,
        each item List.mem_cons_self, ih fun other member => each other (List.mem_cons_of_mem _ member)]
      omega

namespace ProgramLaid

variable {text : List Char} {tree : Node}

theorem tokenHits_eq (laid : ProgramLaid text tree) {index : Nat}
    (sign : text[index]? = some '#') :
    tokenHits index (tree.tokens text) = tree.regexpLeaves.countP (leafCovers index) := by
  rw [regexpLeaves, List.countP_filter]
  refine (countP_flatMap_eq fun node member => ?_).trans
    (List.countP_congr fun node _ => by rw [Bool.and_comm])
  show tokenHits index (node.localTokens text) = _
  rw [localTokens, tokenHits_append, tokenHits_childTokens (laid.childTokens_spelled member) sign,
    (laid.tokenForm member).tokenHits_ownToken sign, Nat.add_zero]

/-- A number sign belongs to exactly one regular expression or comment. -/
theorem hits_of_sign (laid : ProgramLaid text tree) {index : Nat}
    (sign : text[index]? = some '#') :
    tree.regexpLeaves.countP (leafCovers index) +
      tree.attachedComments.countP (commentCovers text index) = 1 := by
  rw [← laid.tokenHits_eq sign, laid.attachedComments_eq]
  have inside := (List.getElem?_eq_some_iff.mp sign).1
  rcases laid.coveredOnce.inside index (Nat.zero_le _) inside with once | ⟨-, loose⟩
  · exact once
  · exact (not_loose_of_sign sign loose).elim

theorem comments_apart (laid : ProgramLaid text tree) :
    tree.attachedComments.Pairwise fun one other =>
      commentEnd text one ≤ other.start ∨ commentEnd text other ≤ one.start := by
  have single : ∀ index, tree.attachedComments.countP (commentCovers text index) ≤ 1 := by
    intro index
    have le := laid.treeHits_le_one index
    rw [treeHits, ← laid.attachedComments_eq, commentHits] at le
    omega
  refine (pairwise_apart_of_countP_le_one single).imp_of_mem ?_
  intro one other oneMem otherMem apart
  obtain ⟨offset, span, isComment⟩ := laid.isComment oneMem
  obtain ⟨otherOffset, otherSpan, otherIs⟩ := laid.isComment otherMem
  have positive := commentSpan?_length_pos isComment.found
  have otherPositive := commentSpan?_length_pos otherIs.found
  have ends := isComment.commentEnd_eq
  have otherEnds := otherIs.commentEnd_eq
  have begins := start_eq isComment.offset_eq
  have otherBegins := start_eq otherIs.offset_eq
  have atOne := apart one.start
  have atOther := apart other.start
  simp only [commentCovers, Bool.and_eq_true, Bool.and_eq_false_iff, decide_eq_true_eq,
    decide_eq_false_iff_not] at atOne atOther
  omega

end ProgramLaid

/-- What a comment of a tree says of the text: its kind, its extent and the text that it holds,
which stands in the source at the offset of its only child. -/
structure HoldsText (text : List Char) (comment : Node) : Prop where
  kind : comment.data = Tag.lineComment ∧ text[comment.start]? = some '#' ∨
    comment.data = Tag.blockComment ∧ text[comment.start]? = some '='
  filled : comment.start < commentEnd text comment
  body : ∃ child, ∃ offset : Nat, comment.children = [child] ∧ child.children = [] ∧
    child.offset = some (offset : Int) ∧ comment.start < offset ∧
    offset + child.data.length ≤ commentEnd text comment ∧
    (text.drop offset).take child.data.length = child.data.toList

theorem IsComment.holdsText {text : List Char} {offset : Nat} {span : CommentSpan}
    {comment : Node} (isComment : IsComment text offset span comment) :
    HoldsText text comment := by
  obtain ⟨-, begins, ends, within⟩ := commentSpan?_bounds isComment.found
  obtain ⟨child, children_eq, childless, -, offset_eq, data_eq⟩ := isComment.children_eq
  have start_eq := start_eq isComment.offset_eq
  have length_eq : child.data.length = span.textLength := by
    rw [data_eq, String.length_ofList, List.length_take, List.length_drop]
    omega
  refine ⟨start_eq ▸ isComment.kind, ?_, child, offset + span.textStart, children_eq, childless,
    offset_eq, ?_, ?_, ?_⟩
  · rw [isComment.commentEnd_eq]
    omega
  · omega
  · rw [isComment.commentEnd_eq]
    omega
  · rw [length_eq, data_eq, String.toList_ofList]

/-- No comment of a program is lost, attached twice or out of order: each number sign belongs to
exactly one regular expression or comment, the comments have disjoint ranges and hold the text of
the source, and those of one node stand in the order of the source. -/
theorem parse_preserves_comments {text : List Char} {tree : Node}
    (parsed : parse .standard text = .ok tree) :
    (∀ index, text[index]? = some '#' →
      tree.regexpLeaves.countP (leafCovers index) +
        tree.attachedComments.countP (commentCovers text index) = 1) ∧
    (tree.attachedComments.Pairwise fun one other =>
      commentEnd text one ≤ other.start ∨ commentEnd text other ≤ one.start) ∧
    (∀ comment ∈ tree.attachedComments, HoldsText text comment) ∧
    ∀ node ∈ tree.allNodes,
      node.comments.Pairwise fun earlier later => earlier.start < later.start := by
  have laid := parse_laid parsed
  refine ⟨fun index sign => laid.hits_of_sign sign, laid.comments_apart,
    fun comment member => ?_, fun node member => ?_⟩
  · obtain ⟨offset, span, isComment⟩ := laid.isComment member
    exact isComment.holdsText
  · cases comments_eq : node.comments with
    | nil => exact List.Pairwise.nil
    | cons comment others =>
        have owner : node ∈ tree.nodes :=
          laid.mem_nodes_of_comment member (comments_eq ▸ List.mem_cons_self)
        exact comments_eq ▸ (laid.commentsLaid owner).ordered

theorem parse_preserves_comments_call :
    ∃ tree, parse .standard "a(/#/, # b\n)".toList = .ok tree ∧
      tree.regexpLeaves.countP (leafCovers 3) +
        tree.attachedComments.countP (commentCovers "a(/#/, # b\n)".toList 3) = 1 ∧
      tree.regexpLeaves.countP (leafCovers 7) +
        tree.attachedComments.countP (commentCovers "a(/#/, # b\n)".toList 7) = 1 := by
  have accepted : accepts .standard "a(/#/, # b\n)".toList = true := by
    rw [OperatorTables.standard_eq]
    decide +kernel
  obtain ⟨tree, parsed⟩ := accepts_iff.mp accepted
  have counted := (parse_preserves_comments parsed).1
  exact ⟨tree, parsed, counted 3 (by decide), counted 7 (by decide)⟩

end RubySyntax
