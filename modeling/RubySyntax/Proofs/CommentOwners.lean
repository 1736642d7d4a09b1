import Mathlib.Data.List.Nodup
import RubySyntax.Proofs.ProgramLayout

/-!
# Owners of comments

A comment belongs to the node that owns the first token behind it.  The tokens
of a program are found from its tree: the token of each node belongs to the node,
a word that closes a child or the sign in front of a parent class belongs to the
child, and the end of the text belongs to the root.  No two tokens have the same
place, so the token behind a comment is known by its place alone.
-/

namespace RubySyntax

open Node

namespace ProgramLaid

variable {text : List Char} {tree : Node}

/-- Every token of a program stands in the text, the empty one at its end included. -/
theorem programTokens_spelled (laid : ProgramLaid text tree) :
    ∀ token ∈ tree.programTokens text, Spelled text token.place token.word := by
  intro token member
  rcases List.mem_append.mp member with inner | last
  · exact (laid.tokens_spelled token inner).1
  · rw [List.mem_singleton.mp last]
    exact List.nil_prefix

theorem covers_place (laid : ProgramLaid text tree) {token : OwnedToken}
    (member : token ∈ tree.tokens text) : token.covers token.place = true := by
  have worded := (laid.tokens_spelled token member).2
  have positive : 0 < token.word.length := by
    rw [Nat.pos_iff_ne_zero]
    exact fun empty => worded (String.length_eq_zero_iff.mp empty)
  simp only [OwnedToken.covers, Bool.and_eq_true, decide_eq_true_eq]
  omega

/-- No two tokens of a program have the same place. -/
theorem places_nodup (laid : ProgramLaid text tree) :
    ((tree.programTokens text).map OwnedToken.place).Nodup := by
  have single : ∀ index, (tree.tokens text).countP (·.covers index) ≤ 1 := by
    intro index
    have le := laid.treeHits_le_one index
    rw [treeHits, tokenHits] at le
    omega
  have inner : ((tree.tokens text).map OwnedToken.place).Nodup := by
    refine List.pairwise_map.mpr ((pairwise_apart_of_countP_le_one single).imp_of_mem ?_)
    intro one other oneMem otherMem apart same
    have covered := apart one.place (laid.covers_place oneMem)
    rw [same, laid.covers_place otherMem] at covered
    cases covered
  rw [programTokens, List.map_append, List.nodup_append]
  refine ⟨inner, List.pairwise_singleton _ _, ?_⟩
  rintro place placeMem last (_ | ⟨_, impossible⟩) rfl
  · -- A token at the end of the text would cover an offset outside it.
    obtain ⟨token, tokenMem, place_eq⟩ := List.mem_map.mp placeMem
    have covers := laid.covers_place tokenMem
    rw [place_eq] at covers
    have outside := laid.coveredOnce.outside text.length (Or.inr (Nat.le_refl _))
    have covered : 0 < tokenHits text.length (tree.tokens text) :=
      List.countP_pos_iff.mpr ⟨token, tokenMem, covers⟩
    rw [treeHits] at outside
    omega
  · cases impossible

/-- Tokens of a program with the same place are the same. -/
theorem eq_of_place_eq (laid : ProgramLaid text tree) {one other : OwnedToken}
    (oneMem : one ∈ tree.programTokens text) (otherMem : other ∈ tree.programTokens text)
    (same : one.place = other.place) : one = other :=
  List.inj_on_of_nodup_map laid.places_nodup oneMem otherMem same

/-- A comment of a node stands in front of a token which belongs to the node. -/
theorem exists_owned (laid : ProgramLaid text tree) {node comment : Node}
    (member : node ∈ tree.nodes) (commentMem : comment ∈ node.comments) :
    ∃ token ∈ tree.programTokens text,
      token.place = tokenPlace text (commentEnd text comment) ∧ token.owner = node := by
  obtain ⟨token, tokenMem, owner_eq, place_eq⟩ :=
    (laid.commentsLaid member).owned comment commentMem
  refine ⟨token, ?_, place_eq, owner_eq⟩
  rcases List.mem_append.mp tokenMem with own | given
  · exact ownToken_mem_programTokens member own
  · exact given

end ProgramLaid

/-- Each comment of a program is attached to exactly one node: the owner of the first token
behind the comment. -/
theorem parse_attaches_comments {text : List Char} {tree : Node}
    (parsed : parse .standard text = .ok tree) :
    (∀ token ∈ tree.programTokens text, Spelled text token.place token.word) ∧
    ((tree.programTokens text).map OwnedToken.place).Nodup ∧
    ∀ comment ∈ tree.attachedComments, ∃ token ∈ tree.programTokens text,
      token.place = tokenPlace text (commentEnd text comment) ∧
      ∀ node ∈ tree.allNodes, comment ∈ node.comments ↔ node = token.owner := by
  have laid := parse_laid parsed
  refine ⟨laid.programTokens_spelled, laid.places_nodup, fun comment member => ?_⟩
  obtain ⟨owner, ownerMem, attached⟩ := List.mem_flatMap.mp member
  obtain ⟨token, tokenMem, place_eq, owner_eq⟩ :=
    laid.exists_owned (laid.mem_nodes_of_comment ownerMem attached) attached
  refine ⟨token, tokenMem, place_eq, fun node nodeMem => ⟨fun commented => ?_, ?_⟩⟩
  · obtain ⟨other, otherMem, otherPlace, rfl⟩ :=
      laid.exists_owned (laid.mem_nodes_of_comment nodeMem commented) commented
    rw [laid.eq_of_place_eq otherMem tokenMem (otherPlace.trans place_eq.symm)]
  · rintro rfl
    rwa [owner_eq]

theorem Node.closing_mem_programTokens {text : List Char} {call callee list : Node} {place : Nat}
    (invoke : call.data = Tag.invoke) (word : call.tokenWord = "(")
    (children : call.children = [callee, list])
    (closed : closedBehind text (list.stop text) (some ")") = some (place, ")")) :
    ⟨place, ")", list⟩ ∈ call.programTokens text := by
  have closers : call.closers = [none, some ")"] := by
    simp [closers, closingTable, word, invoke, children, Tag.invoke, Tag.group, Tag.block,
      Tag.index]
  have member : call ∈ call.nodes := mem_nodes_iff.mpr (Or.inl rfl)
  refine ProgramLaid.childToken_mem_programTokens member (List.mem_append_left _ ?_)
  rw [closers, children, closingTokens, closingTokens]
  exact List.mem_append_right _ (List.mem_append_left _
    (List.mem_map.mpr ⟨(place, ")"), Option.mem_toList.mpr closed, rfl⟩))

/-- The comment stands in front of the parenthesis that closes a list without arguments, and the
list owns it. -/
theorem parse_attaches_comments_call :
    ∃ tree callee list comment, parse .standard "a(# b\n)".toList = .ok tree ∧
      tree.data = Tag.invoke ∧ tree.children = [callee, list] ∧ list.data = Tag.list ∧
      list.children = [] ∧ tree.attachedComments = [comment] ∧ comment.offset = some 2 ∧
      tokenPlace "a(# b\n)".toList (commentEnd "a(# b\n)".toList comment) = 6 ∧
      ⟨6, ")", list⟩ ∈ tree.programTokens "a(# b\n)".toList ∧
      ∀ node ∈ tree.allNodes, comment ∈ node.comments ↔ node = list := by
  have run : acceptsWhere .standard (fun root =>
      let tree := root.located (.ofText "a(# b\n)".toList)
      decide (tree.data = Tag.invoke ∧ tree.offset = some 1 ∧
        tree.children.map (fun child => (child.data, child.offset, child.children.length)) =
          [("a", some 0, 0), (Tag.list, some 2, 0)] ∧
        tree.attachedComments.map Node.offset = [some 2])) "a(# b\n)".toList = true := by
    rw [OperatorTables.standard_eq]
    decide +kernel
  obtain ⟨root, parsed, shown⟩ := exists_parse_of_acceptsWhere run
  generalize root.located (.ofText "a(# b\n)".toList) = tree at parsed shown
  obtain ⟨invoke, offset, parts, comments⟩ := of_decide_eq_true shown
  obtain ⟨callee, _, children, calleeParts, tail⟩ := List.map_eq_cons_iff.mp parts
  obtain ⟨list, rfl, listParts⟩ := List.map_eq_singleton_iff.mp tail
  obtain ⟨comment, attached, start⟩ := List.map_eq_singleton_iff.mp comments
  simp only [Prod.mk.injEq, List.length_eq_zero_iff] at calleeParts listParts
  obtain ⟨-, calleeOffset, -⟩ := calleeParts
  obtain ⟨listData, listOffset, listEmpty⟩ := listParts
  have ends : commentEnd "a(# b\n)".toList comment = 5 := by
    rw [commentEnd, Node.start_eq start]
    decide
  have behind : tokenPlace "a(# b\n)".toList 5 = 6 := by
    have blank : "a(# b\n)".toList[5]? = some '\n' := by decide
    have sign : "a(# b\n)".toList[6]? = some ')' := by decide
    rw [tokenPlace_of_gap blank (by decide), tokenPlace_of_getElem? sign (by decide)]
  -- The empty list stands where its comment begins, and the parenthesis closes it.
  have stop : list.stop "a(# b\n)".toList = 2 := by
    rw [stop_eq, listEmpty, Node.start_eq listOffset, tokenWord, if_pos listData]
    rfl
  have next : placeBehind "a(# b\n)".toList 2 = 6 := by
    have spanned : commentSpan? "a(# b\n)".toList 2 = some ⟨3, 2, 1⟩ := by decide
    have passed : tokenPlace "a(# b\n)".toList 2 = 6 :=
      (tokenPlace_of_comment spanned).trans behind
    rw [placeBehind, passed]
    decide
  have word : tree.tokenWord = "(" := by
    simp [tokenWord, invoke, children, offset, calleeOffset, listOffset, isLeaf, Tag.invoke,
      Tag.list, Tag.sequence]
  have closed : closedBehind "a(# b\n)".toList (list.stop "a(# b\n)".toList) (some ")") =
      some (6, ")") :=
    closedBehind_of_spelled (by rw [stop, next]) ⟨[], rfl⟩
  have closing : ⟨6, ")", list⟩ ∈ tree.programTokens "a(# b\n)".toList :=
    closing_mem_programTokens invoke word children closed
  refine ⟨tree, callee, list, comment, parsed, invoke, children, listData, listEmpty, attached,
    start, by rw [ends, behind], closing, ?_⟩
  obtain ⟨-, places, owners⟩ := parse_attaches_comments parsed
  obtain ⟨token, tokenMem, place, owner⟩ := owners comment (attached ▸ List.mem_singleton_self _)
  rw [ends, behind] at place
  obtain rfl := List.inj_on_of_nodup_map places tokenMem closing place
  exact owner

end RubySyntax
