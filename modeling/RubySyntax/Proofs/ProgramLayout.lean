import RubySyntax.Proofs.NodeLayout
import RubySyntax.Proofs.ResolutionLayout

/-!
# Tokens and comments of a program

A program is a tree with spacing in front of it and comments behind it, which
stand in front of the end of the text.  This file gathers what its layout says
of all of its nodes: every token is spelled in the text, no character has two
tokens or comments, and every comment is owned by the token behind it.
-/

namespace RubySyntax

open Node

/-! ### Tokens of a layout -/

theorem OwnedToken.mem_of_covers {text : List Char} {token : OwnedToken} {index : Nat}
    {character : Char} (spelled : Spelled text token.place token.word)
    (covers : token.covers index = true) (present : text[index]? = some character) :
    character ∈ token.word.toList := by
  simp only [OwnedToken.covers, Bool.and_eq_true, decide_eq_true_eq] at covers
  have inside : index - token.place < token.word.length := by omega
  have here := spelled.getElem? inside
  rw [Nat.add_sub_cancel' covers.1, present] at here
  exact List.mem_of_getElem? here.symm

/-- The tokens that close or announce children. -/
def childWords : List String :=
  "<" :: closingWords

/-- A token which belongs to a child stands in the text. -/
structure IsChildToken (text : List Char) (token : OwnedToken) : Prop where
  member : token.word ∈ childWords
  spelled : Spelled text token.place token.word

/-- Words that close what lies along some parts stand in the text. -/
theorem Laid.partTokens_spelled {text : List Char} {start stop : Nat} {parts : List Part}
    {children : List Node} (laid : Laid text start (.parts parts children) stop) :
    ∀ token ∈ partTokens text start parts children, IsChildToken text token := by
  generalize layer_eq : Layer.parts parts children = layer at laid
  induction laid generalizing parts children with
  | leaf | vacant | leading | linking | bare => cases layer_eq
  | nil =>
      cases layer_eq
      simp [partTokens, closingTokens, openedTokens]
  | @child start before middle stop node parts children spacing tree filled rest treeIH restIH =>
      cases layer_eq
      rw [partTokens_cons (by simp) (by simp), tree.stop_eq]
      exact restIH rfl
  | @absent start stop node parts children isVacant rest ih =>
      cases layer_eq
      rw [partTokens_cons (by simp) (by simp), isVacant.stop_eq (Or.inl rfl)]
      exact ih rfl
  | vacantList isVacant after before followed rest ih =>
      cases layer_eq
      rw [partTokens_vacant followed]
      exact ih rfl
  | @closed start before middle after place stop node trailing tag closer parts children member
      listed spacing tree comma run spelled rest treeIH restIH =>
      cases layer_eq
      have closing := closedBehind_of_spelled (comma.placeBehind_eq run spelled member) spelled
      rw [partTokens_cons (by simp) (by simp), stop_appendComments, tree.stop_eq, closedEnd,
        Part.closer?, closing]
      rintro token (_ | ⟨_, later⟩)
      · exact ⟨List.mem_cons_of_mem _ member, spelled⟩
      · exact restIH rfl token later
  | @unclosed start before middle stop node closer parts children list spacing tree filled free
      rest treeIH restIH =>
      cases layer_eq
      have unclosed : closedBehind text middle (Part.unclosed closer).closer? = none :=
        closedBehind_of_not_spelled free
      rw [partTokens_cons (by simp) (by simp), tree.stop_eq, closedEnd, unclosed]
      exact restIH rfl
  | @opened start place middle stop node comments parts children run spelled tree filled rest
      treeIH restIH =>
      cases layer_eq
      rw [partTokens_opened, stop_withComments, tree.stop_eq, run.tokenPlace_eq]
      intro token member
      rcases List.mem_append.mp member with closing | ⟨_ | ⟨_, sign⟩⟩
      · exact restIH rfl token (List.mem_append_left _ closing)
      · exact ⟨List.mem_cons_self, spelled⟩
      · exact restIH rfl token (List.mem_append_right _ ‹_›)
  | @dropped start place stop symbol parts children member spacing spelled followed rest ih =>
      cases layer_eq
      rw [partTokens_dropped followed start (place + symbol.length)]
      exact ih rfl

/-- Words that close or announce the children of a tree stand in the text. -/
theorem Laid.childTokens_spelled {text : List Char} {start stop : Nat} {node : Node}
    (laid : Laid text start (.tree node) stop) :
    ∀ token ∈ node.childTokens text, IsChildToken text token := by
  cases laid with
  | leaf lead token => simp [childTokens_eq_nil token.children_eq]
  | vacant within tag isVacant => simp [childTokens_eq_nil isVacant.children_eq]
  | @leading _ place _ _ spelling parts form lead offset_eq spelled rest =>
      rw [form.childTokens_eq rest.admitsChildren (place + spelling.length)]
      exact rest.partTokens_spelled
  | @linking _ middle place _ _ first others spelling parts form children_eq front filled lead
      offset_eq spelled rest =>
      obtain ⟨-, closers_eq⟩ :=
        form.tokens_eq children_eq front filled lead.bounds.1 offset_eq rest
      rw [form.childTokens_eq children_eq closers_eq (place + spelling.length)]
      exact rest.partTokens_spelled
  | bare form comments_eq offset_eq after before shared rest =>
      have admits := rest.admitsChildren
      rw [form.childTokens_eq (form.closers_eq admits (form.tokenWord_eq admits shared)) start]
      exact rest.partTokens_spelled

/-- The token that a laid node stands for: none, that of a leaf, or the spelling of a form. -/
inductive TokenForm (text : List Char) (node : Node) : Prop
  | none (word_eq : node.tokenWord = "")
      (tagged : node.isLeaf = true → node.data = Tag.empty ∨ node.data = Tag.list)
  | leaf {place : Nat} (token : LeafToken text place node)
  | form {place : Nat} {spelling : String} (word_eq : node.tokenWord = spelling)
      (composite : node.isLeaf = false) (offset_eq : node.offset = some (place : Int))
      (spelled : Spelled text place spelling) (plain : '#' ∉ spelling.toList)

theorem AdmitsChildren.isLeaf_eq {node : Node} {parts : List Part}
    (admits : AdmitsChildren parts node.children) (closes : partClosers parts ≠ []) :
    node.isLeaf = false := by
  have length_eq := admits.length_eq
  cases children_eq : node.children with
  | nil =>
      rw [children_eq, List.length_nil, List.length_eq_zero_iff] at length_eq
      exact absurd length_eq closes
  | cons child others => simp [isLeaf, children_eq]

theorem LeadingForm.partClosers_ne_nil {data spelling : String} {parts : List Part}
    (form : LeadingForm data spelling parts) : partClosers parts ≠ [] := by
  cases form <;> simp [partClosers]

theorem Laid.tokenForm {text : List Char} {start stop : Nat} {node : Node}
    (laid : Laid text start (.tree node) stop) : TokenForm text node := by
  cases laid with
  | leaf lead token => exact .leaf token
  | vacant within tag isVacant =>
      refine .none (isVacant.tokenWord_eq tag) fun _ => ?_
      rwa [isVacant.data_eq]
  | leading form lead offset_eq spelled rest =>
      have admits := rest.admitsChildren
      exact .form (form.tokenWord_eq admits) (admits.isLeaf_eq form.partClosers_ne_nil)
        offset_eq spelled form.spelling_plain.1
  | linking form children_eq front filled lead offset_eq spelled rest =>
      obtain ⟨tokenWord_eq, -⟩ :=
        form.tokens_eq children_eq front filled lead.bounds.1 offset_eq rest
      exact .form tokenWord_eq (by simp [isLeaf, children_eq]) offset_eq spelled
        form.spelling_plain.1
  | bare form comments_eq offset_eq after before shared rest =>
      have admits := rest.admitsChildren
      obtain ⟨count, closers_eq⟩ := form.partClosers_eq
      have composite := admits.isLeaf_eq (by simp [closers_eq])
      exact .none (form.tokenWord_eq admits shared) (by simp [composite])

theorem LeafToken.of_sameBody {text : List Char} {place : Nat} {node other : Node}
    (token : LeafToken text place other) (same : SameBody node other) :
    LeafToken text place node := by
  refine ⟨same.children_eq.trans token.children_eq, same.offset_eq.trans token.offset_eq, ?_, ?_,
    ?_⟩
  · rw [same.data_eq]
    exact token.spelled
  · rw [same.data_eq]
    exact token.starts
  · rw [same.data_eq]
    exact token.regexp_of_sign

theorem TokenForm.of_sameBody {text : List Char} {node other : Node}
    (form : TokenForm text other) (same : SameBody node other) : TokenForm text node := by
  have isLeaf_eq : node.isLeaf = other.isLeaf := by rw [isLeaf, isLeaf, same.children_eq]
  cases form with
  | none word_eq tagged =>
      refine .none (same.tokenWord_eq.trans word_eq) ?_
      rwa [isLeaf_eq, same.data_eq]
  | leaf token => exact .leaf (token.of_sameBody same)
  | form word_eq composite offset_eq spelled plain =>
      exact .form (same.tokenWord_eq.trans word_eq) (isLeaf_eq.trans composite)
        (same.offset_eq.trans offset_eq) spelled plain

theorem TokenForm.ownToken_spelled {text : List Char} {node : Node}
    (form : TokenForm text node) :
    ∀ token ∈ node.ownToken, Spelled text token.place token.word ∧ token.word ≠ "" := by
  intro token member
  rw [ownToken] at member
  split at member
  · cases member
  · rename_i worded
    rw [List.mem_singleton] at member
    subst member
    refine ⟨?_, worded⟩
    cases form with
    | none word_eq => exact absurd word_eq worded
    | leaf leaf =>
        rw [leaf.tokenWord_eq, start_eq leaf.offset_eq]
        exact leaf.spelled
    | form word_eq composite offset_eq spelled plain =>
        rw [word_eq, start_eq offset_eq]
        exact spelled

/-! ### Programs -/

namespace ProgramLaid

variable {text : List Char} {tree : Node}

/-- Every node of a program has a layout in the text, up to its comments. -/
theorem of_mem_nodes (laid : ProgramLaid text tree) {node : Node} (member : node ∈ tree.nodes) :
    ∃ before middle inner, Laid text before (.tree inner) middle ∧ SameBody node inner := by
  obtain ⟨statements, trailing, before, stop, spacing, rootLaid, run, rfl⟩ := laid
  have rootSame : SameBody (statements.appendComments trailing) statements := ⟨rfl, rfl, rfl⟩
  obtain ⟨front, back, inner, -, -, innerLaid, same⟩ := rootLaid.of_mem_nodes rootSame member
  exact ⟨front, back, inner, innerLaid, same⟩

/-- Each character of a program has exactly one token or comment, unless it is loose. -/
theorem coveredOnce (laid : ProgramLaid text tree) :
    CoveredOnce text 0 text.length (treeHits text tree) := by
  obtain ⟨statements, trailing, before, stop, spacing, rootLaid, run, rfl⟩ := laid
  refine (((CoveredOnce.ofSpacing spacing).trans rootLaid.coveredOnce).trans
    (.ofRun run)).congr fun index => ?_
  rw [treeHits_appendComments, layerHits]
  omega

theorem treeHits_le_one (laid : ProgramLaid text tree) (index : Nat) :
    treeHits text tree index ≤ 1 := by
  have covered := laid.coveredOnce
  by_cases inside : index < text.length
  · rcases covered.inside index (Nat.zero_le _) inside with once | ⟨never, -⟩ <;> omega
  · have := covered.outside index (Or.inr (Nat.le_of_not_lt inside))
    omega

theorem childToken_mem_programTokens {node : Node} (member : node ∈ tree.nodes)
    {token : OwnedToken} (tokenMem : token ∈ node.childTokens text) :
    token ∈ tree.programTokens text := by
  refine List.mem_append_left _ (List.mem_flatMap.mpr ⟨node, member, ?_⟩)
  exact List.mem_append_right _ tokenMem

theorem ownToken_mem_programTokens {node : Node} (member : node ∈ tree.nodes)
    {token : OwnedToken} (tokenMem : token ∈ node.ownToken) :
    token ∈ tree.programTokens text := by
  refine List.mem_append_left _ (List.mem_flatMap.mpr ⟨node, member, ?_⟩)
  exact List.mem_append_left _ tokenMem

/-- Every comment of a node of a program is owned by the node through a token behind it. -/
theorem commentsLaid (laid : ProgramLaid text tree) {node : Node} (member : node ∈ tree.nodes) :
    CommentsLaid text (tree.programTokens text) node := by
  rcases mem_nodes_cases member with rfl | ⟨parent, parentMem, below⟩
  · obtain ⟨statements, trailing, before, stop, spacing, rootLaid, run, rfl⟩ := laid
    exact .append rootLaid (Nat.le_refl _) run
      (List.mem_append_right _ (List.mem_singleton_self _))
  · obtain ⟨before, middle, inner, innerLaid, same⟩ := laid.of_mem_nodes parentMem
    have childrenLaid := innerLaid.children
    rw [← same.children_eq, ← same.childTokens_eq] at childrenLaid
    exact (childrenLaid.commentsLaid node below).mono fun token tokenMem =>
      childToken_mem_programTokens parentMem tokenMem

theorem tokenForm (laid : ProgramLaid text tree) {node : Node} (member : node ∈ tree.nodes) :
    TokenForm text node := by
  obtain ⟨before, middle, inner, innerLaid, same⟩ := laid.of_mem_nodes member
  exact innerLaid.tokenForm.of_sameBody same

theorem childTokens_spelled (laid : ProgramLaid text tree) {node : Node}
    (member : node ∈ tree.nodes) : ∀ token ∈ node.childTokens text, IsChildToken text token := by
  obtain ⟨before, middle, inner, innerLaid, same⟩ := laid.of_mem_nodes member
  rw [same.childTokens_eq]
  exact innerLaid.childTokens_spelled

theorem tokens_spelled (laid : ProgramLaid text tree) :
    ∀ token ∈ tree.tokens text, Spelled text token.place token.word ∧ token.word ≠ "" := by
  intro token member
  obtain ⟨node, nodeMem, tokenMem⟩ := List.mem_flatMap.mp member
  rcases List.mem_append.mp tokenMem with own | child
  · exact (laid.tokenForm nodeMem).ownToken_spelled token own
  · have isChildToken := laid.childTokens_spelled nodeMem token child
    have worded : ∀ word ∈ childWords, word ≠ "" := by decide
    exact ⟨isChildToken.spelled, worded _ isChildToken.member⟩

end ProgramLaid

/-! ### Comments of a program -/

theorem Node.mem_allNodes_cases {tree node : Node} (member : node ∈ tree.allNodes) :
    node ∈ tree.nodes ∨
      ∃ owner ∈ tree.nodes, ∃ comment ∈ owner.comments, node ∈ comment.allNodes := by
  induction tree using Node.inductionOnChildren with
  | step tree ih =>
      rw [allNodes_eq] at member
      rcases List.mem_append.mp member with (_ | ⟨_, below⟩) | within
      · exact Or.inl (by simp [nodes_eq])
      · obtain ⟨child, childMem, nodeMem⟩ := mem_allNodesOfAll.mp below
        have inside : ∀ node ∈ child.nodes, node ∈ tree.nodes := by
          intro node nodeMem
          rw [nodes_eq]
          exact List.mem_cons_of_mem _ (mem_nodesOfAll.mpr ⟨child, childMem, nodeMem⟩)
        rcases ih child childMem nodeMem with own | ⟨owner, ownerMem, commented⟩
        · exact Or.inl (inside node own)
        · exact Or.inr ⟨owner, inside owner ownerMem, commented⟩
      · obtain ⟨comment, commentMem, nodeMem⟩ := mem_allNodesOfAll.mp within
        exact Or.inr ⟨tree, by simp [nodes_eq], comment, commentMem, nodeMem⟩

theorem IsComment.allNodes_pair {text : List Char} {offset : Nat} {span : CommentSpan}
    {comment : Node} (isComment : IsComment text offset span comment) :
    ∃ body, comment.children = [body] ∧ comment.allNodes = [comment, body] ∧
      body.comments = [] := by
  obtain ⟨body, children_eq, bodyChildren, bodyComments, -⟩ := isComment.children_eq
  refine ⟨body, children_eq, ?_, bodyComments⟩
  simp [allNodes_eq, children_eq, isComment.comments_eq, allNodesOfAll, bodyChildren,
    bodyComments]

/-- The comments of a tree are those of its nodes when no comment has comments itself. -/
theorem Node.attachedComments_eq {tree : Node}
    (plain : ∀ node ∈ tree.nodes, ∀ comment ∈ node.comments, comment.attachedComments = []) :
    tree.attachedComments = tree.treeComments := by
  induction tree using Node.inductionOnChildren with
  | step tree ih =>
      have own : (allNodesOfAll tree.comments).flatMap comments = [] := by
        have plainHere := plain tree (by simp [nodes_eq])
        revert plainHere
        induction tree.comments with
        | nil => exact fun _ => rfl
        | cons comment others ihComments =>
            intro plainHere
            rw [allNodesOfAll, List.flatMap_append,
              ihComments fun other member => plainHere other (List.mem_cons_of_mem _ member)]
            exact (List.append_nil _).trans (plainHere comment List.mem_cons_self)
      have below : (allNodesOfAll tree.children).flatMap comments =
          (nodesOfAll tree.children).flatMap comments := by
        have inside : ∀ child ∈ tree.children,
            child.attachedComments = child.treeComments := fun child childMem =>
          ih child childMem fun node nodeMem => plain node (by
            rw [nodes_eq]
            exact List.mem_cons_of_mem _ (mem_nodesOfAll.mpr ⟨child, childMem, nodeMem⟩))
        revert inside
        induction tree.children with
        | nil => exact fun _ => rfl
        | cons child others ihChildren =>
            intro inside
            rw [allNodesOfAll, nodesOfAll, List.flatMap_append, List.flatMap_append,
              ihChildren fun other member => inside other (List.mem_cons_of_mem _ member)]
            exact congrArg (· ++ _) (inside child List.mem_cons_self)
      rw [attachedComments, treeComments, allNodes_eq, nodes_eq, List.flatMap_append,
        List.flatMap_cons, List.flatMap_cons, own, below, List.append_nil]

namespace ProgramLaid

variable {text : List Char} {tree : Node}

theorem attachedComments_eq (laid : ProgramLaid text tree) :
    tree.attachedComments = tree.treeComments := by
  refine Node.attachedComments_eq fun node nodeMem comment commentMem => ?_
  obtain ⟨offset, span, isComment⟩ := (laid.commentsLaid nodeMem).isComment comment commentMem
  obtain ⟨body, -, allNodes_eq, bodyComments⟩ := isComment.allNodes_pair
  simp [attachedComments, allNodes_eq, isComment.comments_eq, bodyComments]

theorem isComment (laid : ProgramLaid text tree) {comment : Node}
    (member : comment ∈ tree.attachedComments) :
    ∃ offset span, IsComment text offset span comment := by
  rw [laid.attachedComments_eq] at member
  obtain ⟨node, nodeMem, commentMem⟩ := List.mem_flatMap.mp member
  exact (laid.commentsLaid nodeMem).isComment comment commentMem

theorem mem_nodes_of_comment (laid : ProgramLaid text tree) {node comment : Node}
    (member : node ∈ tree.allNodes) (commentMem : comment ∈ node.comments) :
    node ∈ tree.nodes := by
  rcases mem_allNodes_cases member with own | ⟨owner, ownerMem, other, otherMem, within⟩
  · exact own
  · obtain ⟨offset, span, isComment⟩ := (laid.commentsLaid ownerMem).isComment other otherMem
    obtain ⟨body, -, allNodes_eq, bodyComments⟩ := isComment.allNodes_pair
    simp only [allNodes_eq, List.mem_cons, List.not_mem_nil, or_false] at within
    rcases within with rfl | rfl
    · simp [isComment.comments_eq] at commentMem
    · simp [bodyComments] at commentMem

end ProgramLaid

end RubySyntax
