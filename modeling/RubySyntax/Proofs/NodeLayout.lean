import RubySyntax.Proofs.TokenCover

/-!
# Layouts of the nodes of a tree

The layout of a tree gives one to each of its nodes, and says of each comment
which token it stands in front of.  The forms are gone in this view: only the
order of the children and the owners of their comments are left.
-/

namespace RubySyntax

open Node

/-! ### Comments of one node -/

/-- The comments of a node are comments of the text, in the order of the text.  Each stands in
front of the token of the node, or of one of the given tokens, which belongs to the node. -/
structure CommentsLaid (text : List Char) (tokens : List OwnedToken) (node : Node) : Prop where
  isComment : ∀ comment ∈ node.comments, ∃ offset span, IsComment text offset span comment
  owned : ∀ comment ∈ node.comments, ∃ token ∈ node.ownToken ++ tokens,
    token.owner = node ∧ token.place = tokenPlace text (commentEnd text comment)
  ordered : node.comments.Pairwise fun earlier later => earlier.start < later.start

theorem CommentsLaid.mono {text : List Char} {tokens more : List OwnedToken} {node : Node}
    (laid : CommentsLaid text tokens node) (subset : ∀ token ∈ tokens, token ∈ more) :
    CommentsLaid text more node := by
  refine ⟨laid.isComment, fun comment member => ?_, laid.ordered⟩
  obtain ⟨token, tokenMem, owner_eq, place_eq⟩ := laid.owned comment member
  refine ⟨token, ?_, owner_eq, place_eq⟩
  rcases List.mem_append.mp tokenMem with own | given
  · exact List.mem_append_left _ own
  · exact List.mem_append_right _ (subset token given)

theorem CommentsLaid.nil {text : List Char} {tokens : List OwnedToken} {node : Node}
    (none_eq : node.comments = []) : CommentsLaid text tokens node := by
  constructor <;> simp [none_eq]

theorem Lead.commentsLaid {text : List Char} {start place : Nat} {node : Node} {word : String}
    (lead : Lead text start node.comments place) (offset_eq : node.offset = some (place : Int))
    (word_eq : node.tokenWord = word) (positive : 0 < word.length) :
    CommentsLaid text [] node := by
  generalize comments_eq : node.comments = comments at lead
  cases lead with
  | spacing spacing => exact .nil comments_eq
  | run run =>
      subst comments_eq
      refine ⟨fun comment member => ?_, fun comment member => ?_, run.pairwise_start_lt⟩
      · obtain ⟨offset, span, isComment, -⟩ := run.comment_spec member
        exact ⟨offset, span, isComment⟩
      · obtain ⟨offset, span, isComment, -, -, place_eq⟩ := run.comment_spec member
        refine ⟨⟨node.start, word, node⟩, ?_, rfl, ?_⟩
        · have worded : node.tokenWord ≠ "" := by
            rw [word_eq]
            rintro rfl
            exact absurd positive (by decide)
          simp [ownToken, word_eq, if_neg (word_eq ▸ worded)]
        · rw [place_eq, start_eq offset_eq]

theorem Lead.start_bounds {text : List Char} {start place : Nat} {comments : List Node}
    (lead : Lead text start comments place) {comment : Node} (member : comment ∈ comments) :
    start ≤ comment.start ∧ comment.start < place := by
  cases lead with
  | spacing spacing => cases member
  | run run =>
      obtain ⟨offset, span, isComment, after, before, -⟩ := run.comment_spec member
      have positive := commentSpan?_length_pos isComment.found
      rw [start_eq isComment.offset_eq]
      omega

/-- The comments of a tree stand in front of its own token, inside its layout. -/
theorem Laid.commentsLaid {text : List Char} {start stop : Nat} {node : Node}
    (laid : Laid text start (.tree node) stop) : CommentsLaid text [] node ∧
      ∀ comment ∈ node.comments, start ≤ comment.start ∧ comment.start < stop := by
  cases laid with
  | @leaf _ place _ lead token =>
      refine ⟨lead.commentsLaid token.offset_eq token.tokenWord_eq token.length_pos,
        fun comment member => ?_⟩
      have := lead.start_bounds member
      omega
  | vacant within tag isVacant =>
      exact ⟨.nil isVacant.comments_eq, by simp [isVacant.comments_eq]⟩
  | leading form lead offset_eq spelled rest =>
      refine ⟨lead.commentsLaid offset_eq (form.tokenWord_eq rest.admitsChildren)
        form.spelling_length_pos, fun comment member => ?_⟩
      have := lead.start_bounds member
      have := rest.bounds
      omega
  | linking form children_eq front filled lead offset_eq spelled rest =>
      obtain ⟨tokenWord_eq, -⟩ :=
        form.tokens_eq children_eq front filled lead.bounds.1 offset_eq rest
      refine ⟨lead.commentsLaid offset_eq tokenWord_eq form.spelling_length_pos,
        fun comment member => ?_⟩
      have := lead.start_bounds member
      have := rest.bounds
      omega
  | bare form comments_eq => exact ⟨.nil comments_eq, by simp [comments_eq]⟩

theorem SameBody.ownToken_eq {node other : Node} (same : SameBody node other) :
    node.ownToken = other.ownToken.map fun token => { token with owner := node } := by
  rw [ownToken, ownToken, same.tokenWord_eq, same.start_eq]
  split <;> rfl

/-- The comments of a tree keep their owner under another node with the same body. -/
theorem CommentsLaid.owned_of_sameBody {text : List Char} {tokens : List OwnedToken}
    {node inner comment : Node} (laid : CommentsLaid text [] inner) (same : SameBody node inner)
    (member : comment ∈ inner.comments) : ∃ token ∈ node.ownToken ++ tokens,
      token.owner = node ∧ token.place = tokenPlace text (commentEnd text comment) := by
  obtain ⟨token, tokenMem, -, place_eq⟩ := laid.owned comment member
  rw [List.append_nil] at tokenMem
  refine ⟨{ token with owner := node }, List.mem_append_left _ ?_, rfl, place_eq⟩
  rw [same.ownToken_eq]
  exact List.mem_map_of_mem tokenMem

theorem CommentRun.owned {text : List Char} {tokens : List OwnedToken} {start place : Nat}
    {comments : List Node} {word : String} {node comment : Node}
    (run : CommentRun text start comments place) (given : ⟨place, word, node⟩ ∈ tokens)
    (member : comment ∈ comments) : ∃ token ∈ node.ownToken ++ tokens,
      token.owner = node ∧ token.place = tokenPlace text (commentEnd text comment) := by
  obtain ⟨offset, span, isComment, -, -, place_eq⟩ := run.comment_spec member
  exact ⟨_, List.mem_append_right _ given, rfl, place_eq.symm⟩

/-- A child keeps the comments behind it that stand in front of the word which closes it. -/
theorem CommentsLaid.append {text : List Char} {tokens : List OwnedToken} {node : Node}
    {trailing : List Node} {before middle after place : Nat} {word : String}
    (laid : Laid text before (.tree node) middle) (le : middle ≤ after)
    (run : CommentRun text after trailing place)
    (member : ⟨place, word, node.appendComments trailing⟩ ∈ tokens) :
    CommentsLaid text tokens (node.appendComments trailing) := by
  obtain ⟨own, bounds⟩ := laid.commentsLaid
  refine ⟨fun comment commentMem => ?_, fun comment commentMem => ?_, ?_⟩
  · rcases List.mem_append.mp commentMem with early | late
    · exact own.isComment comment early
    · obtain ⟨offset, span, isComment, -⟩ := run.comment_spec late
      exact ⟨offset, span, isComment⟩
  · rcases List.mem_append.mp commentMem with early | late
    · exact own.owned_of_sameBody ⟨rfl, rfl, rfl⟩ early
    · exact run.owned member late
  · refine List.pairwise_append.mpr ⟨own.ordered, run.pairwise_start_lt, ?_⟩
    intro early earlyMem late lateMem
    have earlyBounds := bounds early earlyMem
    have lateBounds := (Lead.run run).start_bounds lateMem
    omega

/-- A child keeps the comments in front of the sign that announces it. -/
theorem CommentsLaid.prepend {text : List Char} {tokens : List OwnedToken} {node : Node}
    {comments : List Node} {start place before middle : Nat} {word : String}
    (run : CommentRun text start comments place) (le : place ≤ before)
    (laid : Laid text before (.tree node) middle)
    (member : ⟨place, word, node.withComments comments⟩ ∈ tokens) :
    CommentsLaid text tokens (node.withComments comments) := by
  obtain ⟨own, bounds⟩ := laid.commentsLaid
  refine ⟨fun comment commentMem => ?_, fun comment commentMem => ?_, ?_⟩
  · rcases List.mem_append.mp commentMem with early | late
    · obtain ⟨offset, span, isComment, -⟩ := run.comment_spec early
      exact ⟨offset, span, isComment⟩
    · exact own.isComment comment late
  · rcases List.mem_append.mp commentMem with early | late
    · exact run.owned member early
    · exact own.owned_of_sameBody ⟨rfl, rfl, rfl⟩ late
  · refine List.pairwise_append.mpr ⟨run.pairwise_start_lt, own.ordered, ?_⟩
    intro early earlyMem late lateMem
    have earlyBounds := (Lead.run run).start_bounds earlyMem
    have lateBounds := bounds late lateMem
    omega

/-! ### Children in their order -/

/-- The children of a node lie one behind the other, apart from placeholders; the given tokens
around them own the comments that their own tokens do not. -/
inductive ChildrenLaid (text : List Char) (tokens : List OwnedToken) :
    Nat → List Node → Nat → Prop
  | nil {start stop : Nat} (le : start ≤ stop) : ChildrenLaid text tokens start [] stop
  | vacant {start place stop : Nat} {data : String} {child : Node} {children : List Node}
      (tag : data = Tag.empty ∨ data = Tag.list) (isVacant : IsVacant data place child)
      (after : start ≤ place) (before : place ≤ stop)
      (rest : ChildrenLaid text tokens start children stop) :
      ChildrenLaid text tokens start (child :: children) stop
  | cons {start before middle behind stop : Nat} {child inner : Node} {children : List Node}
      (after : start ≤ before) (laid : Laid text before (.tree inner) middle)
      (same : SameBody child inner) (commentsLaid : CommentsLaid text tokens child)
      (le : middle ≤ behind) (rest : ChildrenLaid text tokens behind children stop) :
      ChildrenLaid text tokens start (child :: children) stop

namespace ChildrenLaid

variable {text : List Char} {tokens more : List OwnedToken} {start stop : Nat}
  {children : List Node}

theorem le (laid : ChildrenLaid text tokens start children stop) : start ≤ stop := by
  induction laid with
  | nil le => exact le
  | vacant tag isVacant after before rest ih => exact ih
  | cons after laid same commentsLaid le rest ih =>
      have := laid.bounds
      omega

theorem mono (laid : ChildrenLaid text tokens start children stop)
    (subset : ∀ token ∈ tokens, token ∈ more) :
    ChildrenLaid text more start children stop := by
  induction laid with
  | nil le => exact .nil le
  | vacant tag isVacant after before rest ih => exact .vacant tag isVacant after before ih
  | cons after laid same commentsLaid le rest ih =>
      exact .cons after laid same (commentsLaid.mono subset) le ih

/-- Children that lie behind an offset also lie behind one in front of it. -/
theorem of_le {earlier : Nat} (laid : ChildrenLaid text tokens start children stop)
    (le : earlier ≤ start) : ChildrenLaid text tokens earlier children stop := by
  induction laid with
  | nil within => exact .nil (by omega)
  | vacant tag isVacant after before rest ih =>
      exact .vacant tag isVacant (by omega) before (ih le)
  | cons after laid same commentsLaid within rest ih =>
      exact .cons (by omega) laid same commentsLaid within rest

end ChildrenLaid

/-- The children along some parts lie one behind the other. -/
theorem Laid.childrenLaid {text : List Char} {start stop : Nat} {parts : List Part}
    {children : List Node} (laid : Laid text start (.parts parts children) stop) :
    ChildrenLaid text (partTokens text start parts children) start children stop := by
  generalize layer_eq : Layer.parts parts children = layer at laid
  induction laid generalizing parts children with
  | leaf | vacant | leading | linking | bare => cases layer_eq
  | nil =>
      cases layer_eq
      exact .nil (Nat.le_refl _)
  | @child start before middle stop node parts children spacing tree filled rest treeIH restIH =>
      cases layer_eq
      rw [partTokens_cons (by simp) (by simp), tree.stop_eq]
      exact .cons spacing.le tree (.refl node) (tree.commentsLaid.1.mono (by simp))
        (Nat.le_refl _) ((restIH rfl).mono fun token => List.mem_append_right _)
  | @absent start stop node parts children isVacant rest ih =>
      cases layer_eq
      rw [partTokens_cons (by simp) (by simp), isVacant.stop_eq (Or.inl rfl)]
      exact .vacant (Or.inl rfl) isVacant (Nat.le_refl _) rest.bounds.1
        ((ih rfl).mono fun token => List.mem_append_right _)
  | @vacantList start place stop node parts children isVacant after before followed rest ih =>
      cases layer_eq
      rw [partTokens_vacant followed]
      exact .vacant (Or.inr rfl) isVacant after before (ih rfl)
  | @closed start before middle after place stop node trailing tag closer parts children member
      listed spacing tree comma run spelled rest treeIH restIH =>
      cases layer_eq
      have commaBounds := comma.bounds tree.bounds.2
      have runBounds := run.bounds
      have closing := closedBehind_of_spelled (comma.placeBehind_eq run spelled member) spelled
      rw [partTokens_cons (by simp) (by simp), stop_appendComments, tree.stop_eq, closedEnd,
        Part.closer?, closing]
      refine .cons spacing.le tree ⟨rfl, rfl, rfl⟩ (.append tree commaBounds.1 run
        (List.mem_append_left _ (List.mem_singleton_self _))) ?_
        ((restIH rfl).mono fun token => List.mem_append_right _)
      omega
  | @unclosed start before middle stop node closer parts children list spacing tree filled free
      rest treeIH restIH =>
      cases layer_eq
      have unclosed : closedBehind text middle (Part.unclosed closer).closer? = none :=
        closedBehind_of_not_spelled free
      rw [partTokens_cons (by simp) (by simp), tree.stop_eq, closedEnd, unclosed]
      exact .cons spacing.le tree (.refl node) (tree.commentsLaid.1.mono (by simp))
        (Nat.le_refl _) ((restIH rfl).mono fun token => List.mem_append_right _)
  | @opened start place middle stop node comments parts children run spelled tree filled rest
      treeIH restIH =>
      cases layer_eq
      have runBounds := run.bounds
      have signs : ∀ token ∈ partTokens text middle parts children, token ∈
          partTokens text start (.opened :: parts) (node.withComments comments :: children) := by
        intro token member
        rw [partTokens_opened, stop_withComments, tree.stop_eq]
        rcases List.mem_append.mp member with closing | sign
        · exact List.mem_append_left _ closing
        · exact List.mem_append_right _ (List.mem_cons_of_mem _ sign)
      have sign : ⟨place, "<", node.withComments comments⟩ ∈
          partTokens text start (.opened :: parts) (node.withComments comments :: children) := by
        rw [partTokens_opened, run.tokenPlace_eq]
        exact List.mem_append_right _ List.mem_cons_self
      exact .cons (by omega) tree ⟨rfl, rfl, rfl⟩
        (.prepend run (Nat.le_add_right _ _) tree sign) (Nat.le_refl _) ((restIH rfl).mono signs)
  | @dropped start place stop symbol parts children member spacing spelled followed rest ih =>
      cases layer_eq
      have spacingLe := spacing.le
      rw [partTokens_dropped followed start (place + symbol.length)]
      exact (ih rfl).of_le (by omega)

/-- The children of a tree lie one behind the other inside its layout. -/
theorem Laid.children {text : List Char} {start stop : Nat} {node : Node}
    (laid : Laid text start (.tree node) stop) :
    ChildrenLaid text (node.childTokens text) start node.children stop := by
  have bounds := laid.bounds
  cases laid with
  | leaf lead token =>
      rw [token.children_eq]
      exact .nil bounds.1
  | vacant within tag isVacant =>
      rw [isVacant.children_eq]
      exact .nil bounds.1
  | @leading _ place _ _ spelling parts form lead offset_eq spelled rest =>
      have leadBounds := lead.bounds
      rw [form.childTokens_eq rest.admitsChildren (place + spelling.length)]
      exact rest.childrenLaid.of_le (by omega)
  | @linking _ middle place _ _ first others spelling parts form children_eq front filled lead
      offset_eq spelled rest =>
      have leadBounds := lead.bounds
      obtain ⟨-, closers_eq⟩ :=
        form.tokens_eq children_eq front filled leadBounds.1 offset_eq rest
      rw [form.childTokens_eq children_eq closers_eq (place + spelling.length), children_eq]
      exact .cons (Nat.le_refl _) front (.refl first) (front.commentsLaid.1.mono (by simp))
        (by omega) rest.childrenLaid
  | bare form comments_eq offset_eq after before shared rest =>
      have admits := rest.admitsChildren
      rw [form.childTokens_eq (form.closers_eq admits (form.tokenWord_eq admits shared)) start]
      exact rest.childrenLaid

/-! ### Every node of a tree -/

/-- What holds of a tree whenever it holds of its children holds of all trees. -/
theorem Node.inductionOnChildren {motive : Node → Prop}
    (step : ∀ node, (∀ child ∈ node.children, motive child) → motive node) (node : Node) :
    motive node := by
  refine step node fun child member => ?_
  exact inductionOnChildren step child
termination_by sizeOf node
decreasing_by
  cases node
  have smaller := List.sizeOf_lt_of_mem member
  simp only [Node.mk.sizeOf_spec] at smaller ⊢
  omega

/-- Every node of a tree is the root or a child of another node. -/
theorem Node.mem_nodes_cases {tree node : Node} (member : node ∈ tree.nodes) :
    node = tree ∨ ∃ parent ∈ tree.nodes, node ∈ parent.children := by
  induction tree using Node.inductionOnChildren with
  | step tree ih =>
      rw [nodes_eq] at member ⊢
      rcases List.mem_cons.mp member with rfl | inner
      · exact Or.inl rfl
      · obtain ⟨child, childMem, innerMem⟩ := mem_nodesOfAll.mp inner
        refine Or.inr ?_
        rcases ih child childMem innerMem with rfl | ⟨parent, parentMem, below⟩
        · exact ⟨tree, List.mem_cons_self, childMem⟩
        · exact ⟨parent, List.mem_cons_of_mem _ (mem_nodesOfAll.mpr ⟨child, childMem, parentMem⟩),
            below⟩

/-- Every child of a tree has a layout of its own, up to its comments. -/
theorem Laid.child_of_tree {text : List Char} {start stop : Nat} {tree : Node}
    (laid : Laid text start (.tree tree) stop) :
    ∀ child ∈ tree.children, ∃ before middle inner, start ≤ before ∧ middle ≤ stop ∧
      Laid text before (.tree inner) middle ∧ SameBody child inner := by
  intro child member
  cases laid with
  | leaf lead token => simp [token.children_eq] at member
  | vacant within tag isVacant => simp [isVacant.children_eq] at member
  | leading form lead offset_eq spelled rest =>
      have leadBounds := lead.bounds
      obtain ⟨before, middle, inner, after, within, innerLaid, same⟩ :=
        rest.child_of_mem child member
      exact ⟨before, middle, inner, by omega, within, innerLaid, same⟩
  | @linking _ middle _ _ _ first others _ _ form children_eq front filled lead offset_eq spelled
      rest =>
      have leadBounds := lead.bounds
      have onward := rest.bounds
      rw [children_eq] at member
      rcases List.mem_cons.mp member with rfl | later
      · exact ⟨start, middle, child, Nat.le_refl _, by omega, front, .refl child⟩
      · obtain ⟨before, middle, inner, after, within, innerLaid, same⟩ :=
          rest.child_of_mem child later
        exact ⟨before, middle, inner, by omega, within, innerLaid, same⟩
  | bare form comments_eq offset_eq after before shared rest =>
      exact rest.child_of_mem child member

/-- Every node of a tree has a layout of its own, up to its comments. -/
theorem Laid.of_mem_nodes {text : List Char} {start stop : Nat} {tree inner node : Node}
    (laid : Laid text start (.tree inner) stop) (same : SameBody tree inner)
    (member : node ∈ tree.nodes) :
    ∃ before middle inner, start ≤ before ∧ middle ≤ stop ∧
      Laid text before (.tree inner) middle ∧ SameBody node inner := by
  induction tree using Node.inductionOnChildren generalizing inner start stop with
  | step tree ih =>
      rw [nodes_eq] at member
      rcases List.mem_cons.mp member with rfl | below
      · exact ⟨start, stop, inner, Nat.le_refl _, Nat.le_refl _, laid, same⟩
      · obtain ⟨child, childMem, nodeMem⟩ := mem_nodesOfAll.mp below
        obtain ⟨front, back, core, after, within, coreLaid, coreSame⟩ :=
          laid.child_of_tree child (same.children_eq ▸ childMem)
        obtain ⟨before, middle, inner, behind, ends, innerLaid, innerSame⟩ :=
          ih child childMem coreLaid coreSame nodeMem
        exact ⟨before, middle, inner, by omega, by omega, innerLaid, innerSame⟩

theorem ChildrenLaid.commentsLaid {text : List Char} {tokens : List OwnedToken}
    {start stop : Nat} {children : List Node}
    (laid : ChildrenLaid text tokens start children stop) :
    ∀ child ∈ children, CommentsLaid text tokens child := by
  induction laid with
  | nil => simp
  | vacant tag isVacant after before rest ih =>
      rintro child (_ | ⟨_, member⟩)
      · exact .nil isVacant.comments_eq
      · exact ih child member
  | cons after laid same commentsLaid le rest ih =>
      rintro child (_ | ⟨_, member⟩)
      · exact commentsLaid
      · exact ih child member

end RubySyntax
