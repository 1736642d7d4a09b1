import RubySyntax.Proofs.TreeExtent

/-!
# What covers the characters of a source

Every character inside the layout of a tree is covered by exactly one token of
the tree or by exactly one of its comments, unless it only separates tokens or
spells a token that leaves nothing behind.  The tokens and comments are counted
per character, so that the counts of neighbouring parts add up.
-/

namespace RubySyntax

open Node

/-! ### Counting per character -/

/-- The number of tokens among several that cover an offset. -/
def tokenHits (index : Nat) (tokens : List OwnedToken) : Nat :=
  tokens.countP (·.covers index)

/-- The number of comments among several that cover an offset. -/
def commentHits (text : List Char) (index : Nat) (comments : List Node) : Nat :=
  comments.countP (commentCovers text index)

@[simp]
theorem tokenHits_append (index : Nat) (front back : List OwnedToken) :
    tokenHits index (front ++ back) = tokenHits index front + tokenHits index back := by
  simp [tokenHits]

@[simp]
theorem commentHits_append (text : List Char) (index : Nat) (front back : List Node) :
    commentHits text index (front ++ back) =
      commentHits text index front + commentHits text index back := by
  simp [commentHits]

@[simp]
theorem tokenHits_nil (index : Nat) : tokenHits index [] = 0 :=
  rfl

theorem tokenHits_cons (index : Nat) (token : OwnedToken) (tokens : List OwnedToken) :
    tokenHits index (token :: tokens) = tokenHits index [token] + tokenHits index tokens := by
  rw [← tokenHits_append, List.singleton_append]

@[simp]
theorem commentHits_nil (text : List Char) (index : Nat) : commentHits text index [] = 0 :=
  rfl

/-- What is counted at most once everywhere overlaps nowhere. -/
theorem pairwise_apart_of_countP_le_one {α : Type} {covers : Nat → α → Bool} {items : List α}
    (single : ∀ index, items.countP (covers index) ≤ 1) :
    items.Pairwise fun one other =>
      ∀ index, covers index one = true → covers index other = false := by
  induction items with
  | nil => exact List.Pairwise.nil
  | cons item others ih =>
      refine List.Pairwise.cons (fun other member index covered => ?_) (ih fun index => ?_)
      · by_cases again : covers index other = true
        · have twice := single index
          have later : 0 < others.countP (covers index) :=
            List.countP_pos_iff.mpr ⟨other, member, again⟩
          rw [List.countP_cons, if_pos covered] at twice
          omega
        · simpa using again
      · have once := single index
        rw [List.countP_cons] at once
        omega

/-- The character at an offset only separates tokens or spells one that leaves nothing behind. -/
def IsLooseAt (text : List Char) (index : Nat) : Prop :=
  isSpacingAt text index = true ∨ ∃ symbol ∈ droppedSymbols, Spelled text index symbol

/-- Each offset from one place to another is hit exactly once, unless its character is loose,
and no other offset is hit. -/
structure CoveredOnce (text : List Char) (start stop : Nat) (hits : Nat → Nat) : Prop where
  le : start ≤ stop
  outside : ∀ index, index < start ∨ stop ≤ index → hits index = 0
  inside : ∀ index, start ≤ index → index < stop →
    hits index = 1 ∨ hits index = 0 ∧ IsLooseAt text index

namespace CoveredOnce

variable {text : List Char} {start middle stop : Nat} {hits moreHits : Nat → Nat}

theorem nothing (text : List Char) (offset : Nat) : CoveredOnce text offset offset fun _ => 0 :=
  ⟨Nat.le_refl _, fun _ _ => rfl, fun _ after before => by omega⟩

theorem trans (front : CoveredOnce text start middle hits)
    (back : CoveredOnce text middle stop moreHits) :
    CoveredOnce text start stop fun index => hits index + moreHits index := by
  have frontLe := front.le
  have backLe := back.le
  refine ⟨by omega, fun index apart => ?_, fun index after before => ?_⟩
  · rw [front.outside index (by omega), back.outside index (by omega)]
  · by_cases early : index < middle
    · rw [back.outside index (Or.inl early), Nat.add_zero]
      exact front.inside index after early
    · rw [front.outside index (Or.inr (Nat.le_of_not_lt early)), Nat.zero_add]
      exact back.inside index (Nat.le_of_not_lt early) before

theorem congr (covered : CoveredOnce text start stop hits)
    (equal : ∀ index, moreHits index = hits index) : CoveredOnce text start stop moreHits := by
  obtain rfl : moreHits = hits := funext equal
  exact covered

theorem ofSpacing (spacing : Spacing text start stop) : CoveredOnce text start stop fun _ => 0 :=
  ⟨spacing.le, fun _ _ => rfl, fun index after before =>
    Or.inr ⟨rfl, Or.inl (spacing.separates index after before)⟩⟩

theorem ofDropped {place : Nat} {symbol : String} (member : symbol ∈ droppedSymbols)
    (spelled : Spelled text place symbol) :
    CoveredOnce text place (place + symbol.length) fun _ => 0 := by
  have single : ∀ symbol ∈ droppedSymbols, symbol.length = 1 := by decide
  refine ⟨Nat.le_add_right _ _, fun _ _ => rfl, fun index after before => ?_⟩
  have length_eq := single symbol member
  obtain rfl : index = place := by omega
  exact Or.inr ⟨rfl, Or.inr ⟨symbol, member, spelled⟩⟩

/-- A list with one item counts it where a test holds between two offsets. -/
private theorem ofSingle {α : Type} {item : α} {test : Nat → α → Bool} (le : start ≤ stop)
    (test_eq : ∀ index, test index item = (decide (start ≤ index) && decide (index < stop))) :
    CoveredOnce text start stop fun index => [item].countP (test index) := by
  refine ⟨le, fun index apart => ?_, fun index after before => Or.inl ?_⟩
  · have fails : test index item = false := by
      rw [test_eq, Bool.and_eq_false_iff, decide_eq_false_iff_not, decide_eq_false_iff_not]
      omega
    simp [fails]
  · have holds : test index item = true := by
      rw [test_eq, Bool.and_eq_true, decide_eq_true_eq, decide_eq_true_eq]
      exact ⟨after, before⟩
    simp [holds]

theorem ofToken (text : List Char) (place : Nat) (word : String) (owner : Node) :
    CoveredOnce text place (place + word.length) fun index =>
      tokenHits index [⟨place, word, owner⟩] :=
  ofSingle (Nat.le_add_right _ _) fun _ => rfl

theorem ofComment {offset : Nat} {span : CommentSpan} {comment : Node}
    (isComment : IsComment text offset span comment) :
    CoveredOnce text offset (offset + span.length) fun index =>
      commentHits text index [comment] := by
  refine ofSingle (Nat.le_add_right _ _) fun index => ?_
  rw [commentCovers, start_eq isComment.offset_eq, isComment.commentEnd_eq]

theorem ofRun {place : Nat} {comments : List Node}
    (run : CommentRun text start comments place) :
    CoveredOnce text start place fun index => commentHits text index comments := by
  induction run with
  | settled within settles => exact nothing text _
  | @gap offset place comments character present isGap rest ih =>
      have within := (List.getElem?_eq_some_iff.mp present).1
      have spacing : Spacing text offset (offset + 1) := by
        refine ⟨Nat.le_succ _, within, fun other after before => ?_⟩
        obtain rfl : other = offset := by omega
        exact isSpacingAt_of_isGap present isGap
      refine ((ofSpacing spacing).trans ih).congr fun index => ?_
      rw [Nat.zero_add]
  | @comment offset place comment comments span isComment rest ih =>
      refine ((ofComment isComment).trans ih).congr fun index => ?_
      rw [← commentHits_append, List.singleton_append]

theorem ofLead {place : Nat} {comments : List Node} (lead : Lead text start comments place) :
    CoveredOnce text start place fun index => commentHits text index comments := by
  cases lead with
  | run run => exact ofRun run
  | spacing spacing => exact (ofSpacing spacing).congr fun index => rfl

theorem ofTrailingComma {after : Nat} (comma : TrailingComma text start after) :
    CoveredOnce text start after fun _ => 0 := by
  cases comma with
  | none => exact nothing text start
  | @comma place run present =>
      have spelled : Spelled text place "," := by
        obtain ⟨within, equal⟩ := List.getElem?_eq_some_iff.mp present
        rw [Spelled, List.drop_eq_getElem_cons within, equal]
        exact ⟨_, rfl⟩
      exact ((ofRun run).trans (ofDropped (by decide) spelled)).congr fun index => rfl

end CoveredOnce

/-! ### Hits of trees -/

/-- The hits of several trees: those of the tokens of their nodes and of their comments. -/
def treesHits (text : List Char) (trees : List Node) (index : Nat) : Nat :=
  tokenHits index ((nodesOfAll trees).flatMap (localTokens text)) +
    commentHits text index ((nodesOfAll trees).flatMap comments)

def treeHits (text : List Char) (tree : Node) (index : Nat) : Nat :=
  tokenHits index (tree.tokens text) + commentHits text index tree.treeComments

theorem treeHits_eq (text : List Char) (tree : Node) (index : Nat) :
    treeHits text tree index = tokenHits index tree.ownToken +
      tokenHits index (tree.childTokens text) + commentHits text index tree.comments +
        treesHits text tree.children index := by
  simp only [treeHits, tokens, treeComments, treesHits, nodes_eq, List.flatMap_cons,
    tokenHits_append, commentHits_append, localTokens]
  omega

@[simp]
theorem treesHits_nil (text : List Char) (index : Nat) : treesHits text [] index = 0 :=
  rfl

theorem treesHits_cons (text : List Char) (tree : Node) (others : List Node) (index : Nat) :
    treesHits text (tree :: others) index =
      treeHits text tree index + treesHits text others index := by
  simp only [treeHits, tokens, treeComments, treesHits, nodes_eq, nodesOfAll_cons,
    List.flatMap_cons, List.flatMap_append, List.cons_append, tokenHits_append,
    commentHits_append]
  omega

/-- Other comments change nothing about the tokens of a node. -/
private theorem localHits_congr {node other : Node} (same : SameBody node other)
    (text : List Char) (index : Nat) :
    tokenHits index (node.localTokens text) = tokenHits index (other.localTokens text) := by
  simp only [localTokens, ownToken, same.tokenWord_eq, same.start_eq, same.childTokens_eq,
    tokenHits_append]
  congr 1
  split <;> rfl

theorem treeHits_withComments (text : List Char) (tree : Node) (comments : List Node)
    (index : Nat) : treeHits text (tree.withComments comments) index =
      commentHits text index comments + treeHits text tree index := by
  have same : SameBody (tree.withComments comments) tree := ⟨rfl, rfl, rfl⟩
  have local_eq := localHits_congr same text index
  simp only [localTokens, tokenHits_append] at local_eq
  rw [treeHits_eq, treeHits_eq, local_eq]
  simp only [withComments, commentHits_append]
  omega

theorem treeHits_appendComments (text : List Char) (tree : Node) (comments : List Node)
    (index : Nat) : treeHits text (tree.appendComments comments) index =
      treeHits text tree index + commentHits text index comments := by
  have same : SameBody (tree.appendComments comments) tree := ⟨rfl, rfl, rfl⟩
  have local_eq := localHits_congr same text index
  simp only [localTokens, tokenHits_append] at local_eq
  rw [treeHits_eq, treeHits_eq, local_eq]
  simp only [appendComments, commentHits_append]
  omega

/-! ### Tokens along the parts of a form -/

/-- The signs in front of children along some parts, behind an offset where a child ends. -/
def openedTokens (text : List Char) : Nat → List Part → List Node → List OwnedToken
  | _, .dropped _ :: parts, children => openedTokens text 0 parts children
  | behind, .opened :: parts, child :: children =>
    ⟨tokenPlace text behind, "<", child⟩ :: openedTokens text (child.stop text) parts children
  | _, part :: parts, child :: children =>
    openedTokens text (closedEnd text (child.stop text) part.closer?) parts children
  | _, _, _ => []

def partTokens (text : List Char) (behind : Nat) (parts : List Part) (children : List Node) :
    List OwnedToken :=
  closingTokens text (partClosers parts) children ++ openedTokens text behind parts children

theorem openedTokens_eq_nil {text : List Char} {parts : List Part}
    (plain : Part.opened ∉ parts) (behind : Nat) (children : List Node) :
    openedTokens text behind parts children = [] := by
  induction parts generalizing behind children with
  | nil => rfl
  | cons part parts ih =>
      simp only [List.mem_cons, not_or] at plain
      cases part with
      | opened => exact (plain.1 rfl).elim
      | dropped symbol => exact ih plain.2 0 children
      | _ =>
        cases children with
        | nil => rfl
        | cons child children => exact ih plain.2 _ children

/-- Where no sign comes next it does not matter where the child in front ends. -/
theorem openedTokens_of_childFollows {text : List Char} {parts : List Part}
    {children : List Node} (follows : ChildFollows parts children) (behind other : Nat) :
    openedTokens text behind parts children = openedTokens text other parts children := by
  cases children with
  | nil => exact (follows.ne_nil rfl).elim
  | cons child children =>
      rcases parts with _ | ⟨_ | _ | _ | _ | _ | _ | _, _⟩ <;>
        first | exact follows.elim | rfl

theorem parentTokens_eq_nil {text : List Char} {node : Node} (plain : node.data ≠ "class") :
    node.parentTokens text = [] :=
  if_neg plain

theorem Node.childTokens_eq_nil {text : List Char} {node : Node}
    (children_eq : node.children = []) : node.childTokens text = [] := by
  simp only [childTokens, parentTokens, children_eq, closingTokens]
  split <;> rfl

theorem LeadingForm.childTokens_eq {text : List Char} {node : Node} {spelling : String}
    {parts : List Part} (form : LeadingForm node.data spelling parts)
    (admits : AdmitsChildren parts node.children) (behind : Nat) :
    node.childTokens text = partTokens text behind parts node.children := by
  rw [childTokens, partTokens, form.closers_eq admits]
  congr 1
  generalize data_eq : node.data = data at form
  generalize children_eq : node.children = children at admits
  cases form with
  | singletonClass =>
      obtain ⟨target, others, rfl, -, admits⟩ := admits.cons_inv (by simp)
      obtain ⟨body, others, rfl, -, rfl⟩ :=
        AdmitsChildren.cons_inv (by simp) (show AdmitsChildren (.closed _ _ :: _) _ from admits)
      simp [parentTokens, data_eq, children_eq, openedTokens]
  | rootClass =>
      obtain ⟨name, others, rfl, -, admits⟩ := admits.cons_inv (by simp)
      obtain ⟨parent, others, rfl, ⟨empty, leaf⟩, admits⟩ := admits.cons_inv (by simp)
      obtain ⟨body, others, rfl, -, rfl⟩ :=
        AdmitsChildren.cons_inv (by simp) (show AdmitsChildren (.closed _ _ :: _) _ from admits)
      have isEmpty_eq : parent.isEmpty = true := by
        rw [isLeaf] at leaf
        simp [isEmpty, empty, leaf]
      simp [parentTokens, data_eq, children_eq, openedTokens, isEmpty_eq]
  | derivedClass =>
      obtain ⟨name, others, rfl, -, admits⟩ := admits.cons_inv (by simp)
      obtain ⟨parent, others, rfl, present, admits⟩ := admits.cons_inv (by simp)
      obtain ⟨body, others, rfl, -, rfl⟩ :=
        AdmitsChildren.cons_inv (by simp) (show AdmitsChildren (.closed _ _ :: _) _ from admits)
      have isEmpty_eq : parent.isEmpty = false := present
      simp [parentTokens, data_eq, children_eq, openedTokens, isEmpty_eq, Part.closer?, closedEnd,
        closedBehind]
  | operator member =>
      have operators : ∀ symbol ∈ leadingOperators, symbol ≠ "class" := by decide
      rw [openedTokens_eq_nil (by simp)]
      exact parentTokens_eq_nil (by rw [data_eq]; exact operators _ member)
  | _ =>
    rw [openedTokens_eq_nil (by simp)]
    exact parentTokens_eq_nil (by rw [data_eq]; decide)

theorem LinkingForm.childTokens_eq {text : List Char} {node first : Node} {others : List Node}
    {spelling : String} {parts : List Part} (form : LinkingForm node.data spelling parts)
    (children_eq : node.children = first :: others)
    (closers_eq : node.closers = none :: partClosers parts) (behind : Nat) :
    node.childTokens text = partTokens text behind parts others := by
  rw [childTokens, partTokens, closers_eq, children_eq]
  generalize data_eq : node.data = data at form
  have plain : node.parentTokens text = [] := by
    have operators : ∀ symbol ∈ linkingOperators, symbol ≠ "class" := by decide
    refine parentTokens_eq_nil ?_
    rw [data_eq]
    cases form with
    | operator member => exact operators _ member
    | _ => decide
  have unopened : openedTokens text behind parts others = [] := by
    refine openedTokens_eq_nil ?_ behind others
    cases form <;> simp
  rw [plain, unopened]
  rfl

theorem BareForm.childTokens_eq {text : List Char} {node : Node} {parts : List Part}
    (form : BareForm node.data parts) (closers_eq : node.closers = partClosers parts)
    (behind : Nat) : node.childTokens text = partTokens text behind parts node.children := by
  have unopened : ∀ count, Part.opened ∉ joinedParts [.dropped ","] count ∧
      Part.opened ∉ joinedParts [] count := by
    intro count
    induction count with
    | zero => simp [joinedParts]
    | succ count ih => simpa [joinedParts] using ih
  rw [childTokens, partTokens, closers_eq]
  generalize data_eq : node.data = data at form
  have plain : node.parentTokens text = [] := by
    refine parentTokens_eq_nil ?_
    rw [data_eq]
    cases form <;> decide
  rw [plain, openedTokens_eq_nil]
  cases form with
  | list count => exact (unopened count).1
  | sequence count => exact (unopened (count + 1)).2
  | _ => simp

/-! ### Layouts are covered -/

/-- The hits of a tree, or those of children along some parts and of the tokens around them. -/
def layerHits (text : List Char) (start : Nat) : Layer → Nat → Nat
  | .tree node, index => treeHits text node index
  | .parts parts children, index =>
    treesHits text children index + tokenHits index (partTokens text start parts children)

theorem tokenHits_ownToken {node : Node} {word : String} (word_eq : node.tokenWord = word)
    (positive : 0 < word.length) (index : Nat) :
    tokenHits index node.ownToken = tokenHits index [⟨node.start, word, node⟩] := by
  rw [ownToken, word_eq, if_neg]
  rintro rfl
  exact absurd positive (by decide)

theorem IsVacant.treeHits_eq {text : List Char} {data : String} {offset : Nat} {node : Node}
    (isVacant : IsVacant data offset node) (tag : data = Tag.empty ∨ data = Tag.list)
    (index : Nat) : treeHits text node index = 0 := by
  rw [RubySyntax.treeHits_eq, ownToken, isVacant.tokenWord_eq tag,
    childTokens_eq_nil isVacant.children_eq, isVacant.children_eq, isVacant.comments_eq]
  rfl

/-- The tokens along some parts begin with the one that closes the first child. -/
theorem partTokens_cons {text : List Char} {behind : Nat} {part : Part} {parts : List Part}
    {child : Node} {children : List Node} (kept : ∀ symbol, part ≠ .dropped symbol)
    (unopened : part ≠ .opened) :
    partTokens text behind (part :: parts) (child :: children) =
      (closedBehind text (child.stop text) part.closer?).toList.map
          (fun closing => ⟨closing.1, closing.2, child⟩) ++
        partTokens text (closedEnd text (child.stop text) part.closer?) parts children := by
  have closers_eq : partClosers (part :: parts) = part.closer? :: partClosers parts := by
    cases part with
    | dropped symbol => exact (kept symbol rfl).elim
    | _ => rfl
  have opened_eq : openedTokens text behind (part :: parts) (child :: children) =
      openedTokens text (closedEnd text (child.stop text) part.closer?) parts children := by
    cases part with
    | dropped symbol => exact (kept symbol rfl).elim
    | opened => exact (unopened rfl).elim
    | _ => rfl
  rw [partTokens, partTokens, closers_eq, opened_eq, closingTokens, List.append_assoc]
  rfl

/-- A sign in front of a child stands among the tokens along the parts. -/
theorem partTokens_opened {text : List Char} {behind : Nat} {parts : List Part} {child : Node}
    {children : List Node} : partTokens text behind (.opened :: parts) (child :: children) =
      closingTokens text (partClosers parts) children ++
        ⟨tokenPlace text behind, "<", child⟩ :: openedTokens text (child.stop text) parts children :=
  rfl

theorem partTokens_dropped {text : List Char} {parts : List Part} {children : List Node}
    (follows : ChildFollows parts children) (behind other : Nat) (symbol : String) :
    partTokens text behind (.dropped symbol :: parts) children =
      partTokens text other parts children := by
  rw [partTokens, partTokens, openedTokens_of_childFollows follows other 0]
  rfl

theorem partTokens_vacant {text : List Char} {parts : List Part} {child : Node}
    {children : List Node} (follows : ChildFollows parts children) (behind : Nat) :
    partTokens text behind (.vacant :: parts) (child :: children) =
      partTokens text behind parts children := by
  rw [partTokens_cons (by simp) (by simp), partTokens, partTokens,
    openedTokens_of_childFollows follows _ behind]
  rfl

theorem layerHits_cons {text : List Char} {start : Nat} {part : Part} {parts : List Part}
    {child : Node} {children : List Node} (kept : ∀ symbol, part ≠ .dropped symbol)
    (unopened : part ≠ .opened) (index : Nat) :
    layerHits text start (.parts (part :: parts) (child :: children)) index =
      treeHits text child index + tokenHits index
        ((closedBehind text (child.stop text) part.closer?).toList.map
          fun closing => ⟨closing.1, closing.2, child⟩) +
        layerHits text (closedEnd text (child.stop text) part.closer?) (.parts parts children)
          index := by
  rw [layerHits, layerHits, partTokens_cons kept unopened, treesHits_cons, tokenHits_append]
  omega

theorem layerHits_unclosed {text : List Char} {start middle : Nat} {part : Part}
    {parts : List Part} {child : Node} {children : List Node}
    (kept : ∀ symbol, part ≠ .dropped symbol) (unopened : part ≠ .opened)
    (ends : child.stop text = middle)
    (unclosed : closedBehind text middle part.closer? = none) (index : Nat) :
    layerHits text start (.parts (part :: parts) (child :: children)) index =
      treeHits text child index + layerHits text middle (.parts parts children) index := by
  rw [layerHits_cons kept unopened, ends, closedEnd, unclosed]
  simp

/-- The offsets of a layout are hit exactly once, unless their characters are loose. -/
theorem Laid.coveredOnce {text : List Char} {start stop : Nat} {layer : Layer}
    (laid : Laid text start layer stop) :
    CoveredOnce text start stop (layerHits text start layer) := by
  induction laid with
  | @leaf start place node lead token =>
      refine ((CoveredOnce.ofLead lead).trans
        (.ofToken text place node.data node)).congr fun index => ?_
      have own := tokenHits_ownToken token.tokenWord_eq token.length_pos index
      rw [start_eq token.offset_eq] at own
      show treeHits text node index = _
      rw [treeHits_eq, own, childTokens_eq_nil token.children_eq, token.children_eq]
      simp only [tokenHits_nil, treesHits_nil]
      omega
  | @vacant start node data within tag isVacant =>
      exact (CoveredOnce.nothing text start).congr (isVacant.treeHits_eq tag)
  | @leading start place stop node spelling parts form lead offset_eq spelled rest ih =>
      have admits := rest.admitsChildren
      refine (((CoveredOnce.ofLead lead).trans
        (.ofToken text place spelling node)).trans ih).congr fun index => ?_
      have own := tokenHits_ownToken (form.tokenWord_eq admits) form.spelling_length_pos index
      rw [start_eq offset_eq] at own
      show treeHits text node index = _
      rw [treeHits_eq, own, form.childTokens_eq admits (place + spelling.length), layerHits]
      omega
  | @linking start middle place stop node first others spelling parts form children_eq front
      filled lead offset_eq spelled rest frontIH restIH =>
      obtain ⟨tokenWord_eq, closers_eq⟩ :=
        form.tokens_eq children_eq front filled lead.bounds.1 offset_eq rest
      refine (((frontIH.trans (.ofLead lead)).trans
        (.ofToken text place spelling node)).trans restIH).congr fun index => ?_
      have own := tokenHits_ownToken tokenWord_eq form.spelling_length_pos index
      rw [start_eq offset_eq] at own
      show treeHits text node index = _
      rw [treeHits_eq, own,
        form.childTokens_eq children_eq closers_eq (place + spelling.length), children_eq,
        treesHits_cons, layerHits, layerHits]
      omega
  | @bare start place stop node parts form comments_eq offset_eq after before shared rest ih =>
      have admits := rest.admitsChildren
      have tokenWord_eq := form.tokenWord_eq admits shared
      refine ih.congr fun index => ?_
      show treeHits text node index = _
      rw [treeHits_eq, ownToken, if_pos tokenWord_eq,
        form.childTokens_eq (form.closers_eq admits tokenWord_eq) start, comments_eq, layerHits]
      simp only [tokenHits_nil, commentHits_nil]
      omega
  | nil within => exact CoveredOnce.nothing text _
  | @child start before middle stop node parts children spacing tree filled rest treeIH restIH =>
      refine (((CoveredOnce.ofSpacing spacing).trans treeIH).trans restIH).congr fun index => ?_
      rw [layerHits_unclosed (by simp) (by simp) tree.stop_eq rfl, layerHits]
      omega
  | @absent start stop node parts children isVacant rest ih =>
      refine ih.congr fun index => ?_
      rw [layerHits_unclosed (by simp) (by simp) (isVacant.stop_eq (Or.inl rfl)) rfl,
        isVacant.treeHits_eq (Or.inl rfl), Nat.zero_add]
  | @vacantList start place stop node parts children isVacant after before followed rest ih =>
      refine ih.congr fun index => ?_
      rw [layerHits, layerHits, partTokens_vacant followed, treesHits_cons,
        isVacant.treeHits_eq (Or.inr rfl), Nat.zero_add]
  | @closed start before middle after place stop node trailing tag closer parts children member
      listed spacing tree comma run spelled rest treeIH restIH =>
      refine ((((((CoveredOnce.ofSpacing spacing).trans treeIH).trans
        (.ofTrailingComma comma)).trans (.ofRun run)).trans
          (.ofToken text place closer (node.appendComments trailing))).trans restIH).congr
            fun index => ?_
      have closing := closedBehind_of_spelled (comma.placeBehind_eq run spelled member) spelled
      rw [layerHits_cons (by simp) (by simp), stop_appendComments, tree.stop_eq, closedEnd,
        Part.closer?, closing, treeHits_appendComments, layerHits]
      simp only [Option.toList_some, List.map_cons, List.map_nil]
      omega
  | @unclosed start before middle stop node closer parts children list spacing tree filled free
      rest treeIH restIH =>
      have unclosed : closedBehind text middle (Part.unclosed closer).closer? = none :=
        closedBehind_of_not_spelled free
      refine (((CoveredOnce.ofSpacing spacing).trans treeIH).trans restIH).congr fun index => ?_
      rw [layerHits_unclosed (by simp) (by simp) tree.stop_eq unclosed, layerHits]
      omega
  | @opened start place middle stop node comments parts children run spelled tree filled rest
      treeIH restIH =>
      refine ((((CoveredOnce.ofRun run).trans
        (.ofToken text place "<" (node.withComments comments))).trans treeIH).trans
          restIH).congr fun index => ?_
      rw [layerHits, layerHits, layerHits, partTokens_opened, run.tokenPlace_eq,
        stop_withComments, tree.stop_eq, partTokens, treesHits_cons, treeHits_withComments,
        tokenHits_append, tokenHits_append, tokenHits_cons]
      omega
  | @dropped start place stop symbol parts children member spacing spelled followed rest ih =>
      refine (((CoveredOnce.ofSpacing spacing).trans (.ofDropped member spelled)).trans ih).congr
        fun index => ?_
      rw [layerHits, layerHits, partTokens_dropped followed start (place + symbol.length)]
      omega

end RubySyntax
