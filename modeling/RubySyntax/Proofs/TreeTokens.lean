import RubySyntax.Proofs.CommentRun

/-!
# Tokens of a tree

Most tokens of a source text are the token of a node: a leaf, an operator, a
keyword, an opening bracket or the colon of a label.  Some leave no node behind
but close a child, or announce it, and such a token belongs to that child.  Both
kinds are found from the tree and its text alone.
-/

namespace RubySyntax

/-- A token of the source and the node that it belongs to. -/
structure OwnedToken where
  place : Nat
  word : String
  owner : Node

/-- Whether a token covers an offset. -/
def OwnedToken.covers (token : OwnedToken) (index : Nat) : Bool :=
  token.place ≤ index && index < token.place + token.word.length

/-- Whether a comment covers an offset. -/
def commentCovers (text : List Char) (index : Nat) (comment : Node) : Bool :=
  comment.start ≤ index && index < commentEnd text comment

namespace Node

/-! ### Nodes of a tree -/

mutual

/-- The nodes of a tree apart from its comments, each in front of its children. -/
def nodes : Node → List Node
  | ⟨data, children, comments, offset, position⟩ =>
    ⟨data, children, comments, offset, position⟩ :: nodesOfAll children

def nodesOfAll : List Node → List Node
  | [] => []
  | node :: others => node.nodes ++ nodesOfAll others

end

def treeComments (tree : Node) : List Node :=
  tree.nodes.flatMap comments

mutual

/-- The nodes of a tree, its comments and their parts included. -/
def allNodes : Node → List Node
  | ⟨data, children, comments, offset, position⟩ =>
    ⟨data, children, comments, offset, position⟩ :: allNodesOfAll children ++
      allNodesOfAll comments

def allNodesOfAll : List Node → List Node
  | [] => []
  | node :: others => node.allNodes ++ allNodesOfAll others

end

/-- The comments that any node of a tree carries, one of a comment included. -/
def attachedComments (tree : Node) : List Node :=
  tree.allNodes.flatMap comments

theorem nodes_eq (node : Node) : node.nodes = node :: nodesOfAll node.children := by
  cases node
  rw [nodes]

theorem allNodes_eq (node : Node) :
    node.allNodes = node :: allNodesOfAll node.children ++ allNodesOfAll node.comments := by
  cases node
  rw [allNodes]

@[simp]
theorem nodesOfAll_nil : nodesOfAll [] = [] :=
  rfl

@[simp]
theorem nodesOfAll_cons (node : Node) (others : List Node) :
    nodesOfAll (node :: others) = node :: nodesOfAll node.children ++ nodesOfAll others := by
  rw [nodesOfAll, nodes_eq]

@[simp]
theorem nodesOfAll_append (front back : List Node) :
    nodesOfAll (front ++ back) = nodesOfAll front ++ nodesOfAll back := by
  induction front with
  | nil => rfl
  | cons node others ih => simp [ih]

theorem mem_nodesOfAll {trees : List Node} {node : Node} :
    node ∈ nodesOfAll trees ↔ ∃ tree ∈ trees, node ∈ tree.nodes := by
  induction trees with
  | nil => simp
  | cons tree others ih => simp [nodesOfAll, ih]

theorem mem_nodes_iff {tree node : Node} :
    node ∈ tree.nodes ↔ node = tree ∨ ∃ child ∈ tree.children, node ∈ child.nodes := by
  rw [nodes_eq, List.mem_cons, mem_nodesOfAll]

theorem mem_allNodesOfAll {trees : List Node} {node : Node} :
    node ∈ allNodesOfAll trees ↔ ∃ tree ∈ trees, node ∈ tree.allNodes := by
  induction trees with
  | nil => simp [allNodesOfAll]
  | cons tree others ih => simp [allNodesOfAll, ih]

/-! ### The token of a node -/

/-- The spelling of the token that a node stands for; empty if there is none. -/
def tokenWord (node : Node) : String :=
  if node.data = Tag.list then ""
  else if node.isLeaf then node.data
  else if node.data = Tag.sequence then ""
  else if node.data = Tag.invoke then
    -- A call without brackets has the offset of its callee or of its block.
    if node.children.any fun child => child.offset == node.offset then "" else "("
  else if node.data = Tag.index then "["
  else if node.data = Tag.block then "\x7b"
  else node.data

/-! ### Tokens that close or announce a child -/

/-- The words that may close the first children of a node. -/
def closingTable (node : Node) : List (Option String) :=
  if node.data = Tag.group then [some ")"]
  else if node.data = "[" then [some "]"]
  else if node.data = "\x7b" then [some "\x7d"]
  else if node.data = Tag.block then
    [if node.children.head?.any (·.data == Tag.list) then some "|" else none, some "\x7d"]
  else if node.data = Tag.index then [none, some "]"]
  else if node.data = Tag.invoke then if node.tokenWord = "" then [] else [none, some ")"]
  else if node.data = "?" then [none, some ":"]
  else if node.data = "module" then [none, some "end"]
  else if node.data = "class" then List.replicate (node.children.length - 1) none ++ [some "end"]
  else if node.data = "def" then
    [none, if node.children[1]?.any (·.data == Tag.list) then some ")" else none, some "end"]
  else []

/-- For each child of a node the word that may close it. -/
def closers (node : Node) : List (Option String) :=
  node.closingTable ++ List.replicate (node.children.length - node.closingTable.length) none

end Node

/-- The place and the spelling of a word that closes what ends at an offset, if it does. -/
def closedBehind (text : List Char) (behind : Nat) (closer? : Option String) :
    Option (Nat × String) :=
  match closer? with
  | none => none
  | some word =>
    if word.toList.isPrefixOf (text.drop (placeBehind text behind)) then
      some (placeBehind text behind, word)
    else none

/-- The end of what ends at an offset, with the word that closes it. -/
def closedEnd (text : List Char) (behind : Nat) (closer? : Option String) : Nat :=
  match closedBehind text behind closer? with
  | none => behind
  | some (place, word) => place + word.length

namespace Node

mutual

/-- The end of a tree in its text: behind its own token, its children and what closes them. -/
def stop (text : List Char) : Node → Nat
  | ⟨data, children, comments, offset, position⟩ =>
    let node : Node := ⟨data, children, comments, offset, position⟩
    max (node.start + node.tokenWord.length) (stopOfAll text node.closers children)

/-- The greatest end of several children, each with the word that may close it. -/
def stopOfAll (text : List Char) : List (Option String) → List Node → Nat
  | _, [] => 0
  | closers, child :: children =>
    max (closedEnd text (child.stop text) closers.head?.join)
      (stopOfAll text closers.tail children)

end

theorem stop_eq (text : List Char) (node : Node) :
    node.stop text =
      max (node.start + node.tokenWord.length) (stopOfAll text node.closers node.children) := by
  cases node
  rw [stop]

@[simp]
theorem stop_withComments (text : List Char) (node : Node) (comments : List Node) :
    (node.withComments comments).stop text = node.stop text := by
  rw [stop_eq, stop_eq]
  rfl

@[simp]
theorem stop_appendComments (text : List Char) (node : Node) (comments : List Node) :
    (node.appendComments comments).stop text = node.stop text := by
  rw [stop_eq, stop_eq]
  rfl

/-- The tokens that close several children, each of which may be closed by a word. -/
def closingTokens (text : List Char) : List (Option String) → List Node → List OwnedToken
  | _, [] => []
  | closers, child :: children =>
    (closedBehind text (child.stop text) closers.head?.join).toList.map
        (fun closing => ⟨closing.1, closing.2, child⟩) ++
      closingTokens text closers.tail children

/-- The sign in front of the parent of a class, which belongs to the parent. -/
def parentTokens (text : List Char) (node : Node) : List OwnedToken :=
  if node.data = "class" then
    match node.children with
    | [name, parent, _] =>
      if parent.isEmpty then [] else [⟨tokenPlace text (name.stop text), "<", parent⟩]
    | _ => []
  else []

/-- The tokens around the children of a node that belong to these children. -/
def childTokens (text : List Char) (node : Node) : List OwnedToken :=
  closingTokens text node.closers node.children ++ node.parentTokens text

/-- The token of a node, if it stands for one. -/
def ownToken (node : Node) : List OwnedToken :=
  if node.tokenWord = "" then [] else [⟨node.start, node.tokenWord, node⟩]

/-- The token of a node and those that belong to its children but to no node of their own. -/
def localTokens (text : List Char) (node : Node) : List OwnedToken :=
  node.ownToken ++ node.childTokens text

def tokens (text : List Char) (tree : Node) : List OwnedToken :=
  tree.nodes.flatMap (localTokens text)

/-- The tokens of a program: those of its tree and, for the root, the end of the text. -/
def programTokens (text : List Char) (tree : Node) : List OwnedToken :=
  tree.tokens text ++ [⟨text.length, "", tree⟩]

end Node

end RubySyntax
