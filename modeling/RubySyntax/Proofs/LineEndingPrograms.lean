import RubySyntax.Proofs.LineEndingRuns
import RubySyntax.Proofs.TreeEquality
import RubySyntax.Proofs.TreeTokens

/-!
# Programs with other line endings

A program whose lines end with a carriage return and a line feed has the tree of the program
whose lines end with a line feed alone, and its line comments.
-/

namespace RubySyntax

namespace Node

def lineComments (node : Node) : List String :=
  (node.comments.filter fun comment => comment.data == Tag.lineComment).flatMap fun comment =>
    comment.children.map data

/-! ### What the content of a tree shows -/

mutual

theorem bare_content (node : Node) : node.content.bare = node.bare := by
  obtain ⟨data, children, comments, offset, position⟩ := node
  rw [content, bare, bare, bareAll_content children]

theorem bareAll_content (nodes : List Node) : bareAll (contentAll nodes) = bareAll nodes := by
  cases nodes with
  | nil => rfl
  | cons node others =>
      rw [contentAll, bareAll, bareAll, bare_content node, bareAll_content others]

end

mutual

theorem nodes_content (node : Node) : node.content.nodes = node.nodes.map content := by
  obtain ⟨data, children, comments, offset, position⟩ := node
  rw [nodes, List.map_cons, content, nodes, nodesOfAll_content children]

theorem nodesOfAll_content (trees : List Node) :
    nodesOfAll (contentAll trees) = (nodesOfAll trees).map content := by
  cases trees with
  | nil => rfl
  | cons node others =>
      rw [contentAll, nodesOfAll, nodesOfAll, List.map_append, nodes_content node,
        nodesOfAll_content others]

end

theorem lineComments_content (node : Node) : node.content.lineComments = node.lineComments := by
  have kept : ((fun comment : Node => comment.data == Tag.lineComment) ∘ noted) =
      fun comment => comment.data == Tag.lineComment := rfl
  rw [lineComments, content_eq, List.filter_map, kept, List.flatMap_map, lineComments]
  refine List.flatMap_congr fun comment member => ?_
  have line : comment.data = Tag.lineComment := by simpa using (List.mem_filter.mp member).2
  simp [noted, line]

theorem noted_located (table : PositionTable) (comment : Node) :
    (comment.located table).noted = comment.noted := by
  simp [noted, Function.comp_def]

mutual

theorem content_located (table : PositionTable) (node : Node) :
    (node.located table).content = node.content := by
  obtain ⟨data, children, comments, offset, position⟩ := node
  rw [located, content, content, contentAll_located table children, locatedAll_eq_map,
    List.map_map, Function.comp_def]
  simp only [noted_located]

theorem contentAll_located (table : PositionTable) (nodes : List Node) :
    contentAll (locatedAll table nodes) = contentAll nodes := by
  cases nodes with
  | nil => rfl
  | cons node others =>
      rw [locatedAll, contentAll, contentAll, content_located table node,
        contentAll_located table others]

end

theorem map_lineComments_content (tree : Node) :
    tree.content.nodes.map lineComments = tree.nodes.map lineComments := by
  rw [nodes_content, List.map_map]
  exact List.map_congr_left fun node _ => lineComments_content node

/-- Trees of the same content are equal, and their nodes carry the same line comments. -/
theorem alike_of_content {tree other : Node} (same : tree.content = other.content) :
    (tree == other) = true ∧ tree.nodes.map lineComments = other.nodes.map lineComments := by
  constructor
  · rw [beq_iff_bare, ← bare_content, same, bare_content]
  · rw [← map_lineComments_content, same, map_lineComments_content]

end Node

/-! ### Parses -/

/-- Two texts with the same lines are both programs with equal trees whose nodes carry the same
line comments, or neither of them is a program. -/
theorem SameLines.parse_alike {first second : List Char} (same : SameLines first second) :
    (∃ tree other, parse .standard first = .ok tree ∧ parse .standard second = .ok other ∧
      tree.content = other.content) ∨
    ∃ error endOffset otherError otherEnd,
      parse .standard first = .error (.mismatch error endOffset) ∧
        parse .standard second = .error (.mismatch otherError otherEnd) := by
  have start : AtSameLines (Cursor.ofText first) (Cursor.ofText second) := ⟨same, Or.inl rfl⟩
  rcases lineEndingLikeness.parse_alike start with ⟨root, other, parsed, parsedToo, alike⟩ | failed
  · refine Or.inl ⟨_, _, parsed, parsedToo, ?_⟩
    rw [Node.content_located, Node.content_located]
    exact alike
  · exact Or.inr failed

/-- Carriage returns in front of the line feeds of a program change neither its tree nor its line
comments, and they make no program of a text that is none. -/
theorem parse_withCarriageReturns {text : List Char} (plain : '\r' ∉ text) :
    (∃ tree other, parse .standard text = .ok tree ∧
      parse .standard (withCarriageReturns text) = .ok other ∧ (tree == other) = true ∧
        tree.nodes.map Node.lineComments = other.nodes.map Node.lineComments) ∨
    ∃ error endOffset otherError otherEnd,
      parse .standard text = .error (.mismatch error endOffset) ∧
        parse .standard (withCarriageReturns text) = .error (.mismatch otherError otherEnd) := by
  rcases (sameLines_withCarriageReturns plain).parse_alike with
    ⟨tree, other, parsed, parsedToo, same⟩ | failed
  · obtain ⟨equal, comments⟩ := Node.alike_of_content same
    exact Or.inl ⟨tree, other, parsed, parsedToo, equal, comments⟩
  · exact Or.inr failed

/-- The carriage return behind a comment is no part of its text. -/
theorem parse_withCarriageReturns_comment :
    '\r' ∉ "a # b\nc".toList ∧
      ∃ tree other, parse .standard "a # b\nc".toList = .ok tree ∧
        parse .standard "a # b\r\nc".toList = .ok other ∧ (tree == other) = true ∧
          tree.nodes.map Node.lineComments = [[], [], ["b"]] ∧
            other.nodes.map Node.lineComments = [[], [], ["b"]] := by
  have plain : '\r' ∉ "a # b\nc".toList := by decide
  obtain ⟨root, shown, comments⟩ : ∃ root : Node,
      parse .standard "a # b\nc".toList = .ok (root.located (.ofText "a # b\nc".toList)) ∧
        (root.nodes.map Node.lineComments == [[], [], ["b"]]) = true :=
    exists_parse_of_acceptsWhere (by
      rw [OperatorTables.standard_eq]
      decide +kernel)
  rcases parse_withCarriageReturns plain with
    ⟨tree, other, parsed, parsedToo, equal, same⟩ | ⟨error, endOffset, _, _, failed, _⟩
  · rw [shown] at parsed
    cases parsed
    have texts : (root.located (.ofText "a # b\nc".toList)).nodes.map Node.lineComments =
        [[], [], ["b"]] := by
      rw [← Node.map_lineComments_content, Node.content_located, Node.map_lineComments_content]
      exact beq_iff_eq.mp comments
    exact ⟨plain, _, other, shown, parsedToo, equal, texts, same ▸ texts⟩
  · rw [shown] at failed
    cases failed

end RubySyntax
