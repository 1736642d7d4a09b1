import RubySyntax.Proofs.MatcherAnswers
import RubySyntax.Proofs.ResolutionLayout
import RubySyntax.Proofs.TreeTokens

/-!
# Trees before their resolution

No matcher gives a node a position.  Every production only puts nodes together
that other matchers answer, so this is a property of all values that carries over
from the parts of a matcher to the whole.
-/

namespace RubySyntax

namespace Node

/-- No node of a tree has a position, those of its comments included. -/
def Unresolved (tree : Node) : Prop :=
  ∀ node ∈ tree.allNodes, node.position = none

instance (tree : Node) : Decidable tree.Unresolved :=
  inferInstanceAs (Decidable (∀ node ∈ tree.allNodes, node.position = none))

/-- A comment that was placed is found below its node. -/
example : ¬ ({ data := "a", comments := [{ data := "#", position := some ⟨1, 3⟩ }] } :
    Node).Unresolved := by
  decide +kernel

theorem unresolved_iff {tree : Node} :
    tree.Unresolved ↔ tree.position = none ∧ (∀ child ∈ tree.children, child.Unresolved) ∧
      ∀ comment ∈ tree.comments, comment.Unresolved := by
  constructor
  · intro unresolved
    rw [Unresolved, allNodes_eq] at unresolved
    refine ⟨unresolved tree (by simp), fun child member node inner => ?_,
      fun comment member node inner => ?_⟩
    · have below := mem_allNodesOfAll.mpr ⟨child, member, inner⟩
      exact unresolved node (by simp [below])
    · have below := mem_allNodesOfAll.mpr ⟨comment, member, inner⟩
      exact unresolved node (by simp [below])
  · rintro ⟨own, children, comments⟩ node member
    rw [allNodes_eq] at member
    simp only [List.cons_append, List.mem_cons, List.mem_append] at member
    rcases member with rfl | below | below
    · exact own
    · obtain ⟨child, childMem, inner⟩ := mem_allNodesOfAll.mp below
      exact children child childMem node inner
    · obtain ⟨comment, commentMem, inner⟩ := mem_allNodesOfAll.mp below
      exact comments comment commentMem node inner

theorem Unresolved.leaf (data : String) (offset : Option Int) :
    ({ data := data, offset := offset } : Node).Unresolved :=
  unresolved_iff.2 ⟨rfl, by simp, by simp⟩

theorem Unresolved.withChildren {node : Node} {children : List Node}
    (unresolved : node.Unresolved) (each : ∀ child ∈ children, child.Unresolved) :
    (node.withChildren children).Unresolved :=
  have parts := unresolved_iff.1 unresolved
  unresolved_iff.2 ⟨parts.1, each, parts.2.2⟩

theorem Unresolved.retag {node : Node} (unresolved : node.Unresolved) (data : String) :
    (node.retag data).Unresolved :=
  have parts := unresolved_iff.1 unresolved
  unresolved_iff.2 ⟨parts.1, parts.2.1, parts.2.2⟩

theorem Unresolved.withComments {node : Node} {comments : List Node}
    (unresolved : node.Unresolved) (each : ∀ comment ∈ comments, comment.Unresolved) :
    (node.withComments comments).Unresolved := by
  have parts := unresolved_iff.1 unresolved
  refine unresolved_iff.2 ⟨parts.1, parts.2.1, fun comment member => ?_⟩
  exact (List.mem_append.mp member).elim (each comment) (parts.2.2 comment)

theorem Unresolved.appendComments {node : Node} {comments : List Node}
    (unresolved : node.Unresolved) (each : ∀ comment ∈ comments, comment.Unresolved) :
    (node.appendComments comments).Unresolved := by
  have parts := unresolved_iff.1 unresolved
  refine unresolved_iff.2 ⟨parts.1, parts.2.1, fun comment member => ?_⟩
  exact (List.mem_append.mp member).elim (parts.2.2 comment) (each comment)

theorem Unresolved.comments {node : Node} (unresolved : node.Unresolved) :
    ∀ comment ∈ node.comments, comment.Unresolved :=
  (unresolved_iff.1 unresolved).2.2

theorem Unresolved.children {node : Node} (unresolved : node.Unresolved) :
    ∀ child ∈ node.children, child.Unresolved :=
  (unresolved_iff.1 unresolved).2.1

end Node

namespace Matcher

/-! ### Tokens and comments -/

/-- The trees that a matcher answers have no positions. -/
abbrev Unplaced (matcher : Matcher Node) : Prop :=
  Answers Node.Unresolved matcher

/-- No tree of a list has positions. -/
abbrev AllUnresolved (nodes : List Node) : Prop :=
  ∀ node ∈ nodes, node.Unresolved

theorem terminal_unplaced (kind : Terminal) : Unplaced (terminal kind) := by
  intro cursor node next reads
  obtain ⟨length, -, rfl, -⟩ := reads_terminal.mp reads
  exact .leaf _ _

theorem commentsBefore_unplaced (kind : Skip) : Answers AllUnresolved (commentsBefore kind) := by
  refine .many (.afterSkip fun cursor comment next reads => ?_)
  have plain : ∃ kind text offset textOffset, comment = Node.comment kind text offset textOffset := by
    rcases reads_orElse.mp reads with block | ⟨-, line⟩
    · obtain ⟨span, -, -, equal⟩ := reads_commentOf.mp (reads_blockComment.mp block).2
      exact ⟨_, _, _, _, equal⟩
    · obtain ⟨span, -, -, equal⟩ := reads_commentOf.mp line
      exact ⟨_, _, _, _, equal⟩
  obtain ⟨kind, text, offset, textOffset, rfl⟩ := plain
  refine Node.unresolved_iff.2 ⟨rfl, ?_, by simp [Node.comment]⟩
  rintro body (_ | ⟨_, impossible⟩)
  · exact .leaf _ _
  · cases impossible

theorem withCommentsBefore_unplaced {matcher : Matcher Node} (unplaced : Unplaced matcher)
    (kind : Skip) : Unplaced (withCommentsBefore kind matcher) :=
  .bind (commentsBefore_unplaced kind) fun _ comments =>
    .bind unplaced fun _ node => .pure (node.withComments comments)

theorem spaced_unplaced {matcher : Matcher Node} (unplaced : Unplaced matcher) :
    Unplaced (spaced matcher) :=
  withCommentsBefore_unplaced (.afterSkip unplaced) .blanks

theorem spacedTerminal_unplaced (kind : Terminal) : Unplaced (spaced (terminal kind)) :=
  spaced_unplaced (terminal_unplaced kind)

theorem closing_unplaced (closer : Matcher Node) (kind : Skip) :
    Answers AllUnresolved (closing closer kind) :=
  .bind (commentsBefore_unplaced kind) fun _ comments => .bindAny fun _ => .pure comments

theorem orEmpty_unplaced {matcher : Matcher Node} (unplaced : Unplaced matcher) :
    Unplaced (orEmpty matcher) := by
  refine .bindAny fun offset => .bind (.optional unplaced) fun node? found => .pure ?_
  cases node? with
  | none => exact .leaf _ _
  | some node => exact found node rfl

/-! ### Lists and labels -/

theorem listNode_unresolved {items : List Node} (unresolved : AllUnresolved items) (offset : Nat) :
    (listNode offset items).Unresolved :=
  Node.unresolved_iff.2 ⟨rfl, unresolved, by simp [listNode]⟩

theorem pairNode_unresolved {key : Node} {value : List Node} (keyUnresolved : key.Unresolved)
    (unresolved : AllUnresolved value) : (pairNode key value).Unresolved := by
  refine Node.unresolved_iff.2 ⟨rfl, ?_, by simp [pairNode]⟩
  rintro child (_ | ⟨_, member⟩)
  · exact keyUnresolved
  · exact unresolved child member

theorem separated_unplaced {item : Matcher Node} (unplaced : Unplaced item)
    (separator : Matcher Node) : Answers AllUnresolved (separated item separator) := by
  refine .bind unplaced fun first firstUnresolved =>
    .bind (.many (.bindAny fun _ => unplaced)) fun others othersUnresolved => .pure ?_
  rintro node (_ | ⟨_, member⟩)
  · exact firstUnresolved
  · exact othersUnresolved node member

theorem itemList_unplaced {item : Matcher Node} (unplaced : Unplaced item)
    (separator : Matcher Node) : Unplaced (itemList item separator) :=
  .bindAny fun offset => .bind (separated_unplaced unplaced separator) fun _ items =>
    .pure (listNode_unresolved items offset)

private theorem listNode_getD_unresolved {items? : Option (List Node)}
    (found : ∀ items ∈ items?, AllUnresolved items) (offset : Nat) :
    (listNode offset (items?.getD [])).Unresolved := by
  cases items? with
  | none => exact listNode_unresolved (by simp [AllUnresolved]) offset
  | some items => exact listNode_unresolved (found items rfl) offset

theorem optionalItemList_unplaced {item : Matcher Node} (unplaced : Unplaced item)
    (separator : Matcher Node) : Unplaced (optionalItemList item separator) :=
  .bindAny fun offset => .bind (.optional (separated_unplaced unplaced separator)) fun _ found =>
    .pure (listNode_getD_unresolved found offset)

theorem trailedItemList_unplaced {item : Matcher Node} (unplaced : Unplaced item)
    (separator : Matcher Node) : Unplaced (trailedItemList item separator) :=
  .bindAny fun offset =>
    .bind (.optional (.bind (separated_unplaced unplaced separator) fun _ items =>
      .bindAny fun _ => .pure items)) fun _ found =>
        .pure (listNode_getD_unresolved found offset)

/-! ### Productions -/

variable {rules : Rules}

private theorem mem_pair {first second : Node} (firstUnresolved : first.Unresolved)
    (secondUnresolved : second.Unresolved) : AllUnresolved [first, second] := by
  rintro node (_ | ⟨_, _ | ⟨_, impossible⟩⟩)
  · exact firstUnresolved
  · exact secondUnresolved
  · cases impossible

private theorem mem_single {node : Node} (unresolved : node.Unresolved) : AllUnresolved [node] := by
  rintro other (_ | ⟨_, impossible⟩)
  · exact unresolved
  · cases impossible

theorem argument_unplaced (unplaced : ∀ reference, Unplaced (rules reference)) (mode : Mode) :
    Unplaced (argument rules mode) :=
  .orElse
    (.bind (spacedTerminal_unplaced .label) fun _ key =>
      .bind (unplaced _) fun _ value => .pure (pairNode_unresolved key (mem_single value)))
    (unplaced _)

theorem bracketed_unplaced (unplaced : ∀ reference, Unplaced (rules reference))
    (opening closer : String) :
    Answers (fun pair => pair.1.Unresolved ∧ pair.2.Unresolved)
      (bracketed rules opening closer) :=
  .bind (terminal_unplaced _) fun _ bracket =>
    .bind (trailedItemList_unplaced (argument_unplaced unplaced .argument) comma)
      fun _ arguments => .bind (closing_unplaced _ _) fun _ trailing =>
        .pure ⟨bracket, arguments.appendComments trailing⟩

theorem parameter_unplaced {default : Matcher Node} (unplaced : Unplaced default) :
    Unplaced (parameter default) := by
  refine .firstOf fun matcher member => ?_
  simp only [List.mem_cons, List.not_mem_nil, or_false] at member
  rcases member with rfl | rfl | rfl
  · exact .bind (spacedTerminal_unplaced _) fun _ operator =>
      .bind (terminal_unplaced _) fun _ name => .pure (operator.withChildren (mem_single name))
  · refine .bind (spacedTerminal_unplaced _) fun key keyUnresolved =>
      .bind (.optional (.bindAny fun _ => unplaced)) fun value? found => .pure ?_
    refine pairNode_unresolved keyUnresolved fun value member => found value ?_
    exact Option.mem_toList.mp member
  · refine .bind (spacedTerminal_unplaced _) fun name nameUnresolved => ?_
    have defaults : Answers (fun pair : Node × Node => pair.1.Unresolved ∧ pair.2.Unresolved) (do
        let equals ← onSameLine (punctuation "=" "=~>")
        let value ← default
        return (equals, value)) :=
      .bind (.afterSkip (terminal_unplaced _)) fun _ equals =>
        .bind unplaced fun _ value => .pure ⟨equals, value⟩
    refine .bind (.optional defaults) fun default? found => ?_
    cases default? with
    | none => exact .pure nameUnresolved
    | some pair =>
        obtain ⟨equals, value⟩ := found pair rfl
        exact .pure (equals.withChildren (mem_pair nameUnresolved value))

theorem bodyUpTo_unplaced (unplaced : ∀ reference, Unplaced (rules reference))
    (closer : Matcher Node) (kind : Skip) : Unplaced (bodyUpTo rules (closing closer kind)) :=
  .bind (orEmpty_unplaced (.afterSkip (unplaced _))) fun _ statements =>
    .bind (closing_unplaced _ _) fun _ trailing => .pure (statements.appendComments trailing)

theorem definition_unplaced {parts : Matcher (List Node)} (unplaced : Answers AllUnresolved parts)
    (word : String) : Unplaced (definition word parts) :=
  .bind (terminal_unplaced _) fun _ keyword =>
    .bind unplaced fun _ children => .pure (keyword.withChildren children)

theorem definedName_unplaced : Unplaced definedName := by
  refine .bind (spacedTerminal_unplaced _) fun name nameUnresolved => ?_
  have singletons : Answers (fun pair : Node × Node => pair.1.Unresolved ∧ pair.2.Unresolved) (do
      let dot ← punctuation "."
      let member ← terminal .methodName
      return (dot, member)) :=
    .bind (terminal_unplaced _) fun _ dot =>
      .bind (terminal_unplaced _) fun _ member => .pure ⟨dot, member⟩
  refine .bind (.optional singletons) fun singleton? found => ?_
  cases singleton? with
  | none => exact .pure nameUnresolved
  | some pair =>
      obtain ⟨dot, member⟩ := found pair rfl
      exact .pure (dot.withChildren (mem_pair nameUnresolved member))

theorem methodDefinition_unplaced (unplaced : ∀ reference, Unplaced (rules reference)) :
    Unplaced (methodDefinition rules) := by
  have parameters : Unplaced (orEmpty ((parenthesizedParameters rules).orElse
      (bareParameters rules))) := by
    refine orEmpty_unplaced (.orElse (.bindAny fun _ => ?_) (.bindAny fun _ => ?_))
    · exact .bind (optionalItemList_unplaced (parameter_unplaced (unplaced _)) comma)
        fun _ list => .bind (closing_unplaced _ _) fun _ trailing =>
          .pure (list.appendComments trailing)
    · exact itemList_unplaced (parameter_unplaced (unplaced _)) commaOnSameLine
  refine definition_unplaced (.bind definedName_unplaced fun name nameUnresolved =>
    .bind parameters fun list listUnresolved =>
      .bind (bodyUpTo_unplaced unplaced _ _) fun body bodyUnresolved => .pure ?_) "def"
  rintro node (_ | ⟨_, member⟩)
  · exact nameUnresolved
  · exact mem_pair listUnresolved bodyUnresolved node member

theorem classDefinition_unplaced (unplaced : ∀ reference, Unplaced (rules reference)) :
    Unplaced (classDefinition rules) := by
  have headers : Answers AllUnresolved ((singletonTarget rules).orElse (classHeader rules)) := by
    refine .orElse ?_ ?_
    · exact .bind (spacedTerminal_unplaced _) fun _ shift =>
        .bind (unplaced _) fun _ target =>
          .pure (mem_single (shift.withChildren (mem_single target)))
    · refine .bind (unplaced _) fun name nameUnresolved =>
        .bind (orEmpty_unplaced (.bind (spacedTerminal_unplaced _) fun less lessUnresolved =>
          .bind (unplaced _) fun parent parentUnresolved =>
            .pure (parentUnresolved.withComments lessUnresolved.comments)))
              fun _ parent => .pure (mem_pair nameUnresolved parent)
  refine definition_unplaced (.bind headers fun header headerUnresolved =>
    .bind (bodyUpTo_unplaced unplaced _ _) fun body bodyUnresolved => .pure ?_) "class"
  intro node member
  exact (List.mem_append.mp member).elim (headerUnresolved node) (mem_single bodyUnresolved node)

theorem primary_unplaced (unplaced : ∀ reference, Unplaced (rules reference)) :
    Unplaced (primary rules) := by
  have containers (opening closer : String) : Unplaced (container rules opening closer) :=
    .bind (bracketed_unplaced unplaced opening closer) fun _ pair =>
      .pure (pair.1.withChildren (mem_single pair.2))
  have names : Unplaced aliasName := by
    refine .afterSkip (.firstOf fun matcher member => ?_)
    simp only [List.mem_cons, List.not_mem_nil, or_false] at member
    rcases member with rfl | rfl | rfl <;> exact terminal_unplaced _
  refine spaced_unplaced (.firstOf fun matcher member => ?_)
  simp only [List.mem_cons, List.not_mem_nil, or_false] at member
  rcases member with rfl | rfl | rfl | rfl | rfl | rfl | rfl | rfl | rfl | rfl | rfl | rfl | rfl
  · exact methodDefinition_unplaced unplaced
  · exact classDefinition_unplaced unplaced
  · exact definition_unplaced (.bind (unplaced _) fun _ name =>
      .bind (bodyUpTo_unplaced unplaced _ _) fun _ body => .pure (mem_pair name body)) "module"
  · exact definition_unplaced (.bind names fun _ newName =>
      .bind names fun _ oldName => .pure (mem_pair newName oldName)) "alias"
  · exact terminal_unplaced _
  · exact terminal_unplaced _
  · exact terminal_unplaced _
  · exact terminal_unplaced _
  · exact terminal_unplaced _
  · exact terminal_unplaced _
  · exact .bind (terminal_unplaced _) fun _ opening =>
      .bind (bodyUpTo_unplaced unplaced _ _) fun _ body =>
        .pure ((opening.retag _).withChildren (mem_single body))
  · exact containers "[" "]"
  · exact containers "\x7b" "\x7d"

/-! ### Suffixes and chains -/

def SuffixUnresolved : Suffix → Prop
  | .wrap operator child => operator.Unresolved ∧ child.Unresolved
  | .block block => block.Unresolved

theorem attach_unresolved {operand : Node} {suffix : Suffix} (operandUnresolved : operand.Unresolved)
    (unresolved : SuffixUnresolved suffix) : (Suffix.attach operand suffix).Unresolved := by
  cases suffix with
  | wrap operator child =>
      exact unresolved.1.withChildren (mem_pair operandUnresolved unresolved.2)
  | block block =>
      rw [Suffix.attach, Suffix.attachBlock]
      split
      · refine operandUnresolved.withChildren fun child member => ?_
        exact (List.mem_append.mp member).elim (operandUnresolved.children child)
          (mem_single unresolved child)
      · refine Node.unresolved_iff.2 ⟨rfl, ?_, by simp⟩
        rintro child (_ | ⟨_, member⟩)
        · exact operandUnresolved
        · exact mem_pair (.leaf _ _) unresolved child member

theorem suffix_unplaced (unplaced : ∀ reference, Unplaced (rules reference)) :
    Answers SuffixUnresolved (suffix rules) := by
  have brackets (tag opening closer : String) :
      Answers SuffixUnresolved (bracketSuffix rules tag opening closer) :=
    .bind (bracketed_unplaced unplaced opening closer) fun _ pair =>
      .pure ⟨pair.1.retag tag, pair.2⟩
  refine .firstOf fun matcher member => ?_
  simp only [List.mem_cons, List.not_mem_nil, or_false] at member
  rcases member with rfl | rfl | rfl | rfl | rfl
  · exact brackets Tag.invoke "(" ")"
  · exact brackets Tag.index "[" "]"
  · exact .bind (spaced_unplaced (.orElse (terminal_unplaced _) (terminal_unplaced _)))
      fun _ dot => .bind (.afterSkip (terminal_unplaced _)) fun _ name => .pure ⟨dot, name⟩
  · exact .bind (terminal_unplaced _) fun _ colons =>
      .bind (terminal_unplaced _) fun _ name => .pure ⟨colons, name⟩
  · have parameters : Unplaced (blockParameters rules) :=
      .bindAny fun _ => .bind (optionalItemList_unplaced (parameter_unplaced (unplaced _)) comma)
        fun _ list => .bindAny fun _ => .pure list
    exact .bind (.afterSkip (.bind (terminal_unplaced _) fun _ brace =>
      .bind (orEmpty_unplaced parameters) fun _ list =>
        .bind (bodyUpTo_unplaced unplaced _ _) fun _ body =>
          .pure ((brace.retag _).withChildren (mem_pair list body)))) fun _ block => .pure block

theorem operand_unplaced (unplaced : ∀ reference, Unplaced (rules reference)) :
    Unplaced (operand rules) := by
  refine .bind (primary_unplaced unplaced) fun first firstUnresolved =>
    .bind (.many (suffix_unplaced unplaced)) fun suffixes each => .pure ?_
  induction suffixes generalizing first with
  | nil => exact firstUnresolved
  | cons suffix suffixes ih =>
      exact ih _ (attach_unresolved firstUnresolved (each suffix List.mem_cons_self))
        fun other member => each other (List.mem_cons_of_mem _ member)

theorem joinOperator_unresolved {operator : Node} {children : List Node}
    (operatorUnresolved : operator.Unresolved) (unresolved : AllUnresolved children) :
    (joinOperator operator children).Unresolved := by
  cases children with
  | nil => exact operatorUnresolved.withChildren unresolved
  | cons first rest =>
      rw [joinOperator]
      split
      · have firstUnresolved := unresolved first List.mem_cons_self
        refine firstUnresolved.withChildren fun child member => ?_
        exact (List.mem_append.mp member).elim (firstUnresolved.children child)
          fun later => unresolved child (List.mem_cons_of_mem _ later)
      · exact operatorUnresolved.withChildren unresolved

theorem reduceAs_unresolved {table : OperatorTable} {key : String}
    {operator last result : Node} {leading : List Node}
    (operatorUnresolved : operator.Unresolved) (leadingUnresolved : AllUnresolved leading)
    (lastUnresolved : last.Unresolved)
    (reduced : table.reduceAs key operator leading last = .ok result) : result.Unresolved := by
  have joined : ∀ {last : Node}, last.Unresolved →
      (joinOperator operator (leading ++ [last])).Unresolved := fun lastUnresolved =>
    joinOperator_unresolved operatorUnresolved fun child member =>
      (List.mem_append.mp member).elim (leadingUnresolved child)
        (mem_single lastUnresolved child)
  induction last using OperatorTable.reduceAs.induct generalizing result with
  | case1 data first others comments offset position ih =>
      rcases OperatorTable.reduceAs_eq_ok reduced with rfl |
        ⟨leftmost, rest, inner, children_eq, -, -, innerReduced, rfl⟩
      · exact joined lastUnresolved
      · cases children_eq
        have innerUnresolved :=
          ih (lastUnresolved.children first List.mem_cons_self) innerReduced
        refine joinOperator_unresolved lastUnresolved ?_
        rintro child (_ | ⟨_, member⟩)
        · exact innerUnresolved
        · exact lastUnresolved.children child (List.mem_cons_of_mem _ member)
  | case2 last noChild =>
      rcases OperatorTable.reduceAs_eq_ok reduced with rfl |
        ⟨leftmost, rest, inner, children_eq, -⟩
      · exact joined lastUnresolved
      · rcases last with ⟨data, children, comments, offset, position⟩
        exact (noChild data leftmost rest comments offset position (by rw [← children_eq])).elim

def LinkUnresolved : ChainLink → Prop
  | .operator node => node.Unresolved
  | .conditional question middle => question.Unresolved ∧ middle.Unresolved

theorem reduceChain_unresolved {table : OperatorTable} {links : List (ChainLink × Node)}
    (each : ∀ link ∈ links, LinkUnresolved link.1 ∧ link.2.Unresolved) {first result : Node}
    (firstUnresolved : first.Unresolved)
    (reduced : table.reduceChain first links = .ok result) : result.Unresolved := by
  induction links generalizing first result with
  | nil =>
      cases reduced
      exact firstUnresolved
  | cons head links ih =>
      obtain ⟨link, next⟩ := head
      rw [OperatorTable.reduceChain] at reduced
      cases rightReduced : table.reduceChain next links with
      | error missing =>
          rw [rightReduced] at reduced
          cases reduced
      | ok right =>
          rw [rightReduced] at reduced
          obtain ⟨linkUnresolved, nextUnresolved⟩ := each _ List.mem_cons_self
          have rightUnresolved := ih (fun other member => each other (List.mem_cons_of_mem _ member))
            nextUnresolved rightReduced
          cases link with
          | operator node =>
              exact reduceAs_unresolved linkUnresolved (mem_single firstUnresolved)
                rightUnresolved reduced
          | conditional question middle =>
              exact reduceAs_unresolved linkUnresolved.1
                (mem_pair firstUnresolved linkUnresolved.2) rightUnresolved reduced

variable {tables : OperatorTables}

theorem chainOperand_unplaced (unplaced : ∀ reference, Unplaced (rules reference)) (mode : Mode) :
    Unplaced (chainOperand tables rules mode) := by
  have plain : Unplaced (plainOperand rules mode) := by
    cases mode with
    | statement =>
        refine .bind (operand_unplaced unplaced) fun callee calleeUnresolved =>
          .bind (.optional (.bindAny fun _ =>
            itemList_unplaced (argument_unplaced unplaced .command) _)) fun arguments? found => ?_
        cases arguments? with
        | none => exact .pure calleeUnresolved
        | some arguments =>
            exact .pure (Node.unresolved_iff.2
              ⟨rfl, mem_pair calleeUnresolved (found arguments rfl), by simp⟩)
    | argument => exact operand_unplaced unplaced
    | command => exact operand_unplaced unplaced
  exact .orElse (.bind (spacedTerminal_unplaced _) fun _ operator =>
    .bind (unplaced _) fun _ operand => .ofReduction fun _ reduced =>
      reduceAs_unresolved operator (by simp [AllUnresolved]) operand reduced) plain

theorem beforeOperator_unplaced {matcher : Matcher Node} (unplaced : Unplaced matcher)
    (mode : Mode) : Unplaced (beforeOperator mode matcher) := by
  cases mode with
  | statement => exact .afterSkip unplaced
  | argument => exact spaced_unplaced unplaced
  | command => exact .afterSkip unplaced

theorem chainLink_unplaced (unplaced : ∀ reference, Unplaced (rules reference)) (mode : Mode) :
    Answers LinkUnresolved (chainLink tables rules mode) := by
  have operators (kind : Terminal) : Answers LinkUnresolved (operatorLink mode (terminal kind)) :=
    .bind (beforeOperator_unplaced (terminal_unplaced kind) mode) fun _ operator => .pure operator
  have conditional : Answers LinkUnresolved (conditionalLink rules mode) :=
    .bind (beforeOperator_unplaced (terminal_unplaced _) mode) fun _ question =>
      .bind (unplaced _) fun _ middle => .bind (spacedTerminal_unplaced _) fun _ colon =>
        .pure ⟨question, middle.appendComments colon.comments⟩
  cases mode with
  | statement =>
      refine .firstOf fun matcher member => ?_
      simp only [List.cons_append, List.nil_append, List.mem_cons, List.not_mem_nil,
        or_false] at member
      rcases member with rfl | rfl | rfl | rfl
      · exact operators _
      · exact conditional
      · exact operators _
      · exact operators _
  | argument | command =>
      refine .firstOf fun matcher member => ?_
      simp only [List.mem_cons, List.not_mem_nil, or_false] at member
      rcases member with rfl | rfl
      · exact operators _
      · exact conditional

theorem chain_unplaced (unplaced : ∀ reference, Unplaced (rules reference)) (mode : Mode) :
    Unplaced (chain tables rules mode) := by
  have linked : Answers (fun pair : ChainLink × Node => LinkUnresolved pair.1 ∧ pair.2.Unresolved)
      (do
        let link ← chainLink tables rules mode
        let next ← chainOperand tables rules mode
        return (link, next)) :=
    .bind (chainLink_unplaced unplaced mode) fun _ link =>
      .bind (chainOperand_unplaced unplaced mode) fun _ next => .pure ⟨link, next⟩
  exact .bind (chainOperand_unplaced unplaced mode) fun _ first => .bind (.many linked)
    fun _ links => .ofReduction fun _ reduced => reduceChain_unresolved links first reduced

theorem ruleWithin_unplaced (depth : Nat) (reference : Rule) :
    Unplaced (ruleWithin tables depth reference) := by
  induction depth generalizing reference with
  | zero =>
      rintro cursor node next ⟨trace, run⟩
      cases run
  | succ depth ih =>
      cases reference with
      | operand => exact operand_unplaced ih
      | expression mode => exact chain_unplaced ih mode

theorem rule_unplaced (reference : Rule) : Unplaced (rule tables reference) := by
  rintro cursor node next ⟨trace, run⟩
  rw [rule] at run
  exact ruleWithin_unplaced _ reference ⟨trace, run⟩

/-- A program that is read has no positions yet. -/
theorem program_unplaced : Unplaced (program tables) :=
  .bind (orEmpty_unplaced (.afterSkip (rule_unplaced _))) fun _ root =>
    .bind (commentsBefore_unplaced _) fun _ trailing =>
      .bindAny fun _ => .pure (root.appendComments trailing)

end Matcher

namespace Node

mutual

theorem allNodes_located (table : PositionTable) (node : Node) :
    (node.located table).allNodes = node.allNodes.map (located table) := by
  obtain ⟨data, children, comments, offset, position⟩ := node
  rw [located, allNodes, allNodes, allNodesOfAll_located table children,
    allNodesOfAll_located table comments]
  simp [located]

theorem allNodesOfAll_located (table : PositionTable) (nodes : List Node) :
    allNodesOfAll (locatedAll table nodes) = (allNodesOfAll nodes).map (located table) := by
  cases nodes with
  | nil => rfl
  | cons node others =>
      rw [locatedAll, allNodesOfAll, allNodesOfAll, allNodes_located table node,
        allNodesOfAll_located table others, List.map_append]

end

end Node

/-- Every node of what a parse answers has the position of its offset. -/
theorem parse_position {tables : OperatorTables} {text : List Char} {tree : Node}
    (parsed : parse tables text = .ok tree) :
    ∀ node ∈ tree.allNodes,
      node.position = node.offset.map (PositionTable.ofText text).clamped := by
  unfold parse parseAfter at parsed
  split at parsed
  · rename_i root next trace run
    cases parsed
    have unresolved : root.Unresolved := Matcher.program_unplaced ⟨trace, run⟩
    intro node member
    rw [Node.resolve_eq_located, Node.allNodes_located] at member
    obtain ⟨raw, rawMem, rfl⟩ := List.mem_map.mp member
    simp [Node.positionIn, unresolved raw rawMem]
  · cases parsed
  · cases parsed

end RubySyntax
