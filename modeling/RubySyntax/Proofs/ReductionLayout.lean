import RubySyntax.Proofs.OperatorRotation
import RubySyntax.Proofs.OperatorSpellings
import RubySyntax.Proofs.SourceLayout

/-!
# Layouts of reduced chains

A reduction goes below the operators at the left edge of its right operand and
may splice lists.  Both only regroup what lies next to each other in the source,
so the reduced tree of a chain lies exactly where the chain does.
-/

namespace RubySyntax

/-! ### Forms by their tags -/

theorem LeadingForm.not_listTag {data spelling : String} {parts : List Part}
    (form : LeadingForm data spelling parts) : data ≠ Tag.list ∧ data ≠ Tag.sequence := by
  have operators : ∀ symbol ∈ leadingOperators, symbol ≠ Tag.list ∧ symbol ≠ Tag.sequence := by
    decide
  cases form with
  | operator member => exact operators _ member
  | _ => decide

theorem LinkingForm.not_listTag {data spelling : String} {parts : List Part}
    (form : LinkingForm data spelling parts) : data ≠ Tag.list ∧ data ≠ Tag.sequence := by
  have operators : ∀ symbol ∈ linkingOperators, symbol ≠ Tag.list ∧ symbol ≠ Tag.sequence := by
    decide
  cases form with
  | operator member => exact operators _ member
  | _ => decide

/-- The separators between the items of the nodes with a list tag. -/
inductive ListTag : String → List Part → Prop
  | list : ListTag Tag.list [.dropped ","]
  | sequence : ListTag Tag.sequence []

theorem ListTag.mem_listOperators {data : String} {separator : List Part}
    (tag : ListTag data separator) : listOperators.contains data = true := by
  cases tag <;> decide

theorem listTag_of_mem {data : String} (member : listOperators.contains data = true) :
    ∃ separator, ListTag data separator := by
  simp only [listOperators, List.contains_cons, List.contains_nil, Bool.or_false,
    Bool.or_eq_true, beq_iff_eq] at member
  rcases member with rfl | rfl
  · exact ⟨_, .list⟩
  · exact ⟨_, .sequence⟩

theorem BareForm.inv {data : String} {parts : List Part} (form : BareForm data parts) :
    (data = Tag.list ∧ ∃ count, parts = joinedParts [.dropped ","] count) ∨
      (data = Tag.sequence ∧ ∃ count, parts = joinedParts [] (count + 1)) ∨
        data = Tag.invoke := by
  cases form with
  | list count => exact Or.inl ⟨rfl, count, rfl⟩
  | sequence count => exact Or.inr (Or.inl ⟨rfl, count, rfl⟩)
  | command => exact Or.inr (Or.inr rfl)
  | blockCall => exact Or.inr (Or.inr rfl)

theorem BareForm.eq_joinedParts {data : String} {separator parts : List Part}
    (tag : ListTag data separator) (form : BareForm data parts) :
    ∃ count, parts = joinedParts separator count := by
  rcases form.inv with ⟨data_eq, count, rfl⟩ | ⟨data_eq, count, rfl⟩ | data_eq
  · cases tag with
    | list => exact ⟨count, rfl⟩
    | sequence => exact absurd data_eq (by decide)
  · cases tag with
    | list => exact absurd data_eq (by decide)
    | sequence => exact ⟨count + 1, rfl⟩
  · cases tag <;> exact absurd data_eq (by decide)

theorem BareForm.ofListTag {data : String} {separator : List Part} (tag : ListTag data separator)
    (count : Nat) : BareForm data (joinedParts separator (count + 1)) := by
  cases tag with
  | list => exact .list _
  | sequence => exact .sequence _

theorem joinedParts_append (separator : List Part) (first second : Nat) :
    joinedParts separator first ++ (separator ++ joinedParts separator second) =
      joinedParts separator (first + second + 1) := by
  induction first with
  | zero => simp [joinedParts]
  | succ first ih =>
      rw [joinedParts, List.cons_append, List.append_assoc, ih, Nat.succ_add_eq_add_succ]
      rfl

namespace Laid

variable {text : List Char} {start stop : Nat}

/-- A list of two or more items lies along the parts of lists. -/
theorem list_inv {node : Node} {separator : List Part} (tag : ListTag node.data separator)
    (several : 2 ≤ node.children.length) (laid : Laid text start (.tree node) stop) :
    ∃ count place : Nat, node.comments = [] ∧ node.offset = some (place : Int) ∧ start ≤ place ∧
      place < stop ∧
      Laid text start (.parts (joinedParts separator count) node.children) stop := by
  have isList : node.data = Tag.list ∨ node.data = Tag.sequence := by
    generalize node.data = data at tag
    cases tag
    · exact Or.inl rfl
    · exact Or.inr rfl
  cases laid with
  | leaf lead token => simp [token.children_eq] at several
  | vacant within data isVacant => simp [isVacant.children_eq] at several
  | leading form => exact (isList.elim form.not_listTag.1 form.not_listTag.2).elim
  | linking form => exact (isList.elim form.not_listTag.1 form.not_listTag.2).elim
  | bare form comments_eq offset_eq after before shared rest =>
      obtain ⟨count, rfl⟩ := form.eq_joinedParts tag
      exact ⟨count, _, comments_eq, offset_eq, after, before, rest⟩

/-- A list with more items behind it is a longer list. -/
theorem list_append {middle count : Nat} {node : Node} {separator : List Part}
    {others : List Node} (tag : ListTag node.data separator)
    (several : 2 ≤ node.children.length) (laid : Laid text start (.tree node) middle)
    (rest : Laid text middle (.parts (separator ++ joinedParts separator count) others) stop) :
    Laid text start (.tree (node.withChildren (node.children ++ others))) stop := by
  obtain ⟨front, place, comments_eq, offset_eq, after, before, items⟩ := laid.list_inv tag several
  refine .bare
    (BareForm.ofListTag tag (front + count)) comments_eq offset_eq after
    (Nat.lt_of_lt_of_le before rest.bounds.1) ?_ ?_
  · intro invoke
    have listed := tag.mem_listOperators
    rw [show node.data = Tag.invoke from invoke] at listed
    exact absurd listed (by decide)
  · rw [← joinedParts_append]
    exact items.append rest

end Laid

/-! ### Rotations -/

/-- A table under which only operators are rotated into: it lacks the tags of definitions,
blocks and calls. -/
def OperatorTable.LinksOperators (table : OperatorTable) : Prop :=
  ∀ tag ∈ [Tag.block, "def", "class", "module", "alias", Tag.invoke], table.contains tag = false

theorem linksOperators_standard (mode : Mode) :
    (OperatorTables.standard.of mode).LinksOperators := by
  unfold OperatorTable.LinksOperators
  simp only [contains_standard_eq_false]
  cases mode <;> decide +kernel

namespace Laid

variable {text : List Char} {start stop : Nat}

private theorem leading_not_contained {table : OperatorTable} (links : table.LinksOperators)
    {data spelling : String} {parts : List Part} {children : List Node}
    (form : LeadingForm data spelling parts)
    (laid : Laid text start (.parts parts children) stop) (several : 2 ≤ children.length) :
    table.contains data = false := by
  cases form with
  | group | array | hash | operator =>
      cases laid with
      | _ =>
        rename_i rest
        cases rest
        simp at several
  | block | blockWithParameters => exact links Tag.block (by simp)
  | method | methodWithBareParameters | methodWithParameters => exact links "def" (by simp)
  | singletonClass | rootClass | derivedClass => exact links "class" (by simp)
  | moduleDefinition => exact links "module" (by simp)
  | aliasDefinition => exact links "alias" (by simp)

/-- The first child of an operator node reaches up to where the rest of it begins, and
another tree that ends there can take its place. -/
theorem first_inv {table : OperatorTable} (links : table.LinksOperators) {node first : Node}
    {others : List Node} (contained : table.contains node.data = true)
    (children_eq : node.children = first :: others) (several : others ≠ [])
    (laid : Laid text start (.tree node) stop) :
    ∃ before middle, Spacing text start before ∧ before < middle ∧ middle ≤ stop ∧
      Laid text before (.tree first) middle ∧
      ∀ {outer : Nat} {inner : Node}, outer ≤ start →
        Laid text outer (.tree inner) middle → outer < middle →
          Laid text outer (.tree (joinOperator node (inner :: others))) stop := by
  have twoChildren : 2 ≤ node.children.length := by
    rw [children_eq, List.length_cons]
    have := List.length_pos_iff.mpr several
    omega
  cases laid with
  | leaf lead token => simp [token.children_eq] at children_eq
  | vacant within data isVacant => simp [isVacant.children_eq] at children_eq
  | leading form lead offset_eq spelled rest =>
      rw [leading_not_contained links form rest twoChildren] at contained
      cases contained
  | @linking _ middle place _ _ leftmost behind spelling parts form children_eq' front filled
      lead offset_eq spelled rest =>
      rw [children_eq] at children_eq'
      cases children_eq'
      have within := front.bounds
      have onward := rest.bounds
      have leadBounds := lead.bounds
      refine ⟨start, middle, .refl (by omega), filled, by omega, front, ?_⟩
      intro outer inner le innerLaid innerFilled
      have noList : listOperators.contains node.data = false := by
        refine Bool.eq_false_iff.mpr fun listed => ?_
        obtain ⟨separator, tag⟩ := listTag_of_mem listed
        have forbidden := form.not_listTag
        generalize node.data = data at tag forbidden
        cases tag
        · exact forbidden.1 rfl
        · exact forbidden.2 rfl
      rw [joinOperator_of_not_list noList]
      exact .linking form rfl innerLaid
        innerFilled lead offset_eq spelled rest
  | @bare _ place _ _ parts form comments_eq offset_eq after before shared rest =>
      have notInvoke : node.data ≠ Tag.invoke := by
        intro invoke
        rw [invoke, links Tag.invoke (by simp)] at contained
        cases contained
      obtain ⟨separator, tag⟩ : ∃ separator, ListTag node.data separator := by
        rcases form.inv with ⟨data_eq, -⟩ | ⟨data_eq, -⟩ | data_eq
        · exact ⟨_, data_eq.symm ▸ ListTag.list⟩
        · exact ⟨_, data_eq.symm ▸ ListTag.sequence⟩
        · exact (notInvoke data_eq).elim
      obtain ⟨count, rfl⟩ := form.eq_joinedParts tag
      rw [children_eq] at rest
      cases count with
      | zero =>
          cases rest with
          | child spacing tree filled rest =>
              cases rest
              exact (several rfl).elim
      | succ count =>
          cases rest with
          | @child _ front middle _ _ _ _ spacing tree filled rest =>
              have onward := rest.bounds
              have gapped := spacing.le
              refine ⟨front, middle, spacing, filled, onward.1, tree, ?_⟩
              intro outer inner le innerLaid innerFilled
              by_cases spliced : inner.data = node.data ∧ 2 ≤ inner.children.length
              · rw [joinOperator_splice tag.mem_listOperators spliced]
                exact innerLaid.list_append (spliced.1 ▸ tag) spliced.2 rest
              · rw [joinOperator_keep spliced]
                refine .bare
                  (BareForm.ofListTag tag count) comments_eq offset_eq (by omega) before
                  (fun invoke => (notInvoke invoke).elim) ?_
                exact .child (.refl (by have := innerLaid.bounds; omega)) innerLaid innerFilled
                  rest

end Laid

/-! ### Reductions -/

/-- A rotation only goes below an operator of the table with two or more children. -/
theorem OperatorTable.rotates_eq_true {table : OperatorTable} {key : String} {operand : Node}
    (rotates : table.rotates key operand = .ok true) :
    2 ≤ operand.children.length ∧ table.contains operand.data = true := by
  unfold OperatorTable.rotates at rotates
  split at rotates
  · cases rotates
  · rename_i qualifies
    simp only [Bool.or_eq_true, decide_eq_true_eq, Bool.not_eq_true', not_or, Nat.not_lt,
      Bool.not_eq_false] at qualifies
    exact qualifies

/-- A reduction either stays above its right operand or goes below the operator there. -/
theorem OperatorTable.reduceAs_eq_ok {table : OperatorTable} {key : String}
    {operator last result : Node} {leading : List Node}
    (reduced : table.reduceAs key operator leading last = .ok result) :
    result = joinOperator operator (leading ++ [last]) ∨
      ∃ first others inner, last.children = first :: others ∧ others ≠ [] ∧
        table.contains last.data = true ∧
          table.reduceAs key operator leading first = .ok inner ∧
            result = joinOperator last (inner :: others) := by
  rcases last with ⟨data, _ | ⟨first, others⟩, comments, offset, position⟩
  · rw [OperatorTable.reduceAs.eq_2 _ _ _ _ _ (by simp)] at reduced
    exact Or.inl (Except.ok.inj reduced).symm
  · rw [OperatorTable.reduceAs] at reduced
    cases rotates : table.rotates key ⟨data, first :: others, comments, offset, position⟩ with
    | error missing =>
        rw [rotates] at reduced
        cases reduced
    | ok goesBelow =>
        rw [rotates] at reduced
        cases goesBelow with
        | false => exact Or.inl (Except.ok.inj reduced).symm
        | true =>
            cases innerReduced : table.reduceAs key operator leading first with
            | error missing =>
                rw [innerReduced] at reduced
                cases reduced
            | ok below =>
                rw [innerReduced] at reduced
                obtain ⟨several, contained⟩ := OperatorTable.rotates_eq_true rotates
                refine Or.inr ⟨first, others, below, rfl, ?_, contained, innerReduced,
                  (Except.ok.inj reduced).symm⟩
                rintro rfl
                simp at several

/-- An operator over what lies in front of it and one more operand takes in any operand that
lies behind it. -/
def TakesOperand (text : List Char) (start middle : Nat) (operator : Node)
    (leading : List Node) : Prop :=
  ∀ (before stop : Nat) (last : Node), Spacing text middle before →
    Laid text before (.tree last) stop → before < stop →
      Laid text start (.tree (joinOperator operator (leading ++ [last]))) stop

/-- A reduced operator lies over its operands, however deep it was rotated. -/
theorem Laid.reduceAs {text : List Char} {table : OperatorTable} (links : table.LinksOperators)
    {key : String} {start middle before stop : Nat} {operator last result : Node}
    {leading : List Node} (le : start ≤ middle)
    (takes : TakesOperand text start middle operator leading)
    (spacing : Spacing text middle before) (laid : Laid text before (.tree last) stop)
    (filled : before < stop)
    (reduced : table.reduceAs key operator leading last = .ok result) :
    Laid text start (.tree result) stop := by
  induction last using OperatorTable.reduceAs.induct generalizing before stop result with
  | case1 data first others comments offset position ih =>
      rcases OperatorTable.reduceAs_eq_ok reduced with rfl |
        ⟨leftmost, rest, inner, children_eq, several, contained, innerReduced, rfl⟩
      · exact takes _ _ _ spacing laid filled
      · cases children_eq
        obtain ⟨front, back, gap, frontFilled, backLe, frontLaid, rebuild⟩ :=
          laid.first_inv links contained rfl several
        have innerLaid := ih (spacing.trans gap) frontLaid frontFilled innerReduced
        have spacingLe := spacing.le
        have gapLe := gap.le
        exact rebuild (by omega) innerLaid (by omega)
  | case2 last noChild =>
      rcases OperatorTable.reduceAs_eq_ok reduced with rfl |
        ⟨leftmost, rest, inner, children_eq, -⟩
      · exact takes _ _ _ spacing laid filled
      · rcases last with ⟨data, children, comments, offset, position⟩
        exact (noChild data leftmost rest comments offset position (by rw [← children_eq])).elim

/-! ### Links of chains -/

/-- What stands between two operands of a chain lies between two offsets of the text. -/
inductive LinkLaid (text : List Char) : Nat → ChainLink → Nat → Prop
  | operator {start place : Nat} {node : Node} (member : node.data ∈ linkingOperators)
      (lead : Lead text start node.comments place)
      (offset_eq : node.offset = some (place : Int)) (spelled : Spelled text place node.data) :
      LinkLaid text start (.operator node) (place + node.data.length)
  | comma {start place : Nat} {node : Node} (data_eq : node.data = Tag.list)
      (comments_eq : node.comments = []) (spacing : Spacing text start place)
      (offset_eq : node.offset = some (place : Int)) (spelled : Spelled text place ",") :
      LinkLaid text start (.operator node) (place + ",".length)
  | statementBreak {start place stop : Nat} {node : Node} (data_eq : node.data = Tag.sequence)
      (comments_eq : node.comments = []) (spacing : Spacing text start place)
      (offset_eq : node.offset = some (place : Int)) (broken : Spacing text place stop) :
      LinkLaid text start (.operator node) stop
  | conditional {start place before middle colon : Nat} {question node : Node}
      {trailing : List Node} (data_eq : question.data = "?")
      (lead : Lead text start question.comments place)
      (offset_eq : question.offset = some (place : Int)) (spelled : Spelled text place "?")
      (spacing : Spacing text (place + "?".length) before)
      (tree : Laid text before (.tree node) middle) (run : CommentRun text middle trailing colon)
      (closed : Spelled text colon ":") :
      LinkLaid text start (.conditional question (node.appendComments trailing))
        (colon + ":".length)

theorem LinkLaid.bounds {text : List Char} {start stop : Nat} {link : ChainLink}
    (linkLaid : LinkLaid text start link stop) : start ≤ stop := by
  cases linkLaid with
  | operator member lead =>
      have := lead.bounds
      omega
  | comma data_eq comments_eq spacing =>
      have := spacing.le
      omega
  | statementBreak data_eq comments_eq spacing offset_eq broken =>
      have := spacing.le
      have := broken.le
      omega
  | conditional data_eq lead offset_eq spelled spacing tree run closed =>
      have := lead.bounds
      have := spacing.le
      have := tree.bounds
      have := run.bounds
      omega

private theorem takesOperand_list {text : List Char} {start middle place behind : Nat}
    {operator left : Node} {separator : List Part} (tag : ListTag operator.data separator)
    (comments_eq : operator.comments = []) (offset_eq : operator.offset = some (place : Int))
    (after : start ≤ place) (before : place ≤ behind)
    (leftLaid : Laid text start (.tree left) middle) (filled : start < middle)
    (separated : ∀ {front stop : Nat} {last : Node}, Spacing text behind front →
      Laid text front (.tree last) stop → front < stop →
        Laid text middle (.parts (separator ++ joinedParts separator 0) [last]) stop) :
    TakesOperand text start behind operator [left] := by
  intro front stop last spacing lastLaid lastFilled
  have rest := separated spacing lastLaid lastFilled
  have spacingLe := spacing.le
  rw [List.singleton_append]
  by_cases spliced : left.data = operator.data ∧ 2 ≤ left.children.length
  · rw [joinOperator_splice tag.mem_listOperators spliced]
    exact leftLaid.list_append (spliced.1.symm ▸ tag) spliced.2 rest
  · rw [joinOperator_keep spliced]
    refine .bare (BareForm.ofListTag tag 0)
      comments_eq offset_eq after (by omega) ?_ ?_
    · intro invoke
      have listed := tag.mem_listOperators
      rw [show operator.data = Tag.invoke from invoke] at listed
      exact absurd listed (by decide)
    · exact .child (.refl (Nat.le_trans leftLaid.bounds.1 leftLaid.bounds.2)) leftLaid filled rest

/-- A link and the operand in front of it take in the operand behind. -/
theorem LinkLaid.reduceLink {text : List Char} {table : OperatorTable}
    (links : table.LinksOperators) {start middle behind before stop : Nat} {link : ChainLink}
    {left right result : Node} (leftLaid : Laid text start (.tree left) middle)
    (leftFilled : start < middle) (linkLaid : LinkLaid text middle link behind)
    (spacing : Spacing text behind before) (rightLaid : Laid text before (.tree right) stop)
    (rightFilled : before < stop) (reduced : table.reduceLink left link right = .ok result) :
    Laid text start (.tree result) stop := by
  have le : start ≤ behind := Nat.le_trans leftLaid.bounds.1 linkLaid.bounds
  cases linkLaid with
  | @operator place node member lead offset_eq spelled =>
      refine Laid.reduceAs links le ?_ spacing rightLaid rightFilled reduced
      intro front ending last gap lastLaid lastFilled
      have form : LinkingForm node.data node.data [.child] := .operator member
      have noList : listOperators.contains node.data = false := by
        refine Bool.eq_false_iff.mpr fun listed => ?_
        obtain ⟨separator, tag⟩ := listTag_of_mem listed
        have forbidden := form.not_listTag
        generalize node.data = data at tag forbidden
        cases tag
        · exact forbidden.1 rfl
        · exact forbidden.2 rfl
      rw [List.singleton_append, joinOperator_of_not_list noList]
      exact .linking form rfl leftLaid leftFilled lead
        offset_eq spelled (.child gap lastLaid lastFilled (.nil lastLaid.bounds.2))
  | @comma place node data_eq comments_eq gap offset_eq spelled =>
      refine Laid.reduceAs links le ?_ spacing rightLaid rightFilled reduced
      have gapLe := gap.le
      have leftLe := leftLaid.bounds
      exact takesOperand_list (data_eq.symm ▸ ListTag.list) comments_eq offset_eq (by omega)
        (by omega) leftLaid leftFilled fun lastGap lastLaid lastFilled =>
          .dropped (by decide) gap spelled (by exact trivial)
            (.child lastGap lastLaid lastFilled (.nil lastLaid.bounds.2))
  | @statementBreak place behind node data_eq comments_eq gap offset_eq broken =>
      refine Laid.reduceAs links le ?_ spacing rightLaid rightFilled reduced
      have gapLe := gap.le
      have brokenLe := broken.le
      have leftLe := leftLaid.bounds
      exact takesOperand_list (data_eq.symm ▸ ListTag.sequence) comments_eq offset_eq (by omega)
        brokenLe leftLaid leftFilled fun lastGap lastLaid lastFilled =>
          .child ((gap.trans broken).trans lastGap) lastLaid lastFilled (.nil lastLaid.bounds.2)
  | @conditional place front inner colon question node trailing data_eq lead offset_eq spelled
      gap tree run closed =>
      refine Laid.reduceAs links le ?_ spacing rightLaid rightFilled reduced
      intro behind ending last lastGap lastLaid lastFilled
      have noList : listOperators.contains question.data = false := by
        rw [data_eq]
        decide
      rw [List.cons_append, joinOperator_of_not_list noList]
      have form : LinkingForm question.data "?" [.closed Tag.empty ":", .child] := by
        rw [data_eq]
        exact .conditional
      refine .linking
        form rfl leftLaid leftFilled lead offset_eq spelled ?_
      exact .closed (by decide) (fun list => absurd list (by decide)) gap tree .none run closed
        (.child lastGap lastLaid lastFilled (.nil lastLaid.bounds.2))

/-- The links of a chain, each with the operand behind it, lie one behind the other. -/
inductive ChainLaid (text : List Char) : Nat → List (ChainLink × Node) → Nat → Prop
  | nil {start : Nat} : ChainLaid text start [] start
  | cons {start behind before middle stop : Nat} {link : ChainLink} {next : Node}
      {links : List (ChainLink × Node)} (linkLaid : LinkLaid text start link behind)
      (spacing : Spacing text behind before) (laid : Laid text before (.tree next) middle)
      (filled : before < middle) (rest : ChainLaid text middle links stop) :
      ChainLaid text start ((link, next) :: links) stop

theorem ChainLaid.reduceChain {text : List Char} {table : OperatorTable}
    (linksOperators : table.LinksOperators) {links : List (ChainLink × Node)} :
    ∀ {start middle stop : Nat} {first result : Node}, Laid text start (.tree first) middle →
      start < middle → ChainLaid text middle links stop →
        table.reduceChain first links = .ok result →
          Laid text start (.tree result) stop ∧ start < stop := by
  induction links with
  | nil =>
      intro start middle stop first result laid filled chain reduced
      cases chain
      cases reduced
      exact ⟨laid, filled⟩
  | cons head links ih =>
      obtain ⟨link, next⟩ := head
      intro start middle stop first result laid filled chain reduced
      cases chain with
      | cons linkLaid spacing nextLaid nextFilled rest =>
          rw [OperatorTable.reduceChain] at reduced
          cases rightReduced : table.reduceChain next links with
          | error missing =>
              rw [rightReduced] at reduced
              cases reduced
          | ok right =>
              rw [rightReduced] at reduced
              obtain ⟨rightLaid, rightFilled⟩ := ih nextLaid nextFilled rest rightReduced
              have onward := linkLaid.bounds
              have spacingLe := spacing.le
              exact ⟨linkLaid.reduceLink linksOperators laid filled spacing rightLaid rightFilled
                reduced, by omega⟩

end RubySyntax
