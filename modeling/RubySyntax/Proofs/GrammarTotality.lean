import RubySyntax.Parse
import RubySyntax.Proofs.ExpressionLayout
import RubySyntax.Proofs.RunTotality

/-!
# Every text is parsed or refused

Over operator tables that a grammar can be made of, a parse of any text comes to
an end with a tree or with a mismatch.  A rule is only referred to behind a
token, so that the characters left bound the nesting, and every operator that a
production reads has a level, so that no reduction lacks one.
-/

namespace RubySyntax

/-- A table that the grammar of a context can be made of. -/
structure OperatorTable.Usable (table : OperatorTable) : Prop where
  hasConditional : table.contains "?" = true
  hasInfix : table.infixSpellings ≠ []
  hasPrefix : table.prefixSpellings ≠ []
  infixNonempty : "" ∉ table.infixSpellings
  prefixNonempty : "" ∉ table.prefixSpellings

/-- Tables that a grammar can be made of.  Statements need the comma and the separator. -/
structure OperatorTables.Usable (tables : OperatorTables) : Prop where
  context : ∀ mode, (tables.of mode).Usable
  hasComma : tables.statement.contains Tag.list = true
  hasSeparator : tables.statement.contains Tag.sequence = true

/-! ### Levels of the operators that are read -/

namespace OperatorTable

variable {table : OperatorTable}

theorem contains_of_mem {key : String} (member : key ∈ table.levels.map Prod.fst) :
    table.contains key = true :=
  contains_iff.mpr member

theorem contains_of_mem_infixSpellings {spelling : String}
    (member : spelling ∈ table.infixSpellings) : table.contains spelling = true :=
  contains_of_mem (List.mem_filter.mp member).1

theorem prefixKey_prefixSpelling {key : String} (marked : isPrefixKey key = true) :
    prefixKey (prefixSpelling key) = key := by
  obtain ⟨front, list_eq⟩ := List.getLast?_eq_some_iff.mp (beq_iff_eq.mp marked)
  apply String.toList_inj.mp
  rw [prefixKey, prefixSpelling, String.toList_push, String.toList_ofList, list_eq,
    List.dropLast_concat]

theorem contains_of_mem_prefixSpellings {spelling : String}
    (member : spelling ∈ table.prefixSpellings) :
    table.contains (prefixKey spelling) = true := by
  obtain ⟨key, keyMem, rfl⟩ := List.mem_map.mp member
  obtain ⟨inTable, marked⟩ := List.mem_filter.mp keyMem
  rw [prefixKey_prefixSpelling marked]
  exact contains_of_mem inTable

/-! ### Reductions that have a value -/

/-- A reduction by an operator of the table has a value, whatever its operands are. -/
theorem reduceAs_total {key : String} (known : table.contains key = true) (operator : Node)
    (leading : List Node) (last : Node) :
    ∃ result, table.reduceAs key operator leading last = .ok result := by
  induction last using OperatorTable.reduceAs.induct with
  | case1 data first others comments offset position ih =>
      obtain ⟨inner, inner_eq⟩ := ih
      rw [reduceAs, rotates_eq known]
      cases below : table.goesBelow key ⟨data, first :: others, comments, offset, position⟩ with
      | true => exact ⟨_, by simp only [bind, Except.bind, inner_eq, if_pos]; rfl⟩
      | false => exact ⟨_, by simp only [bind, Except.bind]; rfl⟩
  | case2 last noChild => exact ⟨_, reduceAs.eq_2 _ _ _ _ _ noChild⟩

theorem reduceLink_total {link : ChainLink} (known : table.HasLink link) (left right : Node) :
    ∃ result, table.reduceLink left link right = .ok result :=
  ⟨_, reduceLink_eq_insert known left right⟩

/-- The reduction of a chain has a value if every link has a level. -/
theorem reduceChain_total {links : List (ChainLink × Node)}
    (known : ∀ link ∈ links, table.HasLink link.1) (first : Node) :
    ∃ result, table.reduceChain first links = .ok result := by
  induction links generalizing first with
  | nil => exact ⟨first, rfl⟩
  | cons head links ih =>
      obtain ⟨link, next⟩ := head
      obtain ⟨right, right_eq⟩ := ih (fun other member => known other (.tail _ member)) next
      obtain ⟨result, result_eq⟩ := reduceLink_total (known _ (.head _)) first right
      exact ⟨result, by rw [reduceChain, right_eq]; exact result_eq⟩

end OperatorTable

namespace Matcher

/-! ### Keys of tokens -/

/-- The data of a node is not changed by the comments in front of it. -/
theorem Answers.spaced (property : String → Prop) {matcher : Matcher Node} {kind : Skip}
    (answers : Answers (fun node => property node.data) matcher) :
    Answers (fun node => property node.data) (spaced matcher kind) :=
  .bindAny fun _ => .bind (.afterSkip answers) fun _ holds => .pure holds

theorem Answers.beforeOperator (property : String → Prop) {matcher : Matcher Node}
    (answers : Answers (fun node => property node.data) matcher) (mode : Mode) :
    Answers (fun node => property node.data) (beforeOperator mode matcher) := by
  cases mode with
  | statement => exact .afterSkip answers
  | argument => exact .spaced property answers
  | command => exact .afterSkip answers

theorem ofList_take {word : String} {text : List Char} (begins : word.toList <+: text) :
    String.ofList (text.take word.length) = word := by
  rw [← String.length_toList, ← List.prefix_iff_eq_take.mp begins, String.ofList_toList]

theorem punctuation_answers (symbol excluded : String) :
    Answers (fun node => node.data = symbol) (punctuation symbol excluded) := by
  intro cursor node next reads
  obtain ⟨length, scanned, rfl, -⟩ := reads_terminal.mp reads
  obtain ⟨begins, rfl⟩ := Lexeme.punctuation_eq_some scanned
  exact ofList_take begins

theorem oneOf_answers {spellings : List String} {name : String} (present : spellings ≠ []) :
    Answers (fun node => node.data ∈ spellings) (terminal (.oneOf spellings name)) := by
  intro cursor node next reads
  obtain ⟨length, scanned, rfl, -⟩ := reads_terminal.mp reads
  obtain ⟨word, member, begins, rfl⟩ := Lexeme.oneOf_eq_some present scanned
  have data_eq : (leafAt (.oneOf spellings name) cursor word.length).data = word :=
    ofList_take begins
  rwa [data_eq]

theorem separator_answers :
    Answers (fun node => node.data = Tag.sequence) (terminal .separator) := by
  intro cursor node next reads
  obtain ⟨length, -, rfl, -⟩ := reads_terminal.mp reads
  rfl

private theorem contains_data {table : OperatorTable} {node : Node} {key : String}
    (known : table.contains key = true) (data_eq : node.data = key) :
    table.contains node.data = true := by
  rw [data_eq]
  exact known

/-- Every link that is read has an operator of the table. -/
theorem chainLink_hasLink {tables : OperatorTables} (usable : tables.Usable) (rules : Rules)
    (mode : Mode) :
    Answers (tables.of mode).HasLink (chainLink tables rules mode) := by
  have context := usable.context mode
  have operators {matcher : Matcher Node}
      (answers : Answers (fun node => (tables.of mode).contains node.data = true) matcher) :
      Answers (tables.of mode).HasLink (operatorLink mode matcher) :=
    .bind (.beforeOperator ((tables.of mode).contains · = true) answers mode) fun _ known =>
      .pure known
  have infixes : Answers (tables.of mode).HasLink
      (operatorLink mode (terminal (.oneOf (tables.of mode).infixSpellings "operator"))) :=
    operators fun _ _ _ reads => OperatorTable.contains_of_mem_infixSpellings
      (oneOf_answers context.hasInfix reads)
  have conditional : Answers (tables.of mode).HasLink (conditionalLink rules mode) :=
    .bind (.beforeOperator (· = "?") (punctuation_answers "?" "") mode) fun _ question_eq =>
      .bindAny fun _ => .bindAny fun _ => .pure (contains_data context.hasConditional question_eq)
  cases mode with
  | statement =>
      refine .firstOf fun matcher member => ?_
      simp only [List.cons_append, List.nil_append, List.mem_cons, List.not_mem_nil,
        or_false] at member
      rcases member with rfl | rfl | rfl | rfl
      · exact infixes
      · exact conditional
      · exact operators fun _ _ _ reads =>
          contains_data usable.hasComma (punctuation_answers "," "" reads)
      · exact operators fun _ _ _ reads =>
          contains_data usable.hasSeparator (separator_answers reads)
  | argument | command =>
      refine .firstOf fun matcher member => ?_
      simp only [List.mem_cons, List.not_mem_nil, or_false] at member
      rcases member with rfl | rfl
      · exact infixes
      · exact conditional

namespace Consumes

variable {rules : Rules} {bound : Nat}

/-! ### Parts of productions -/

theorem orEmpty {matcher : Matcher Node} {least : Nat} (consumes : Consumes least bound matcher) :
    Consumes 0 bound (orEmpty matcher) :=
  here.bind fun _ => consumes.optional.bind fun _ => pure

theorem closing {closer : Matcher Node} {kind : Skip} {least : Nat}
    (consumes : Consumes least bound closer) : Consumes least bound (closing closer kind) :=
  (commentsBefore kind).bindAfter fun _ => consumes.afterSkip.bind fun _ => pure

theorem closingBracket (symbol : String) : Consumes 0 bound (closingBracket symbol) :=
  (token _).closing

theorem closingBody (symbol : String) : Consumes 0 bound (closingBody symbol) :=
  (token _).closing

theorem separated {item separator : Matcher Node} (items : Consumes 1 bound item)
    (separators : Consumes 0 bound separator) : Consumes 1 bound (separated item separator) :=
  items.bind fun _ => (separators.bindAfter fun _ => items).many.bind fun _ => pure

theorem itemList {item separator : Matcher Node} (items : Consumes 1 bound item)
    (separators : Consumes 0 bound separator) : Consumes 1 bound (itemList item separator) :=
  here.bindAfter fun _ => (items.separated separators).bind fun _ => pure

theorem optionalItemList {item separator : Matcher Node} (items : Consumes 1 bound item)
    (separators : Consumes 0 bound separator) :
    Consumes 0 bound (optionalItemList item separator) :=
  here.bind fun _ => (items.separated separators).optional.bind fun _ => pure

theorem trailedItemList {item separator : Matcher Node} (items : Consumes 1 bound item)
    (separators : Consumes 0 bound separator) :
    Consumes 0 bound (trailedItemList item separator) :=
  here.bind fun _ => ((items.separated separators).bind fun _ => separators.optional.bind fun _ =>
    pure).optional.bind fun _ => pure

theorem comma : Consumes 0 bound comma :=
  (token _).afterSkip

theorem commaOnSameLine : Consumes 0 bound commaOnSameLine :=
  (token _).afterSkip

section

variable (expressions : ∀ reference, Consumes 1 bound (rules reference))
include expressions

theorem bodyUpTo {closer : Matcher (List Node)} (closes : Consumes 0 bound closer) :
    Consumes 0 bound (bodyUpTo rules closer) :=
  (expressions (.expression .statement)).afterSkip.orEmpty.bind fun _ => closes.bind fun _ => pure

theorem bodyUpToEnd : Consumes 0 bound (bodyUpToEnd rules) :=
  bodyUpTo expressions (token _).closing

/-! ### Arguments and parameters -/

theorem argument (mode : Mode) : Consumes 1 bound (argument rules mode) :=
  (label.spaced.bind fun _ => (expressions (.expression mode)).weaken.bind fun _ => pure).orElse
    (expressions (.expression mode))

theorem bracketArguments : Consumes 0 bound (bracketArguments rules) :=
  (argument expressions .argument).trailedItemList comma

theorem commandArguments : Consumes 0 bound (commandArguments rules) :=
  ((argument expressions .command).itemList commaOnSameLine).weaken

end

theorem splatParameter : Consumes 1 bound splatParameter :=
  (oneOf (by decide) (by decide)).spaced.bind fun _ => (token _).bind fun _ => pure

theorem labelParameter {default : Matcher Node} (values : Consumes 1 bound default) :
    Consumes 1 bound (labelParameter default) :=
  label.spaced.bind fun _ => ((scan _).bind fun _ => values.weaken).optional.bind fun _ => pure

theorem namedParameter {default : Matcher Node} (values : Consumes 1 bound default) :
    Consumes 1 bound (namedParameter default) := by
  refine (ofOperand Lexeme.identifier_readsOperand).spaced.bind fun name =>
    ((token _).afterSkip.bind fun equals => values.weaken.bind fun value => pure).optional.bind
      fun default? => ?_
  rcases default? with _ | ⟨equals, value⟩ <;> exact pure

theorem parameter {default : Matcher Node} (values : Consumes 1 bound default) :
    Consumes 1 bound (parameter default) := by
  refine firstOf fun matcher member => ?_
  simp only [List.mem_cons, List.not_mem_nil, or_false] at member
  rcases member with rfl | rfl | rfl
  · exact splatParameter
  · exact labelParameter values
  · exact namedParameter values

/-! ### Operands -/

theorem definedName : Consumes 0 bound definedName := by
  refine (token _).spaced.bind fun name => ((token _).bind fun dot => (token _).bind fun member =>
    pure).optional.bind fun singleton? => ?_
  rcases singleton? with _ | ⟨dot, member⟩ <;> exact pure

theorem aliasName : Consumes 0 bound aliasName := by
  refine (firstOf fun matcher member => ?_).afterSkip
  simp only [List.mem_cons, List.not_mem_nil, or_false] at member
  rcases member with rfl | rfl | rfl <;> exact token _

/-- What stands behind the word of a definition may use all the rules. -/
theorem definition {word : String} (nonempty : word ≠ "") {parts : Matcher (List Node)}
    (behind : Consumes 0 bound parts) : Consumes 1 (bound + 1) (definition word parts) :=
  (keyword nonempty).guarding fun _ => behind.bind fun _ => pure

section

variable (expressions : ∀ reference, Consumes 1 bound (rules reference))
include expressions

theorem bracketed {opening closer : String} (nonempty : opening ≠ "") :
    Consumes 1 (bound + 1) (bracketed rules opening closer) :=
  (punctuation nonempty).guarding fun _ => (bracketArguments expressions).bind fun _ =>
    (closingBracket closer).bind fun _ => pure

theorem methodDefinition : Consumes 1 (bound + 1) (methodDefinition rules) := by
  have parenthesized : Consumes 0 bound (parenthesizedParameters rules) :=
    (token _).afterSkip.bind fun _ =>
      ((parameter (expressions (.expression .argument))).optionalItemList comma).bind fun _ =>
        (closingBracket ")").bind fun _ => pure
  have bare : Consumes 0 bound (bareParameters rules) :=
    (scan _).bind fun _ =>
      ((parameter (expressions (.expression .command))).itemList commaOnSameLine).weaken
  exact definition (by decide) (definedName.bind fun _ =>
    (parenthesized.orElse bare).orEmpty.bind fun _ =>
      (bodyUpToEnd expressions).bind fun _ => pure)

theorem classDefinition : Consumes 1 (bound + 1) (classDefinition rules) := by
  have singleton : Consumes 0 bound (singletonTarget rules) :=
    (token _).spaced.bind fun _ => (expressions .operand).weaken.bind fun _ => pure
  have parent : Consumes 0 bound (parentClass rules) :=
    (token _).spaced.bind fun _ => (expressions .operand).weaken.bind fun _ => pure
  have header : Consumes 0 bound (classHeader rules) :=
    (expressions .operand).weaken.bind fun _ => parent.orEmpty.bind fun _ => pure
  exact definition (by decide)
    ((singleton.orElse header).bind fun _ => (bodyUpToEnd expressions).bind fun _ => pure)

theorem moduleDefinition : Consumes 1 (bound + 1) (moduleDefinition rules) :=
  definition (by decide) ((expressions .operand).weaken.bind fun _ =>
    (bodyUpToEnd expressions).bind fun _ => pure)

theorem group : Consumes 1 (bound + 1) (group rules) :=
  (punctuation (by decide)).guarding fun _ =>
    (bodyUpTo expressions (closingBody ")")).bind fun _ => pure

theorem primary : Consumes 1 (bound + 1) (primary rules) := by
  have containers {opening closer : String} (nonempty : opening ≠ "") :
      Consumes 1 (bound + 1) (container rules opening closer) :=
    (bracketed expressions nonempty).bind fun _ => pure
  refine (firstOf fun matcher member => ?_).spaced
  simp only [List.mem_cons, List.not_mem_nil, or_false] at member
  rcases member with rfl | rfl | rfl | rfl | rfl | rfl | rfl | rfl | rfl | rfl | rfl | rfl | rfl
  · exact methodDefinition expressions
  · exact classDefinition expressions
  · exact moduleDefinition expressions
  · exact definition (by decide) (aliasName.bind fun _ => aliasName.bind fun _ => pure)
  · exact ofOperand Lexeme.number_readsOperand
  · exact ofOperand Lexeme.symbol_readsOperand
  · exact ofOperand Lexeme.globalVariable_readsOperand
  · exact ofOperand Lexeme.instanceVariable_readsOperand
  · exact ofOperand Lexeme.regexp_readsOperand
  · exact ofOperand Lexeme.identifier_readsOperand
  · exact group expressions
  · exact containers (by decide)
  · exact containers (by decide)

theorem braceBlock : Consumes 1 (bound + 1) (braceBlock rules) := by
  have parameters : Consumes 0 bound (blockParameters rules) :=
    (token _).afterSkip.bind fun _ =>
      ((parameter (expressions .operand)).optionalItemList comma).bind fun _ =>
        (token _).afterSkip.bind fun _ => pure
  exact (punctuation (by decide)).guarding fun _ => parameters.orEmpty.bind fun _ =>
    (bodyUpTo expressions (closingBody "\x7d")).bind fun _ => pure

theorem suffix : Consumes 1 (bound + 1) (suffix rules) := by
  have brackets {tag opening closer : String} (nonempty : opening ≠ "") :
      Consumes 1 (bound + 1) (bracketSuffix rules tag opening closer) :=
    (bracketed expressions nonempty).bind fun _ => pure
  refine firstOf fun matcher member => ?_
  simp only [List.mem_cons, List.not_mem_nil, or_false] at member
  rcases member with rfl | rfl | rfl | rfl | rfl
  · exact brackets (by decide)
  · exact brackets (by decide)
  · exact ((punctuation (by decide)).orElse (punctuation (by decide))).spaced.bind fun _ =>
      (token _).afterSkip.bind fun _ => pure
  · exact (punctuation (by decide)).bind fun _ => (token _).bind fun _ => pure
  · exact (braceBlock expressions).afterSkip.bind fun _ => pure

theorem operand : Consumes 1 (bound + 1) (operand rules) :=
  (primary expressions).bind fun _ => (suffix expressions).many.bind fun _ => pure

/-! ### Chains -/

theorem chainLink (tables : OperatorTables) (mode : Mode) :
    Consumes 0 (bound + 1) (chainLink tables rules mode) := by
  have before {matcher : Matcher Node} {least : Nat} (consumes : Consumes least (bound + 1) matcher) :
      Consumes least (bound + 1) (beforeOperator mode matcher) := by
    cases mode with
    | statement => exact consumes.afterSkip
    | argument => exact consumes.spaced
    | command => exact consumes.afterSkip
  have operators (kind : Terminal) :
      Consumes 0 (bound + 1) (operatorLink mode (Matcher.terminal kind)) :=
    (before (token kind)).bind fun _ => pure
  have conditional : Consumes 0 (bound + 1) (conditionalLink rules mode) :=
    ((before (punctuation (by decide))).guarding fun _ =>
      (expressions (.expression .argument)).weaken.bind fun _ => (token _).spaced.bind fun _ =>
        pure).weaken
  cases mode with
  | statement =>
      refine firstOf fun matcher member => ?_
      simp only [List.cons_append, List.nil_append, List.mem_cons, List.not_mem_nil,
        or_false] at member
      rcases member with rfl | rfl | rfl | rfl
      · exact operators _
      · exact conditional
      · exact operators _
      · exact operators _
  | argument | command =>
      refine firstOf fun matcher member => ?_
      simp only [List.mem_cons, List.not_mem_nil, or_false] at member
      rcases member with rfl | rfl
      · exact operators _
      · exact conditional

variable {tables : OperatorTables} (usable : tables.Usable)
include usable

theorem prefixed (mode : Mode) : Consumes 1 (bound + 1) (prefixed tables rules mode) := by
  have context := usable.context mode
  have operators : Consumes 1 (bound + 1)
      (Matcher.spaced
        (Matcher.terminal (.oneOf (tables.of mode).prefixSpellings "unary operator"))) :=
    (oneOf context.hasPrefix context.prefixNonempty).spaced
  exact operators.bindAnswers
    (.spaced (· ∈ (tables.of mode).prefixSpellings) (oneOf_answers context.hasPrefix)) (fun operator member =>
    (expressions (.expression mode)).weaken.bind fun operand =>
      ofReduction (OperatorTable.reduceAs_total
        (OperatorTable.contains_of_mem_prefixSpellings member) operator [] operand)) (Nat.le_refl _)

theorem chainOperand (mode : Mode) : Consumes 1 (bound + 1) (chainOperand tables rules mode) := by
  have call : Consumes 1 (bound + 1) (commandCall rules) := by
    refine (operand expressions).guarding fun callee =>
      ((scan _).bind fun _ => commandArguments expressions).optional.bind fun arguments? => ?_
    cases arguments? <;> exact pure
  refine (prefixed expressions usable mode).orElse ?_
  cases mode with
  | statement => exact call
  | argument => exact operand expressions
  | command => exact operand expressions

theorem chainStep (mode : Mode) : Consumes 1 (bound + 1) (chainStep tables rules mode) :=
  (chainLink expressions tables mode).bindAfter fun _ =>
    (chainOperand expressions usable mode).bind fun _ => pure

theorem chain (mode : Mode) : Consumes 1 (bound + 1) (chain tables rules mode) := by
  have known : Answers (fun pair : ChainLink × Node => (tables.of mode).HasLink pair.1) (do
      let link ← Matcher.chainLink tables rules mode
      let next ← Matcher.chainOperand tables rules mode
      return (link, next)) :=
    .bind (chainLink_hasLink usable rules mode) fun _ has => .bindAny fun _ => .pure has
  exact (chainOperand expressions usable mode).bind fun first =>
    (chainStep expressions usable mode).many.bindAnswers (Answers.many known) (fun links each =>
      ofReduction (OperatorTable.reduceChain_total each first)) (Nat.le_refl _)

end

/-! ### Rules and programs -/

variable {tables : OperatorTables} (usable : tables.Usable)
include usable

/-- A rule may nest as deep as the text is long. -/
theorem ruleWithin (depth : Nat) (reference : Rule) :
    Consumes 1 depth (ruleWithin tables depth reference) := by
  induction depth generalizing reference with
  | zero => exact zero
  | succ depth ih =>
      cases reference with
      | operand => exact operand ih
      | expression mode => exact chain ih usable mode

theorem rule (reference : Rule) : Consumes 1 bound (rule tables reference) where
  halts cursor _ := by
    rcases (ruleWithin usable (cursor.rest.length + 1) reference).halts cursor (by omega) with
      ⟨value, next, trace, run⟩ | ⟨trace, run⟩
    · exact Or.inl ⟨value, next, trace, by rw [Matcher.rule, run]⟩
    · exact Or.inr ⟨trace, by rw [Matcher.rule, run]⟩
  reads _ read := by
    obtain ⟨trace, run⟩ := read
    rw [Matcher.rule] at run
    exact (ruleWithin usable _ reference).reads (Nat.lt_succ_self _) ⟨trace, run⟩

theorem program : Consumes 0 bound (program tables) :=
  (rule usable (.expression .statement)).afterSkip.orEmpty.bind fun _ =>
    (commentsBefore .gap).bind fun _ => (token _).afterSkip.bind fun _ => pure

end Consumes

end Matcher

/-! ### Block comments -/

namespace CommentSpan

/-- Where the last line of a block comment is found, it stands behind a line feed. -/
theorem blockTextLength?_spec {text : List Char} {length : Nat}
    (found : blockTextLength? text = some length) :
    ∃ rest, text.drop length = '\n' :: rest ∧ startsBlockEnd rest = true := by
  induction text generalizing length with
  | nil => cases found
  | cons character rest ih =>
      unfold blockTextLength? at found
      split at found
      · rename_i marked
        obtain ⟨feed, ends⟩ := Bool.and_eq_true_iff.mp marked
        cases found
        exact ⟨rest, by rw [beq_iff_eq.mp feed]; rfl, ends⟩
      · obtain ⟨inner, innerFound, rfl⟩ := Option.map_eq_some_iff.mp found
        exact ih innerFound

/-- The marker of the last line with the line feed in front of it lies inside the line. -/
private theorem infix_take {text rest : List Char} (start : Nat) {length : Nat}
    (behind : text.drop start = '\n' :: rest) (ends : startsBlockEnd rest = true)
    (covers : start + 1 + countWhile (· != '\n') rest ≤ length) :
    "\n=end".toList <:+: text.take length := by
  obtain ⟨back, rfl⟩ := List.isPrefixOf_iff_prefix.mp (Bool.and_eq_true_iff.mp ends).1
  have marker : "=end".length ≤ countWhile (· != '\n') ("=end".toList ++ back) := by
    rw [countWhile, List.takeWhile_append_of_pos (by simp), List.length_append]
    exact Nat.le_add_right _ _
  obtain ⟨more, rfl⟩ := Nat.exists_eq_add_of_le (Nat.le_trans (Nat.add_le_add_left marker _) covers)
  have slice : (text.take (start + 1 + "=end".length + more)).drop start =
      "\n=end".toList ++ back.take more := by
    have shift : start + 1 + "=end".length + more - start = "\n=end".toList.length + more := by
      have wordLength : "=end".length = 4 := rfl
      have markerLength : "\n=end".toList.length = 5 := rfl
      omega
    rw [List.drop_take, behind, shift]
    exact List.take_length_add_append more
  have prefixed : "\n=end".toList <+: (text.take (start + 1 + "=end".length + more)).drop start :=
    ⟨_, slice.symm⟩
  exact prefixed.isInfix.trans (List.drop_suffix _ _).isInfix

/-- A block comment holds the line feed and the marker between which its text is cut out. -/
theorem ofBlock?_marker {text : List Char} {span : CommentSpan}
    (found : ofBlock? text = some span) : "\n=end".toList <:+: text.take span.length := by
  unfold ofBlock? at found
  split at found
  · dsimp only at found
    split at found
    · cases found
    · rename_i feed body behind
      split at found
      · rename_i textLength textFound
        cases found
        obtain ⟨rest, lastLine, ends⟩ := blockTextLength?_spec textFound
        have deeper : body.drop (textLength + 1) = rest := by
          rw [← List.drop_drop, lastLine]
          rfl
        refine infix_take (countWhile (· != '\n') text + 1 + textLength) ?_ ends ?_
        · rw [← List.drop_drop, ← List.drop_drop, behind]
          exact lastLine
        · exact Nat.le_of_eq (by rw [deeper])
      · split at found
        · rename_i ends
          cases found
          have isFeed : feed = '\n' := by
            have present : text[countWhile (· != '\n') text]? = some feed := by
              rw [← List.head?_drop, behind]
              rfl
            simpa using test_countWhile present
          exact infix_take _ (isFeed ▸ behind) ends (Nat.le_refl _)
        · cases found
  · cases found
end CommentSpan

/-- Over usable tables a parse of any text answers a tree or a mismatch: no operator lacks its
level, and neither the nesting nor a repetition is cut off.  Wherever a block comment is found,
it holds the marker in front of which its text ends. -/
theorem parse_total {tables : OperatorTables} (usable : tables.Usable) (text : List Char) :
    ((∃ tree, parse tables text = .ok tree) ∨
      ∃ error endOffset, parse tables text = .error (.mismatch error endOffset)) ∧
    ∀ start span, CommentSpan.ofBlock? (text.drop start) = some span →
      "\n=end".toList <:+: (text.drop start).take span.length := by
  refine ⟨?_, fun start span found => CommentSpan.ofBlock?_marker found⟩
  rcases (Matcher.Consumes.program usable).halts (Cursor.ofText text) (Nat.lt_succ_self _) with
    ⟨tree, next, trace, run⟩ | ⟨trace, run⟩
  · exact Or.inl ⟨_, parseAfter_of_matched run⟩
  · exact Or.inr ⟨_, _, parseAfter_of_failed run⟩

/-- The tables of the language are usable. -/
theorem usable_standard : OperatorTables.standard.Usable where
  context mode :=
    { hasConditional := contains_standard_iff.mpr (by cases mode <;> decide +kernel)
      hasInfix := (infixSpellings_standard mode).1
      hasPrefix := (prefixSpellings_standard mode).1
      infixNonempty := fun member =>
        absurd ((infixSpellings_standard mode).2 _ member) (by decide)
      prefixNonempty := fun member =>
        absurd ((prefixSpellings_standard mode).2 _ member) (by decide) }
  hasComma := (@contains_standard_iff .statement _).mpr (by decide +kernel)
  hasSeparator := (@contains_standard_iff .statement _).mpr (by decide +kernel)

theorem parse_total_standard :
    OperatorTables.standard.Usable ∧
      ((∃ tree, parse .standard "-a ? b : c\n=begin\n=end".toList = .ok tree) ∨
        ∃ error endOffset, parse .standard "-a ? b : c\n=begin\n=end".toList =
          .error (.mismatch error endOffset)) ∧
      "\n=end".toList <:+: "=begin\n=end".toList.take 11 := by
  have total := parse_total usable_standard "-a ? b : c\n=begin\n=end".toList
  exact ⟨usable_standard, total.1, total.2 11 ⟨11, 7, 0⟩ (by decide)⟩

end RubySyntax
