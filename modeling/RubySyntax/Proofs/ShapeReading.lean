import RubySyntax.Proofs.MovedRules
import RubySyntax.Proofs.ProgramLayout
import RubySyntax.Proofs.TreeShapes

/-!
# Every tree that is read is shaped

Each production puts its children where the shape of its tag expects them.  A
prefix operator takes in the whole rest of its chain, so that only the last
operand of a chain can be a sequence or a list, and the reduction of the chain
moves it to the top.
-/

namespace RubySyntax

/-! ### Chains -/

/-- A link with an operator of the context. -/
inductive ChainLink.Fits (mode : Mode) : ChainLink → Prop
  | linking {operator : Node}
      (spelled : operator.data ∈ (OperatorTables.standard.of mode).infixSpellings) :
      Fits mode (.operator operator)
  | conditional {question middle : Node} (spelled : question.data = "?")
      (consequent : Plain middle) : Fits mode (.conditional question middle)
  | listing {operator : Node} (listed : operator.data ∈ listOperators)
      (statements : mode = .statement) : Fits mode (.operator operator)

/-- An expression, which outside statements is no list either. -/
structure Operand (mode : Mode) (tree : Node) : Prop extends Expression mode tree where
  unlisted : mode ≠ .statement → ¬ tree.IsOver Tag.list

namespace Operand

variable {mode : Mode} {tree : Node}

theorem ofPlain (plain : Plain tree) : Operand mode tree :=
  ⟨plain.expression mode, fun _ => plain.notList⟩

/-- Outside statements an operand is neither a sequence nor a list. -/
theorem plain (operand : Operand mode tree) (outside : mode ≠ .statement) : Plain tree :=
  ⟨operand.shaped, operand.single outside, operand.unlisted outside⟩

theorem insert {pending : Pending} (fits : pending.Fits mode) (operand : Operand mode tree) :
    Operand mode (pending.insert (OperatorTables.standard.of mode) tree) where
  toExpression := operand.toExpression.insert fits
  unlisted outside tagged :=
    Expression.insert_notListed fits outside tree (by rw [tagged.1]; decide)

theorem reduceLink {left : Node} {link : ChainLink} {result : Node} (fits : link.Fits mode)
    (plain : Plain left) (operand : Operand mode tree)
    (reduced : (OperatorTables.standard.of mode).reduceLink left link tree = .ok result) :
    Operand mode result := by
  have insertion {pending : Pending} (fits : pending.Fits mode)
      (reduced : (OperatorTables.standard.of mode).reduceAs pending.key pending.operator
        pending.leading tree = .ok result) : Operand mode result := by
    rw [fits.reduceAs_eq tree] at reduced
    cases reduced
    exact operand.insert fits
  cases fits with
  | linking spelled => exact insertion (.linking spelled plain) reduced
  | conditional spelled consequent =>
      exact insertion (.conditional spelled plain consequent) reduced
  | listing listed statements => exact insertion (.listing listed statements plain) reduced

end Operand

/-- The operands and links of a chain: all operands but the last one are plain. -/
def ChainFits (mode : Mode) (first : Node) : List (ChainLink × Node) → Prop
  | [] => Operand mode first
  | (link, next) :: links => Plain first ∧ link.Fits mode ∧ ChainFits mode next links

theorem ChainFits.reduceChain {mode : Mode} {first result : Node}
    {links : List (ChainLink × Node)} (fits : ChainFits mode first links)
    (reduced : (OperatorTables.standard.of mode).reduceChain first links = .ok result) :
    Operand mode result := by
  induction links generalizing first result with
  | nil =>
      cases reduced
      exact fits
  | cons head links ih =>
      obtain ⟨link, next⟩ := head
      obtain ⟨plain, linkFits, rest⟩ := fits
      rw [OperatorTable.reduceChain] at reduced
      cases rightReduced : (OperatorTables.standard.of mode).reduceChain next links with
      | error missing =>
          rw [rightReduced] at reduced
          cases reduced
      | ok right =>
          rw [rightReduced] at reduced
          exact (ih rest rightReduced).reduceLink linkFits plain reduced

namespace Matcher

/-! ### Tokens and comments -/

theorem Answers.spacedBody {property : Node → Prop} {matcher : Matcher Node} {kind : Skip}
    (stable : ∀ node comments, property node → property (node.withComments comments))
    (answers : Answers property matcher) : Answers property (Matcher.spaced matcher kind) :=
  .bindAny fun _ => .bind (.afterSkip answers) fun node holds => .pure (stable node _ holds)

theorem terminal_bare (kind : Terminal) :
    Answers (fun node => node.children = []) (terminal kind) := by
  intro cursor node next reads
  obtain ⟨length, -, rfl, -⟩ := reads_terminal.mp reads
  rfl

theorem terminal_plain (kind : Terminal) : Answers Plain (terminal kind) :=
  fun _ _ _ reads => .leaf (terminal_bare kind reads)

theorem spacedTerminal_bare (kind : Terminal) :
    Answers (fun node => node.children = []) (spaced (terminal kind)) :=
  .spacedBody (fun _ _ bare => bare) (terminal_bare kind)

theorem keyword_answers (word : String) :
    Answers (fun node => node.data = word) (keyword word) := by
  intro cursor node next reads
  obtain ⟨length, scanned, rfl, -⟩ := reads_terminal.mp reads
  obtain ⟨begins, rfl⟩ := Lexeme.spelling_eq_some scanned
  exact ofList_take begins

/-! ### Lists and bodies -/

/-- A list of shaped items, or the list of none. -/
structure IsListing (node : Node) : Prop where
  data_eq : node.data = Tag.list
  shaped : Shaped node

theorem listNode_isListing (offset : Nat) {items : List Node}
    (plain : ∀ item ∈ items, Plain item) : IsListing (listNode offset items) where
  data_eq := rfl
  shaped := .composite (.list fun item member => (plain item member).isItem (by decide))
    fun item member => (plain item member).shaped

theorem IsListing.appendComments {node : Node} (listing : IsListing node) (comments : List Node) :
    IsListing (node.appendComments comments) :=
  ⟨listing.data_eq, listing.shaped.sameBody rfl rfl⟩

section

variable {item separator : Matcher Node}

theorem separated_plain (plain : Answers Plain item) :
    Answers (fun items => ∀ node ∈ items, Plain node) (separated item separator) :=
  .bind plain fun first firstPlain =>
    .bind (.many (.bindAny fun _ => plain)) fun others each => .pure (by
      rintro node (_ | ⟨_, member⟩)
      · exact firstPlain
      · exact each node member)

theorem itemList_isListing (plain : Answers Plain item) :
    Answers IsListing (itemList item separator) :=
  .bindAny fun offset => .bind (separated_plain plain) fun _ each =>
    .pure (listNode_isListing offset each)

private theorem getD_plain {items? : Option (List Node)}
    (each : ∀ items ∈ items?, ∀ node ∈ items, Plain node) : ∀ node ∈ items?.getD [], Plain node := by
  cases items? with
  | none => simp
  | some items => exact each items rfl

theorem optionalItemList_isListing (plain : Answers Plain item) :
    Answers IsListing (optionalItemList item separator) :=
  .bindAny fun offset => .bind (.optional (separated_plain plain)) fun _ each =>
    .pure (listNode_isListing offset (getD_plain each))

theorem trailedItemList_isListing (plain : Answers Plain item) :
    Answers IsListing (trailedItemList item separator) :=
  .bindAny fun offset => .bind (.optional (.bind (separated_plain plain) fun _ each =>
    .bindAny fun _ => .pure each)) fun _ each => .pure (listNode_isListing offset (getD_plain each))

end

/-- What is left out is empty and shaped. -/
theorem emptyAt_plain (offset : Int) : Plain (Node.emptyAt offset) :=
  .leaf rfl

theorem orEmpty_answers {property : Node → Prop} {matcher : Matcher Node}
    (answers : Answers property matcher) :
    Answers (fun node => node.isEmpty = true ∧ Plain node ∨ property node) (orEmpty matcher) :=
  .bindAny fun offset => .bind (.optional answers) fun node? each => .pure (by
    cases node? with
    | none => exact Or.inl ⟨rfl, emptyAt_plain offset⟩
    | some node => exact Or.inr (each node rfl))

theorem shaped_one {node : Node} (shaped : Shaped node) : ∀ child ∈ [node], Shaped child := by
  simpa using shaped

theorem shaped_two {first second : Node} (firstShaped : Shaped first)
    (secondShaped : Shaped second) : ∀ child ∈ [first, second], Shaped child := by
  simpa using ⟨firstShaped, secondShaped⟩

theorem shaped_three {first second third : Node} (firstShaped : Shaped first)
    (secondShaped : Shaped second) (thirdShaped : Shaped third) :
    ∀ child ∈ [first, second, third], Shaped child := by
  simpa using ⟨firstShaped, secondShaped, thirdShaped⟩

/-- What the rules read. -/
structure ShapedRules (rules : Rules) : Prop where
  operand : Answers Plain (rules .operand)
  expression : ∀ mode, Answers (Operand mode) (rules (.expression mode))
  /-- An expression takes in its whole chain. -/
  complete : ∀ {mode : Mode} {cursor next : Cursor} {tree : Node},
    (rules (.expression mode)).Reads cursor tree next →
      (chainStep .standard rules mode).Rejects next

variable {rules : Rules}

section

variable (shaped : ShapedRules rules)
include shaped

theorem body_shaped : Answers Shaped (body rules) :=
  fun _ _ _ reads =>
    (orEmpty_answers (.afterSkip (shaped.expression .statement)) reads).elim
      (fun vacant => vacant.2.shaped) (fun operand => operand.shaped)

theorem bodyUpTo_shaped (closer : Matcher (List Node)) : Answers Shaped (bodyUpTo rules closer) :=
  .bind (body_shaped shaped) fun _ statements => .bindAny fun _ =>
    .pure (statements.sameBody rfl rfl)

/-! ### Arguments and parameters -/

theorem argument_plain {mode : Mode} (outside : mode ≠ .statement) :
    Answers Plain (argument rules mode) := by
  have values : Answers Plain (rules (.expression mode)) :=
    fun _ _ _ reads => (shaped.expression mode reads).plain outside
  exact .orElse (.bind (spacedTerminal_bare .label) fun key keyed =>
    .bind values fun value valued => .pure (.composite Tag.pair rfl rfl (by decide)
      (.pair keyed valued.standsAlone) (shaped_two (.leaf keyed) valued.shaped))) values

theorem bracketed_isListing (opening closer : String) :
    Answers (fun pair => pair.1.data = opening ∧ IsListing pair.2)
      (bracketed rules opening closer) :=
  .bind (punctuation_answers opening "") fun _ opened =>
    .bind (trailedItemList_isListing (argument_plain shaped (by decide))) fun _ listing =>
      .bindAny fun trailing => .pure ⟨opened, listing.appendComments trailing⟩

end

private theorem mem_prefixSpellings_splat : ∀ word ∈ ["**", "*", "&"],
    word ∈ (OperatorTables.standard.of .argument).prefixSpellings := by
  rw [prefixSpellings_eq]
  simp [Mode.prefixWords, prefixSigns]

private theorem mem_infixSpellings_assignment :
    "=" ∈ (OperatorTables.standard.of .argument).infixSpellings := by
  rw [infixSpellings_eq]
  simp [Mode.infixWords, OperatorDefaults.assignmentSpellings]

theorem splatParameter_plain : Answers Plain splatParameter := by
  refine .bind (.spaced (· ∈ ["**", "*", "&"]) (oneOf_answers (by decide)))
    fun operator spelled => .bind (terminal_plain _) fun name named => .pure ?_
  have apart : ∀ word ∈ ["**", "*", "&"], word ∉ listOperators := by decide
  exact .composite _ rfl rfl (apart _ spelled)
    (.ofPrefix (mem_prefixSpellings_splat _ spelled) named.standsAlone)
    (shaped_one named.shaped)

section

variable {default : Matcher Node} (values : Answers Plain default)
include values

theorem labelParameter_plain : Answers Plain (labelParameter default) := by
  refine .bind (spacedTerminal_bare .label) fun key keyed =>
    .bind (.optional (.bindAny fun _ => values)) fun value? valued => .pure ?_
  cases value? with
  | none => exact .composite Tag.pair rfl rfl (by decide) (.label keyed) (shaped_one (.leaf keyed))
  | some value =>
      have valued := valued value rfl
      exact .composite Tag.pair rfl rfl (by decide) (.pair keyed valued.standsAlone)
        (shaped_two (.leaf keyed) valued.shaped)

theorem namedParameter_plain : Answers Plain (namedParameter default) := by
  have defaults : Answers (fun pair : Node × Node => pair.1.data = "=" ∧ Plain pair.2) (do
      let equals ← onSameLine (punctuation "=" "=~>")
      let value ← default
      return (equals, value)) :=
    .bind (.afterSkip (punctuation_answers "=" "=~>")) fun _ equal =>
      .bind values fun _ valued => .pure ⟨equal, valued⟩
  refine .bind (spacedTerminal_bare .identifier) fun name named =>
    .bind (.optional defaults) fun default? found => ?_
  rcases default? with _ | ⟨equals, value⟩
  · exact .pure (.leaf named)
  · obtain ⟨equal, valued⟩ := found (equals, value) rfl
    exact .pure (.composite _ equal rfl (by decide)
      (.ofInfix mem_infixSpellings_assignment (Plain.leaf named).standsAlone
        valued.standsAlone) (shaped_two (.leaf named) valued.shaped))

theorem parameter_plain : Answers Plain (parameter default) := by
  refine .firstOf fun matcher member => ?_
  simp only [List.mem_cons, List.not_mem_nil, or_false] at member
  rcases member with rfl | rfl | rfl
  · exact splatParameter_plain
  · exact labelParameter_plain values
  · exact namedParameter_plain values

end

/-- Parameters, or none. -/
structure IsParameters (node : Node) : Prop where
  listed : node.isEmpty = true ∨ node.data = Tag.list
  shaped : Shaped node

theorem orEmpty_isParameters {matcher : Matcher Node} (listings : Answers IsListing matcher) :
    Answers IsParameters (orEmpty matcher) :=
  fun _ _ _ reads => (orEmpty_answers listings reads).elim
    (fun vacant => ⟨Or.inl vacant.1, vacant.2.shaped⟩)
    (fun listing => ⟨Or.inr listing.data_eq, listing.shaped⟩)

/-! ### Definitions -/

theorem definition_plain {property : List Node → Prop} {word : String}
    {parts : Matcher (List Node)} (answers : Answers property parts)
    (plain : ∀ {node : Node}, node.data = word → property node.children → Plain node) :
    Answers Plain (definition word parts) :=
  .bind (keyword_answers word) fun _ spelled => .bind answers fun _ holds =>
    .pure (plain spelled holds)

theorem definedName_answers :
    Answers (fun node => (node.children = [] ∨ node.data = ".") ∧ Shaped node) definedName := by
  have members : Answers (fun pair : Node × Node => pair.1.data = "." ∧ pair.2.children = []) (do
      let dot ← punctuation "."
      let member ← terminal .methodName
      return (dot, member)) :=
    .bind (punctuation_answers "." "") fun _ dotted =>
      .bind (terminal_bare _) fun _ bare => .pure ⟨dotted, bare⟩
  refine .bind (spacedTerminal_bare .methodName) fun name named =>
    .bind (.optional members) fun singleton? found => ?_
  rcases singleton? with _ | ⟨dot, member⟩
  · exact .pure ⟨Or.inl named, .leaf named⟩
  · obtain ⟨dotted, bare⟩ := found (dot, member) rfl
    have plain : Plain (dot.withChildren [name, member]) :=
      .composite _ dotted rfl (by decide) (.member (by simp) (Plain.leaf named).standsAlone bare)
        (shaped_two (.leaf named) (.leaf bare))
    exact .pure ⟨Or.inr dotted, plain.shaped⟩

theorem aliasDefinition_plain : Answers Plain aliasDefinition := by
  have names : Answers (fun node => node.children = []) aliasName := by
    refine .afterSkip (.firstOf fun matcher member => ?_)
    simp only [List.mem_cons, List.not_mem_nil, or_false] at member
    rcases member with rfl | rfl | rfl <;> exact terminal_bare _
  have parts : Answers (fun nodes => ∃ newName oldName : Node, nodes = [newName, oldName] ∧
      newName.children = [] ∧ oldName.children = []) (do
        let newName ← aliasName
        let oldName ← aliasName
        return [newName, oldName]) :=
    .bind names fun _ newBare => .bind names fun _ oldBare => .pure ⟨_, _, rfl, newBare, oldBare⟩
  refine definition_plain parts fun spelled found => ?_
  obtain ⟨newName, oldName, children_eq, newBare, oldBare⟩ := found
  exact .composite _ spelled children_eq (by decide) (.aliasDefinition ⟨newBare, oldBare⟩)
    (shaped_two (.leaf newBare) (.leaf oldBare))

section

variable (shaped : ShapedRules rules)
include shaped

theorem methodDefinition_plain : Answers Plain (methodDefinition rules) := by
  have values {mode : Mode} (outside : mode ≠ .statement) :
      Answers Plain (rules (.expression mode)) :=
    fun _ _ _ reads => (shaped.expression mode reads).plain outside
  have parenthesized : Answers IsListing (parenthesizedParameters rules) :=
    .bindAny fun _ => .bind (optionalItemList_isListing (parameter_plain (values (by decide))))
      fun _ listing => .bindAny fun trailing => .pure (listing.appendComments trailing)
  have bare : Answers IsListing (bareParameters rules) :=
    .bindAny fun _ => itemList_isListing (parameter_plain (values (by decide)))
  have parts : Answers (fun nodes => ∃ name parameters body : Node,
      nodes = [name, parameters, body] ∧ ((name.children = [] ∨ name.data = ".") ∧ Shaped name) ∧
        IsParameters parameters ∧ Shaped body) (do
      let name ← definedName
      let parameters ← orEmpty ((parenthesizedParameters rules).orElse (bareParameters rules))
      let body ← bodyUpToEnd rules
      return [name, parameters, body]) :=
    .bind definedName_answers fun _ name =>
      .bind (orEmpty_isParameters (.orElse parenthesized bare)) fun _ parameters =>
        .bind (bodyUpTo_shaped shaped _) fun _ body => .pure ⟨_, _, _, rfl, name, parameters, body⟩
  refine definition_plain parts fun spelled found => ?_
  obtain ⟨name, parameters, body, children_eq, ⟨named, nameShaped⟩, parametersFit, bodyShaped⟩ :=
    found
  exact .composite _ spelled children_eq (by decide) (.method named parametersFit.listed)
    (shaped_three nameShaped parametersFit.shaped bodyShaped)

theorem classDefinition_plain : Answers Plain (classDefinition rules) := by
  have singletons : Answers (fun nodes => ∃ shift target : Node, nodes = [shift] ∧
      shift.data = "<<" ∧ shift.children = [target] ∧ Plain target) (singletonTarget rules) :=
    .bind (.spaced (· = "<<") (punctuation_answers "<<" "")) fun _ shifts =>
      .bind shaped.operand fun _ target => .pure ⟨_, _, rfl, shifts, rfl, target⟩
  have parents : Answers Plain (parentClass rules) :=
    .bindAny fun _ => .bind shaped.operand fun _ parent =>
      .pure ⟨parent.shaped.sameBody rfl rfl, parent.notSequence, parent.notList⟩
  have headers : Answers (fun nodes => ∃ name parent : Node, nodes = [name, parent] ∧
      Plain name ∧ Plain parent) (classHeader rules) :=
    .bind shaped.operand fun _ name => .bind (orEmpty_answers parents) fun _ parent =>
      .pure ⟨_, _, rfl, name, parent.elim And.right id⟩
  have parts : Answers (fun nodes =>
      (∃ shift target body : Node, nodes = [shift, body] ∧ shift.data = "<<" ∧
        shift.children = [target] ∧ Plain target ∧ Shaped body) ∨
      ∃ name parent body : Node, nodes = [name, parent, body] ∧ Plain name ∧ Plain parent ∧
        Shaped body) (do
      let header ← (singletonTarget rules).orElse (classHeader rules)
      let body ← bodyUpToEnd rules
      return header ++ [body]) := by
    refine .bind (.orElse (fun _ _ _ reads => Or.inl (singletons reads))
      (fun _ _ _ reads => Or.inr (headers reads))) fun header found =>
        .bind (bodyUpTo_shaped shaped _) fun body bodyShaped => .pure ?_
    rcases found with ⟨shift, target, rfl, shifts, target_eq, plain⟩ | ⟨name, parent, rfl, plain, parented⟩
    · exact Or.inl ⟨shift, target, body, rfl, shifts, target_eq, plain, bodyShaped⟩
    · exact Or.inr ⟨name, parent, body, rfl, plain, parented, bodyShaped⟩
  refine definition_plain parts fun {node} spelled found => ?_
  rcases found with ⟨shift, target, body, children_eq, shifts, target_eq, plain, bodyShaped⟩ |
    ⟨name, parent, body, children_eq, plain, parented, bodyShaped⟩
  · refine ⟨.singletonClass spelled children_eq shifts target_eq plain.standsAlone plain.shaped
      bodyShaped, fun sequence => ?_, fun list => ?_⟩
    · exact absurd (spelled.symm.trans sequence.1) (by decide)
    · exact absurd (spelled.symm.trans list.1) (by decide)
  · exact .composite _ spelled children_eq (by decide)
      (.derivedClass plain.standsAlone parented.standsAlone)
      (shaped_three plain.shaped parented.shaped bodyShaped)

theorem moduleDefinition_plain : Answers Plain (moduleDefinition rules) := by
  have parts : Answers (fun nodes => ∃ name body : Node, nodes = [name, body] ∧ Plain name ∧
      Shaped body) (do
      let name ← rules .operand
      let body ← bodyUpToEnd rules
      return [name, body]) :=
    .bind shaped.operand fun _ name => .bind (bodyUpTo_shaped shaped _) fun _ body =>
      .pure ⟨_, _, rfl, name, body⟩
  refine definition_plain parts fun spelled found => ?_
  obtain ⟨name, body, children_eq, plain, bodyShaped⟩ := found
  exact .composite _ spelled children_eq (by decide) (.moduleDefinition plain.standsAlone)
    (shaped_two plain.shaped bodyShaped)

/-! ### Operands -/

theorem group_plain : Answers Plain (group rules) :=
  .bindAny fun _ => .bind (bodyUpTo_shaped shaped _) fun _ body =>
    .pure (.composite Tag.group rfl rfl (by decide) .group (shaped_one body))

theorem container_plain {opening : String} (brackets : opening ∈ ["[", "\x7b"]) (closer : String) :
    Answers Plain (container rules opening closer) := by
  have apart : ∀ bracket ∈ ["[", "\x7b"], bracket ∉ listOperators := by decide
  exact .bind (bracketed_isListing shaped opening closer) fun _ found =>
    .pure (.composite _ found.1 rfl (apart _ brackets) (.container brackets found.2.data_eq)
      (shaped_one found.2.shaped))

theorem primary_plain : Answers Plain (primary rules) := by
  refine .spacedBody (fun node comments plain =>
    ⟨plain.shaped.sameBody rfl rfl, plain.notSequence, plain.notList⟩)
    (.firstOf fun matcher member => ?_)
  simp only [List.mem_cons, List.not_mem_nil, or_false] at member
  rcases member with rfl | rfl | rfl | rfl | rfl | rfl | rfl | rfl | rfl | rfl | rfl | rfl | rfl
  · exact methodDefinition_plain shaped
  · exact classDefinition_plain shaped
  · exact moduleDefinition_plain shaped
  · exact aliasDefinition_plain
  · exact terminal_plain _
  · exact terminal_plain _
  · exact terminal_plain _
  · exact terminal_plain _
  · exact terminal_plain _
  · exact terminal_plain _
  · exact group_plain shaped
  · exact container_plain shaped (by simp) _
  · exact container_plain shaped (by simp) _

end

/-! ### Suffixes -/

/-- A suffix whose operator and child fit any operand. -/
inductive SuffixFits : Suffix → Prop
  | call {operator arguments : Node} (called : operator.data = Tag.invoke ∨ operator.data = Tag.index)
      (listing : IsListing arguments) : SuffixFits (.wrap operator arguments)
  | member {dot name : Node} (dotted : dot.data ∈ [".", "&.", "::"]) (named : name.children = []) :
      SuffixFits (.wrap dot name)
  | block {block : Node} (blocked : block.data = Tag.block) (shaped : Shaped block) :
      SuffixFits (.block block)

theorem attachBlock_plain {callee block : Node} (plain : Plain callee)
    (blocked : block.data = Tag.block) (shaped : Shaped block) :
    Plain (Suffix.attachBlock callee block) := by
  rw [Suffix.attachBlock]
  split
  · rename_i isCall
    simp only [Bool.and_eq_true, beq_iff_eq] at isCall
    obtain ⟨called, two⟩ := isCall
    -- A call has its two children in the shape of one, and takes in the block as the third.
    rcases plain.shaped.inv with bare | isClass | ⟨shape, each⟩
    · simp [bare] at two
    · exact absurd (called.symm.trans isClass) (by decide)
    · obtain ⟨first, arguments, children_eq⟩ : ∃ first arguments : Node,
          callee.children = [first, arguments] := by
        rcases parts_eq : callee.children with _ | ⟨first, _ | ⟨arguments, _ | ⟨third, others⟩⟩⟩
        · simp [parts_eq] at two
        · simp [parts_eq] at two
        · exact ⟨first, arguments, rfl⟩
        · simp [parts_eq] at two
      rw [children_eq, called] at shape
      rw [children_eq] at each
      have parts : first.StandsAlone ∧ arguments.data = Tag.list := by
        generalize tag_eq : Tag.invoke = tag at shape
        cases shape with
        | call called listed => exact ⟨called, listed⟩
        | binary other => exact absurd (by rw [← tag_eq]; decide) other
        | member dots => exact absurd (tag_eq ▸ dots) (by decide)
        | _ => exact absurd tag_eq (by decide)
      rw [children_eq]
      exact .composite Tag.invoke called rfl (by decide) (.blockCall parts.1 parts.2 blocked)
        (shaped_three (each first (by simp)) (each arguments (by simp)) shaped)
  · exact .composite Tag.invoke rfl rfl (by decide) (.blockCall plain.standsAlone rfl blocked)
      (shaped_three plain.shaped (.leaf rfl) shaped)

theorem SuffixFits.attach_plain {operand : Node} {suffix : Suffix} (fits : SuffixFits suffix)
    (plain : Plain operand) : Plain (Suffix.attach operand suffix) := by
  cases fits with
  | @call operator arguments called listing =>
      rcases called with tag_eq | tag_eq
      · exact .composite Tag.invoke tag_eq rfl (by decide) (.call plain.standsAlone listing.data_eq)
          (shaped_two plain.shaped listing.shaped)
      · exact .composite Tag.index tag_eq rfl (by decide) (.index plain.standsAlone listing.data_eq)
          (shaped_two plain.shaped listing.shaped)
  | member dotted named =>
      have apart : ∀ dot ∈ [".", "&.", "::"], dot ∉ listOperators := by decide
      exact .composite _ rfl rfl (apart _ dotted) (.member dotted plain.standsAlone named)
        (shaped_two plain.shaped (.leaf named))
  | block blocked shaped => exact attachBlock_plain plain blocked shaped

section

variable (shaped : ShapedRules rules)
include shaped

theorem braceBlock_answers :
    Answers (fun node => node.data = Tag.block ∧ Shaped node) (braceBlock rules) := by
  have parameters : Answers IsListing (blockParameters rules) :=
    .bindAny fun _ => .bind (optionalItemList_isListing (parameter_plain shaped.operand))
      fun _ listing => .bindAny fun _ => .pure listing
  exact .bindAny fun _ => .bind (orEmpty_isParameters parameters) fun _ fits =>
    .bind (bodyUpTo_shaped shaped _) fun _ body => .pure ⟨rfl, .composite (.block fits.listed)
      (shaped_two fits.shaped body)⟩

theorem suffix_fits : Answers SuffixFits (suffix rules) := by
  refine .firstOf fun matcher member => ?_
  simp only [List.mem_cons, List.not_mem_nil, or_false] at member
  rcases member with rfl | rfl | rfl | rfl | rfl
  · exact .bind (bracketed_isListing shaped "(" ")") fun _ found =>
      .pure (.call (Or.inl rfl) found.2)
  · exact .bind (bracketed_isListing shaped "[" "]") fun _ found =>
      .pure (.call (Or.inr rfl) found.2)
  · have dots : Answers (fun node : Node => node.data ∈ [".", "&.", "::"])
        ((punctuation "&.").orElse (punctuation "." ".")) :=
      .orElse (fun _ _ _ reads => by rw [punctuation_answers "&." "" reads]; decide)
        (fun _ _ _ reads => by rw [punctuation_answers "." "." reads]; decide)
    exact .bind (.spaced (· ∈ [".", "&.", "::"]) dots) fun _ dotted =>
      .bind (.afterSkip (terminal_bare _)) fun _ named => .pure (.member dotted named)
  · exact .bind (punctuation_answers "::" "") fun _ colons => .bind (terminal_bare _) fun _ named =>
      .pure (.member (by rw [colons]; decide) named)
  · exact .bind (.afterSkip (braceBlock_answers shaped)) fun _ found =>
      .pure (.block found.1 found.2)

theorem operand_plain : Answers Plain (operand rules) := by
  refine .bind (primary_plain shaped) fun first plain =>
    .bind (.many (suffix_fits shaped)) fun suffixes each => .pure ?_
  induction suffixes generalizing first with
  | nil => exact plain
  | cons suffix suffixes ih =>
      exact ih _ ((each suffix List.mem_cons_self).attach_plain plain)
        fun other member => each other (List.mem_cons_of_mem _ member)

/-! ### Chains -/

theorem commandCall_plain : Answers Plain (commandCall rules) := by
  refine .bind (operand_plain shaped) fun callee plain =>
    .bind (.optional (.bindAny fun _ => itemList_isListing (argument_plain shaped (by decide))))
      fun arguments? found => ?_
  cases arguments? with
  | none => exact .pure plain
  | some arguments =>
      have listing := found arguments rfl
      exact .pure (.composite Tag.invoke rfl rfl (by decide)
        (.call plain.standsAlone listing.data_eq) (shaped_two plain.shaped listing.shaped))

theorem plainOperand_plain (mode : Mode) : Answers Plain (plainOperand rules mode) := by
  cases mode with
  | statement => exact commandCall_plain shaped
  | argument => exact operand_plain shaped
  | command => exact operand_plain shaped

/-- A prefix operator takes in the whole chain behind it. -/
theorem prefixed_answers {mode : Mode} {cursor next : Cursor} {tree : Node}
    (reads : (prefixed .standard rules mode).Reads cursor tree next) :
    Operand mode tree ∧ (chainStep .standard rules mode).Rejects next := by
  obtain ⟨operator, middle, operatorRead, reads⟩ := reads_bind.mp reads
  obtain ⟨last, behind, lastRead, reads⟩ := reads_bind.mp reads
  obtain ⟨reduced, rfl⟩ := reads_ofReduction.mp reads
  have spelled : operator.data ∈ (OperatorTables.standard.of mode).prefixSpellings :=
    Answers.spaced (· ∈ (OperatorTables.standard.of mode).prefixSpellings)
      (oneOf_answers (prefixSpellings_standard mode).1) operatorRead
  have fits : Pending.Fits mode (.prefixed operator) := .prefixed spelled
  have insertion := fits.reduceAs_eq last
  rw [show (OperatorTables.standard.of mode).reduceAs (Pending.prefixed operator).key
    (Pending.prefixed operator).operator (Pending.prefixed operator).leading last =
      .ok tree from reduced] at insertion
  cases insertion
  exact ⟨(shaped.expression mode lastRead).insert fits, shaped.complete lastRead⟩

theorem chainOperand_answers {mode : Mode} {cursor next : Cursor} {tree : Node}
    (reads : (chainOperand .standard rules mode).Reads cursor tree next) :
    Plain tree ∨ Operand mode tree ∧ (chainStep .standard rules mode).Rejects next := by
  rcases reads_orElse.mp reads with read | ⟨-, read⟩
  · exact Or.inr (prefixed_answers shaped read)
  · exact Or.inl (plainOperand_plain shaped mode read)

theorem chainLink_fits (mode : Mode) :
    Answers (ChainLink.Fits mode) (chainLink .standard rules mode) := by
  have operators {matcher : Matcher Node}
      (answers : Answers (fun node => node.data ∈ listOperators ∧ mode = .statement ∨
        node.data ∈ (OperatorTables.standard.of mode).infixSpellings) matcher) :
      Answers (ChainLink.Fits mode) (operatorLink mode matcher) :=
    .bind (.beforeOperator (fun data => data ∈ listOperators ∧ mode = .statement ∨
      data ∈ (OperatorTables.standard.of mode).infixSpellings) answers mode) fun _ known =>
        .pure (known.elim (fun listed => .listing listed.1 listed.2) .linking)
  have infixes : Answers (ChainLink.Fits mode) (operatorLink mode
      (terminal (.oneOf (OperatorTables.standard.of mode).infixSpellings "operator"))) :=
    operators fun _ _ _ reads => Or.inr (oneOf_answers (infixSpellings_standard mode).1 reads)
  have conditional : Answers (ChainLink.Fits mode) (conditionalLink rules mode) :=
    .bind (.beforeOperator (· = "?") (punctuation_answers "?" "") mode) fun _ spelled =>
      .bind (shaped.expression .argument) fun _ middle => .bindAny fun _ =>
        have plain := middle.plain (by decide)
        .pure (.conditional spelled ⟨plain.shaped.sameBody rfl rfl, plain.notSequence,
          plain.notList⟩)
  cases mode with
  | statement =>
      refine .firstOf fun matcher member => ?_
      simp only [List.cons_append, List.nil_append, List.mem_cons, List.not_mem_nil,
        or_false] at member
      rcases member with rfl | rfl | rfl | rfl
      · exact infixes
      · exact conditional
      · refine operators fun _ _ _ reads => Or.inl ⟨?_, rfl⟩
        rw [punctuation_answers "," "" reads]
        decide
      · refine operators fun _ _ _ reads => Or.inl ⟨?_, rfl⟩
        rw [separator_answers reads]
        decide
  | argument | command =>
      refine .firstOf fun matcher member => ?_
      simp only [List.mem_cons, List.not_mem_nil, or_false] at member
      rcases member with rfl | rfl
      · exact infixes
      · exact conditional

/-- Operands in a row make a chain: only behind the last one nothing follows. -/
theorem chainFits_of_each {mode : Mode} {links : List (ChainLink × Node)} {middle last : Cursor}
    (each : (chainStep .standard rules mode).ReadsEach middle links last) {first : Node}
    (operand : Plain first ∨
      Operand mode first ∧ (chainStep .standard rules mode).Rejects middle) :
    ChainFits mode first links := by
  induction each generalizing first with
  | nil => exact operand.elim .ofPlain And.left
  | @cons cursor middle last step steps head tail ih =>
      obtain ⟨link, next⟩ := step
      have plain : Plain first :=
        operand.elim id fun complete => absurd complete.2 head.not_rejects
      obtain ⟨read, behind, linkRead, reads⟩ := reads_bind.mp head
      obtain ⟨nextRead, after, operandRead, reads⟩ := reads_bind.mp reads
      obtain ⟨pair_eq, rfl⟩ := reads_pure.mp reads
      obtain ⟨rfl, rfl⟩ := Prod.mk.inj pair_eq
      exact ⟨plain, chainLink_fits shaped mode linkRead, ih (chainOperand_answers shaped operandRead)⟩

theorem chain_operand (mode : Mode) : Answers (Operand mode) (chain .standard rules mode) := by
  intro cursor tree next reads
  rw [chain] at reads
  obtain ⟨first, middle, firstRead, reads⟩ := reads_bind.mp reads
  obtain ⟨links, last, linksRead, reads⟩ := reads_bind.mp reads
  obtain ⟨reduced, -⟩ := reads_ofReduction.mp reads
  exact (chainFits_of_each shaped linksRead.each_of_many
    (chainOperand_answers shaped firstRead)).reduceChain reduced

end

/-! ### Rules and programs -/

/-- Behind a chain no further link is read, however deep the rules may nest. -/
theorem ruleWithin_complete {depth : Nat} {mode : Mode} {cursor next : Cursor} {tree : Node}
    (reads : (ruleWithin .standard depth (.expression mode)).Reads cursor tree next) :
    (chainStep .standard (ruleWithin .standard depth) mode).Rejects next := by
  cases depth with
  | zero =>
      obtain ⟨trace, run⟩ := reads
      cases run
  | succ depth =>
      rw [ruleWithin, production, chain] at reads
      obtain ⟨first, middle, -, reads⟩ := reads_bind.mp reads
      obtain ⟨links, last, linksRead, reads⟩ := reads_bind.mp reads
      obtain ⟨-, rfl⟩ := reads_ofReduction.mp reads
      exact (Moves.chainStep (fun reference => Moves.ruleWithin .standard (Nat.le_succ depth) reference)
        .standard mode : Moves 0 _ _ _).rejects linksRead.rejects_of_many

theorem ruleWithin_shaped (depth : Nat) : ShapedRules (ruleWithin .standard depth) := by
  induction depth with
  | zero =>
      constructor
      · rintro cursor node next ⟨trace, run⟩
        cases run
      · rintro mode cursor node next ⟨trace, run⟩
        cases run
      · exact ruleWithin_complete
  | succ depth ih => exact ⟨operand_plain ih, chain_operand ih, ruleWithin_complete⟩

theorem rule_operand (mode : Mode) : Answers (Operand mode) (rule .standard (.expression mode)) := by
  rintro cursor node next ⟨trace, run⟩
  rw [rule] at run
  exact (ruleWithin_shaped _).expression mode ⟨trace, run⟩

/-- A program that is read is shaped. -/
theorem program_shaped : Answers Shaped (program .standard) := by
  have statements : Answers Shaped (body (rule .standard)) :=
    fun _ _ _ reads => (orEmpty_answers (.afterSkip (rule_operand .statement)) reads).elim
      (fun vacant => vacant.2.shaped) (fun operand => operand.shaped)
  exact .bind statements fun _ shaped => .bindAny fun _ => .bindAny fun _ =>
    .pure (shaped.sameBody rfl rfl)

end Matcher

/-! ### Resolution of positions -/

namespace Node

variable (table : PositionTable) {node : Node} {tag : String}

theorem located_isOver : (node.located table).IsOver tag ↔ node.IsOver tag := by
  simp [IsOver]

theorem located_isEmpty : (node.located table).isEmpty = node.isEmpty := by
  simp [isEmpty]

theorem StandsAlone.located (alone : node.StandsAlone) : (node.located table).StandsAlone where
  notSequence := fun tagged => alone.notSequence ((located_isOver table).mp tagged)
  wide := fun tagged => by simpa using alone.wide ((located_isOver table).mp tagged)

theorem IsItem.located (item : node.IsItem tag) : (node.located table).IsItem tag where
  toStandsAlone := item.toStandsAlone.located table
  apart := fun tagged => item.apart ((located_isOver table).mp tagged)

end Node

theorem CompositeShape.located (table : PositionTable) {tag : String} {children : List Node}
    (shape : CompositeShape tag children) :
    CompositeShape tag (children.map (Node.located table)) := by
  cases shape with
  | method named listed =>
      exact .method (by simpa using named) (by simpa [Node.located_isEmpty] using listed)
  | singletonClass shifts => exact .singletonClass (by simpa using shifts)
  | derivedClass named parented => exact .derivedClass (named.located table) (parented.located table)
  | moduleDefinition named => exact .moduleDefinition (named.located table)
  | aliasDefinition leaves => exact .aliasDefinition (by simpa using leaves)
  | group => exact .group
  | container brackets listed => exact .container brackets (by simpa using listed)
  | call called listed => exact .call (called.located table) (by simpa using listed)
  | blockCall called listed blocked =>
      exact .blockCall (called.located table) (by simpa using listed) (by simpa using blocked)
  | index received listed => exact .index (received.located table) (by simpa using listed)
  | block listed => exact .block (by simpa [Node.located_isEmpty] using listed)
  | member dots received named => exact .member dots (received.located table) (by simpa using named)
  | conditional condition consequent alternative =>
      exact .conditional (condition.located table) (consequent.located table)
        (alternative.located table)
  | label keyed => exact .label (by simpa using keyed)
  | pair keyed valued => exact .pair (by simpa using keyed) (valued.located table)
  | sequence several each =>
      exact .sequence (by simpa using several)
        (List.forall_mem_map.mpr fun statement member => (each statement member).located table)
  | list each =>
      exact .list (List.forall_mem_map.mpr fun item member => (each item member).located table)
  | unary other spelled alone => exact .unary other spelled (alone.located table)
  | binary other spelled left right =>
      exact .binary other spelled (left.located table) (right.located table)

theorem Shaped.located (table : PositionTable) {tree : Node} (shaped : Shaped tree) :
    Shaped (tree.located table) := by
  induction shaped with
  | leaf bare => exact .leaf (by simp [bare])
  | composite shape each ih =>
      refine .composite (by simpa using shape.located table) ?_
      rw [Node.located_children]
      exact List.forall_mem_map.mpr ih
  | singletonClass data_eq children_eq shift_eq target_eq alone _ _ targetLocated bodyLocated =>
      exact .singletonClass ((Node.located_data table _).trans data_eq)
        (by rw [Node.located_children, children_eq]; rfl) ((Node.located_data table _).trans shift_eq)
        (by rw [Node.located_children, target_eq]; rfl) (alone.located table) targetLocated
        bodyLocated

/-- What a parse answers is shaped. -/
theorem parse_shaped {text : List Char} {tree : Node} (parsed : parse .standard text = .ok tree) :
    Shaped tree := by
  unfold parse parseAfter at parsed
  split at parsed
  · rename_i root next trace run
    cases parsed
    rw [Node.resolve_eq_located]
    exact (Matcher.program_shaped ⟨trace, run⟩).located _
  · cases parsed
  · cases parsed

/-! ### Every node of a tree -/

/-- The tags whose last child is a body, which may be a sequence of statements. -/
def bodyTags : List String :=
  ["def", "class", "module", Tag.group, Tag.block]

/-- Only the last child of a node is a sequence, and only where it is a body. -/
theorem CompositeShape.sequence_last {tag : String} {children : List Node}
    (shape : CompositeShape tag children) :
    (tag ∈ bodyTags ∧ ∀ child ∈ children.dropLast, ¬ child.IsOver Tag.sequence) ∨
      ∀ child ∈ children, ¬ child.IsOver Tag.sequence := by
  have ofLeaf {node : Node} (bare : node.children = []) : ¬ node.IsOver Tag.sequence :=
    fun tagged => tagged.2 bare
  have ofData {node : Node} {other : String} (data_eq : node.data = other)
      (apart : other ≠ Tag.sequence) : ¬ node.IsOver Tag.sequence :=
    fun tagged => apart (data_eq.symm.trans tagged.1)
  have ofList {node : Node} (listed : node.data = Tag.list) : ¬ node.IsOver Tag.sequence :=
    ofData listed (by decide)
  have ofParameters {node : Node} (listed : node.isEmpty = true ∨ node.data = Tag.list) :
      ¬ node.IsOver Tag.sequence :=
    listed.elim (fun vacant => ofLeaf (by simp_all [Node.isEmpty])) ofList
  cases shape with
  | method named listed =>
      refine Or.inl ⟨by decide, ?_⟩
      rintro child (_ | ⟨_, _ | ⟨_, member⟩⟩)
      · exact named.elim ofLeaf fun dotted => ofData dotted (by decide)
      · exact ofParameters listed
      · cases member
  | singletonClass shifts =>
      refine Or.inl ⟨by decide, ?_⟩
      rintro child (_ | ⟨_, member⟩)
      · exact ofData shifts.1 (by decide)
      · cases member
  | derivedClass named parented =>
      refine Or.inl ⟨by decide, ?_⟩
      rintro child (_ | ⟨_, _ | ⟨_, member⟩⟩)
      · exact named.notSequence
      · exact parented.notSequence
      · cases member
  | moduleDefinition named =>
      refine Or.inl ⟨by decide, ?_⟩
      rintro child (_ | ⟨_, member⟩)
      · exact named.notSequence
      · cases member
  | group => exact Or.inl ⟨by decide, fun child member => by cases member⟩
  | block listed =>
      refine Or.inl ⟨by decide, ?_⟩
      rintro child (_ | ⟨_, member⟩)
      · exact ofParameters listed
      · cases member
  | sequence several each => exact Or.inr fun child member => (each child member).notSequence
  | list each => exact Or.inr fun child member => (each child member).notSequence
  | aliasDefinition leaves => exact Or.inr (by simp [ofLeaf leaves.1, ofLeaf leaves.2])
  | container brackets listed => exact Or.inr (by simp [ofList listed])
  | call called listed => exact Or.inr (by simp [called.notSequence, ofList listed])
  | blockCall called listed blocked =>
      exact Or.inr (by simp [called.notSequence, ofList listed, ofData blocked (by decide)])
  | index received listed => exact Or.inr (by simp [received.notSequence, ofList listed])
  | member dots received named => exact Or.inr (by simp [received.notSequence, ofLeaf named])
  | conditional condition consequent alternative =>
      exact Or.inr (by simp [condition.notSequence, consequent.notSequence, alternative.notSequence])
  | label keyed => exact Or.inr (by simp [ofLeaf keyed])
  | pair keyed valued => exact Or.inr (by simp [ofLeaf keyed, valued.notSequence])
  | unary other spelled alone => exact Or.inr (by simp [alone.notSequence])
  | binary other spelled left right => exact Or.inr (by simp [left.notSequence, right.notSequence])

theorem Shaped.compositeShape {node : Node} (shaped : Shaped node) (filled : node.children ≠ []) :
    CompositeShape node.data node.children := by
  cases shaped with
  | leaf bare => exact absurd bare filled
  | composite shape each => exact shape
  | singletonClass data_eq children_eq shift_eq target_eq alone targetShaped bodyShaped =>
      rw [data_eq, children_eq]
      exact .singletonClass ⟨shift_eq, by rw [target_eq]; rfl⟩

/-- The sign in the head of a singleton class, over the target whose methods the class holds. -/
structure Node.HeadsSingleton (tree node : Node) : Prop where
  shift : node.data = "<<"
  single : ∃ target, node.children = [target] ∧ target.StandsAlone
  within : ∃ parent ∈ tree.nodes, ∃ body, parent.data = "class" ∧ parent.children = [node, body]

/-- Every node of a shaped tree is shaped itself, but for the signs of singleton classes. -/
theorem Shaped.of_mem_nodes {tree node : Node} (shaped : Shaped tree) (member : node ∈ tree.nodes) :
    Shaped node ∨ Node.HeadsSingleton tree node := by
  -- A sign keeps its class when a tree around it is looked at.
  have lift {tree inner : Node} (within : inner.nodes ⊆ tree.nodes)
      (found : Shaped node ∨ Node.HeadsSingleton inner node) :
      Shaped node ∨ Node.HeadsSingleton tree node :=
    found.imp_right fun heads =>
      have ⟨parent, parentMem, rest⟩ := heads.within
      ⟨heads.shift, heads.single, parent, within parentMem, rest⟩
  have below {tree child : Node} (childMem : child ∈ tree.children) : child.nodes ⊆ tree.nodes :=
    fun _ inner => Node.mem_nodes_iff.mpr (Or.inr ⟨child, childMem, inner⟩)
  induction shaped with
  | @leaf tree bare =>
      rcases Node.mem_nodes_iff.mp member with rfl | ⟨child, childMem, -⟩
      · exact Or.inl (.leaf bare)
      · rw [bare] at childMem
        cases childMem
  | @composite tree shape each ih =>
      rcases Node.mem_nodes_iff.mp member with rfl | ⟨child, childMem, inner⟩
      · exact Or.inl (.composite shape each)
      · exact lift (below childMem) (ih child childMem inner)
  | @singletonClass tree shift target body data_eq children_eq shift_eq target_eq alone
      targetShaped bodyShaped targetNodes bodyNodes =>
      have shiftMem : shift ∈ tree.children := by simp [children_eq]
      have bodyMem : body ∈ tree.children := by simp [children_eq]
      rcases Node.mem_nodes_iff.mp member with rfl | ⟨child, childMem, inner⟩
      · exact Or.inl (.singletonClass data_eq children_eq shift_eq target_eq alone targetShaped
          bodyShaped)
      · rw [children_eq] at childMem
        rcases childMem with _ | ⟨_, _ | ⟨_, impossible⟩⟩
        · rcases Node.mem_nodes_iff.mp inner with rfl | ⟨deeper, deeperMem, inner⟩
          · exact Or.inr ⟨shift_eq, ⟨target, target_eq, alone⟩, tree,
              Node.mem_nodes_iff.mpr (Or.inl rfl), body, data_eq, children_eq⟩
          · rw [target_eq] at deeperMem
            rw [List.mem_singleton.mp deeperMem] at inner
            exact lift (List.Subset.trans (below (by simp [target_eq])) (below shiftMem))
              (targetNodes inner)
        · exact lift (below bodyMem) (bodyNodes inner)
        · cases impossible

/-- Every composite node of a program has the shape of its tag, but for the sign of a singleton
class; and wherever a sequence of statements is a child of a node, it is the body of the node. -/
theorem parse_shapes {text : List Char} {tree : Node} (parsed : parse .standard text = .ok tree) :
    (∀ node ∈ tree.nodes, node.children ≠ [] →
      CompositeShape node.data node.children ∨ Node.HeadsSingleton tree node) ∧
    ∀ parent ∈ tree.nodes, ∀ index child, parent.children[index]? = some child →
      child.IsOver Tag.sequence → parent.data ∈ bodyTags ∧ index + 1 = parent.children.length := by
  have shaped := parse_shaped parsed
  have described : ∀ node ∈ tree.nodes, node.children ≠ [] →
      CompositeShape node.data node.children ∨ Node.HeadsSingleton tree node := by
    intro node member filled
    exact (shaped.of_mem_nodes member).imp_left fun own => own.compositeShape filled
  refine ⟨described, fun parent parentMem index child found tagged => ?_⟩
  have childMem := List.mem_of_getElem? found
  rcases described parent parentMem (List.ne_nil_of_mem childMem) with shape | heads
  · rcases shape.sequence_last with ⟨bodied, front⟩ | none
    · refine ⟨bodied, ?_⟩
      obtain ⟨inside, -⟩ := List.getElem?_eq_some_iff.mp found
      refine Classical.byContradiction fun other => ?_
      have early : parent.children.dropLast[index]? = some child := by
        rw [List.getElem?_dropLast, if_pos (by omega), found]
      exact front child (List.mem_of_getElem? early) tagged
    · exact absurd tagged (none child childMem)
  · obtain ⟨target, children_eq, alone⟩ := heads.single
    rw [children_eq, List.mem_singleton] at childMem
    exact absurd (childMem ▸ tagged) alone.notSequence

/-- The head of a singleton class is its sign over the target; the statements of the method are a
sequence behind the name and the parameters. -/
theorem parse_shapes_singleton :
    ∃ tree shift method, parse .standard "class << a; def b; c; d end end".toList = .ok tree ∧
      tree.data = "class" ∧ tree.children = [shift, method] ∧
      shift.data = "<<" ∧ shift.children.map Node.data = ["a"] ∧ Node.HeadsSingleton tree shift ∧
      method.data = "def" ∧
      method.children.map (fun child => (child.data, child.children.map Node.data)) =
        [("b", []), (Tag.empty, []), (Tag.sequence, ["c", "d"])] ∧
      (∀ node ∈ tree.nodes, node.children ≠ [] →
        CompositeShape node.data node.children ∨ Node.HeadsSingleton tree node) ∧
      ∀ parent ∈ tree.nodes, ∀ index child, parent.children[index]? = some child →
        child.IsOver Tag.sequence →
          parent.data ∈ bodyTags ∧ index + 1 = parent.children.length := by
  have run : acceptsWhere .standard (fun root =>
      let tree := root.located (.ofText "class << a; def b; c; d end end".toList)
      decide (tree.data = "class" ∧ tree.children.map (fun part => (part.data,
          part.children.map fun child => (child.data, child.children.map Node.data))) =
        [("<<", [("a", [])]),
          ("def", [("b", []), (Tag.empty, []), (Tag.sequence, ["c", "d"])])]))
      "class << a; def b; c; d end end".toList = true := by
    rw [OperatorTables.standard_eq]
    decide +kernel
  obtain ⟨root, parsed, shown⟩ := exists_parse_of_acceptsWhere run
  generalize root.located (.ofText "class << a; def b; c; d end end".toList) = tree at parsed shown
  obtain ⟨defines, parts⟩ := of_decide_eq_true shown
  obtain ⟨shift, _, children, shiftParts, tail⟩ := List.map_eq_cons_iff.mp parts
  obtain ⟨method, rfl, methodParts⟩ := List.map_eq_singleton_iff.mp tail
  obtain ⟨shifts, targets⟩ := Prod.mk.inj shiftParts
  obtain ⟨methodData, methodChildren⟩ := Prod.mk.inj methodParts
  obtain ⟨target, shiftChildren, targetParts⟩ := List.map_eq_singleton_iff.mp targets
  obtain ⟨named, bare⟩ := Prod.mk.inj targetParts
  have heads : Node.HeadsSingleton tree shift := by
    have alone : target.StandsAlone := (Plain.leaf (List.map_eq_nil_iff.mp bare)).standsAlone
    exact ⟨shifts, ⟨target, shiftChildren, alone⟩,
      tree, Node.mem_nodes_iff.mpr (Or.inl rfl), method, defines, children⟩
  have sole : shift.children.map Node.data = ["a"] :=
    List.map_eq_singleton_iff.mpr ⟨target, shiftChildren, named⟩
  exact ⟨tree, shift, method, parsed, defines, children, shifts, sole, heads, methodData,
    methodChildren, parse_shapes parsed⟩

end RubySyntax
