import RubySyntax.Proofs.MovedRules
import RubySyntax.Proofs.SeamTokens

/-!
# Rules across a seam

Every rule of the grammar repeats its runs in the longer text.  An operand and the
arguments of a call do so up to the end of the source.  Statements and what stands in
brackets would go on behind it and only do so in front of something else.
-/

namespace RubySyntax

/-- How far into a source a run of a rule is sure to be repeated. -/
def Rule.reach : Rule → Reach
  | .operand => .whole
  | .expression .command => .whole
  | .expression _ => .inside

namespace Matcher

variable {seam : Seam} {reach : Reach}

/-! ### Parts of productions -/

theorem Guarded.orEmpty {matcher other : Matcher Node}
    (persists : Persists seam reach matcher other) :
    Guarded seam reach (orEmpty matcher) (orEmpty other) :=
  here.bind fun _ => persists.optional.bind fun _ => pure

theorem Anchored.closing {kind : Skip} {closer : Matcher Node} (counts : kind ≠ .horizontal)
    (closes : Anchored seam reach closer closer) :
    Anchored seam reach (closing closer kind) (Matcher.closing closer kind) :=
  (Guarded.commentsBefore counts).closedBy fun _ => closes.afterSkip.bind fun _ => .pure

theorem Persists.comma : Persists seam .inside comma comma :=
  .afterSkip (by decide) .commaToken

section

variable {item other separator : Matcher Node} (items : Anchored seam reach item other)
  (separators : Persists seam reach separator separator)
include items separators

theorem Anchored.separated :
    Anchored seam reach (separated item separator) (separated other separator) :=
  items.bind fun _ => (separators.bind fun _ => items.toGuarded).many.bind fun _ => .pure

theorem Anchored.itemList :
    Anchored seam reach (itemList item separator) (Matcher.itemList other separator) :=
  Guarded.here.closedBy fun _ => (items.separated separators).bind fun _ => .pure

theorem Guarded.optionalItemList :
    Guarded seam reach (optionalItemList item separator) (optionalItemList other separator) :=
  here.bind fun _ => (items.separated separators).toPersists.optional.bind fun _ => pure

theorem Guarded.trailedItemList :
    Guarded seam reach (trailedItemList item separator) (trailedItemList other separator) :=
  here.bind fun _ => Guarded.bind (Persists.optional (((items.separated separators).bind
    fun _ => separators.optional.bind fun _ => pure).toPersists)) fun _ => pure

end

/-! ### Parameters and names -/

theorem Anchored.splatParameter : Anchored seam reach splatParameter splatParameter :=
  (oneOf (by decide) (by decide) (by decide)).spaced.bind fun _ =>
    (identifier.bind fun _ => .pure).toGuarded

theorem Persists.sameLineValue :
    Persists seam .inside (Matcher.scan Lexeme.sameLineValue) (Matcher.scan Lexeme.sameLineValue) :=
  .scan fun _ =>
    { rejects := fun scanned continues => (Lexeme.sameLineValue_append continues _).1 scanned
      within := fun scanned => (Lexeme.sameLineValue_spacingPrefix scanned).within
      reads := fun scanned continues =>
        (Lexeme.sameLineValue_append (Continues.of_drop continues) _).2 _ scanned continues }

theorem Anchored.parameter {default other : Matcher Node}
    (values : Anchored seam .inside default other) :
    Anchored seam .inside (parameter default) (Matcher.parameter other) := by
  have labelled : Anchored seam .inside (labelParameter default) (labelParameter other) :=
    label.spaced.bind fun _ =>
      (Persists.sameLineValue.bind fun _ => values.toGuarded).optional.bind fun _ => .pure
  have named : Anchored seam .inside (namedParameter default) (namedParameter other) := by
    refine identifier.spaced.bind fun name => ?_
    refine Guarded.bind (Persists.optional ?_) fun default? => ?_
    · exact ((punctuation (by decide)).afterSkip.bind fun _ =>
        values.toGuarded.bind fun _ => .pure).toPersists
    · cases default? <;> exact .pure
  exact splatParameter.firstOfCons (labelled.toPersists.firstOfCons
    (named.toPersists.firstOfCons .firstOfNil))

theorem Anchored.definition {word : String} {parts others : Matcher (List Node)}
    (member : word ∈ neededWords) (persists : Guarded seam reach parts others) :
    Anchored seam reach (definition word parts) (Matcher.definition word others) :=
  (keyword member).bind fun _ => persists.bind fun _ => .pure

theorem Anchored.definedName : Anchored seam reach definedName definedName := by
  refine methodName.spaced.bind fun name => Guarded.bind (Persists.optional ?_) fun singleton? => ?_
  · exact (Persists.punctuation (by decide)).bind fun _ =>
      (methodName.bind fun _ => .pure).toGuarded
  · cases singleton? <;> exact .pure

theorem Anchored.aliasDefinition : Anchored seam reach aliasDefinition aliasDefinition := by
  have names : Anchored seam reach aliasName aliasName :=
    (symbol.firstOfCons (globalVariable.toPersists.firstOfCons
      (methodName.toPersists.firstOfCons .firstOfNil))).afterSkip
  exact definition (by decide)
    (names.bind fun _ => (names.bind fun _ => .pure).toGuarded).toGuarded

/-! ### Productions -/

section

variable {rules others : Rules}
  (expressions : ∀ reference, Anchored seam reference.reach (rules reference) (others reference))
include expressions

theorem Anchored.expression (mode : Mode) :
    Anchored seam .inside (rules (.expression mode)) (others (.expression mode)) := by
  cases mode with
  | statement => exact expressions (.expression .statement)
  | argument => exact expressions (.expression .argument)
  | command => exact (expressions (.expression .command)).inside

/-- A body and the token that closes it lie in the source. -/
theorem Anchored.bodyUpTo {kind : Skip} {closer : Matcher Node} (counts : kind ≠ .horizontal)
    (closes : ∀ reach, Anchored seam reach closer closer) :
    Anchored seam reach (bodyUpTo rules (Matcher.closing closer kind))
      (Matcher.bodyUpTo others (Matcher.closing closer kind)) := by
  have statements : Guarded seam .inside (body rules) (body others) :=
    .orEmpty (expression expressions .statement).afterSkip.toPersists
  exact statements.closedBy fun _ => ((closes reach).closing counts).bind fun _ => .pure

theorem Anchored.argument (mode : Mode) :
    Anchored seam (Rule.expression mode).reach (argument rules mode) (Matcher.argument others mode) := by
  have labelled : Anchored seam (Rule.expression mode).reach (labelPair rules mode)
      (labelPair others mode) :=
    label.spaced.bind fun _ => ((expressions (.expression mode)).bind fun _ => .pure).toGuarded
  exact labelled.orElse (expressions (.expression mode)).toPersists

theorem Persists.bracketed {opening closer : String}
    (opens : (opening, "") ∈ followingSymbols) (closes : closer ∈ closingBrackets) :
    Persists seam reach (bracketed rules opening closer) (bracketed others opening closer) := by
  have arguments : Guarded seam .inside (bracketArguments rules) (bracketArguments others) :=
    .trailedItemList (Anchored.argument expressions .argument) .comma
  exact (Persists.punctuation opens).bind fun _ => (arguments.closedBy fun _ =>
    (Anchored.closing (by decide) (.bracket closes)).bind fun _ => .pure).toGuarded

theorem Anchored.bodyUpToEnd :
    Anchored seam reach (bodyUpToEnd rules) (Matcher.bodyUpToEnd others) :=
  bodyUpTo expressions (by decide) fun _ => keyword (by decide)

theorem Anchored.methodDefinition :
    Anchored seam .whole (methodDefinition rules) (Matcher.methodDefinition others) := by
  have parenthesized :
      Persists seam .inside (parenthesizedParameters rules) (parenthesizedParameters others) :=
    Persists.bind (.afterSkip (by decide) (.punctuation (by decide))) fun _ =>
      ((Guarded.optionalItemList (parameter (expression expressions .argument)) .comma).closedBy
        fun _ => (Anchored.closing (by decide) (.bracket (by decide))).bind
          fun _ => .pure).toGuarded
  have bare : Persists seam .inside (bareParameters rules) (bareParameters others) := by
    refine Persists.bind (.scan fun rest => .ofContinues ?_ ?_) fun _ =>
      ((parameter (expression expressions .command)).itemList
        Persists.commaOnSameLine.inside).toGuarded
    · exact fun continues => Lexeme.parameterStart_append continues _
    · exact fun scanned => (Lexeme.parameterStart_spacingPrefix scanned).within
  refine definition (by decide)
    (definedName.bind fun _ => Anchored.toGuarded ?_).toGuarded
  exact (Guarded.orEmpty (parenthesized.orElse bare)).closedBy fun _ =>
    (bodyUpToEnd expressions).bind fun _ => .pure

theorem Anchored.classDefinition :
    Anchored seam .whole (classDefinition rules) (Matcher.classDefinition others) := by
  have singleton : Anchored seam .whole (singletonTarget rules) (singletonTarget others) :=
    (punctuation (by decide)).spaced.bind fun _ =>
      ((expressions .operand).bind fun _ => .pure).toGuarded
  have parent : Anchored seam .whole (parentClass rules) (parentClass others) :=
    (punctuation (by decide)).spaced.bind fun _ =>
      ((expressions .operand).bind fun _ => .pure).toGuarded
  have header : Anchored seam .whole (classHeader rules) (classHeader others) :=
    (expressions .operand).bind fun _ => (Guarded.orEmpty parent.toPersists).bind fun _ => .pure
  exact definition (by decide)
    ((singleton.orElse header.toPersists).bind fun _ =>
      ((bodyUpToEnd expressions).bind fun _ => .pure).toGuarded).toGuarded

theorem Anchored.moduleDefinition :
    Anchored seam .whole (moduleDefinition rules) (Matcher.moduleDefinition others) :=
  definition (by decide) ((expressions .operand).bind fun _ =>
    ((bodyUpToEnd expressions).bind fun _ => .pure).toGuarded).toGuarded

theorem Anchored.primary : Anchored seam .whole (primary rules) (Matcher.primary others) := by
  have group : Persists seam .whole (group rules) (Matcher.group others) :=
    (Persists.punctuation (by decide)).bind fun _ =>
      ((bodyUpTo expressions (by decide) fun _ => bracket (by decide)).bind
        fun _ => .pure).toGuarded
  have containers {opening closer : String} (opens : (opening, "") ∈ followingSymbols)
      (closes : closer ∈ closingBrackets) :
      Persists seam .whole (container rules opening closer) (container others opening closer) :=
    (Persists.bracketed expressions opens closes).bind fun _ => .pure
  exact ((methodDefinition expressions).firstOfCons
    ((classDefinition expressions).toPersists.firstOfCons
    ((moduleDefinition expressions).toPersists.firstOfCons
    (aliasDefinition.toPersists.firstOfCons
    (number.toPersists.firstOfCons
    (symbol.toPersists.firstOfCons
    (globalVariable.toPersists.firstOfCons
    (instanceVariable.toPersists.firstOfCons
    (regexp.toPersists.firstOfCons
    (identifier.toPersists.firstOfCons
    (group.firstOfCons
    ((containers (by decide) (by decide)).firstOfCons
    ((containers (by decide) (by decide)).firstOfCons .firstOfNil))))))))))))).spaced

/-! ### Suffixes and calls -/

omit expressions in
theorem not_reads_punctuation {symbol excluded : String}
    (member : (symbol, excluded) ∈ followingSymbols) {text : List Char} {value : Node}
    {next : Cursor} :
    ¬ (Matcher.punctuation symbol excluded).Reads (.within text text.length) value next := by
  intro read
  obtain ⟨length, scanned, -⟩ := reads_terminal.mp read
  rw [Cursor.rest_within, List.drop_length] at scanned
  exact nomatch (followingSymbols_solid _ member).2.symm.trans scanned

omit expressions in
theorem PersistsAt.memberSuffix {offset : Nat} (within : offset ≤ seam.source.length)
    (unopened : endsInComment seam.source offset = false) :
    PersistsAt seam .whole offset memberSuffix Matcher.memberSuffix := by
  have dots : Persists seam .whole
      (Matcher.afterSkip .blanks ((Matcher.punctuation "&.").orElse (Matcher.punctuation "." ".")))
      (Matcher.afterSkip .blanks
        ((Matcher.punctuation "&.").orElse (Matcher.punctuation "." "."))) := by
    refine Persists.afterSkipOver
      ((Persists.punctuation (by decide)).orElse (.punctuation (by decide)))
      (Tries.terminal _).orElse (fun value next read => ?_) (rejects_orElse.mpr ⟨?_, ?_⟩)
    · rcases reads_orElse.mp read with safe | ⟨-, plain⟩
      · exact not_reads_punctuation (by decide) safe
      · exact not_reads_punctuation (by decide) plain
    · rw [Matcher.punctuation, rejects_terminal, Cursor.rest_within, seam.drop_behind]
      exact seam.noMember.1
    · rw [Matcher.punctuation, rejects_terminal, Cursor.rest_within, seam.drop_behind]
      exact seam.noMember.2
  exact (PersistsAt.spaced within unopened (Tries.terminal _).orElse dots).bind fun _ =>
    (Anchored.methodName.afterSkip.bind fun _ => .pure).toGuarded

theorem Persists.blockSuffix :
    Persists seam .whole (blockSuffix rules) (Matcher.blockSuffix others) := by
  have bar : Anchored seam .whole bar Matcher.bar :=
    (Anchored.punctuation (by decide)).afterSkip
  have parameters : Anchored seam .whole (blockParameters rules) (blockParameters others) :=
    bar.bind fun _ => ((Guarded.optionalItemList
      (Anchored.parameter (expressions .operand).inside) .comma).closedBy fun _ =>
        bar.bind fun _ => .pure).toGuarded
  have braces : Persists seam .whole (braceBlock rules) (braceBlock others) :=
    (Persists.punctuation (by decide)).bind fun _ =>
      (Guarded.orEmpty parameters.toPersists).bind fun _ =>
        ((Anchored.bodyUpTo expressions (by decide) fun _ => .bracket (by decide)).bind
          fun _ => .pure).toGuarded
  refine (braces.afterSkipOver (Tries.terminal _).bind (fun value next read => ?_) ?_).bind
    fun _ => .pure
  · obtain ⟨brace, middle, opened, -⟩ := reads_bind.mp read
    exact not_reads_punctuation (by decide) opened
  · refine rejects_bind.mpr (Or.inl ?_)
    rw [Matcher.punctuation, rejects_terminal, Cursor.rest_within, seam.drop_behind]
    have symbol := followingSymbols_solid ("\x7b", "") (by decide)
    have behind := Lexeme.punctuation_stopsAtBreaks symbol.1
      (Lexeme.horizontalLength_trails seam.trails).isBreak []
    exact behind.trans symbol.2

omit expressions in
theorem suffix_tries (rules : Rules) : Tries (suffix rules) :=
  (Tries.terminal _).bind.bind.orElse

theorem Persists.suffix : Persists seam .whole (suffix rules) (Matcher.suffix others) where
  place {offset} within := .ofTried (suffix_tries rules) fun unopened => by
    have brackets {tag opening closer : String} (opens : (opening, "") ∈ followingSymbols)
        (closes : closer ∈ closingBrackets) : PersistsAt seam .whole offset
          (bracketSuffix rules tag opening closer) (bracketSuffix others tag opening closer) :=
      ((bracketed expressions opens closes).bind fun _ => .pure).place within
    have scope : Persists seam .whole scopeSuffix scopeSuffix :=
      (Persists.punctuation (by decide)).bind fun _ =>
        (Anchored.methodName.bind fun _ => .pure).toGuarded
    exact (brackets (by decide) (by decide)).firstOfCons
      ((brackets (by decide) (by decide)).firstOfCons
        ((PersistsAt.memberSuffix within unopened).firstOfCons ((scope.place within).firstOfCons
          (((blockSuffix expressions).place within).firstOfCons .firstOfNil))))

theorem Anchored.operand : Anchored seam .whole (operand rules) (Matcher.operand others) :=
  (primary expressions).bind fun _ => (Persists.suffix expressions).many.bind fun _ => .pure

omit expressions in
theorem TriesBehind.operand (rules : Rules) : TriesBehind (operand rules) where
  tried run := by
    obtain ⟨first, middle, front, back, -, rest, rfl⟩ := bind_eq_matched run
    obtain ⟨suffixes, last, more, none, suffixesRun, done, rfl⟩ := bind_eq_matched rest
    cases done
    exact ((suffix_tries rules).many suffixesRun).left.right

/-- At the end of an operand a call finds its arguments in the source or not at all. -/
private theorem optionalArguments_reads {offset : Nat} {next : Cursor} {arguments? : Option Node}
    {trace : List Attempt} (within : offset ≤ seam.source.length)
    (tight : seam.source.drop offset = [] ∨ Continues (seam.source.drop offset))
    (run : optional (do
        scan Lexeme.commandStart
        commandArguments rules) (.within seam.source offset) = .matched arguments? next trace)
    (closed : SealedTrace seam.ending seam.source trace) :
    ∃ stop, offset ≤ stop ∧ stop ≤ seam.source.length ∧ next = .within seam.source stop ∧
      (optional (do
        scan Lexeme.commandStart
        commandArguments others)).Reads (.within seam.text offset) arguments?
          (.within seam.text stop) := by
  have arguments : Anchored seam .whole (commandArguments rules) (commandArguments others) :=
    (Anchored.argument expressions .command).itemList .commaOnSameLine
  have start : Lexeme.commandStart (seam.text.drop offset) =
      Lexeme.commandStart (seam.source.drop offset) := by
    rw [seam.drop_text within, Lexeme.commandStart_append_of_tight seam.trails tight]
  rcases optional_eq_matched run with ⟨value, read, rfl⟩ | ⟨failed, rfl, rfl⟩
  · obtain ⟨_, middle, front, back, scanRun, argumentsRun, rfl⟩ := bind_eq_matched read
    obtain ⟨length, scanned, rfl⟩ := reads_scan.mp ⟨_, scanRun⟩
    have bound := (Lexeme.continues_of_commandStart scanned).1
    simp only [Cursor.rest_within, List.length_drop] at bound scanned
    rw [Cursor.advance_within (by omega)] at argumentsRun
    obtain ⟨stop, onward, before, rfl, readOn⟩ := arguments.reads (by omega) argumentsRun
      (sealedTrace_append.mp closed).2
    refine ⟨stop, by omega, before, rfl, reads_optional.mpr (Or.inl ⟨value, rfl,
      reads_bind.mpr ⟨(), _, reads_scan.mpr ⟨length, start.trans scanned, rfl⟩, ?_⟩⟩)⟩
    rw [Cursor.advance_within (by simp only [List.length_append]; omega)]
    exact readOn trivial
  · refine ⟨offset, Nat.le_refl _, within, rfl, reads_optional.mpr (Or.inr ⟨rfl, rfl, ?_⟩)⟩
    rcases bind_eq_failed failed with
      scanFailed | ⟨_, middle, front, back, scanRun, argumentsFailed, rfl⟩
    · exact rejects_bind.mpr (Or.inl (rejects_scan.mpr
        (start.trans (rejects_scan.mp ⟨_, scanFailed⟩))))
    · obtain ⟨length, scanned, rfl⟩ := reads_scan.mp ⟨_, scanRun⟩
      have bound := (Lexeme.continues_of_commandStart scanned).1
      simp only [Cursor.rest_within, List.length_drop] at bound scanned
      rw [Cursor.advance_within (by omega)] at argumentsFailed
      have missing := arguments.rejects (by omega) argumentsFailed
        (sealedTrace_append.mp closed).2 trivial
      refine rejects_bind.mpr (Or.inr ⟨(), _,
        reads_scan.mpr ⟨length, start.trans scanned, rfl⟩, ?_⟩)
      rw [Cursor.advance_within (by simp only [List.length_append]; omega)]
      exact missing

omit expressions in
/-- A call does not fit only where its callee does not. -/
private theorem commandCall_eq_failed {cursor : Cursor} {trace : List Attempt}
    (run : commandCall rules cursor = .failed trace) : operand rules cursor = .failed trace := by
  rcases bind_eq_failed run with failed | ⟨callee, middle, front, back, -, rest, -⟩
  · exact failed
  · rcases bind_eq_failed rest with failed | ⟨arguments?, last, more, others, -, done, -⟩
    · exact absurd failed (optional_ne_failed _ _ _)
    · cases arguments? <;> cases done

theorem Anchored.commandCall :
    Anchored seam .whole (commandCall rules) (Matcher.commandCall others) := by
  have callee := Anchored.operand expressions
  refine ⟨⟨⟨fun {offset} within => ⟨?_, ?_⟩⟩, ?_⟩, ?_⟩
  · intro next value trace run closed
    obtain ⟨first, middle, front, back, calleeRun, rest, rfl⟩ := bind_eq_matched run
    obtain ⟨arguments?, last, more, none, argumentsRun, done, rfl⟩ := bind_eq_matched rest
    simp only [sealedTrace_append] at closed
    obtain ⟨place, onward, before, rfl, read⟩ := callee.reads within calleeRun closed.1
    have tight := ((TriesBehind.operand rules).tried calleeRun).tight closed.1
    obtain ⟨stop, further, inSource, rfl, readOn⟩ :=
      optionalArguments_reads expressions before tight argumentsRun closed.2.1
    refine ⟨stop, Nat.le_trans onward further, inSource, ?_, fun _ => reads_bind.mpr
      ⟨first, _, read trivial, reads_bind.mpr ⟨arguments?, _, readOn, ?_⟩⟩⟩
    · cases arguments? <;> cases done <;> rfl
    · cases arguments? with
      | none =>
          cases done
          exact reads_pure.mpr ⟨rfl, rfl⟩
      | some arguments =>
          cases done
          exact reads_pure.mpr ⟨rfl, rfl⟩
  · intro trace run closed _
    exact rejects_bind.mpr (Or.inl
      (callee.rejects within (commandCall_eq_failed run) closed trivial))
  · intro offset trace within run closed
    exact callee.guards within (commandCall_eq_failed run) closed
  · intro offset next value trace within run closed
    obtain ⟨first, middle, front, back, calleeRun, -, rfl⟩ := bind_eq_matched run
    exact callee.anchors within calleeRun (sealedTrace_append.mp closed).1

/-! ### Chains -/

theorem Anchored.prefixed (mode : Mode) :
    Anchored seam (Rule.expression mode).reach (prefixed .standard rules mode)
      (Matcher.prefixed .standard others mode) :=
  (oneOf (usable_standard.context mode).hasPrefix (prefixSpellings_solid mode)
    (by decide)).spaced.bind fun _ =>
      ((expressions (.expression mode)).bind fun _ => .ofReduction).toGuarded

theorem Anchored.plainOperand (mode : Mode) :
    Anchored seam .whole (plainOperand rules mode) (Matcher.plainOperand others mode) := by
  cases mode with
  | statement => exact commandCall expressions
  | argument => exact operand expressions
  | command => exact operand expressions

theorem Anchored.chainOperand (mode : Mode) :
    Anchored seam (Rule.expression mode).reach (chainOperand .standard rules mode)
      (Matcher.chainOperand .standard others mode) := by
  refine (prefixed expressions mode).orElse ?_
  cases mode with
  | statement => exact (plainOperand expressions .statement).toPersists.inside
  | argument => exact (plainOperand expressions .argument).toPersists.inside
  | command => exact (plainOperand expressions .command).toPersists

omit expressions in
/-- An operator need not stand in the source: what follows an argument or a statement may be
closed instead. -/
theorem PersistsAt.beforeOperator (mode : Mode) {kind : Terminal}
    (persists : Persists seam .whole (Matcher.onSameLine (Matcher.terminal kind))
      (Matcher.onSameLine (Matcher.terminal kind)))
    (plain : Persists seam .inside (Matcher.terminal kind) (Matcher.terminal kind))
    {offset : Nat} (within : offset ≤ seam.source.length)
    (unopened : endsInComment seam.source offset = false) :
    PersistsAt seam (Rule.expression mode).reach offset
      (beforeOperator mode (Matcher.terminal kind))
      (Matcher.beforeOperator mode (Matcher.terminal kind)) := by
  cases mode with
  | statement => exact persists.inside.place within
  | argument => exact .spaced within unopened (.terminal kind) (.afterSkip (by decide) plain)
  | command => exact persists.place within

omit expressions in
/-- So it is with the operators that a chain has in every context. -/
theorem PersistsAt.commonOperator (mode : Mode) {kind : Terminal}
    (stops : Lexeme.StopsAtBreaks kind.scanner)
    (inside : ∀ {text length}, kind.scanner text = some length → length ≤ text.length)
    (missing : kind.scanner [] = none) {offset : Nat} (within : offset ≤ seam.source.length)
    (unopened : endsInComment seam.source offset = false) :
    PersistsAt seam (Rule.expression mode).reach offset
      (Matcher.beforeOperator mode (Matcher.terminal kind))
      (Matcher.beforeOperator mode (Matcher.terminal kind)) :=
  .beforeOperator mode (.followingOnSameLine stops inside missing)
    (.terminal fun rest _ => .ofStops (stops seam.trails.isBreak) inside rest) within unopened

theorem PersistsAt.chainLink (mode : Mode) {offset : Nat} (within : offset ≤ seam.source.length)
    (unopened : endsInComment seam.source offset = false) :
    PersistsAt seam (Rule.expression mode).reach offset (chainLink .standard rules mode)
      (Matcher.chainLink .standard others mode) := by
  have infixes : PersistsAt seam (Rule.expression mode).reach offset
      (operatorLink mode (Matcher.terminal
        (.oneOf (OperatorTables.standard.of mode).infixSpellings "operator")))
      (operatorLink mode (Matcher.terminal
        (.oneOf (OperatorTables.standard.of mode).infixSpellings "operator"))) :=
    (PersistsAt.commonOperator mode (Lexeme.oneOf_stopsAtBreaks (infixSpellings_solid mode))
      (Lexeme.oneOf_within (usable_standard.context mode).hasInfix)
      (infixSpellings_apart mode "" (by decide)) within unopened).bind fun _ => .pure
  have conditional : PersistsAt seam (Rule.expression mode).reach offset
      (conditionalLink rules mode) (conditionalLink others mode) :=
    (PersistsAt.commonOperator mode (Lexeme.punctuation_stopsAtBreaks (by decide))
      Lexeme.punctuation_within (by decide) within unopened).bind fun _ =>
        ((Anchored.expression expressions .argument).toGuarded.closedBy fun _ =>
          (Anchored.punctuation (by decide)).spaced.bind fun _ => .pure).toGuarded
  cases mode with
  | statement =>
      have comma : Persists seam .inside
          (operatorLink .statement (Matcher.punctuation ","))
          (operatorLink .statement (Matcher.punctuation ",")) :=
        Persists.commaOnSameLine.inside.bind fun _ => .pure
      have break_ : Persists seam .inside
          (operatorLink .statement (Matcher.terminal .separator))
          (operatorLink .statement (Matcher.terminal .separator)) :=
        (Persists.separator.afterSkip (by decide)).bind fun _ => .pure
      exact infixes.firstOfCons (conditional.firstOfCons ((comma.place within).firstOfCons
        ((break_.place within).firstOfCons .firstOfNil)))
  | argument => exact infixes.firstOfCons (conditional.firstOfCons .firstOfNil)
  | command => exact infixes.firstOfCons (conditional.firstOfCons .firstOfNil)

theorem PersistsAt.chainStep (mode : Mode) {offset : Nat} (within : offset ≤ seam.source.length)
    (unopened : endsInComment seam.source offset = false) :
    PersistsAt seam (Rule.expression mode).reach offset (chainStep .standard rules mode)
      (Matcher.chainStep .standard others mode) :=
  (chainLink expressions mode within unopened).bind fun _ =>
    ((Anchored.chainOperand expressions mode).bind fun _ => .pure).toGuarded

/-! ### What is tried behind a rule -/

section

variable (behind : ∀ reference, TriesBehind (rules reference))
include behind

omit expressions in
theorem TriesBehind.commandArguments : TriesBehind (commandArguments rules) := by
  have items : TriesBehind (argument rules .command) :=
    .orElse (.bindLast fun _ => .bindStill (behind _) fun _ => .pure) (behind _)
  exact .bindLast fun _ => .bindStill
    (.bindMany items (.bindLast fun _ => items) fun _ _ => .pure) fun _ => .pure

omit expressions in
theorem TriesBehind.commandCall : TriesBehind (commandCall rules) where
  tried run := by
    obtain ⟨callee, middle, front, back, calleeRun, rest, rfl⟩ := bind_eq_matched run
    obtain ⟨arguments?, last, more, none, argumentsRun, done, rfl⟩ := bind_eq_matched rest
    rcases optional_eq_matched argumentsRun with ⟨arguments, read, rfl⟩ | ⟨-, rfl, rfl⟩
    · cases done
      exact ((TriesBehind.bindLast fun _ => commandArguments behind).tried read).left.right
    · cases done
      exact ((operand rules).tried calleeRun).left

omit expressions in
theorem TriesBehind.chainOperand (mode : Mode) :
    TriesBehind (chainOperand .standard rules mode) := by
  refine .orElse (.bindLast fun _ => .bindStill (behind _) fun _ => .ofReduction) ?_
  cases mode with
  | statement => exact commandCall behind
  | argument => exact operand rules
  | command => exact operand rules

omit expressions in
theorem TriesBehind.chainStep (mode : Mode) : TriesBehind (chainStep .standard rules mode) :=
  .bindLast fun _ => .bindStill (chainOperand behind mode) fun _ => .pure

omit expressions in
theorem TriesBehind.production (reference : Rule) :
    TriesBehind (production .standard rules reference) := by
  cases reference with
  | operand => exact operand rules
  | expression mode =>
      exact .bindMany (chainOperand behind mode) (chainStep behind mode) fun _ _ => .ofReduction

/-- The steps of a chain start where another token was tried. -/
theorem PersistsAt.chainSteps (mode : Mode) {offset : Nat} (within : offset ≤ seam.source.length)
    (unopened : endsInComment seam.source offset = false) :
    PersistsAt seam (Rule.expression mode).reach offset
      (Matcher.many (Matcher.chainStep .standard rules mode))
      (Matcher.many (Matcher.chainStep .standard others mode)) :=
  .many (fun within unopened => chainStep expressions mode within unopened)
    (fun run closed => ((TriesBehind.chainStep behind mode).tried run).uncommented closed) within unopened

theorem Anchored.production (reference : Rule) :
    Anchored seam reference.reach (production .standard rules reference)
      (Matcher.production .standard others reference) := by
  cases reference with
  | operand => exact operand expressions
  | expression mode =>
      refine (chainOperand expressions mode).bindBehind (TriesBehind.chainOperand behind mode)
        (fun _ _ within unopened =>
          (PersistsAt.chainSteps expressions behind mode within unopened).bind
            fun _ => .ofReduction) ?_
      intro first cursor trace run
      rcases bind_eq_failed run with failed | ⟨links, last, front, back, -, failed, -⟩
      · exact manyUpTo_ne_failed _ _ _ _ failed
      · exact absurd failed (ofReduction_ne_failed _ _ _)

end

end

theorem TriesBehind.ruleWithin (depth : Nat) (reference : Rule) :
    TriesBehind (ruleWithin .standard depth reference) := by
  induction depth generalizing reference with
  | zero => exact .abort
  | succ depth ih => exact production ih reference

theorem Anchored.ruleWithin (depth : Nat) (reference : Rule) :
    Anchored seam reference.reach (ruleWithin .standard depth reference)
      (rule .standard reference) := by
  induction depth generalizing reference with
  | zero => exact abort
  | succ depth ih =>
      rw [rule_eq_production usable_standard]
      exact production ih (TriesBehind.ruleWithin depth) reference

/-- A rule of the grammar repeats its runs in the longer text. -/
theorem Anchored.rule (reference : Rule) :
    Anchored seam reference.reach (rule .standard reference) (Matcher.rule .standard reference) where
  place within :=
    ⟨fun run closed => (ruleWithin _ reference).reads within run closed,
      fun run closed holds => (ruleWithin _ reference).rejects within run closed holds⟩
  guards within run closed := (ruleWithin _ reference).guards within run closed
  anchors within run closed := (ruleWithin _ reference).anchors within run closed

end Matcher

end RubySyntax
