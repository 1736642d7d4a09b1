import RubySyntax.Proofs.OperandLayout

/-!
# Layouts of expressions and programs

A chain of operands and operators is read link by link, and its reduction lies
where the chain does.  With the other productions this gives, by induction on
the bound of the nesting, that every rule reads trees with a layout, and that a
program covers the whole text.
-/

namespace RubySyntax

theorem prefixSpellings_standard (mode : Mode) :
    (OperatorTables.standard.of mode).prefixSpellings ≠ [] ∧
      ∀ word ∈ (OperatorTables.standard.of mode).prefixSpellings, word ∈ leadingOperators := by
  refine ⟨?_, forall_prefixSpellings (by decide +kernel) mode⟩
  rw [prefixSpellings_eq]
  cases mode <;> exact List.cons_ne_nil _ _

/-- The infix operators of the language are operators behind their first child. -/
theorem infixSpellings_standard (mode : Mode) :
    (OperatorTables.standard.of mode).infixSpellings ≠ [] ∧
      ∀ word ∈ (OperatorTables.standard.of mode).infixSpellings, word ∈ linkingOperators := by
  refine ⟨?_, forall_infixSpellings (by decide +kernel) mode⟩
  rw [infixSpellings_eq]
  cases mode <;> exact List.cons_ne_nil _ _

theorem startsSolid_of_mem_leadingOperators {word : String} (member : word ∈ leadingOperators) :
    startsWithChar (· != ';') word.toList = true :=
  Lexeme.startsSolid_of_startsOperand (leadingOperators_plain word member).2

theorem startsSolid_of_mem_linkingOperators {word : String} (member : word ∈ linkingOperators) :
    startsWithChar (· != ';') word.toList = true :=
  Lexeme.startsSolid_of_startsOperand (linkingOperators_plain word member).2

theorem not_listOperators_of_mem_leadingOperators {word : String}
    (member : word ∈ leadingOperators) : listOperators.contains word = false := by
  have each : ∀ word ∈ leadingOperators, listOperators.contains word = false := by
    decide
  exact each word member

namespace Matcher

variable {text : List Char} {rules : Rules}

/-! ### Operands of chains -/

theorem prefixed_readsTrees {mode : Mode} (expressions : ReadsTrees text (rules (.expression mode))) :
    ReadsTrees text (prefixed .standard rules mode) := by
  intro start node next inside reads
  obtain ⟨operator, middle, operatorRead, reads⟩ := reads_bind.mp reads
  obtain ⟨operand, last, operandRead, reads⟩ := reads_bind.mp reads
  obtain ⟨reduced, rfl⟩ := reads_ofReduction.mp reads
  obtain ⟨nonempty, members⟩ := prefixSpellings_standard mode
  obtain ⟨comments, place, token, run, tokenRead, rfl⟩ :=
    reads_spaced (Or.inl rfl) (fun placeWithin tokenRead => by
      obtain ⟨word, member, isToken, -⟩ := reads_oneOf nonempty placeWithin tokenRead
      exact isToken.spelled.getElem?_ne_semicolon
        (startsSolid_of_mem_leadingOperators (members word member))) inside operatorRead
  have runBounds := run.bounds
  obtain ⟨word, member, isToken, rfl⟩ := reads_oneOf nonempty runBounds.2 tokenRead
  have wordWithin := isToken.spelled.bound runBounds.2
  obtain ⟨stop, rfl, filled, laid⟩ := expressions wordWithin operandRead
  have leads := members word member
  refine ⟨stop, rfl, by omega, ?_⟩
  refine Laid.reduceAs (linksOperators_standard mode) (by omega : start ≤ place + word.length) ?_
    (.refl wordWithin) laid filled reduced
  intro before behind child spacing childLaid childFilled
  have noList : listOperators.contains (token.withComments comments).data = false := by
    rw [show (token.withComments comments).data = word from isToken.data_eq]
    exact not_listOperators_of_mem_leadingOperators leads
  have form : LeadingForm (token.withComments comments).data word [.child] := by
    rw [show (token.withComments comments).data = word from isToken.data_eq]
    exact .operator leads
  rw [List.nil_append, joinOperator_of_not_list noList]
  refine .leading form ?_ isToken.offset_eq isToken.spelled
    (.child spacing childLaid childFilled (.nil childLaid.bounds.2))
  simpa [Node.withComments, Node.withChildren, isToken.comments_eq] using Lead.run run

/-- A prefix operator is no delimiter. -/
theorem prefixed_readsSolid (mode : Mode) : ReadsSolid text (prefixed .standard rules mode) := by
  intro start node next inside reads
  obtain ⟨operator, middle, operatorRead, -⟩ := reads_bind.mp reads
  obtain ⟨nonempty, members⟩ := prefixSpellings_standard mode
  obtain ⟨comments, place, token, run, tokenRead, rfl⟩ :=
    reads_spaced (Or.inl rfl) (fun placeWithin tokenRead => by
      obtain ⟨word, member, isToken, -⟩ := reads_oneOf nonempty placeWithin tokenRead
      exact isToken.spelled.getElem?_ne_semicolon
        (startsSolid_of_mem_leadingOperators (members word member))) inside operatorRead
  obtain ⟨word, member, isToken, -⟩ := reads_oneOf nonempty run.bounds.2 tokenRead
  exact run.solidFrom isToken.spelled (leadingOperators_plain word (members word member)).2

theorem commandCall_readsTrees (sound : SoundRules text rules) :
    ReadsTrees text (commandCall rules) := by
  intro start node next inside reads
  obtain ⟨callee, middle, calleeRead, reads⟩ := reads_bind.mp reads
  obtain ⟨place, rfl, filled, calleeLaid⟩ := operand_readsTrees sound inside calleeRead
  obtain ⟨arguments?, last, argumentsRead, reads⟩ := reads_bind.mp reads
  rcases reads_optional.mp argumentsRead with ⟨arguments, rfl, someRead⟩ | ⟨rfl, rfl, -⟩
  · obtain ⟨rfl, rfl⟩ := reads_pure.mp reads
    obtain ⟨_, behind, scanRead, someRead⟩ := reads_bind.mp someRead
    obtain ⟨length, scanned, rfl⟩ := reads_scan.mp scanRead
    have gaps := Lexeme.commandStart_spacingPrefix scanned
    rw [Cursor.rest_within] at gaps
    have spacing := gaps.spacing calleeLaid.bounds.2
    have spacingLe := spacing.le
    rw [Cursor.advance_within spacing.within] at someRead
    obtain ⟨stop, rfl, argumentsFilled, argumentsLaid⟩ :=
      itemList_readsTrees (argument_readsTrees (sound.trees _)) commaOnSameLine_readsDropped
        spacing.within someRead
    obtain ⟨offset, offset_eq, after, -, before⟩ := calleeLaid.offset_bounds
    have offsetBefore := before filled
    refine ⟨stop, rfl, by omega, .bare .command rfl offset_eq after (by omega)
      (fun _ => ⟨callee, by simp, rfl⟩) ?_⟩
    exact .child (.refl inside) calleeLaid filled
      (.child spacing argumentsLaid argumentsFilled (.nil argumentsLaid.bounds.2))
  · obtain ⟨rfl, rfl⟩ := reads_pure.mp reads
    exact ⟨place, rfl, filled, calleeLaid⟩

theorem chainOperand_readsTrees (sound : SoundRules text rules)
    (mode : Mode) : ReadsTrees text (chainOperand .standard rules mode) := by
  refine (prefixed_readsTrees (sound.trees _)).orElse ?_
  cases mode with
  | statement => exact commandCall_readsTrees sound
  | argument => exact operand_readsTrees sound
  | command => exact operand_readsTrees sound

/-! ### Links of chains -/

/-- What may stand in front of an operator are comments, or blanks on the same line. -/
theorem reads_beforeOperator {mode : Mode} {matcher : Matcher Node}
    (solid : ∀ {place : Nat} {inner : Node} {next : Cursor}, place ≤ text.length →
      matcher.Reads (Cursor.within text place) inner next → text[place]? ≠ some ';')
    {start : Nat} {node : Node} {next : Cursor} (inside : start ≤ text.length)
    (reads : (beforeOperator mode matcher).Reads (Cursor.within text start) node next) :
    ∃ comments place inner, Lead text start comments place ∧
      matcher.Reads (Cursor.within text place) inner next ∧ node = inner.withComments comments := by
  have sameLine : (onSameLine matcher).Reads (Cursor.within text start) node next →
      ∃ comments place inner, Lead text start comments place ∧
        matcher.Reads (Cursor.within text place) inner next ∧
          node = inner.withComments comments := by
    intro reads
    obtain ⟨place, spacing, reads⟩ := reads_afterSkip_within inside reads
    exact ⟨[], place, node, .spacing spacing, reads, node.withComments_nil.symm⟩
  cases mode with
  | statement => exact sameLine reads
  | argument =>
      obtain ⟨comments, place, inner, run, innerRead, rfl⟩ :=
        reads_spaced (Or.inl rfl) solid inside reads
      exact ⟨comments, place, inner, .run run, innerRead, rfl⟩
  | command => exact sameLine reads

/-- What a matcher reads is a link that begins right where it was read. -/
def ReadsLink (text : List Char) (matcher : Matcher ChainLink) : Prop :=
  ∀ ⦃start : Nat⦄ ⦃link : ChainLink⦄ ⦃next : Cursor⦄, start ≤ text.length →
    matcher.Reads (Cursor.within text start) link next →
      ∃ stop, next = Cursor.within text stop ∧ stop ≤ text.length ∧
        LinkLaid text start link stop

theorem infixLink_readsLink (mode : Mode) :
    ReadsLink text (operatorLink mode
      (terminal (.oneOf (OperatorTables.standard.of mode).infixSpellings "operator"))) := by
  intro start link next inside reads
  obtain ⟨operator, last, operatorRead, reads⟩ := reads_bind.mp reads
  obtain ⟨rfl, rfl⟩ := reads_pure.mp reads
  obtain ⟨nonempty, members⟩ := infixSpellings_standard mode
  obtain ⟨comments, place, token, lead, tokenRead, rfl⟩ :=
    reads_beforeOperator (fun placeWithin tokenRead => by
      obtain ⟨word, member, isToken, -⟩ := reads_oneOf nonempty placeWithin tokenRead
      exact isToken.spelled.getElem?_ne_semicolon
        (startsSolid_of_mem_linkingOperators (members word member))) inside operatorRead
  obtain ⟨word, member, isToken, rfl⟩ := reads_oneOf nonempty lead.bounds.2 tokenRead
  have wordWithin := isToken.spelled.bound lead.bounds.2
  have links := members word member
  refine ⟨_, rfl, wordWithin, ?_⟩
  rw [← isToken.data_eq] at links ⊢
  refine .operator links ?_ isToken.offset_eq ?_
  · simpa [Node.withComments, isToken.comments_eq] using lead
  · rw [show (token.withComments comments).data = word from isToken.data_eq]
    exact isToken.spelled

theorem conditionalLink_readsLink (mode : Mode)
    (arguments : ReadsTrees text (rules (.expression .argument))) :
    ReadsLink text (conditionalLink rules mode) := by
  intro start link next inside reads
  obtain ⟨question, middle, questionRead, reads⟩ := reads_bind.mp reads
  obtain ⟨inner, behind, innerRead, reads⟩ := reads_bind.mp reads
  obtain ⟨colon, last, colonRead, reads⟩ := reads_bind.mp reads
  obtain ⟨rfl, rfl⟩ := reads_pure.mp reads
  obtain ⟨comments, place, token, lead, tokenRead, rfl⟩ :=
    reads_beforeOperator (fun placeWithin tokenRead => by
      obtain ⟨isToken, -⟩ := punctuation_readsWord placeWithin tokenRead
      exact isToken.spelled.getElem?_ne_semicolon (by decide)) inside questionRead
  obtain ⟨isToken, rfl⟩ := punctuation_readsWord lead.bounds.2 tokenRead
  have questionWithin := isToken.spelled.bound lead.bounds.2
  obtain ⟨innerStop, rfl, filled, innerLaid⟩ := arguments questionWithin innerRead
  obtain ⟨trailing, colonPlace, colonToken, run, colonTokenRead, rfl⟩ :=
    reads_spaced (Or.inl rfl) (fun placeWithin tokenRead => by
      obtain ⟨isToken, -⟩ := punctuation_readsWord placeWithin tokenRead
      exact isToken.spelled.getElem?_ne_semicolon (by decide)) innerLaid.bounds.2 colonRead
  obtain ⟨isColon, rfl⟩ := punctuation_readsWord run.bounds.2 colonTokenRead
  have kept : (colonToken.withComments trailing).comments = trailing := by
    simp [Node.withComments, isColon.comments_eq]
  rw [kept]
  refine ⟨_, rfl, isColon.spelled.bound run.bounds.2, ?_⟩
  refine .conditional isToken.data_eq ?_ isToken.offset_eq isToken.spelled
    (.refl questionWithin) innerLaid run isColon.spelled
  simpa [Node.withComments, isToken.comments_eq] using lead

theorem commaLink_readsLink : ReadsLink text (operatorLink .statement (punctuation ",")) := by
  intro start link next inside reads
  obtain ⟨operator, last, operatorRead, reads⟩ := reads_bind.mp reads
  obtain ⟨rfl, rfl⟩ := reads_pure.mp reads
  obtain ⟨place, spacing, operatorRead⟩ := reads_afterSkip_within inside operatorRead
  obtain ⟨isToken, rfl⟩ := punctuation_readsWord spacing.within operatorRead
  exact ⟨_, rfl, isToken.spelled.bound spacing.within,
    .comma isToken.data_eq isToken.comments_eq spacing isToken.offset_eq isToken.spelled⟩

theorem breakLink_readsLink : ReadsLink text (operatorLink .statement (terminal .separator)) := by
  intro start link next inside reads
  obtain ⟨operator, last, operatorRead, reads⟩ := reads_bind.mp reads
  obtain ⟨rfl, rfl⟩ := reads_pure.mp reads
  obtain ⟨place, spacing, operatorRead⟩ := reads_afterSkip_within inside operatorRead
  obtain ⟨length, scanned, rfl, rfl⟩ := reads_terminal.mp operatorRead
  have gaps := Lexeme.separator_spacingPrefix scanned
  rw [Cursor.rest_within] at gaps
  have broken := gaps.spacing spacing.within
  rw [Cursor.advance_within broken.within]
  exact ⟨_, rfl, broken.within, .statementBreak rfl rfl spacing rfl broken⟩

theorem chainLink_readsLink (sound : SoundRules text rules)
    (mode : Mode) : ReadsLink text (chainLink .standard rules mode) := by
  intro start link next inside reads
  have fits : ∃ matcher, matcher.Reads (Cursor.within text start) link next ∧
      ReadsLink text matcher := by
    cases mode with
    | statement =>
        obtain ⟨matcher, member, reads⟩ := reads.mem_firstOf
        simp only [List.cons_append, List.nil_append, List.mem_cons, List.not_mem_nil,
          or_false] at member
        rcases member with rfl | rfl | rfl | rfl
        · exact ⟨_, reads, infixLink_readsLink _⟩
        · exact ⟨_, reads, conditionalLink_readsLink _ (sound.trees _)⟩
        · exact ⟨_, reads, commaLink_readsLink⟩
        · exact ⟨_, reads, breakLink_readsLink⟩
    | argument | command =>
        obtain ⟨matcher, member, reads⟩ := reads.mem_firstOf
        simp only [List.mem_cons, List.not_mem_nil, or_false] at member
        rcases member with rfl | rfl
        · exact ⟨_, reads, infixLink_readsLink _⟩
        · exact ⟨_, reads, conditionalLink_readsLink _ (sound.trees _)⟩
  obtain ⟨matcher, reads, readsLink⟩ := fits
  exact readsLink inside reads

/-! ### Chains and rules -/

private theorem chainLaid_of_each (sound : SoundRules text rules)
    {mode : Mode} {cursor last : Cursor} {links : List (ChainLink × Node)}
    (each : ReadsEach (do
      let link ← chainLink .standard rules mode
      let next ← chainOperand .standard rules mode
      return (link, next)) cursor links last) :
    ∀ {start : Nat}, start ≤ text.length → cursor = Cursor.within text start →
      ∃ stop, last = Cursor.within text stop ∧ ChainLaid text start links stop := by
  induction each with
  | nil =>
      intro start inside here
      exact ⟨start, here, .nil⟩
  | cons head tail ih =>
      intro start inside here
      subst here
      obtain ⟨link, middle, linkRead, head⟩ := reads_bind.mp head
      obtain ⟨operand, behind, operandRead, head⟩ := reads_bind.mp head
      obtain ⟨rfl, rfl⟩ := reads_pure.mp head
      obtain ⟨place, rfl, placeWithin, linkLaid⟩ := chainLink_readsLink sound mode inside linkRead
      obtain ⟨front, rfl, filled, laid⟩ :=
        chainOperand_readsTrees sound mode placeWithin operandRead
      obtain ⟨stop, rfl, rest⟩ := ih laid.bounds.2 rfl
      exact ⟨stop, rfl, .cons linkLaid (.refl placeWithin) laid filled rest⟩

theorem chain_readsTrees (sound : SoundRules text rules) (mode : Mode) :
    ReadsTrees text (chain .standard rules mode) := by
  intro start node next inside reads
  obtain ⟨first, middle, firstRead, reads⟩ := reads_bind.mp reads
  obtain ⟨links, last, linksRead, reads⟩ := reads_bind.mp reads
  obtain ⟨reduced, rfl⟩ := reads_ofReduction.mp reads
  obtain ⟨place, rfl, filled, laid⟩ := chainOperand_readsTrees sound mode inside firstRead
  obtain ⟨stop, rfl, chainLaid⟩ :=
    chainLaid_of_each sound linksRead.each_of_many laid.bounds.2 rfl
  obtain ⟨resultLaid, resultFilled⟩ :=
    chainLaid.reduceChain (linksOperators_standard mode) laid filled reduced
  exact ⟨stop, rfl, resultFilled, resultLaid⟩

/-- A chain begins with its first operand. -/
theorem chain_readsSolid (sound : SoundRules text rules) (mode : Mode) :
    ReadsSolid text (chain .standard rules mode) := by
  intro start node next inside reads
  obtain ⟨first, middle, firstRead, -⟩ := reads_bind.mp reads
  rcases reads_orElse.mp firstRead with prefixRead | ⟨-, plainRead⟩
  · exact prefixed_readsSolid mode inside prefixRead
  · cases mode with
    | statement =>
        obtain ⟨callee, behind, calleeRead, -⟩ := reads_bind.mp plainRead
        exact operand_readsSolid sound inside calleeRead
    | argument => exact operand_readsSolid sound inside plainRead
    | command => exact operand_readsSolid sound inside plainRead

/-- Every rule reads trees that lie where they were read, however deep it may nest. -/
theorem ruleWithin_sound (depth : Nat) : SoundRules text (ruleWithin .standard depth) := by
  induction depth with
  | zero =>
      constructor
      · rintro reference start node next - ⟨trace, run⟩
        cases run
      · rintro start node next - ⟨trace, run⟩
        cases run
  | succ depth ih =>
      refine ⟨fun reference => ?_, chain_readsSolid ih .statement⟩
      cases reference with
      | operand => exact operand_readsTrees ih
      | expression mode => exact chain_readsTrees ih mode

theorem rule_readsTrees (reference : Rule) : ReadsTrees text (rule .standard reference) := by
  intro start node next inside reads
  obtain ⟨trace, run⟩ := reads
  rw [rule] at run
  exact (ruleWithin_sound _).trees reference inside ⟨trace, run⟩

end Matcher

/-- A program lies in its text: statements behind a gap, then comments up to the end, which
the root keeps. -/
def ProgramLaid (text : List Char) (root : Node) : Prop :=
  ∃ statements trailing before stop, Spacing text 0 before ∧
    Laid text before (.tree statements) stop ∧
      CommentRun text stop trailing text.length ∧ root = statements.appendComments trailing

theorem Matcher.reads_program {text : List Char} {root : Node} {next : Cursor}
    (reads : (program .standard).Reads (Cursor.ofText text) root next) :
    ProgramLaid text root := by
  rw [Cursor.ofText_eq_within] at reads
  obtain ⟨statements, middle, bodyRead, reads⟩ := reads_bind.mp reads
  obtain ⟨trailing, behind, commentsRead, reads⟩ := reads_bind.mp reads
  obtain ⟨finished, last, endRead, reads⟩ := reads_bind.mp reads
  obtain ⟨rfl, rfl⟩ := reads_pure.mp reads
  obtain ⟨before, stop, rfl, spacing, laid⟩ :=
    reads_body (rule_readsTrees _) (Nat.zero_le _) bodyRead
  obtain ⟨settled, place, rfl, placeWithin, skipped, run⟩ :=
    reads_commentsBefore (Or.inr rfl) laid.bounds.2 commentsRead
  rw [reads_afterSkip, skipped] at endRead
  obtain ⟨length, scanned, -, -⟩ := reads_terminal.mp endRead
  have finishedPlace : place = text.length := by
    rw [Cursor.rest_within] at scanned
    cases remaining : text.drop place with
    | nil => exact Nat.le_antisymm placeWithin (List.drop_eq_nil_iff.mp remaining)
    | cons character rest =>
        rw [remaining] at scanned
        cases scanned
  subst finishedPlace
  exact ⟨statements, trailing, before, stop, spacing, laid, run (by simp), rfl⟩

end RubySyntax
