import RubySyntax.Proofs.ArgumentLayout

/-!
# Layouts of operands

Every production of a primary operand begins with a token and puts the rest of
its form behind it.  A suffix then takes in whatever operand lies in front of
it, which is the only place where a call without brackets gets its block.
-/

namespace RubySyntax

namespace Matcher

variable {text : List Char} {rules : Rules}

/-- What a matcher reads begins with a token that is no delimiter, behind its comments. -/
def ReadsSolid (text : List Char) (matcher : Matcher Node) : Prop :=
  ∀ ⦃start : Nat⦄ ⦃node : Node⦄ ⦃next : Cursor⦄, start ≤ text.length →
    matcher.Reads (Cursor.within text start) node next → SolidFrom text start

/-- Rules that read trees with a layout, and statements that begin with no delimiter. -/
structure SoundRules (text : List Char) (rules : Rules) : Prop where
  trees : ∀ reference, ReadsTrees text (rules reference)
  solid : ReadsSolid text (rules (.expression .statement))

/-! ### Parts that may be left out -/

theorem reads_orEmpty {matcher : Matcher Node} {start : Nat} {node : Node} {next : Cursor}
    (reads : (orEmpty matcher).Reads (Cursor.within text start) node next) :
    matcher.Reads (Cursor.within text start) node next ∨
      IsVacant Tag.empty start node ∧ next = Cursor.within text start := by
  obtain ⟨offset, middle, hereRead, reads⟩ := reads_bind.mp reads
  obtain ⟨rfl, rfl⟩ := reads_here.mp hereRead
  obtain ⟨node?, last, nodeRead, reads⟩ := reads_bind.mp reads
  obtain ⟨rfl, rfl⟩ := reads_pure.mp reads
  rcases reads_optional.mp nodeRead with ⟨inner, rfl, someRead⟩ | ⟨rfl, rfl, -⟩
  · exact Or.inl someRead
  · exact Or.inr ⟨⟨rfl, rfl, rfl, rfl⟩, rfl⟩

/-- Statements behind a gap, or nothing where they would begin. -/
theorem reads_body (statements : ReadsTrees text (rules (.expression .statement))) {start : Nat}
    {node : Node} {next : Cursor} (inside : start ≤ text.length)
    (reads : (body rules).Reads (Cursor.within text start) node next) :
    ∃ before stop, next = Cursor.within text stop ∧ Spacing text start before ∧
      Laid text before (.tree node) stop := by
  rcases reads_orEmpty reads with someRead | ⟨isVacant, rfl⟩
  · obtain ⟨before, spacing, someRead⟩ := reads_afterSkip_within inside someRead
    obtain ⟨stop, rfl, -, laid⟩ := statements spacing.within someRead
    exact ⟨before, stop, rfl, spacing, laid⟩
  · exact ⟨start, start, rfl, .refl inside, .vacant inside (Or.inl rfl) isVacant⟩

/-- A body and its closing token, whose comments the body keeps. -/
theorem reads_bodyUpTo (statements : ReadsTrees text (rules (.expression .statement)))
    {closer : Matcher Node} {word : String} (readsWord : ReadsWord text word closer)
    (member : word ∈ closingWords) {start : Nat} {node : Node}
    {next : Cursor} (inside : start ≤ text.length)
    (reads : (bodyUpTo rules (closing closer .gap)).Reads (Cursor.within text start) node next) :
    ∃ stop, next = Cursor.within text stop ∧
      Laid text start (.parts [.closed Tag.empty word] [node]) stop := by
  obtain ⟨inner, middle, bodyRead, reads⟩ := reads_bind.mp reads
  obtain ⟨trailing, last, closerRead, reads⟩ := reads_bind.mp reads
  obtain ⟨rfl, rfl⟩ := reads_pure.mp reads
  obtain ⟨before, behind, rfl, spacing, laid⟩ := reads_body statements inside bodyRead
  obtain ⟨place, run, spelled, rfl⟩ :=
    reads_closing (Or.inr rfl) readsWord member laid.bounds.2 closerRead
  refine ⟨_, rfl, ?_⟩
  exact .closed member (fun list => absurd list (by decide)) spacing laid .none run spelled (.nil (spelled.bound run.bounds.2))

theorem reads_bodyUpToEnd (statements : ReadsTrees text (rules (.expression .statement)))
    {start : Nat} {node : Node} {next : Cursor} (inside : start ≤ text.length)
    (reads : (bodyUpToEnd rules).Reads (Cursor.within text start) node next) :
    ∃ stop, next = Cursor.within text stop ∧
      Laid text start (.parts [.closed Tag.empty "end"] [node]) stop :=
  reads_bodyUpTo statements keyword_readsWord (by decide) inside reads

/-- A body begins with no delimiter, even if the word `end` stands in its place. -/
theorem bodyUpToEnd_readsSolid (statements : ReadsSolid text (rules (.expression .statement))) :
    ReadsSolid text (bodyUpToEnd rules) := by
  intro start node next inside reads
  obtain ⟨inner, middle, bodyRead, reads⟩ := reads_bind.mp reads
  obtain ⟨trailing, last, closerRead, reads⟩ := reads_bind.mp reads
  rcases reads_orEmpty bodyRead with someRead | ⟨-, rfl⟩
  · obtain ⟨skipWithin, skipped⟩ := advance_skip .gap inside
    rw [reads_afterSkip, Cursor.rest_within, skipped] at someRead
    intro character present
    rw [tokenPlace_of_gaps (Nat.le_add_right _ _) (skip_gaps (Or.inr rfl))] at present
    exact statements skipWithin someRead character present
  · obtain ⟨place, run, spelled, -⟩ :=
      reads_closing (Or.inr rfl) keyword_readsWord (by decide) inside closerRead
    exact run.solidFrom spelled (by decide)

/-! ### Definitions -/

/-- What the parts behind the word of a definition read lies along one of its forms. -/
def ReadsForm (text : List Char) (word : String) (matcher : Matcher (List Node)) : Prop :=
  ∀ ⦃start : Nat⦄ ⦃children : List Node⦄ ⦃next : Cursor⦄, start ≤ text.length →
    matcher.Reads (Cursor.within text start) children next →
      ∃ stop parts, next = Cursor.within text stop ∧ LeadingForm word word parts ∧
        Laid text start (.parts parts children) stop

theorem definition_readsBegins {word : String} {parts : Matcher (List Node)}
    (readsForm : ReadsForm text word parts) : ReadsBegins text (definition word parts) := by
  intro start node next inside reads
  obtain ⟨token, middle, tokenRead, reads⟩ := reads_bind.mp reads
  obtain ⟨children, last, partsRead, reads⟩ := reads_bind.mp reads
  obtain ⟨rfl, rfl⟩ := reads_pure.mp reads
  obtain ⟨isToken, rfl⟩ := keyword_readsWord inside tokenRead
  obtain ⟨stop, forms, rfl, form, rest⟩ :=
    readsForm (isToken.spelled.bound inside) partsRead
  have begins := begins_ofToken isToken form rest
  rw [← isToken.data_eq] at begins
  exact ⟨stop, rfl, begins⟩

theorem definedName_readsTrees : ReadsTrees text definedName := by
  intro start node next inside reads
  obtain ⟨name, middle, nameRead, reads⟩ := reads_bind.mp reads
  obtain ⟨place, rfl, filled, nameLaid⟩ := methodName_readsBegins.spaced inside nameRead
  have nameBounds := nameLaid.bounds
  obtain ⟨singleton?, last, singletonRead, reads⟩ := reads_bind.mp reads
  rcases reads_optional.mp singletonRead with ⟨⟨dot, member⟩, rfl, someRead⟩ | ⟨rfl, rfl, -⟩
  · obtain ⟨rfl, rfl⟩ := reads_pure.mp reads
    obtain ⟨sign, behind, signRead, someRead⟩ := reads_bind.mp someRead
    obtain ⟨given, final, memberRead, someRead⟩ := reads_bind.mp someRead
    obtain ⟨equal, rfl⟩ := reads_pure.mp someRead
    cases equal
    obtain ⟨isToken, rfl⟩ := punctuation_readsWord nameBounds.2 signRead
    have signWithin := isToken.spelled.bound nameBounds.2
    obtain ⟨stop, rfl, memberFilled, memberLaid⟩ :=
      methodName_readsBegins.trees signWithin memberRead
    refine ⟨stop, rfl, by omega, ?_⟩
    have form : LinkingForm dot.data "." [.child] := by
      rw [isToken.data_eq]
      exact .operator (by decide)
    refine .linking form rfl nameLaid filled ?_ isToken.offset_eq isToken.spelled
      (.child (.refl signWithin) memberLaid memberFilled (.nil memberLaid.bounds.2))
    simpa [Node.withChildren, isToken.comments_eq] using Lead.spacing (.refl nameBounds.2)
  · obtain ⟨rfl, rfl⟩ := reads_pure.mp reads
    exact ⟨place, rfl, filled, nameLaid⟩

/-- What the parameters of a method lie along: nothing, a list, or a list in parentheses. -/
theorem reads_methodParameters
    (arguments : ReadsTrees text (rules (.expression .argument)))
    (commands : ReadsTrees text (rules (.expression .command))) {start : Nat} {node : Node}
    {next : Cursor} (inside : start ≤ text.length)
    (reads : (orEmpty ((parenthesizedParameters rules).orElse (bareParameters rules))).Reads
      (Cursor.within text start) node next) :
    ∃ stop parts, next = Cursor.within text stop ∧ stop ≤ text.length ∧
      LeadingForm "def" "def" (.child :: (parts ++ [.closed Tag.empty "end"])) ∧
        (SolidFrom text stop → Laid text start (.parts parts [node]) stop) := by
  rcases reads_orEmpty reads with someRead | ⟨isVacant, rfl⟩
  · rcases reads_orElse.mp someRead with enclosed | ⟨-, bare⟩
    · obtain ⟨opening, middle, openingRead, enclosed⟩ := reads_bind.mp enclosed
      obtain ⟨list, behind, listRead, enclosed⟩ := reads_bind.mp enclosed
      obtain ⟨trailing, last, closerRead, enclosed⟩ := reads_bind.mp enclosed
      obtain ⟨rfl, rfl⟩ := reads_pure.mp enclosed
      obtain ⟨place, spacing, spelled, rfl⟩ := punctuation_readsWord.afterSkip inside openingRead
      have openWithin := spelled.bound spacing.within
      obtain ⟨stop, rfl, list_eq, listLaid⟩ := reads_optionalItemList
        (parameter_readsTrees arguments) comma_readsDropped openWithin listRead
      obtain ⟨closing, run, closed, rfl⟩ :=
        reads_closingBracket (by decide) listLaid.bounds.2 closerRead
      have closedWithin := closed.bound run.bounds.2
      refine ⟨_, [.dropped "(", .closed Tag.list ")"], rfl, closedWithin, .methodWithParameters, fun _ => ?_⟩
      refine .dropped (by decide) spacing spelled trivial ?_
      exact .closed (by decide) (fun _ => list_eq) (.refl openWithin) listLaid .none run closed (.nil closedWithin)
    · obtain ⟨_, middle, scanRead, bare⟩ := reads_bind.mp bare
      obtain ⟨length, scanned, rfl⟩ := reads_scan.mp scanRead
      have gaps := Lexeme.parameterStart_spacingPrefix scanned
      rw [Cursor.rest_within] at gaps
      have spacing := gaps.spacing inside
      rw [Cursor.advance_within spacing.within] at bare
      have list_eq := data_eq_of_reads_itemList bare
      obtain ⟨stop, rfl, filled, laid⟩ := itemList_readsTrees (parameter_readsTrees commands)
        commaOnSameLine_readsDropped spacing.within bare
      refine ⟨stop, [.unclosed ")"], rfl, laid.bounds.2, .methodWithBareParameters, fun solid => ?_⟩
      exact .unclosed list_eq spacing laid filled solid.not_closed (.nil laid.bounds.2)
  · exact ⟨start, [.absent], rfl, inside, .method, fun _ => .absent isVacant (.nil inside)⟩

theorem methodDefinition_readsBegins (sound : SoundRules text rules) :
    ReadsBegins text (methodDefinition rules) := by
  refine definition_readsBegins fun start children next inside reads => ?_
  obtain ⟨name, middle, nameRead, reads⟩ := reads_bind.mp reads
  obtain ⟨parameters, behind, parametersRead, reads⟩ := reads_bind.mp reads
  obtain ⟨body, last, bodyRead, reads⟩ := reads_bind.mp reads
  obtain ⟨rfl, rfl⟩ := reads_pure.mp reads
  obtain ⟨nameStop, rfl, filled, nameLaid⟩ := definedName_readsTrees inside nameRead
  obtain ⟨place, parts, rfl, placeWithin, form, parametersLaid⟩ :=
    reads_methodParameters (sound.trees _) (sound.trees _) nameLaid.bounds.2 parametersRead
  have solid := bodyUpToEnd_readsSolid sound.solid placeWithin bodyRead
  obtain ⟨stop, rfl, bodyLaid⟩ := reads_bodyUpToEnd (sound.trees _) placeWithin bodyRead
  refine ⟨stop, _, rfl, form, ?_⟩
  exact .child (.refl inside) nameLaid filled ((parametersLaid solid).append bodyLaid)

/-- The parent of a class keeps the comments in front of its sign. -/
theorem reads_parentClass (operands : ReadsTrees text (rules .operand)) {start : Nat}
    {node : Node} {next : Cursor} (inside : start ≤ text.length)
    (reads : (parentClass rules).Reads (Cursor.within text start) node next) :
    ∃ stop, next = Cursor.within text stop ∧
      Laid text start (.parts [.opened] [node]) stop := by
  obtain ⟨less, middle, lessRead, reads⟩ := reads_bind.mp reads
  obtain ⟨parent, last, parentRead, reads⟩ := reads_bind.mp reads
  obtain ⟨rfl, rfl⟩ := reads_pure.mp reads
  obtain ⟨comments, place, token, run, tokenRead, rfl⟩ :=
    reads_spaced (Or.inl rfl) (fun placeWithin tokenRead => by
      obtain ⟨isToken, -⟩ := punctuation_readsWord placeWithin tokenRead
      exact isToken.spelled.getElem?_ne_semicolon (by decide)) inside lessRead
  have runBounds := run.bounds
  obtain ⟨isToken, rfl⟩ := punctuation_readsWord runBounds.2 tokenRead
  have lessWithin := isToken.spelled.bound runBounds.2
  obtain ⟨stop, rfl, filled, laid⟩ := operands lessWithin parentRead
  have kept : (token.withComments comments).comments = comments := by
    simp [Node.withComments, isToken.comments_eq]
  rw [kept]
  exact ⟨stop, rfl, .opened run isToken.spelled laid filled (.nil laid.bounds.2)⟩

/-- The header of a class is a target behind two signs, or a name that may have a parent. -/
theorem reads_classHeader (operands : ReadsTrees text (rules .operand)) {start : Nat}
    {header : List Node} {next : Cursor} (inside : start ≤ text.length)
    (reads : ((singletonTarget rules).orElse (classHeader rules)).Reads
      (Cursor.within text start) header next) :
    ∃ stop parts, next = Cursor.within text stop ∧
      LeadingForm "class" "class" (parts ++ [.closed Tag.empty "end"]) ∧
        Laid text start (.parts parts header) stop := by
  rcases reads_orElse.mp reads with singleton | ⟨-, plain⟩
  · obtain ⟨shift, middle, shiftRead, singleton⟩ := reads_bind.mp singleton
    obtain ⟨target, last, targetRead, singleton⟩ := reads_bind.mp singleton
    obtain ⟨rfl, rfl⟩ := reads_pure.mp singleton
    obtain ⟨comments, place, token, run, tokenRead, rfl⟩ :=
      reads_spaced (Or.inl rfl) (fun placeWithin tokenRead => by
        obtain ⟨isToken, -⟩ := punctuation_readsWord placeWithin tokenRead
        exact isToken.spelled.getElem?_ne_semicolon (by decide)) inside shiftRead
    have runBounds := run.bounds
    obtain ⟨isToken, rfl⟩ := punctuation_readsWord runBounds.2 tokenRead
    have shiftWithin := isToken.spelled.bound runBounds.2
    obtain ⟨stop, rfl, filled, targetLaid⟩ := operands shiftWithin targetRead
    have form : LeadingForm token.data "<<" [.child] := by
      rw [isToken.data_eq]
      exact .operator (by decide)
    have begins : Begins text place (token.withChildren [target]) stop :=
      .leading form isToken.comments_eq isToken.offset_eq isToken.spelled
        (.child (.refl shiftWithin) targetLaid filled (.nil targetLaid.bounds.2))
    refine ⟨stop, [.child], rfl, .singletonClass, ?_⟩
    have laid := begins.laid (.run run)
    have beginsLt := begins.lt
    exact .child (.refl inside) laid (by omega) (.nil laid.bounds.2)
  · obtain ⟨name, middle, nameRead, plain⟩ := reads_bind.mp plain
    obtain ⟨parent, last, parentRead, plain⟩ := reads_bind.mp plain
    obtain ⟨rfl, rfl⟩ := reads_pure.mp plain
    obtain ⟨place, rfl, filled, nameLaid⟩ := operands inside nameRead
    have nameWithin := nameLaid.bounds.2
    rcases reads_orEmpty parentRead with someRead | ⟨isVacant, rfl⟩
    · obtain ⟨stop, rfl, parentLaid⟩ := reads_parentClass operands nameWithin someRead
      exact ⟨stop, [.child, .opened], rfl, .derivedClass,
        .child (.refl inside) nameLaid filled parentLaid⟩
    · exact ⟨place, [.child, .absent], rfl, .rootClass,
        .child (.refl inside) nameLaid filled (.absent isVacant (.nil nameWithin))⟩

theorem classDefinition_readsBegins (sound : SoundRules text rules) :
    ReadsBegins text (classDefinition rules) := by
  refine definition_readsBegins fun start children next inside reads => ?_
  obtain ⟨header, middle, headerRead, reads⟩ := reads_bind.mp reads
  obtain ⟨body, last, bodyRead, reads⟩ := reads_bind.mp reads
  obtain ⟨rfl, rfl⟩ := reads_pure.mp reads
  obtain ⟨place, parts, rfl, form, headerLaid⟩ := reads_classHeader (sound.trees _) inside headerRead
  obtain ⟨stop, rfl, bodyLaid⟩ := reads_bodyUpToEnd (sound.trees _) headerLaid.bounds.2 bodyRead
  exact ⟨stop, _, rfl, form, headerLaid.append bodyLaid⟩

theorem moduleDefinition_readsBegins (sound : SoundRules text rules) :
    ReadsBegins text (moduleDefinition rules) := by
  refine definition_readsBegins fun start children next inside reads => ?_
  obtain ⟨name, middle, nameRead, reads⟩ := reads_bind.mp reads
  obtain ⟨body, last, bodyRead, reads⟩ := reads_bind.mp reads
  obtain ⟨rfl, rfl⟩ := reads_pure.mp reads
  obtain ⟨place, rfl, filled, nameLaid⟩ := sound.trees .operand inside nameRead
  obtain ⟨stop, rfl, bodyLaid⟩ := reads_bodyUpToEnd (sound.trees _) nameLaid.bounds.2 bodyRead
  exact ⟨stop, _, rfl, .moduleDefinition, .child (.refl inside) nameLaid filled bodyLaid⟩

/-- A name of an alias is a token on the same line. -/
theorem reads_aliasName {start : Nat} {node : Node} {next : Cursor} (inside : start ≤ text.length)
    (reads : aliasName.Reads (Cursor.within text start) node next) :
    ∃ before stop, next = Cursor.within text stop ∧ Spacing text start before ∧
      before < stop ∧ Laid text before (.tree node) stop := by
  obtain ⟨before, spacing, reads⟩ := reads_afterSkip_within inside reads
  have names : ReadsTrees text
      (firstOf [terminal .symbol, terminal .globalVariable, terminal .methodName]) := by
    refine ReadsTrees.firstOf fun matcher member => ?_
    simp only [List.mem_cons, List.not_mem_nil, or_false] at member
    rcases member with rfl | rfl | rfl
    · exact symbol_readsBegins.trees
    · exact globalVariable_readsBegins.trees
    · exact methodName_readsBegins.trees
  obtain ⟨stop, rfl, filled, laid⟩ := names spacing.within reads
  exact ⟨before, stop, rfl, spacing, filled, laid⟩

theorem aliasDefinition_readsBegins : ReadsBegins text aliasDefinition := by
  refine definition_readsBegins fun start children next inside reads => ?_
  obtain ⟨newName, middle, newRead, reads⟩ := reads_bind.mp reads
  obtain ⟨oldName, last, oldRead, reads⟩ := reads_bind.mp reads
  obtain ⟨rfl, rfl⟩ := reads_pure.mp reads
  obtain ⟨before, place, rfl, spacing, filled, newLaid⟩ := reads_aliasName inside newRead
  obtain ⟨behind, stop, rfl, gap, oldFilled, oldLaid⟩ :=
    reads_aliasName newLaid.bounds.2 oldRead
  exact ⟨stop, _, rfl, .aliasDefinition, .child spacing newLaid filled
    (.child gap oldLaid oldFilled (.nil oldLaid.bounds.2))⟩

/-! ### Brackets and primary operands -/

theorem group_readsBegins (statements : ReadsTrees text (rules (.expression .statement))) :
    ReadsBegins text (group rules) := by
  intro start node next inside reads
  obtain ⟨opening, middle, openingRead, reads⟩ := reads_bind.mp reads
  obtain ⟨body, last, bodyRead, reads⟩ := reads_bind.mp reads
  obtain ⟨rfl, rfl⟩ := reads_pure.mp reads
  obtain ⟨isToken, rfl⟩ := punctuation_readsWord inside openingRead
  obtain ⟨stop, rfl, bodyLaid⟩ := reads_bodyUpTo statements punctuation_readsWord (by decide)
    (isToken.spelled.bound inside) bodyRead
  exact ⟨stop, rfl, begins_ofToken isToken .group bodyLaid⟩

theorem container_readsBegins {opening closer : String}
    (form : LeadingForm opening opening [.closed Tag.list closer])
    (member : closer ∈ closingWords)
    (arguments : ReadsTrees text (rules (.expression .argument))) :
    ReadsBegins text (container rules opening closer) := by
  intro start node next inside reads
  obtain ⟨⟨bracket, elements⟩, middle, bracketRead, reads⟩ := reads_bind.mp reads
  obtain ⟨rfl, rfl⟩ := reads_pure.mp reads
  obtain ⟨stop, rfl, isToken, laid⟩ := reads_bracketed arguments member inside bracketRead
  have begins := begins_ofToken isToken form laid
  rw [← isToken.data_eq] at begins
  exact ⟨stop, rfl, begins⟩

theorem primary_begins (sound : SoundRules text rules) :
    ReadsBegins text (firstOf [
      methodDefinition rules,
      classDefinition rules,
      moduleDefinition rules,
      aliasDefinition,
      terminal .number,
      terminal .symbol,
      terminal .globalVariable,
      terminal .instanceVariable,
      terminal .regexp,
      terminal .identifier,
      group rules,
      container rules "[" "]",
      container rules "\x7b" "\x7d"]) := by
  intro start node next inside reads
  obtain ⟨matcher, member, reads⟩ := reads.mem_firstOf
  simp only [List.mem_cons, List.not_mem_nil, or_false] at member
  rcases member with rfl | rfl | rfl | rfl | rfl | rfl | rfl | rfl | rfl | rfl | rfl | rfl | rfl
  · exact methodDefinition_readsBegins sound inside reads
  · exact classDefinition_readsBegins sound inside reads
  · exact moduleDefinition_readsBegins sound inside reads
  · exact aliasDefinition_readsBegins inside reads
  · exact number_readsBegins inside reads
  · exact symbol_readsBegins inside reads
  · exact globalVariable_readsBegins inside reads
  · exact instanceVariable_readsBegins inside reads
  · exact regexp_readsBegins inside reads
  · exact identifier_readsBegins inside reads
  · exact group_readsBegins (sound.trees _) inside reads
  · exact container_readsBegins .array (by decide) (sound.trees _) inside reads
  · exact container_readsBegins .hash (by decide) (sound.trees _) inside reads

end Matcher

/-! ### Operands that take blocks -/

/-- An operand lies between two offsets, and a block behind it may be attached to it. -/
structure OperandLaid (text : List Char) (start : Nat) (node : Node) (stop : Nat) : Prop where
  laid : Laid text start (.tree node) stop
  filled : start < stop
  takesBlock : ∀ (before last : Nat) (block : Node), Spacing text stop before →
    Laid text before (.tree block) last → before < last →
      Laid text start (.tree (Suffix.attachBlock node block)) last

/-- A block behind anything but a call with two children makes a call of it. -/
theorem OperandLaid.of_not_call {text : List Char} {start stop : Nat} {node : Node}
    (laid : Laid text start (.tree node) stop) (filled : start < stop)
    (notCall : ¬ (node.data = Tag.invoke ∧ node.children.length = 2)) :
    OperandLaid text start node stop := by
  refine ⟨laid, filled, fun before last block spacing blockLaid blockFilled => ?_⟩
  have spacingLe := spacing.le
  obtain ⟨place, offset_eq, after, -, inner⟩ := blockLaid.offset_bounds
  have placeBefore := inner blockFilled
  have attached : Suffix.attachBlock node block =
      { data := Tag.invoke
        children := [node, { data := Tag.list, offset := block.offset }, block]
        offset := block.offset } := by
    rw [Suffix.attachBlock, if_neg]
    simpa only [Bool.and_eq_true, beq_iff_eq] using notCall
  rw [attached]
  refine .bare .blockCall rfl offset_eq (by omega) (by omega)
    (fun _ => ⟨block, by simp, rfl⟩) ?_
  refine .child (.refl (by have := laid.bounds; omega)) laid filled ?_
  exact .vacantList ⟨rfl, rfl, rfl, offset_eq⟩ (by omega) (by omega) trivial
    (.child spacing blockLaid blockFilled (.nil blockLaid.bounds.2))

theorem LeadingForm.ne_invoke {data spelling : String} {parts : List Part}
    (form : LeadingForm data spelling parts) : data ≠ Tag.invoke := by
  have operators : ∀ symbol ∈ leadingOperators, symbol ≠ Tag.invoke := by
    decide
  cases form with
  | operator member => exact operators _ member
  | _ => decide

/-- A tree that begins with its own token may take a block. -/
theorem Begins.operandLaid {text : List Char} {start place stop : Nat} {node : Node}
    {comments : List Node} (begins : Begins text place node stop)
    (lead : Lead text start comments place) :
    OperandLaid text start (node.withComments comments) stop := by
  have leadBounds := lead.bounds
  have filled := begins.lt
  refine .of_not_call (begins.laid lead) (by omega) fun ⟨invoke, several⟩ => ?_
  cases begins with
  | leaf token comments_eq => simp [Node.withComments, token.children_eq] at several
  | leading form comments_eq offset_eq spelled rest => exact form.ne_invoke invoke

/-- A suffix that begins at an offset takes in whatever operand ends there. -/
def SuffixLaid (text : List Char) (start : Nat) (suffix : Suffix) (stop : Nat) : Prop :=
  ∀ (front : Nat) (operand : Node), OperandLaid text front operand start →
    OperandLaid text front (suffix.attach operand) stop

/-- An operator behind an operand makes a node that is no call. -/
theorem SuffixLaid.ofOperator {text : List Char} {start place stop : Nat} {symbol : String}
    {operator child : Node} (member : symbol ∈ linkingOperators)
    (data_eq : operator.data = symbol) (lead : Lead text start operator.comments place)
    (offset_eq : operator.offset = some (place : Int)) (spelled : Spelled text place symbol)
    (rest : Laid text (place + symbol.length) (.parts [.child] [child]) stop) :
    SuffixLaid text start (.wrap operator child) stop := by
  intro front operand operandLaid
  have leadBounds := lead.bounds
  have restBounds := rest.bounds
  have filled := operandLaid.filled
  subst data_eq
  refine .of_not_call ?_ (by omega) fun ⟨invoke, _⟩ => ?_
  · exact .linking (.operator member) rfl operandLaid.laid filled lead offset_eq spelled rest
  · have absent : Tag.invoke ∉ linkingOperators := by decide
    rw [show operator.data = Tag.invoke from invoke] at member
    exact absent member

/-- Arguments in parentheses behind an operand make a call that may take a block. -/
theorem SuffixLaid.ofCall {text : List Char} {start stop : Nat} {bracket arguments : Node}
    (isToken : IsToken text start "(" bracket)
    (rest : Laid text (start + "(".length) (.parts [.closed Tag.list ")"] [arguments]) stop) :
    SuffixLaid text start (.wrap (bracket.retag Tag.invoke) arguments) stop := by
  intro front operand operandLaid
  have restBounds := rest.bounds
  have filled := operandLaid.filled
  have lead : Lead text start bracket.comments start := by
    rw [isToken.comments_eq]
    exact .spacing (.refl operandLaid.laid.bounds.2)
  refine ⟨?_, by omega, fun before last block spacing blockLaid blockFilled => ?_⟩
  · exact .linking .call
      rfl operandLaid.laid filled lead isToken.offset_eq isToken.spelled rest
  · have behind := rest.append (.child spacing blockLaid blockFilled (.nil blockLaid.bounds.2))
    exact .linking .callWithBlock rfl operandLaid.laid filled lead isToken.offset_eq isToken.spelled behind

/-- Arguments in square brackets behind an operand. -/
theorem SuffixLaid.ofIndex {text : List Char} {start stop : Nat} {bracket arguments : Node}
    (isToken : IsToken text start "[" bracket)
    (rest : Laid text (start + "[".length) (.parts [.closed Tag.list "]"] [arguments]) stop) :
    SuffixLaid text start (.wrap (bracket.retag Tag.index) arguments) stop := by
  intro front operand operandLaid
  have restBounds := rest.bounds
  have filled := operandLaid.filled
  have lead : Lead text start bracket.comments start := by
    rw [isToken.comments_eq]
    exact .spacing (.refl operandLaid.laid.bounds.2)
  refine .of_not_call ?_ (by omega)
    (fun ⟨invoke, _⟩ => absurd (show Tag.index = Tag.invoke from invoke) (by decide))
  exact .linking .index
    rfl operandLaid.laid filled lead isToken.offset_eq isToken.spelled rest

/-- A block behind an operand. -/
theorem SuffixLaid.ofBlock {text : List Char} {start before stop : Nat} {block : Node}
    (spacing : Spacing text start before) (laid : Laid text before (.tree block) stop)
    (filled : before < stop) : SuffixLaid text start (.block block) stop := by
  intro front operand operandLaid
  have spacingLe := spacing.le
  have operandFilled := operandLaid.filled
  have attached := operandLaid.takesBlock before stop block spacing laid filled
  refine .of_not_call attached (by omega) fun ⟨_, several⟩ => ?_
  rw [Suffix.attach, Suffix.attachBlock] at several
  split at several
  · rename_i call
    simp only [Bool.and_eq_true, beq_iff_eq] at call
    simp [Node.withChildren, call.2] at several
  · simp at several

namespace Matcher

variable {text : List Char} {rules : Rules}

/-! ### Reading suffixes -/

/-- What a matcher reads is a suffix that begins right where it was read. -/
def ReadsSuffix (text : List Char) (matcher : Matcher Suffix) : Prop :=
  ∀ ⦃start : Nat⦄ ⦃suffix : Suffix⦄ ⦃next : Cursor⦄, start ≤ text.length →
    matcher.Reads (Cursor.within text start) suffix next →
      ∃ stop, next = Cursor.within text stop ∧ stop ≤ text.length ∧
        SuffixLaid text start suffix stop

theorem callSuffix_readsSuffix (arguments : ReadsTrees text (rules (.expression .argument))) :
    ReadsSuffix text (bracketSuffix rules Tag.invoke "(" ")") := by
  intro start suffix next inside reads
  obtain ⟨⟨bracket, list⟩, middle, bracketRead, reads⟩ := reads_bind.mp reads
  obtain ⟨rfl, rfl⟩ := reads_pure.mp reads
  obtain ⟨stop, rfl, isToken, rest⟩ := reads_bracketed arguments (by decide) inside bracketRead
  exact ⟨stop, rfl, rest.bounds.2, .ofCall isToken rest⟩

theorem indexSuffix_readsSuffix (arguments : ReadsTrees text (rules (.expression .argument))) :
    ReadsSuffix text (bracketSuffix rules Tag.index "[" "]") := by
  intro start suffix next inside reads
  obtain ⟨⟨bracket, list⟩, middle, bracketRead, reads⟩ := reads_bind.mp reads
  obtain ⟨rfl, rfl⟩ := reads_pure.mp reads
  obtain ⟨stop, rfl, isToken, rest⟩ := reads_bracketed arguments (by decide) inside bracketRead
  exact ⟨stop, rfl, rest.bounds.2, .ofIndex isToken rest⟩

/-- The dot of a member is spelled in one of two ways. -/
private theorem reads_dot {start : Nat} {node : Node} {next : Cursor}
    (inside : start ≤ text.length)
    (reads : ((punctuation "&.").orElse (punctuation "." ".")).Reads
      (Cursor.within text start) node next) :
    ∃ symbol ∈ linkingOperators, startsWithChar (· != ';') symbol.toList = true ∧
      IsToken text start symbol node ∧ next = Cursor.within text (start + symbol.length) := by
  rcases reads_orElse.mp reads with safe | ⟨-, plain⟩
  · exact ⟨"&.", by decide, by decide, punctuation_readsWord inside safe⟩
  · exact ⟨".", by decide, by decide, punctuation_readsWord inside plain⟩

theorem memberSuffix_readsSuffix : ReadsSuffix text memberSuffix := by
  intro start suffix next inside reads
  obtain ⟨dot, middle, dotRead, reads⟩ := reads_bind.mp reads
  obtain ⟨name, last, nameRead, reads⟩ := reads_bind.mp reads
  obtain ⟨rfl, rfl⟩ := reads_pure.mp reads
  obtain ⟨comments, place, token, run, tokenRead, rfl⟩ :=
    reads_spaced (Or.inl rfl) (fun placeWithin tokenRead => by
      obtain ⟨symbol, -, solid, isToken, -⟩ := reads_dot placeWithin tokenRead
      exact isToken.spelled.getElem?_ne_semicolon solid) inside dotRead
  obtain ⟨symbol, member, -, isToken, rfl⟩ := reads_dot run.bounds.2 tokenRead
  have dotWithin := isToken.spelled.bound run.bounds.2
  obtain ⟨before, spacing, nameRead⟩ := reads_afterSkip_within dotWithin nameRead
  obtain ⟨stop, rfl, filled, laid⟩ := methodName_readsBegins.trees spacing.within nameRead
  have nameWithin := laid.bounds.2
  refine ⟨stop, rfl, nameWithin, .ofOperator member isToken.data_eq ?_ isToken.offset_eq isToken.spelled
    (.child spacing laid filled (.nil nameWithin))⟩
  simpa [Node.withComments, isToken.comments_eq] using Lead.run run

theorem scopeSuffix_readsSuffix : ReadsSuffix text scopeSuffix := by
  intro start suffix next inside reads
  obtain ⟨colons, middle, colonsRead, reads⟩ := reads_bind.mp reads
  obtain ⟨name, last, nameRead, reads⟩ := reads_bind.mp reads
  obtain ⟨rfl, rfl⟩ := reads_pure.mp reads
  obtain ⟨isToken, rfl⟩ := punctuation_readsWord inside colonsRead
  have colonsWithin := isToken.spelled.bound inside
  obtain ⟨stop, rfl, filled, laid⟩ := methodName_readsBegins.trees colonsWithin nameRead
  have nameWithin := laid.bounds.2
  refine ⟨stop, rfl, nameWithin, .ofOperator (by decide) isToken.data_eq ?_ isToken.offset_eq
    isToken.spelled (.child (.refl colonsWithin) laid filled (.nil nameWithin))⟩
  rw [isToken.comments_eq]
  exact .spacing (.refl inside)

/-- The parameters of a block lie between two vertical bars. -/
theorem reads_blockParameters (operands : ReadsTrees text (rules .operand)) {start : Nat}
    {node : Node} {next : Cursor} (inside : start ≤ text.length)
    (reads : (blockParameters rules).Reads (Cursor.within text start) node next) :
    ∃ stop, next = Cursor.within text stop ∧
      Laid text start (.parts [.dropped "|", .closed Tag.list "|"] [node]) stop := by
  obtain ⟨opening, middle, openingRead, reads⟩ := reads_bind.mp reads
  obtain ⟨list, behind, listRead, reads⟩ := reads_bind.mp reads
  obtain ⟨closing, last, closingRead, reads⟩ := reads_bind.mp reads
  obtain ⟨rfl, rfl⟩ := reads_pure.mp reads
  obtain ⟨place, spacing, spelled, rfl⟩ := punctuation_readsWord.afterSkip inside openingRead
  have openWithin := spelled.bound spacing.within
  obtain ⟨stop, rfl, list_eq, listLaid⟩ := reads_optionalItemList (parameter_readsTrees operands)
    comma_readsDropped openWithin listRead
  obtain ⟨closingPlace, run, closed, rfl⟩ :=
    punctuation_readsWord.afterBlanks rfl (by decide) listLaid.bounds.2 closingRead
  refine ⟨_, rfl, .dropped (by decide) spacing spelled trivial ?_⟩
  rw [← node.appendComments_nil]
  exact .closed (by decide) (fun _ => list_eq) (.refl openWithin) listLaid .none run closed
    (.nil (closed.bound run.bounds.2))

theorem braceBlock_readsBegins (operands : ReadsTrees text (rules .operand))
    (statements : ReadsTrees text (rules (.expression .statement))) :
    ReadsBegins text (braceBlock rules) := by
  intro start node next inside reads
  obtain ⟨brace, middle, braceRead, reads⟩ := reads_bind.mp reads
  obtain ⟨parameters, behind, parametersRead, reads⟩ := reads_bind.mp reads
  obtain ⟨body, last, bodyRead, reads⟩ := reads_bind.mp reads
  obtain ⟨rfl, rfl⟩ := reads_pure.mp reads
  obtain ⟨isToken, rfl⟩ := punctuation_readsWord inside braceRead
  have braceWithin := isToken.spelled.bound inside
  rcases reads_orEmpty parametersRead with someRead | ⟨isVacant, rfl⟩
  · obtain ⟨place, rfl, parametersLaid⟩ := reads_blockParameters operands braceWithin someRead
    obtain ⟨stop, rfl, bodyLaid⟩ := reads_bodyUpTo statements punctuation_readsWord (by decide)
      parametersLaid.bounds.2 bodyRead
    exact ⟨stop, rfl,
      begins_ofToken isToken .blockWithParameters (parametersLaid.append bodyLaid)⟩
  · obtain ⟨stop, rfl, bodyLaid⟩ := reads_bodyUpTo statements punctuation_readsWord (by decide)
      braceWithin bodyRead
    exact ⟨stop, rfl, begins_ofToken isToken .block (.absent isVacant bodyLaid)⟩

theorem blockSuffix_readsSuffix (operands : ReadsTrees text (rules .operand))
    (statements : ReadsTrees text (rules (.expression .statement))) :
    ReadsSuffix text (blockSuffix rules) := by
  intro start suffix next inside reads
  obtain ⟨block, last, blockRead, reads⟩ := reads_bind.mp reads
  obtain ⟨rfl, rfl⟩ := reads_pure.mp reads
  obtain ⟨before, spacing, blockRead⟩ := reads_afterSkip_within inside blockRead
  obtain ⟨stop, rfl, filled, laid⟩ :=
    (braceBlock_readsBegins operands statements).trees spacing.within blockRead
  exact ⟨stop, rfl, laid.bounds.2, .ofBlock spacing laid filled⟩

theorem suffix_readsSuffix (sound : SoundRules text rules) :
    ReadsSuffix text (suffix rules) := by
  intro start node next inside reads
  obtain ⟨matcher, member, reads⟩ := reads.mem_firstOf
  simp only [List.mem_cons, List.not_mem_nil, or_false] at member
  rcases member with rfl | rfl | rfl | rfl | rfl
  · exact callSuffix_readsSuffix (sound.trees _) inside reads
  · exact indexSuffix_readsSuffix (sound.trees _) inside reads
  · exact memberSuffix_readsSuffix inside reads
  · exact scopeSuffix_readsSuffix inside reads
  · exact blockSuffix_readsSuffix (sound.trees _) (sound.trees _) inside reads

/-! ### Operands -/

theorem primary_operandLaid (sound : SoundRules text rules)
    {start : Nat} {node : Node} {next : Cursor} (inside : start ≤ text.length)
    (reads : (primary rules).Reads (Cursor.within text start) node next) :
    ∃ stop, next = Cursor.within text stop ∧ OperandLaid text start node stop := by
  obtain ⟨comments, place, inner, run, innerRead, rfl⟩ :=
    reads_spaced (Or.inl rfl) (fun placeWithin innerRead => by
      obtain ⟨stop, -, begun⟩ := primary_begins sound placeWithin innerRead
      exact begun.getElem?_ne_semicolon) inside reads
  obtain ⟨stop, rfl, begun⟩ := primary_begins sound run.bounds.2 innerRead
  exact ⟨stop, rfl, begun.operandLaid (.run run)⟩

private theorem attach_operandLaid (sound : SoundRules text rules)
    {cursor last : Cursor} {suffixes : List Suffix}
    (each : (suffix rules).ReadsEach cursor suffixes last) :
    ∀ {start middle : Nat} {node : Node}, OperandLaid text start node middle →
      cursor = Cursor.within text middle →
        ∃ stop, last = Cursor.within text stop ∧
          OperandLaid text start (suffixes.foldl Suffix.attach node) stop := by
  induction each with
  | nil =>
      intro start middle node operandLaid here
      exact ⟨middle, here, operandLaid⟩
  | cons head tail ih =>
      intro start middle node operandLaid here
      subst here
      obtain ⟨behind, rfl, -, suffixLaid⟩ :=
        suffix_readsSuffix sound operandLaid.laid.bounds.2 head
      exact ih (suffixLaid start node operandLaid) rfl

theorem operand_readsTrees (sound : SoundRules text rules) :
    ReadsTrees text (operand rules) := by
  intro start node next inside reads
  obtain ⟨first, middle, firstRead, reads⟩ := reads_bind.mp reads
  obtain ⟨suffixes, last, suffixesRead, reads⟩ := reads_bind.mp reads
  obtain ⟨rfl, rfl⟩ := reads_pure.mp reads
  obtain ⟨place, rfl, operandLaid⟩ := primary_operandLaid sound inside firstRead
  obtain ⟨stop, rfl, attached⟩ :=
    attach_operandLaid sound suffixesRead.each_of_many operandLaid rfl
  exact ⟨stop, rfl, attached.filled, attached.laid⟩

/-- An operand begins with the token of its primary operand. -/
theorem operand_readsSolid (sound : SoundRules text rules) : ReadsSolid text (operand rules) := by
  intro start node next inside reads
  obtain ⟨first, middle, firstRead, -⟩ := reads_bind.mp reads
  obtain ⟨comments, place, inner, run, innerRead, rfl⟩ :=
    reads_spaced (Or.inl rfl) (fun placeWithin innerRead => by
      obtain ⟨stop, -, begun⟩ := primary_begins sound placeWithin innerRead
      exact begun.getElem?_ne_semicolon) inside firstRead
  obtain ⟨stop, -, begun⟩ := primary_begins sound run.bounds.2 innerRead
  obtain ⟨word, spelled, starts⟩ := begun.spelled
  exact run.solidFrom spelled starts

end Matcher

end RubySyntax
