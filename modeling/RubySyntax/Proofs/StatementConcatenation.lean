import RubySyntax.Proofs.BodyReading

/-!
# Concatenated programs

Two programs with a line break between them are a program over the statements of both,
if the first of them leaves nothing open at its end.  A program leaves something open if
its reading looked for more there: the statements of the second program may then be read
in place of something that was given up in the first.
-/

namespace RubySyntax

/-- The blanks that stand within a line, and the line break. -/
def ordinaryBlanks : List Char :=
  [' ', '\t', '\r', '\x0c', '\n']

/-! ### Line breaks between texts -/

/-- The gap up to a line break holds the separator that ends the statement in front of it. -/
theorem exists_separator {gap : List Char}
    (spacing : ∀ character ∈ gap, Lexeme.isGap character = true)
    (ordinary : ∀ character ∈ gap, isBlank character = true → character ∈ ordinaryBlanks) :
    ∃ lead mark more, gap ++ ['\n'] = lead ++ mark :: more ∧
      (∀ character ∈ lead, Lexeme.isHorizontal character = true) ∧ mark ∈ [';', '\n'] ∧
      ∀ character ∈ more, Lexeme.isGap character = true := by
  induction gap with
  | nil => exact ⟨[], '\n', [], rfl, by simp, by simp, by simp⟩
  | cons character gap ih =>
      rw [List.forall_mem_cons] at spacing ordinary
      by_cases breaks : character ∈ [';', '\n']
      · exact ⟨[], character, gap ++ ['\n'], rfl, by simp, breaks,
          List.forall_mem_append.mpr ⟨spacing.2, by decide⟩⟩
      · obtain ⟨lead, mark, more, split, horizontal, marks, gaps⟩ := ih spacing.2 ordinary.2
        have blank : isBlank character = true := by
          have spaced := spacing.1
          simp only [List.mem_cons, List.not_mem_nil, or_false, not_or] at breaks
          simpa [Lexeme.isGap, breaks.1] using spaced
        have within : ∀ blank ∈ ordinaryBlanks, blank ∉ [';', '\n'] →
            Lexeme.isHorizontal blank = true := by
          decide
        exact ⟨character :: lead, mark, more, by rw [List.cons_append, split, List.cons_append],
          List.forall_mem_cons.mpr ⟨within character (ordinary.1 blank) breaks, horizontal⟩, marks,
          gaps⟩

theorem Lexeme.horizontalLength_lead {lead rest : List Char} {mark : Char}
    (horizontal : ∀ character ∈ lead, isHorizontal character = true) (marks : mark ∈ [';', '\n']) :
    horizontalLength (lead ++ mark :: rest) = lead.length := by
  have plain : ∀ {character : Char}, isHorizontal character = true → character ≠ '\\' := by
    rintro character blank rfl
    exact absurd blank (by decide)
  have stops : ∀ mark ∈ [';', '\n'], mark ≠ '\\' ∧ isHorizontal mark = false := by decide
  induction lead with
  | nil =>
      rw [List.nil_append, horizontalLength.eq_4 _ _ (fun _ same => absurd same (stops mark marks).1)
        (fun _ same => absurd same (stops mark marks).1), (stops mark marks).2]
      rfl
  | cons character lead ih =>
      obtain ⟨blank, horizontal⟩ := List.forall_mem_cons.mp horizontal
      rw [List.cons_append, horizontalLength.eq_4 _ _ (fun _ same => absurd same (plain blank))
        (fun _ same => absurd same (plain blank)), if_pos blank, ih horizontal]
      rfl

/-- No line of a gap holds anything that would close a regular expression. -/
theorem Lexeme.noSlash_firstLine_gap {gap rest : List Char}
    (spacing : ∀ character ∈ gap, isGap character = true) :
    '/' ∉ firstLine (gap ++ '\n' :: rest) := by
  intro slash
  have inGap : '/' ∈ gap := by
    rw [firstLine, List.takeWhile_append] at slash
    split at slash
    · simpa using slash
    · exact (List.takeWhile_prefix _).subset slash
  exact absurd (spacing _ inGap) (by decide)

/-! ### Gaps around programs -/

namespace Matcher

theorem reads_chain {mode : Mode} {cursor next : Cursor} {node : Node}
    (read : (rule .standard (.expression mode)).Reads cursor node next) :
    ∃ first links middle,
      (chainOperand .standard (rule .standard) mode).Reads cursor first middle ∧
      (many (chainStep .standard (rule .standard) mode)).Reads middle links next ∧
      (OperatorTables.standard.of mode).reduceChain first links = .ok node := by
  rw [rule_eq_production usable_standard] at read
  obtain ⟨first, middle, operandRead, read⟩ := reads_bind.mp read
  obtain ⟨links, last, linksRead, done⟩ := reads_bind.mp read
  obtain ⟨reduced, rfl⟩ := reads_ofReduction.mp done
  exact ⟨first, links, middle, operandRead, linksRead, reduced⟩

/-- A gap in front of a program changes nothing. -/
theorem parse_behind_gap {gap source : List Char} (plain : IsPlain (gap ++ source))
    (spacing : ∀ character ∈ gap, Lexeme.isGap character = true) {tree : Node}
    (parsed : parse .standard source = .ok tree) :
    ∃ behind, parse .standard (gap ++ source) = .ok behind ∧ behind.bare = tree.bare := by
  obtain ⟨value, stop, inside, read, trailing, bare_eq⟩ := parse_reads plain.of_append.2 parsed
  obtain ⟨moved, last, before, within, movedRead, rest_eq, beforeSpacing, same⟩ :=
    body_reads_behind_gap plain spacing inside read
  refine ⟨_, parse_of_plain_body plain within movedRead ?_, ?_⟩
  · rw [rest_eq]
    exact List.forall_mem_append.mpr ⟨beforeSpacing, trailing⟩
  · rw [Node.bare_resolve, same, bare_eq]

/-! ### Statements behind statements -/

/-- Statements behind a separator go on a chain wherever they stand. -/
theorem steps_read_behind {distance offset : Nat} {rest : List Char} {here next last front : Cursor}
    {separator tree : Node} (lands : Lands here offset rest)
    (read : (rule .standard (.expression .statement)).Reads here tree last)
    (linkRead : (chainLink .standard (rule .standard) .statement).Reads front (.operator separator)
      next) (landsToo : Lands next (distance + offset) rest) :
    ∃ first links, (many (chainStep .standard (rule .standard) .statement)).Reads front
        ((.operator separator, first) :: links) (last.moved distance) ∧
      OperatorTables.standard.statement.reduceChain first links = .ok (tree.moved distance) := by
  obtain ⟨first, links, middle, operandRead, linksRead, reduced⟩ := reads_chain read
  have rules := Moves.rule .standard distance
  have operandMoved := (IgnoresBlanks.chainOperand _ .statement).reads_moved
    (Moves.chainOperand rules .standard .statement) lands landsToo operandRead
  have linksMoved := (Moves.chainStep rules .standard .statement).many.reads linksRead
  have each : (chainStep .standard (rule .standard) .statement).ReadsEach front
      ((.operator separator, first.moved distance) ::
        links.map (Prod.map (ChainLink.map (Node.moved distance)) (Node.moved distance)))
      (last.moved distance) :=
    .cons (reads_bind.mpr ⟨_, _, linkRead, reads_bind.mpr ⟨_, _, operandMoved,
      reads_pure.mpr ⟨rfl, rfl⟩⟩⟩) linksMoved.each_of_many
  exact ⟨_, _, (Consumes.chainStep (Consumes.rule usable_standard) usable_standard
    .statement).manyOfEach each linksMoved.rejects_of_many (Nat.lt_succ_self _),
    (Node.moved_keepsShape distance).reduceChain reduced⟩

/-- The separator behind a program is read up to the first statement behind it. -/
theorem chainLink_reads_line {core gap before rest : List Char}
    (spacing : ∀ character ∈ gap, Lexeme.isGap character = true)
    (ordinary : ∀ character ∈ gap, isBlank character = true → character ∈ ordinaryBlanks)
    (beforeSpacing : ∀ character ∈ before, Lexeme.isGap character = true)
    (solid : startsWithChar Lexeme.isGap rest = false) {text : List Char}
    (text_eq : text = core ++ (gap ++ '\n' :: (before ++ rest))) :
    ∃ separator, (chainLink .standard (rule .standard) .statement).Reads
        (.within text core.length) (.operator separator)
        (.within text ((core ++ gap).length + 1 + before.length)) ∧
      separator.data = Tag.sequence := by
  obtain ⟨lead, mark, more, split, horizontal, marks, moreSpacing⟩ :=
    exists_separator spacing ordinary
  have lengths := congrArg List.length split
  have text_length := congrArg List.length text_eq
  simp only [List.length_append, List.length_cons, List.length_nil] at lengths text_length
  have rest_eq : (Cursor.within text core.length).rest =
      lead ++ mark :: ((more ++ before) ++ rest) := by
    have regrouped : gap ++ '\n' :: (before ++ rest) = (gap ++ ['\n']) ++ (before ++ rest) := by
      simp
    rw [Cursor.rest_within, text_eq, List.drop_left, regrouped, split]
    simp
  have onLine : Lexeme.horizontalLength (Cursor.within text core.length).rest = lead.length := by
    rw [rest_eq]
    exact Lexeme.horizontalLength_lead horizontal marks
  have read := @chainLink_reads_separator (rule .standard) _ _ _ _ _ rest_eq onLine marks
    (List.forall_mem_append.mpr ⟨moreSpacing, beforeSpacing⟩) solid
  rw [Cursor.advance_within (by omega), Cursor.advance_within (by
    rw [List.length_append]
    omega)] at read
  have place : core.length + lead.length + ((more ++ before).length + 1) =
      (core ++ gap).length + 1 + before.length := by
    simp only [List.length_append]
    omega
  rw [place] at read
  exact ⟨_, read, rfl⟩

/-- The statements of a further program go on the chain of a program that leaves nothing open. -/
theorem parse_append_statements {core gap before rest : List Char}
    (plain : IsPlain (core ++ (gap ++ '\n' :: (before ++ rest))))
    (spacing : ∀ character ∈ gap, Lexeme.isGap character = true)
    (ordinary : ∀ character ∈ gap, isBlank character = true → character ∈ ordinaryBlanks)
    (beforeSpacing : ∀ character ∈ before, Lexeme.isGap character = true)
    (solid : startsWithChar Lexeme.isGap rest = false) {value next : Node}
    {trace : List Attempt}
    (run : rule .standard (.expression .statement) (.within core (Skip.gap.length core)) =
      .matched value (.within core core.length) trace)
    (closed : SealedTrace .statement core trace) {last : Cursor}
    (read : (rule .standard (.expression .statement)).Reads
      (.within (before ++ rest) before.length) next last)
    (trailing : ∀ character ∈ last.rest, Lexeme.isGap character = true) :
    ∃ tree, parse .standard (core ++ (gap ++ '\n' :: (before ++ rest))) = .ok tree ∧
      tree.statements.map Node.bare = (value.statements ++ next.statements).map Node.bare := by
  obtain ⟨front, front_eq⟩ : ∃ front, front = core ++ gap ++ ['\n'] := ⟨_, rfl⟩
  obtain ⟨text, text_eq⟩ : ∃ text, text = core ++ (gap ++ '\n' :: (before ++ rest)) := ⟨_, rfl⟩
  have split : text = front ++ (before ++ rest) := by simp [text_eq, front_eq]
  have front_length : front.length = (core ++ gap).length + 1 := by
    rw [front_eq, List.length_append]
    rfl
  have drop_front : text.drop front.length = before ++ rest := by rw [split, List.drop_left]
  have drop_eq : text.drop (front.length + before.length) = rest := by
    rw [← List.drop_drop, drop_front, List.drop_left]
  rw [← text_eq] at plain ⊢
  have secondPlain : IsPlain (before ++ rest) := by
    rw [split] at plain
    exact plain.of_append.2
  -- The first further statement begins with the same token in both texts.
  have inside : before.length ≤ (before ++ rest).length := by simp
  have insideToo : front.length + before.length ≤ text.length := by simp [split]
  have lands := lands_solid secondPlain inside (by rwa [List.drop_left])
  have landsToo := lands_solid plain insideToo (by rwa [drop_eq])
  rw [List.drop_left] at lands
  rw [drop_eq] at landsToo
  obtain ⟨separator, linkRead, separates⟩ :=
    chainLink_reads_line spacing ordinary beforeSpacing solid text_eq
  rw [← front_length] at linkRead
  obtain ⟨first, links, further, reduced⟩ := steps_read_behind lands read linkRead landsToo
  have regrouped : text = core ++ ((gap ++ '\n' :: before) ++ rest) := by simp [text_eq]
  have tail : StatementTail core (gap ++ '\n' :: before) rest :=
    { plain := by rwa [← regrouped]
      spacing := List.forall_mem_append.mpr ⟨spacing, List.forall_mem_cons.mpr
        ⟨by decide, beforeSpacing⟩⟩
      solid := solid
      trails := by simpa using Trails.ofGap spacing (.feed (before ++ rest))
      apart := startsApart_of_reads lands read
      line := by simpa using Lexeme.noSlash_firstLine_gap spacing }
  rw [regrouped] at further
  have across := body_reads_across tail run closed (Grows.statements separates reduced) further
  rw [← regrouped] at across
  obtain ⟨stop, rfl, filled, laid⟩ := rule_readsTrees _ inside read
  rw [Cursor.moved_within (by omega), ← split] at across
  refine ⟨_, parse_of_plain_body plain ?_ across ?_, ?_⟩
  · have := laid.bounds.2
    rw [split, List.length_append]
    omega
  · rw [← List.drop_drop, drop_front]
    simpa using trailing
  · have firstRead : (rule .standard (.expression .statement)).Reads
        (.within core (Skip.gap.length core)) value (.within core core.length) := ⟨_, run⟩
    have nextRead := (IgnoresBlanks.rule _).reads_moved (Moves.rule .standard front.length _) lands
      landsToo read
    have joined := Pending.statements_insert separates
      (fun tagged => ((rule_operand _ firstRead).shaped.items tagged (by decide)).1 rfl)
      (rule_isWorded _ (Skip.length_le .gap core) firstRead) (rule_operand _ nextRead)
      (rule_isWorded _ insideToo nextRead)
    rw [Node.map_bare_statements_congr (Node.bare_resolve _ _), List.map_append,
      ← Node.map_bare_statements_congr (Node.bare_moved front.length next), ← List.map_append]
    exact congrArg (List.map Node.bare) joined

end Matcher

/-! ### Programs behind programs -/

/-- Two programs with a line break between them are a program over the statements of both, if the
first one leaves nothing open. -/
theorem parse_append_line {first second : List Char} {firstTree secondTree : Node}
    (firstParsed : parse .standard first = .ok firstTree)
    (secondParsed : parse .standard second = .ok secondTree) (firstPlain : IsPlain first)
    (secondPlain : IsPlain second)
    (ordinary : ∀ character ∈ first, isBlank character = true → character ∈ ordinaryBlanks)
    (shut : LeavesNothingOpen first) :
    ∃ tree, parse .standard (first ++ '\n' :: second) = .ok tree ∧
      (tree.statements == firstTree.statements ++ secondTree.statements) = true := by
  have plain : IsPlain (first ++ '\n' :: second) :=
    firstPlain.append_cons (by decide) secondPlain
  simp only [Node.beqAll_iff_bare]
  rcases shut with blank | ⟨core, gap, rfl, spacing, closes⟩
  · -- Without statements the first program is a gap in front of the second.
    have front : ∀ character ∈ first ++ ['\n'], Lexeme.isGap character = true :=
      List.forall_mem_append.mpr ⟨blank, by decide⟩
    have regrouped : first ++ '\n' :: second = (first ++ ['\n']) ++ second := by simp
    rw [regrouped] at plain ⊢
    obtain ⟨tree, parsed, bare_eq⟩ := Matcher.parse_behind_gap plain front secondParsed
    refine ⟨tree, parsed, ?_⟩
    rw [List.map_append, Node.map_bare_statements_congr bare_eq, Node.map_bare_statements_congr
      (Matcher.bare_of_parse_nothing firstPlain blank firstParsed)]
    rfl
  · obtain ⟨value, trace, run, closed⟩ := Matcher.closed_statements closes
    have firstSame := Matcher.bare_of_parse_closed firstPlain spacing firstParsed run closed
    obtain ⟨next, stop, inside, read, trailing, nextSame⟩ :=
      Matcher.parse_reads secondPlain secondParsed
    rw [Matcher.reads_body_iff, Cursor.rest_within, List.drop_zero,
      Cursor.advance_within (by simpa using Skip.length_le .gap second), Nat.zero_add] at read
    rw [List.map_append, Node.map_bare_statements_congr firstSame,
      Node.map_bare_statements_congr nextSame, ← List.map_append]
    rw [List.append_assoc] at plain ⊢
    rcases read with statements | ⟨rfl, next_eq, -⟩
    · obtain ⟨before, rest, rfl, beforeSpacing, solid, landing⟩ :=
        exists_countWhile Lexeme.isGap second
      rw [Skip.length, landing] at statements
      exact Matcher.parse_append_statements plain spacing
        (fun character member => ordinary character (List.mem_append_right _ member)) beforeSpacing
        solid run closed statements (by simpa using trailing)
    · -- Without statements the second program is a gap behind the first.
      obtain rfl : stop = 0 := congrArg Cursor.offset next_eq
      have behind : ∀ character ∈ gap ++ '\n' :: second, Lexeme.isGap character = true :=
        List.forall_mem_append.mpr ⟨spacing, List.forall_mem_cons.mpr ⟨by decide, trailing⟩⟩
      obtain ⟨tree, parsed, same⟩ := Matcher.parse_before_gap plain behind run closed
      refine ⟨tree, parsed, ?_⟩
      rw [Node.map_bare_statements_congr same, Node.statements_emptyAt, List.append_nil]

/-- An assignment in front takes in the statement behind it and leaves it again. -/
theorem parse_append_line_assignment :
    ∃ first second tree, parse .standard "a = -b ;".toList = .ok first ∧
      parse .standard "c\nd".toList = .ok second ∧
      parse .standard "a = -b ;\nc\nd".toList = .ok tree ∧
      (tree.statements == first.statements ++ second.statements) = true := by
  have accepted : accepts .standard "a = -b ;".toList = true ∧
      accepts .standard "c\nd".toList = true := by
    rw [OperatorTables.standard_eq]
    decide +kernel
  obtain ⟨first, firstParsed⟩ := accepts_iff.mp accepted.1
  obtain ⟨second, secondParsed⟩ := accepts_iff.mp accepted.2
  have shut : LeavesNothingOpen "a = -b ;".toList := by
    refine Or.inr ⟨"a = -b".toList, " ;".toList, rfl, by decide, ?_⟩
    rw [matchStatements, OperatorTables.standard_eq]
    decide +kernel
  obtain ⟨tree, parsed, same⟩ := parse_append_line firstParsed secondParsed
    (by decide) (by decide) (by decide) shut
  exact ⟨first, second, tree, firstParsed, secondParsed, parsed, same⟩

/-- A first program whose name was read with a block, which was given up as it is not closed.
Behind the line break it is, and nothing goes back on that. -/
theorem parse_append_line_open :
    (IsPlain "module M \x7ba\n/b\x7d end/ /[x/".toList ∧ IsPlain "y\n/z]\x7d/".toList ∧
      ∀ character ∈ "module M \x7ba\n/b\x7d end/ /[x/".toList ++ "y\n/z]\x7d/".toList,
        isBlank character = true → character ∈ ordinaryBlanks) ∧
    (∃ tree, parse .standard "module M \x7ba\n/b\x7d end/ /[x/".toList = .ok tree) ∧
    (∃ tree, parse .standard "y\n/z]\x7d/".toList = .ok tree) ∧
    ¬ ∃ tree, parse .standard
      ("module M \x7ba\n/b\x7d end/ /[x/".toList ++ '\n' :: "y\n/z]\x7d/".toList) = .ok tree := by
  simp only [← accepts_iff, OperatorTables.standard_eq]
  decide +kernel

end RubySyntax
