import RubySyntax.Proofs.BodyReading
import RubySyntax.Proofs.OperandStarts

/-!
# Line continuations

A backslash in front of a line feed is a blank where a token is looked for on the same line: the
operators of statements and of command arguments are found behind it, and so are the commas
between these arguments.  Operands are looked for behind blanks and comments, and no backslash is
one of these: no operand is found behind a line continuation.
-/

namespace RubySyntax

namespace Lexeme

variable {blank : Char} (horizontal : isHorizontal blank = true)
include horizontal

theorem horizontalLength_blank (text : List Char) :
    horizontalLength (blank :: text) = horizontalLength text + 1 := by
  have plain : blank ≠ '\\' := by
    rintro rfl
    exact absurd horizontal (by decide)
  rw [horizontalLength.eq_4 _ _ (fun _ same => absurd same plain)
    (fun _ same => absurd same plain), if_pos horizontal]

end Lexeme

/-- A line continuation is one character longer than the blank it stands for. -/
theorem Lexeme.horizontalLength_continued (text : List Char) :
    horizontalLength ('\\' :: '\n' :: text) = horizontalLength text + 2 := by
  rw [horizontalLength]

namespace Matcher

variable {α β : Type} {matcher : Matcher α} {cursor onward : Cursor} {offset : Nat}
  {rest text : List Char}

/-! ### What is found behind a line continuation -/

/-- A cursor from which the blanks of a line lead to a place where no line comment stands. -/
structure LandsOnLine (cursor : Cursor) (offset : Nat) (rest : List Char) : Prop where
  offset_eq : (cursor.advance (Skip.horizontal.length cursor.rest)).offset = offset
  rest_eq : (cursor.advance (Skip.horizontal.length cursor.rest)).rest = rest
  unsigned : rest.head? ≠ some '#'

theorem LandsOnLine.moved (lands : LandsOnLine cursor offset rest) (distance : Nat) :
    LandsOnLine (cursor.moved distance) (distance + offset) rest := by
  refine ⟨?_, ?_, lands.unsigned⟩
  · rw [Cursor.rest_moved, Cursor.advance_moved, ← lands.offset_eq]
    exact Nat.add_comm _ _
  · rw [Cursor.rest_moved, Cursor.advance_moved, Cursor.rest_moved, lands.rest_eq]

/-- Behind a line continuation the same text is one character further on than behind a blank. -/
theorem LandsOnLine.continued {blank : Char} (horizontal : Lexeme.isHorizontal blank = true)
    (blank_eq : cursor.rest = blank :: text) (continued_eq : onward.rest = '\\' :: '\n' :: text)
    (same : onward.offset = cursor.offset) (lands : LandsOnLine cursor offset rest) :
    LandsOnLine onward (1 + offset) rest := by
  have within : Lexeme.horizontalLength text ≤ text.length := Skip.length_le .horizontal text
  have offset_eq := lands.offset_eq
  have rest_eq := lands.rest_eq
  rw [Skip.length, blank_eq, Lexeme.horizontalLength_blank horizontal] at offset_eq rest_eq
  rw [Cursor.offset_advance _ _ (by rw [blank_eq, List.length_cons]; omega)] at offset_eq
  rw [Cursor.rest_advance, blank_eq, List.drop_succ_cons] at rest_eq
  refine ⟨?_, ?_, lands.unsigned⟩
  · rw [Skip.length, continued_eq, Lexeme.horizontalLength_continued,
      Cursor.offset_advance _ _ (by rw [continued_eq, List.length_cons, List.length_cons]; omega)]
    omega
  · rw [Skip.length, continued_eq, Lexeme.horizontalLength_continued, Cursor.rest_advance,
      continued_eq, List.drop_succ_cons, List.drop_succ_cons, rest_eq]

/-- A matcher that answers the same in front of the same token of a line. -/
structure SeesLine (matcher : Matcher α) : Prop where
  same : ∀ {cursor other : Cursor} {offset : Nat} {rest : List Char},
    LandsOnLine cursor offset rest → LandsOnLine other offset rest →
      matcher cursor = matcher other

namespace SeesLine

theorem onSameLine (ignores : ∀ {offset rest} (flag other : Bool), rest.head? ≠ some '#' →
    matcher ⟨offset, flag, rest⟩ = matcher ⟨offset, other, rest⟩) :
    SeesLine (onSameLine matcher) where
  same := by
    intro cursor other offset rest lands otherLands
    have behind {place : Cursor} (lands : LandsOnLine place offset rest) :
        Matcher.onSameLine matcher place = (matcher ⟨offset, true, rest⟩).after [] := by
      have offset_eq := lands.offset_eq
      have rest_eq := lands.rest_eq
      show (matcher (place.advance (Skip.horizontal.length place.rest))).after [] = _
      generalize place.advance (Skip.horizontal.length place.rest) = reached at offset_eq rest_eq
      obtain ⟨start, flag, text⟩ := reached
      subst offset_eq rest_eq
      rw [ignores flag true lands.unsigned]
    rw [behind lands, behind otherLands]

theorem bind {continuation : α → Matcher β} (sees : SeesLine matcher) :
    SeesLine (matcher >>= continuation) where
  same lands otherLands := by
    rw [bind_apply, bind_apply, sees.same lands otherLands]

theorem firstOf {matchers : List (Matcher α)} (each : ∀ matcher ∈ matchers, SeesLine matcher) :
    SeesLine (firstOf matchers) where
  same lands otherLands := by
    induction matchers with
    | nil => rfl
    | cons matcher others ih =>
        obtain ⟨sees, rest⟩ := List.forall_mem_cons.mp each
        show (matcher.orElse (Matcher.firstOf others)) _ =
          (matcher.orElse (Matcher.firstOf others)) _
        rw [Matcher.orElse, Matcher.orElse, sees.same lands otherLands, ih rest]

end SeesLine

/-- A matcher that finds behind a line continuation what it finds behind a blank, one character
further on. -/
def ReadsContinued (move : α → α) (matcher : Matcher α) : Prop :=
  ∀ ⦃cursor onward : Cursor⦄ ⦃blank : Char⦄ ⦃text : List Char⦄,
    Lexeme.isHorizontal blank = true → cursor.rest = blank :: text →
      onward.rest = '\\' :: '\n' :: text → onward.offset = cursor.offset →
        (text.drop (Lexeme.horizontalLength text)).head? ≠ some '#' →
          (∀ value next, matcher.Reads cursor value next →
            matcher.Reads onward (move value) (next.moved 1)) ∧
            (matcher.Rejects cursor → matcher.Rejects onward)

theorem SeesLine.readsContinued {move : α → α} (sees : SeesLine matcher)
    (moves : Moves 1 move matcher matcher) : ReadsContinued move matcher := by
  intro cursor onward blank text horizontal blank_eq continued_eq same unsigned
  have rest_eq : (cursor.advance (Skip.horizontal.length cursor.rest)).rest =
      text.drop (Lexeme.horizontalLength text) := by
    rw [Skip.length, blank_eq, Lexeme.horizontalLength_blank horizontal, Cursor.rest_advance,
      blank_eq, List.drop_succ_cons]
  have lands : LandsOnLine cursor _ _ := ⟨rfl, rfl, rest_eq ▸ unsigned⟩
  have run : matcher onward = matcher (cursor.moved 1) :=
    sees.same (lands.continued horizontal blank_eq continued_eq same) (lands.moved 1)
  refine ⟨fun value next read => ?_, fun rejects => ?_⟩
  · obtain ⟨trace, read⟩ := moves.reads read
    exact ⟨trace, run.trans read⟩
  · obtain ⟨trace, failed⟩ := moves.rejects rejects
    exact ⟨trace, run.trans failed⟩

/-- Where no comment stands, a statement break does not see whether a line starts. -/
theorem separator_ignoresLine {offset : Nat} {rest : List Char} (flag other : Bool)
    (unsigned : rest.head? ≠ some '#') :
    terminal .separator ⟨offset, flag, rest⟩ = terminal .separator ⟨offset, other, rest⟩ := by
  cases rest with
  | nil => rfl
  | cons character rest =>
      have plain : character ≠ '#' := by simpa using unsigned
      by_cases breaks : character = ';' ∨ character = '\n'
      · simp [terminal, Terminal.separator, Lexeme.separator, breaks, Cursor.advance]
      · have neither := not_or.mp breaks
        simp [terminal, Terminal.separator, Lexeme.separator, neither, plain]

theorem SeesLine.chainLink (rules : Rules) {mode : Mode} (inLine : mode ≠ .argument) :
    SeesLine (chainLink .standard rules mode) := by
  have context := usable_standard.context mode
  have before {operator : Matcher Node}
      (same : ∀ {offset rest} (flag other : Bool), rest.head? ≠ some '#' →
        operator ⟨offset, flag, rest⟩ = operator ⟨offset, other, rest⟩) :
      SeesLine (beforeOperator mode operator) := by
    cases mode with
    | statement => exact onSameLine same
    | argument => exact absurd rfl inLine
    | command => exact onSameLine same
  have token {kind : Terminal} (consumes : ∀ bound, Consumes 1 bound (terminal kind)) :
      SeesLine (beforeOperator mode (terminal kind)) :=
    before fun flag other _ => IgnoresLine.terminal consumes _ _ flag other
  have infixes : SeesLine (operatorLink mode (terminal
      (.oneOf (OperatorTables.standard.of mode).infixSpellings "operator"))) :=
    (token fun _ => .oneOf context.hasInfix context.infixNonempty).bind
  have symbol {mark : String} (filled : mark ≠ "") :
      SeesLine (beforeOperator mode (punctuation mark)) :=
    token fun _ => .punctuation filled
  have conditional : SeesLine (conditionalLink rules mode) := (symbol (by decide)).bind
  have comma : SeesLine (operatorLink mode (punctuation ",")) := (symbol (by decide)).bind
  have separator : SeesLine (operatorLink mode (terminal .separator)) :=
    (before fun flag other unsigned => separator_ignoresLine flag other unsigned).bind
  cases mode with
  | statement => exact .firstOf (by simp [infixes, conditional, comma, separator])
  | argument => exact absurd rfl inLine
  | command => exact .firstOf (by simp [infixes, conditional])

/-- Behind a line continuation a statement or a command argument goes on as behind a blank. -/
theorem chainStep_readsContinued {mode : Mode} (inLine : mode ≠ .argument) :
    ReadsContinued (Prod.map (ChainLink.map (Node.moved 1)) (Node.moved 1))
      (chainStep .standard (rule .standard) mode) :=
  (SeesLine.chainLink _ inLine).bind.readsContinued
    (Moves.chainStep (Moves.rule .standard 1) .standard mode)

/-- So does a list of command arguments. -/
theorem commaOnSameLine_readsContinued : ReadsContinued (Node.moved 1) commaOnSameLine := by
  have sees : SeesLine commaOnSameLine := .onSameLine fun flag other _ =>
    IgnoresLine.terminal (fun _ => .punctuation (by decide)) _ _ flag other
  exact sees.readsContinued Moves.commaOnSameLine

/-! ### What is not found behind a line continuation -/

theorem anyComment_rejects_backslash (rest_eq : cursor.rest = '\\' :: rest) :
    anyComment.Rejects cursor := by
  refine rejects_orElse.mpr ⟨rejects_blockComment.mpr fun _ => ?_, rejects_commentOf.mpr ?_⟩ <;>
    rw [rest_eq] <;> rfl

theorem lands_of_backslash
    (shown : cursor.rest.drop (Skip.blanks.length cursor.rest) = '\\' :: rest) :
    Lands cursor (cursor.advance (Skip.blanks.length cursor.rest)).offset ('\\' :: rest) := by
  have rest_eq : (cursor.advance (Skip.blanks.length cursor.rest)).rest = '\\' :: rest := by
    rw [Cursor.rest_advance, shown]
  exact ⟨rfl, rest_eq, anyComment_rejects_backslash rest_eq⟩

section

variable (mode : Mode) (shown : cursor.rest.drop (Skip.blanks.length cursor.rest) = '\\' :: rest)
include shown

/-- No operand starts with a line continuation, in whatever context. -/
theorem chainOperand_rejects_backslash (rules : Rules) :
    (chainOperand .standard rules mode).Rejects cursor :=
  chainOperand_rejects rules (lands_of_backslash shown) mode
    (opensOperand_eq_false mode (by decide) rest)

theorem rule_rejects_backslash : (rule .standard (.expression mode)).Rejects cursor :=
  rule_rejects (lands_of_backslash shown) mode (opensOperand_eq_false mode (by decide) rest)

end

/-- What links two operands ends in front of no line continuation. -/
theorem chainStep_reads_unbroken {rules : Rules} {mode : Mode} {link : ChainLink} {operand : Node}
    {next : Cursor} (read : (chainStep .standard rules mode).Reads cursor (link, operand) next) :
    ∃ middle, (chainLink .standard rules mode).Reads cursor link middle ∧
      (chainOperand .standard rules mode).Reads middle operand next ∧
        (middle.rest.drop (Skip.blanks.length middle.rest)).head? ≠ some '\\' := by
  obtain ⟨_, middle, linkRead, _, _, operandRead, same⟩ := by
    simpa only [chainStep, reads_bind, reads_pure] using read
  obtain ⟨same, rfl⟩ := same
  obtain ⟨rfl, rfl⟩ := Prod.mk.inj same
  refine ⟨middle, linkRead, operandRead, fun broken => ?_⟩
  obtain ⟨rest, shown⟩ := List.head?_eq_some_iff.mp broken
  exact operandRead.not_rejects (chainOperand_rejects_backslash mode shown rules)

example : accepts .standard "a +\\\nb".toList = false := by
  rw [OperatorTables.standard_eq]
  decide +kernel

/-- Neither statements nor the end of a program are found behind a line continuation. -/
theorem program_rejects_backslash
    (shown : cursor.rest.drop (Skip.gap.length cursor.rest) = '\\' :: rest) :
    (program .standard).Rejects cursor := by
  have behind : (cursor.advance (Skip.gap.length cursor.rest)).rest = '\\' :: rest := by
    rw [Cursor.rest_advance, shown]
  have statement : (afterSkip .gap (rule .standard (.expression .statement))).Rejects cursor := by
    rw [rejects_afterSkip]
    refine rule_rejects_backslash .statement (show _ = '\\' :: rest from ?_)
    rw [behind]
    rfl
  have uncommented : (afterSkip .gap anyComment).Rejects cursor :=
    rejects_afterSkip.mpr (anyComment_rejects_backslash behind)
  refine rejects_bind.mpr (Or.inr ⟨_, cursor, reads_orEmpty_iff.mpr (Or.inr ⟨rfl, rfl, statement⟩),
    rejects_bind.mpr (Or.inr ⟨[], cursor, reads_many .nil uncommented (Nat.zero_le _), ?_⟩)⟩)
  refine rejects_bind.mpr (Or.inl ?_)
  rw [rejects_afterSkip, rejects_terminal, behind]
  rfl

end Matcher

/-- No program starts with a line continuation, whatever follows it. -/
theorem parse_leadingContinuation {text rest : List Char}
    (shown : text.drop (Skip.gap.length text) = '\\' :: '\n' :: rest) :
    ∃ error endOffset, parse .standard text = .error (.mismatch error endOffset) := by
  have start : (Cursor.ofText text).rest.drop (Skip.gap.length (Cursor.ofText text).rest) =
      '\\' :: '\n' :: rest := shown
  obtain ⟨trace, run⟩ := Matcher.program_rejects_backslash start
  exact ⟨_, _, parseAfter_of_failed run⟩

end RubySyntax
