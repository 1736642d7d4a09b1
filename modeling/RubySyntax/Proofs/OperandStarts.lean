import Mathlib.Data.List.Forall2
import RubySyntax.Proofs.MovedRules
import RubySyntax.Proofs.NameReading

/-!
# Where operands start

A rule begins with a token behind blanks and comments.  Where no comment stands, what a
rule answers only depends on the place of that token: neither the blanks in front of it
matter nor whether a line starts at the cursor.  And there are characters that no
operand begins with.
-/

namespace RubySyntax

/-- A cursor from which blanks lead to a place where no comment stands. -/
structure Lands (cursor : Cursor) (offset : Nat) (rest : List Char) : Prop where
  offset_eq : (cursor.advance (Skip.blanks.length cursor.rest)).offset = offset
  rest_eq : (cursor.advance (Skip.blanks.length cursor.rest)).rest = rest
  uncommented : Matcher.anyComment.Rejects (cursor.advance (Skip.blanks.length cursor.rest))

theorem Lands.moved {cursor : Cursor} {offset : Nat} {rest : List Char}
    (lands : Lands cursor offset rest) (distance : Nat) :
    Lands (cursor.moved distance) (distance + offset) rest := by
  obtain ⟨noBlock, noLine⟩ := Matcher.rejects_orElse.mp lands.uncommented
  have noBlock := Matcher.rejects_blockComment.mp noBlock
  have noLine : CommentSpan.ofLine? _ = none := Matcher.rejects_commentOf.mp noLine
  refine ⟨?_, ?_, ?_⟩
  · rw [Cursor.rest_moved, Cursor.advance_moved, ← lands.offset_eq]
    exact Nat.add_comm _ _
  · rw [Cursor.rest_moved, Cursor.advance_moved, Cursor.rest_moved, lands.rest_eq]
  · rw [Cursor.rest_moved, Cursor.advance_moved]
    exact Matcher.rejects_orElse.mpr ⟨Matcher.rejects_blockComment.mpr noBlock,
      Matcher.rejects_commentOf.mpr noLine⟩

namespace Matcher

variable {α β : Type} {cursor other : Cursor} {offset : Nat} {rest : List Char}

/-! ### Lines -/

/-- A matcher that does not see whether a line starts at the cursor. -/
def IgnoresLine (matcher : Matcher α) : Prop :=
  ∀ offset rest flag other, matcher ⟨offset, flag, rest⟩ = matcher ⟨offset, other, rest⟩

namespace IgnoresLine

variable {matcher : Matcher α}

theorem terminal {kind : Terminal} (consumes : ∀ bound, Consumes 1 bound (terminal kind)) :
    IgnoresLine (terminal kind) := by
  intro offset rest flag other
  simp only [Matcher.terminal]
  cases scanned : kind.scanner rest with
  | none => rfl
  | some length =>
      have shrinks := @(consumes (rest.length + 1)).reads ⟨offset, flag, rest⟩ _ _
        (Nat.lt_succ_self _) (reads_terminal.mpr ⟨length, scanned, rfl, rfl⟩)
      rw [Cursor.rest_advance, List.length_drop] at shrinks
      obtain ⟨length, rfl⟩ : ∃ shorter, length = shorter + 1 := ⟨length - 1, by omega⟩
      cases rest with
      | nil => simp at shrinks
      | cons character rest => rfl

theorem bind {continuation : α → Matcher β} (ignores : IgnoresLine matcher) :
    IgnoresLine (matcher >>= continuation) := by
  intro offset rest flag other
  rw [bind_apply, bind_apply, ignores offset rest flag other]

theorem orElse {second : Matcher α} (first : IgnoresLine matcher) (otherwise : IgnoresLine second) :
    IgnoresLine (matcher.orElse second) := by
  intro offset rest flag other
  rw [Matcher.orElse, Matcher.orElse, first offset rest flag other, otherwise offset rest flag other]

theorem firstOf {matchers : List (Matcher α)} (each : ∀ matcher ∈ matchers, IgnoresLine matcher) :
    IgnoresLine (firstOf matchers) := by
  induction matchers with
  | nil => exact fun _ _ _ _ => rfl
  | cons matcher others ih =>
      exact (each matcher List.mem_cons_self).orElse
        (ih fun other member => each other (List.mem_cons_of_mem _ member))

end IgnoresLine

/-! ### Blanks -/

/-- Looking for a comment leaves no trace. -/
theorem anyComment_eq_failed (rejects : anyComment.Rejects cursor) :
    anyComment cursor = .failed [] := by
  have missing {kind : String} {span? : List Char → Option CommentSpan}
      (none_eq : span? cursor.rest = none) : commentOf kind span? cursor = .failed [] := by
    rw [commentOf, none_eq]
  obtain ⟨noBlock, noLine⟩ := rejects_orElse.mp rejects
  have block : blockComment cursor = .failed [] := by
    rw [blockComment]
    split
    · rename_i starts
      exact missing (rejects_blockComment.mp noBlock starts)
    · rfl
  have line : lineComment cursor = .failed [] := missing (rejects_commentOf.mp noLine)
  rw [anyComment, orElse, block]
  dsimp only
  rw [line]
  rfl

theorem commentsBefore_of_lands (lands : Lands cursor offset rest) :
    commentsBefore .blanks cursor = .matched [] cursor [] := by
  have run : afterSkip .blanks anyComment cursor = .failed [] := by
    show ((anyComment _).after [] : Outcome Node) = _
    rw [anyComment_eq_failed lands.uncommented]
    rfl
  rw [commentsBefore, many, manyUpTo_succ]
  rw [anyComment] at run
  rw [run]

/-- Where no comment stands, a token is read behind the blanks. -/
theorem spaced_of_lands (lands : Lands cursor offset rest) (matcher : Matcher Node) :
    spaced matcher .blanks cursor = matcher (cursor.advance (Skip.blanks.length cursor.rest)) := by
  rw [spaced, withCommentsBefore, bind_apply, commentsBefore_of_lands lands]
  simp only [bind_apply, afterSkip, skip]
  cases matcher (cursor.advance (Skip.blanks.length cursor.rest)) with
  | matched node next trace =>
      show Outcome.matched (node.withComments []) next ([] ++ (([] ++ trace) ++ [])) = _
      rw [Node.withComments_nil, List.nil_append, List.nil_append, List.append_nil]
  | failed trace => rfl
  | aborted fault => rfl

/-- Blanks in front of something else lead to it, if no comment stands there. -/
theorem lands_of_blanks {blanks : List Char} (blank : ∀ character ∈ blanks, isBlank character = true)
    (solid : startsWithChar isBlank rest = false) (rest_eq : cursor.rest = blanks ++ rest)
    (uncommented : anyComment.Rejects (cursor.advance blanks.length)) :
    Lands cursor (cursor.offset + blanks.length) rest := by
  have noLength : countWhile isBlank rest = 0 := by
    cases rest with
    | nil => rfl
    | cons character rest =>
        have noBlank : isBlank character = false := solid
        simp [countWhile_cons, noBlank]
  have skipped : Skip.blanks.length cursor.rest = blanks.length := by
    rw [rest_eq, Skip.length, countWhile, List.takeWhile_append_of_pos blank, List.length_append]
    exact congrArg (blanks.length + ·) noLength
  refine ⟨?_, ?_, ?_⟩
  · rw [skipped, Cursor.offset_advance]
    rw [rest_eq, List.length_append]
    omega
  · rw [skipped, Cursor.rest_advance, rest_eq, List.drop_left]
  · rwa [skipped]

theorem lands_behind {blanks : List Char} (blank : ∀ character ∈ blanks, isBlank character = true)
    (starts : startsToken rest = true) (rest_eq : cursor.rest = blanks ++ rest) :
    Lands cursor (cursor.offset + blanks.length) rest := by
  have behind : (cursor.advance blanks.length).rest = rest := by
    rw [Cursor.rest_advance, rest_eq, List.drop_left]
  refine lands_of_blanks blank ?_ rest_eq (rejects_orElse.mpr
    ⟨rejects_blockComment.mpr fun _ => ?_, rejects_commentOf.mpr ?_⟩)
  · cases rest with
    | nil => rfl
    | cons character rest => exact (startsToken_head starts).1
  · simp only [startsToken, Bool.and_eq_true, Bool.not_eq_true'] at starts
    rw [behind, CommentSpan.ofBlock?, CommentSpan.startsMarker, starts.2]
    rfl
  · rw [behind]
    cases rest with
    | nil => rfl
    | cons character rest => rw [CommentSpan.ofLine?.eq_2 _ (by simp [(startsToken_head starts).2.2])]

/-- A matcher that answers the same in front of the same token. -/
structure IgnoresBlanks (matcher : Matcher α) : Prop where
  same : ∀ {cursor other : Cursor} {offset : Nat} {rest : List Char},
    Lands cursor offset rest → Lands other offset rest → matcher cursor = matcher other

namespace IgnoresBlanks

theorem spaced {matcher : Matcher Node} (ignores : IgnoresLine matcher) :
    IgnoresBlanks (spaced matcher) where
  same := by
    intro cursor other offset rest lands otherLands
    rw [spaced_of_lands lands, spaced_of_lands otherLands]
    have offset_eq := lands.offset_eq.trans otherLands.offset_eq.symm
    have rest_eq := lands.rest_eq.trans otherLands.rest_eq.symm
    generalize cursor.advance (Skip.blanks.length cursor.rest) = place at offset_eq rest_eq
    generalize other.advance (Skip.blanks.length other.rest) = otherPlace at offset_eq rest_eq
    obtain ⟨start, flag, text⟩ := place
    obtain ⟨otherStart, otherFlag, otherText⟩ := otherPlace
    cases offset_eq
    cases rest_eq
    exact ignores _ _ _ _

variable {matcher : Matcher α}

theorem bind {continuation : α → Matcher β} (ignores : IgnoresBlanks matcher) :
    IgnoresBlanks (matcher >>= continuation) where
  same lands otherLands := by
    rw [bind_apply, bind_apply, ignores.same lands otherLands]

theorem orElse {second : Matcher α} (first : IgnoresBlanks matcher)
    (otherwise : IgnoresBlanks second) : IgnoresBlanks (matcher.orElse second) where
  same lands otherLands := by
    rw [Matcher.orElse, Matcher.orElse, first.same lands otherLands,
      otherwise.same lands otherLands]

/-- What is read in front of a token is read in front of it further on in another text. -/
theorem reads_moved {distance : Nat} {move : α → α} (ignores : IgnoresBlanks matcher)
    (moves : Moves distance move matcher matcher) {cursor other next : Cursor} {offset : Nat}
    {rest : List Char} {value : α} (lands : Lands cursor offset rest)
    (otherLands : Lands other (distance + offset) rest) (read : matcher.Reads cursor value next) :
    matcher.Reads other (move value) (next.moved distance) := by
  obtain ⟨trace, run⟩ := moves.reads read
  exact ⟨trace, (ignores.same otherLands (lands.moved distance)).trans run⟩

theorem rejects_moved {distance : Nat} {move : α → α} (ignores : IgnoresBlanks matcher)
    (moves : Moves distance move matcher matcher) {cursor other : Cursor} {offset : Nat}
    {rest : List Char} (lands : Lands cursor offset rest)
    (otherLands : Lands other (distance + offset) rest) (rejects : matcher.Rejects cursor) :
    matcher.Rejects other := by
  obtain ⟨trace, run⟩ := moves.rejects rejects
  exact ⟨trace, (ignores.same otherLands (lands.moved distance)).trans run⟩

end IgnoresBlanks

/-! ### Rules -/

section

variable (rules : Rules)

theorem IgnoresLine.primary : IgnoresLine (Matcher.firstOf (earlyOperands rules ++
    Matcher.terminal .identifier :: lateOperands rules)) := by
  have word {kind : Terminal} (operand : Lexeme.ReadsOperand kind.scanner) :
      IgnoresLine (Matcher.terminal kind) := .terminal fun _ => .ofOperand operand
  have keyword {spelling : String} {parts : Matcher (List Node)} (filled : spelling ≠ "") :
      IgnoresLine (definition spelling parts) :=
    IgnoresLine.bind (.terminal fun _ => .keyword filled)
  have symbol {mark : String} (filled : mark ≠ "") : IgnoresLine (punctuation mark) :=
    .terminal fun _ => .punctuation filled
  refine .firstOf fun matcher member => ?_
  simp only [earlyOperands, lateOperands, List.cons_append, List.nil_append, List.mem_cons,
    List.not_mem_nil, or_false] at member
  rcases member with rfl | rfl | rfl | rfl | rfl | rfl | rfl | rfl | rfl | rfl | rfl | rfl | rfl
  · exact keyword (by decide)
  · exact keyword (by decide)
  · exact keyword (by decide)
  · exact keyword (by decide)
  · exact word Lexeme.number_readsOperand
  · exact word Lexeme.symbol_readsOperand
  · exact word Lexeme.globalVariable_readsOperand
  · exact word Lexeme.instanceVariable_readsOperand
  · exact word Lexeme.regexp_readsOperand
  · exact word Lexeme.identifier_readsOperand
  · exact (symbol (by decide)).bind
  · exact (symbol (by decide)).bind.bind
  · exact (symbol (by decide)).bind.bind

theorem IgnoresBlanks.operand : IgnoresBlanks (operand rules) :=
  (spaced (IgnoresLine.primary rules)).bind

theorem IgnoresBlanks.chainOperand (mode : Mode) :
    IgnoresBlanks (chainOperand .standard rules mode) := by
  have context := usable_standard.context mode
  have prefixed : IgnoresBlanks (prefixed .standard rules mode) :=
    (spaced (.terminal fun _ => .oneOf context.hasPrefix context.prefixNonempty)).bind
  refine prefixed.orElse ?_
  cases mode with
  | statement => exact (operand rules).bind
  | argument => exact operand rules
  | command => exact operand rules

/-- A rule answers the same in front of the same token. -/
theorem IgnoresBlanks.rule (reference : Rule) : IgnoresBlanks (rule .standard reference) := by
  rw [rule_eq_production usable_standard]
  cases reference with
  | operand => exact operand _
  | expression mode => exact (chainOperand _ mode).bind

end

/-! ### Tokens that operands begin with -/

/-- The forms of an operand without suffixes, in the order in which they are tried. -/
def operandForms (rules : Rules) : List (Matcher Node) :=
  earlyOperands rules ++ terminal .identifier :: lateOperands rules

/-- The tokens that these forms begin with. -/
def operandTerminals : List Terminal :=
  definitionWords.map Terminal.keyword ++
    [.number, .symbol, .globalVariable, .instanceVariable, .regexp, .identifier] ++
    ["(", "[", "\x7b"].map (Terminal.punctuation ·)

private theorem operandForms_begin (rules : Rules) :
    List.Forall₂ (fun kind form => ∀ {cursor : Cursor}, kind.scanner cursor.rest = none →
      form.Rejects cursor) operandTerminals (operandForms rules) := by
  have token {kind : Terminal} {cursor : Cursor} (unread : kind.scanner cursor.rest = none) :
      (terminal kind).Rejects cursor :=
    rejects_terminal.mpr unread
  have behind {kind : Terminal} {continuation : Node → Matcher Node} {cursor : Cursor}
      (unread : kind.scanner cursor.rest = none) :
      (terminal kind >>= continuation).Rejects cursor :=
    rejects_bind.mpr (Or.inl (token unread))
  have brackets {opening closer : String} {cursor : Cursor}
      (unread : (Terminal.punctuation opening).scanner cursor.rest = none) :
      (container rules opening closer).Rejects cursor :=
    rejects_bind.mpr (Or.inl (rejects_bind.mpr (Or.inl (token unread))))
  exact .cons behind (.cons behind (.cons behind (.cons behind (.cons token (.cons token
    (.cons token (.cons token (.cons token (.cons token (.cons behind (.cons brackets
      (.cons brackets .nil))))))))))))

/-- A form of an operand does not fit where its first token does not. -/
theorem operandForms_reject (rules : Rules) (count : Nat)
    (unread : ∀ kind ∈ operandTerminals.take count, kind.scanner cursor.rest = none) :
    ∀ form ∈ (operandForms rules).take count, form.Rejects cursor := by
  have begins := List.forall₂_take count (operandForms_begin rules)
  generalize operandTerminals.take count = kinds at unread begins
  generalize (operandForms rules).take count = forms at begins
  induction begins with
  | nil => simp
  | cons begins _ ih =>
      rw [List.forall_mem_cons] at unread ⊢
      exact ⟨begins unread.1, ih unread.2⟩

/-- Whether an operand without prefix operators may begin with a text. -/
def opensPrimary (rest : List Char) : Bool :=
  operandTerminals.any fun kind => (kind.scanner rest).isSome

/-- Whether an operand of the context may begin with a text. -/
def opensOperand (mode : Mode) (rest : List Char) : Bool :=
  opensPrimary rest ||
    (Lexeme.oneOf (OperatorTables.standard.of mode).prefixSpellings rest).isSome

section

variable (rules : Rules) (lands : Lands cursor offset rest)
include lands

theorem spaced_rejects_of_lands {matcher : Matcher Node}
    (rejects : matcher.Rejects (cursor.advance (Skip.blanks.length cursor.rest))) :
    (spaced matcher).Rejects cursor := by
  obtain ⟨trace, run⟩ := rejects
  exact ⟨trace, (spaced_of_lands lands matcher).trans run⟩

theorem spaced_reads_of_lands {matcher : Matcher Node} {node : Node} {next : Cursor}
    (reads : matcher.Reads (cursor.advance (Skip.blanks.length cursor.rest)) node next) :
    (spaced matcher).Reads cursor node next := by
  obtain ⟨trace, run⟩ := reads
  exact ⟨trace, (spaced_of_lands lands matcher).trans run⟩

theorem spaced_terminal_rejects {kind : Terminal} (unread : kind.scanner rest = none) :
    (spaced (terminal kind)).Rejects cursor :=
  spaced_rejects_of_lands lands (rejects_terminal.mpr (by rwa [lands.rest_eq]))

theorem operand_rejects_of_lands (closed : opensPrimary rest = false) :
    (operand rules).Rejects cursor := by
  have unread : ∀ kind ∈ operandTerminals, kind.scanner rest = none := by
    simpa [opensPrimary] using closed
  rw [← lands.rest_eq] at unread
  exact rejects_bind.mpr (Or.inl (spaced_rejects_of_lands lands (rejects_firstOf
    (operandForms_reject rules operandTerminals.length (by rwa [List.take_length])))))

theorem primary_reads_of_lands {front back : List (Matcher Node)} {form : Matcher Node}
    (split : operandForms rules = front ++ form :: back)
    (unread : ∀ kind ∈ operandTerminals.take front.length, kind.scanner rest = none)
    {node : Node} {next : Cursor}
    (reads : form.Reads (cursor.advance (Skip.blanks.length cursor.rest)) node next) :
    (primary rules).Reads cursor node next := by
  have earlier : (operandForms rules).take front.length = front := by
    rw [split, List.take_left]
  have rejects : ∀ form ∈ (operandForms rules).take front.length,
      form.Rejects (cursor.advance (Skip.blanks.length cursor.rest)) :=
    operandForms_reject rules front.length (by rwa [lands.rest_eq])
  rw [earlier] at rejects
  refine spaced_reads_of_lands lands ?_
  change (firstOf (operandForms rules)).Reads _ node next
  rw [split]
  exact reads_firstOf_append rejects (reads_firstOf_cons.mpr (Or.inl reads))

/-- No operand is read in front of what none begins with. -/
theorem chainOperand_rejects (mode : Mode) (closed : opensOperand mode rest = false) :
    (chainOperand .standard rules mode).Rejects cursor := by
  obtain ⟨unread, noPrefix⟩ := Bool.or_eq_false_iff.mp closed
  have operand := operand_rejects_of_lands rules lands unread
  refine rejects_orElse.mpr ⟨rejects_bind.mpr (Or.inl (spaced_terminal_rejects lands
    (Option.isNone_iff_eq_none.mp (Option.isSome_eq_false_iff.mp noPrefix)))), ?_⟩
  cases mode with
  | statement => exact rejects_bind.mpr (Or.inl operand)
  | argument => exact operand
  | command => exact operand

/-- No expression is read there either. -/
theorem rule_rejects (mode : Mode) (closed : opensOperand mode rest = false) :
    (rule .standard (.expression mode)).Rejects cursor := by
  rw [rule_eq_production usable_standard]
  exact rejects_bind.mpr (Or.inl (chainOperand_rejects _ lands mode closed))

end

/-! ### What no operand begins with -/

/-- Whether an operand without prefix operators may begin with a character. -/
def beginsPrimary (character : Char) : Bool :=
  isNameStart character || isDecimalDigit character ||
    [':', '$', '@', '/', '(', '[', '\x7b'].contains character

def beginsOperand (character : Char) : Bool :=
  beginsPrimary character || ['!', '~', '+', '-', '*', '&'].contains character

theorem isPrefixOf_eq_false {test : Char → Bool} {character : Char} (free : test character = false)
    (rest : List Char) {word : List Char} (begins : startsWithChar test word = true) :
    word.isPrefixOf (character :: rest) = false := by
  cases word with
  | nil => cases begins
  | cons first word =>
      have apart : first ≠ character := by
        rintro rfl
        exact absurd begins (by simp [startsWithChar, free])
      simp [List.isPrefixOf, apart]

/-- Where no operand may begin with a character, none begins with a text that starts so. -/
theorem opensPrimary_eq_false {character : Char} (free : beginsPrimary character = false)
    (rest : List Char) : opensPrimary (character :: rest) = false := by
  have words : ∀ word ∈ definitionWords, startsWithChar beginsPrimary word.toList = true := by
    decide
  have marks : ∀ mark ∈ ["(", "[", "\x7b"], startsWithChar beginsPrimary mark.toList = true := by
    decide
  have apart : ∀ mark ∈ ['0', ':', '$', '@', '/'], character ≠ mark := by
    have begins : ∀ mark ∈ ['0', ':', '$', '@', '/'], beginsPrimary mark = true := by decide
    rintro mark member rfl
    rw [begins character member] at free
    cases free
  obtain ⟨zero, colon, dollar, sign, slash, -⟩ : character ≠ '0' ∧ character ≠ ':' ∧
      character ≠ '$' ∧ character ≠ '@' ∧ character ≠ '/' ∧ True := by
    simpa using apart
  obtain ⟨⟨noName, noDigit⟩, -⟩ : (isNameStart character = false ∧ isDecimalDigit character = false) ∧
      [':', '$', '@', '/', '(', '[', '\x7b'].contains character = false := by
    simpa only [beginsPrimary, Bool.or_eq_false_iff] using free
  have whole : Lexeme.digitRun (character :: rest) = 0 := by
    simp [Lexeme.digitRun, startsWithChar, noDigit]
  rw [opensPrimary, List.any_eq_false]
  intro kind member
  rw [Option.not_isSome_iff_eq_none]
  simp only [operandTerminals, List.append_assoc, List.mem_append, List.mem_map, List.mem_cons,
    List.not_mem_nil, or_false] at member
  rcases member with ⟨word, known, rfl⟩ | (rfl | rfl | rfl | rfl | rfl | rfl) | ⟨mark, known, rfl⟩
  · simp [Terminal.keyword, Lexeme.spelling, isPrefixOf_eq_false free rest (words word known)]
  · simp [Terminal.number, Lexeme.number, Lexeme.markedNumber, Lexeme.octalNumber,
      Lexeme.decimalNumber, whole, zero]
  · simp [Terminal.symbol, Lexeme.symbol, colon]
  · simp [Terminal.globalVariable, Lexeme.globalVariable, dollar]
  · simp [Terminal.instanceVariable, Lexeme.instanceVariable, sign]
  · simp [Terminal.regexp, Lexeme.regexp, slash]
  · simp [Terminal.identifier, Lexeme.identifier, Lexeme.name, noName]
  · simp [Terminal.punctuation, Lexeme.punctuation,
      isPrefixOf_eq_false free rest (marks mark (by simpa using known))]

theorem opensOperand_eq_false (mode : Mode) {character : Char}
    (free : beginsOperand character = false) (rest : List Char) :
    opensOperand mode (character :: rest) = false := by
  have begins : ∀ word ∈ (OperatorTables.standard.of mode).prefixSpellings,
      startsWithChar beginsOperand word.toList = true :=
    forall_prefixSpellings (by decide +kernel) mode
  rw [opensOperand, opensPrimary_eq_false (Bool.or_eq_false_iff.mp free).1 rest, Bool.false_or,
    Option.isSome_eq_false_iff, Option.isNone_iff_eq_none]
  refine oneOf_eq_none (usable_standard.context mode).hasPrefix fun word member => ?_
  rw [Lexeme.spelling, isPrefixOf_eq_false free rest (begins word member)]
  rfl

end Matcher

/-! ### What no statement begins with -/

/-- The symbols that would be taken for a member, a parent class or the parameters of a block. -/
def bindingSymbols : List String :=
  ["&.", ".", "<", "|"]

/-- A text that begins with none of these. -/
def StartsApart (rest : List Char) : Prop :=
  ∀ symbol ∈ bindingSymbols, symbol.toList.isPrefixOf rest = false

instance (rest : List Char) : Decidable (StartsApart rest) :=
  inferInstanceAs (Decidable (∀ symbol ∈ bindingSymbols, symbol.toList.isPrefixOf rest = false))

theorem StartsApart.punctuation {rest : List Char} (apart : StartsApart rest) {symbol : String}
    (member : symbol ∈ bindingSymbols) (excluded : String) :
    Lexeme.punctuation symbol excluded rest = none := by
  rw [Lexeme.punctuation, apart symbol member]
  rfl

/-- What begins with a character of an operand begins apart, unless it begins a safe member. -/
theorem StartsApart.of_beginsOperand {character : Char} {rest : List Char}
    (begins : Matcher.beginsOperand character = true)
    (safe : "&.".toList.isPrefixOf (character :: rest) = false) :
    StartsApart (character :: rest) := by
  have marks : ∀ symbol ∈ [".", "<", "|"], startsWithChar (fun mark => !Matcher.beginsOperand mark)
      symbol.toList = true := by
    decide
  intro symbol member
  rcases List.mem_cons.mp member with rfl | other
  · exact safe
  · exact Matcher.isPrefixOf_eq_false (by rw [begins]; rfl) rest (marks symbol other)

namespace Matcher

variable {cursor next : Cursor} {offset : Nat} {rest : List Char}

/-- No expression begins with the dot of a member, be it a safe one. -/
theorem rule_rejects_safe (mode : Mode) (lands : Lands cursor offset ('&' :: '.' :: rest)) :
    (rule .standard (.expression mode)).Rejects cursor := by
  have alone : ∀ word ∈ (OperatorTables.standard.of mode).prefixSpellings,
      word = "&" ∨ startsWithChar (· != '&') word.toList = true :=
    forall_prefixSpellings (by decide +kernel) mode
  have operand := operand_rejects_of_lands (rule .standard) lands
    (opensPrimary_eq_false (by decide) _)
  have prefixed : (prefixed .standard (rule .standard) mode).Rejects cursor := by
    refine rejects_bind.mpr ?_
    cases scanned : Lexeme.oneOf (OperatorTables.standard.of mode).prefixSpellings
      ('&' :: '.' :: rest) with
    | none => exact Or.inl (spaced_terminal_rejects lands scanned)
    | some length =>
        obtain ⟨word, member, begins, rfl⟩ :=
          Lexeme.oneOf_eq_some (prefixSpellings_standard mode).1 scanned
        obtain rfl : word = "&" := by
          refine (alone word member).resolve_right fun other => ?_
          have apart : word.toList.isPrefixOf ('&' :: '.' :: rest) = false :=
            isPrefixOf_eq_false rfl _ other
          rw [List.isPrefixOf_iff_prefix.mpr begins] at apart
          cases apart
        have behind : Lands ((cursor.advance (Skip.blanks.length cursor.rest)).advance 1) _
            ('.' :: rest) :=
          lands_behind (List.forall_mem_nil _) (by rfl) (by
            rw [Cursor.rest_advance, lands.rest_eq]
            rfl)
        refine Or.inr ⟨_, _, spaced_reads_of_lands lands (reads_terminal.mpr ⟨1, ?_, rfl, rfl⟩),
          rejects_bind.mpr (Or.inl (rule_rejects behind mode
            (opensOperand_eq_false mode (by decide) rest)))⟩
        rw [lands.rest_eq]
        exact scanned
  rw [rule_eq_production usable_standard]
  refine rejects_bind.mpr (Or.inl (rejects_orElse.mpr ⟨prefixed, ?_⟩))
  cases mode with
  | statement => exact rejects_bind.mpr (Or.inl operand)
  | argument => exact operand
  | command => exact operand

/-- No statement begins with a symbol that would bind it to what stands in front. -/
theorem startsApart_of_reads {node : Node} (lands : Lands cursor offset rest)
    (read : (rule .standard (.expression .statement)).Reads cursor node next) :
    StartsApart rest := by
  cases rest with
  | nil => decide
  | cons character rest =>
      refine .of_beginsOperand ?_ ?_
      · by_contra free
        exact read.not_rejects (rule_rejects lands .statement
          (opensOperand_eq_false .statement (by simpa using free) rest))
      · rw [Bool.eq_false_iff, ne_eq, List.isPrefixOf_iff_prefix]
        rintro ⟨more, rest_eq⟩
        rw [← rest_eq] at lands
        exact read.not_rejects (rule_rejects_safe .statement lands)

end Matcher

end RubySyntax
