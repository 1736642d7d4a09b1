import Mathlib.Data.List.TakeWhile
import RubySyntax.Proofs.ChainEnds
import RubySyntax.Proofs.SeamChains
import RubySyntax.Proofs.StatementSequences

/-!
# Bodies inside longer texts

A program is read alike as a body inside a longer text, if nothing that its reading looked
for at its end could be found in what follows.  The statements are read across the seam,
and the whole reading is moved to where the body stands.
-/

namespace RubySyntax

/-! ### Readings that leave nothing open -/

/-- A reading that goes to the end of a source and leaves nothing open there. -/
def Outcome.Closes {α : Type} (ending : Ending) (source : List Char) : Outcome α → Prop
  | .matched _ next trace => next.rest = [] ∧ SealedTrace ending source trace
  | .failed _ => False
  | .aborted _ => False

instance {α : Type} (ending : Ending) (source : List Char) :
    (outcome : Outcome α) → Decidable (outcome.Closes ending source)
  | .matched _ next trace =>
    inferInstanceAs (Decidable (next.rest = [] ∧ SealedTrace ending source trace))
  | .failed _ => inferInstanceAs (Decidable False)
  | .aborted _ => inferInstanceAs (Decidable False)

def matchStatements (source : List Char) : Outcome Node :=
  Matcher.afterSkip .gap (Matcher.rule .standard (.expression .statement)) (Cursor.ofText source)

/-- A program whose reading leaves nothing open at its end.  Blanks and semicolons behind its
last statement are no part of the reading, and without statements nothing is open. -/
def LeavesNothingOpen (source : List Char) : Prop :=
  (∀ character ∈ source, Lexeme.isGap character = true) ∨
    ∃ core gap, source = core ++ gap ∧ (∀ character ∈ gap, Lexeme.isGap character = true) ∧
      (matchStatements core).Closes .statement core

/-! ### Places in texts -/

theorem startsLine_append_behind (front : List Char) {text : List Char} {offset : Nat}
    (inner : 0 < offset) :
    startsLine (front ++ text) (front.length + offset) = startsLine text offset := by
  obtain ⟨offset, rfl⟩ : ∃ smaller, offset = smaller + 1 := ⟨offset - 1, by omega⟩
  rw [← Nat.add_assoc, startsLine, startsLine,
    List.getElem?_append_right (Nat.le_add_right _ _), Nat.add_sub_cancel_left]

theorem Cursor.moved_within {front text : List Char} {stop : Nat} (inner : 0 < stop) :
    (within text stop).moved front.length = within (front ++ text) (front.length + stop) := by
  have behind : (front ++ text).drop (front.length + stop) = text.drop stop := by
    rw [← List.drop_drop, List.drop_left]
  rw [within, within, moved, startsLine_append_behind front inner, behind, Nat.add_comm]

namespace Matcher

theorem lands_within {text blanks rest : List Char} {offset : Nat} (unmarked : IsUnmarked text)
    (inside : offset ≤ text.length) (drop_eq : text.drop offset = blanks ++ rest)
    (blank : ∀ character ∈ blanks, isBlank character = true)
    (solid : startsWithChar isBlank rest = false) (noLine : CommentSpan.ofLine? rest = none) :
    Lands (.within text offset) (offset + blanks.length) rest := by
  have length_eq := congrArg List.length drop_eq
  rw [List.length_drop, List.length_append] at length_eq
  refine lands_of_blanks blank solid drop_eq ?_
  rw [Cursor.advance_within (by omega), anyComment_rejects_within unmarked, ← List.drop_drop,
    drop_eq, List.drop_left]
  exact noLine

end Matcher

theorem Trails.ofGap {ending : Ending} {gap rest : List Char}
    (spacing : ∀ character ∈ gap, Lexeme.isGap character = true) (trails : Trails ending rest) :
    Trails ending (gap ++ rest) := by
  induction gap with
  | nil => exact trails
  | cons character gap ih =>
      obtain ⟨isGap, spacing⟩ := List.forall_mem_cons.mp spacing
      exact .gap isGap (ih spacing)

/-- What begins with another character than these symbols begins apart. -/
theorem StartsApart.mark {mark : Char}
    (others : ∀ symbol ∈ bindingSymbols, startsWithChar (· != mark) symbol.toList = true)
    (rest : List Char) : StartsApart (mark :: rest) :=
  fun symbol member => Matcher.isPrefixOf_eq_false (by simp) rest (others symbol member)

theorem StartsApart.behind_gap {gap rest : List Char} (apart : StartsApart rest)
    (spacing : ∀ character ∈ gap, Lexeme.isGap character = true)
    (solid : startsWithChar Lexeme.isGap rest = false) :
    StartsApart ((gap ++ rest).drop (Skip.blanks.length (gap ++ rest))) := by
  induction gap with
  | nil =>
      have noLength : Skip.blanks.length rest = 0 := by
        cases rest with
        | nil => rfl
        | cons character rest =>
            have noBlank : isBlank character = false := (Bool.or_eq_false_iff.mp solid).1
            simp [Skip.length, countWhile_cons, noBlank]
      rwa [List.nil_append, noLength, List.drop_zero]
  | cons character gap ih =>
      obtain ⟨isGap, spacing⟩ := List.forall_mem_cons.mp spacing
      rw [List.cons_append, Skip.length, countWhile_cons]
      split
      · exact ih spacing
      · rename_i noBlank
        obtain rfl : character = ';' := by
          simpa [Lexeme.isGap, noBlank] using isGap
        exact .mark (by decide) _

/-! ### Characters of one kind -/

/-- Nothing is left behind a run of characters that takes in a whole text. -/
theorem all_of_drop_countWhile {test : Char → Bool} {text : List Char}
    (spent : text.drop (countWhile test text) = []) :
    ∀ character ∈ text, test character = true := by
  refine List.takeWhile_eq_self_iff.mp ?_
  have split := List.take_append_drop (countWhile test text) text
  rwa [spent, List.append_nil, take_countWhile] at split

namespace Matcher

theorem reads_orEmpty_iff {matcher : Matcher Node} {cursor next : Cursor} {node : Node} :
    (orEmpty matcher).Reads cursor node next ↔ matcher.Reads cursor node next ∨
      node = Node.emptyAt cursor.offset ∧ next = cursor ∧ matcher.Rejects cursor := by
  simp only [orEmpty, reads_bind, reads_here, reads_optional, reads_pure]
  constructor
  · rintro ⟨_, _, ⟨rfl, rfl⟩, node?, middle, ⟨value, rfl, read⟩ | ⟨rfl, rfl, missing⟩, rfl, rfl⟩
    · exact Or.inl read
    · exact Or.inr ⟨rfl, rfl, missing⟩
  · rintro (read | ⟨rfl, rfl, missing⟩)
    · exact ⟨_, _, ⟨rfl, rfl⟩, some node, next, Or.inl ⟨node, rfl, read⟩, rfl, rfl⟩
    · exact ⟨_, _, ⟨rfl, rfl⟩, none, _, Or.inr ⟨rfl, rfl, missing⟩, rfl, rfl⟩

theorem reads_body_iff {rules : Rules} {cursor next : Cursor} {node : Node} :
    (body rules).Reads cursor node next ↔
      (rules (.expression .statement)).Reads (cursor.advance (Skip.gap.length cursor.rest)) node
        next ∨
      node = Node.emptyAt cursor.offset ∧ next = cursor ∧
        (rules (.expression .statement)).Rejects
          (cursor.advance (Skip.gap.length cursor.rest)) := by
  rw [body, reads_orEmpty_iff, reads_afterSkip, rejects_afterSkip]

/-- What the statements of a source are read as, if nothing is left open. -/
theorem closed_statements {core : List Char} (closes : (matchStatements core).Closes .statement core) :
    ∃ value trace, rule .standard (.expression .statement)
        (.within core (Skip.gap.length core)) = .matched value (.within core core.length) trace ∧
      SealedTrace .statement core trace := by
  obtain ⟨within, skipped⟩ := advance_skip .gap (Nat.zero_le core.length)
  rw [List.drop_zero, Nat.zero_add] at within skipped
  cases run : matchStatements core with
  | failed trace =>
      rw [run] at closes
      exact closes.elim
  | aborted fault =>
      rw [run] at closes
      exact closes.elim
  | matched value next trace =>
      rw [run] at closes
      obtain ⟨ended, closed⟩ := closes
      have ruleRun := afterSkip_eq_matched run
      rw [Cursor.ofText_eq_within, Cursor.rest_within, List.drop_zero, skipped] at ruleRun
      obtain ⟨stop, rfl, -, laid⟩ := rule_readsTrees _ within ⟨trace, ruleRun⟩
      obtain rfl : stop = core.length :=
        Nat.le_antisymm laid.bounds.2 (List.drop_eq_nil_iff.mp ended)
      exact ⟨value, trace, ruleRun, closed⟩

theorem parse_reads {source : List Char} (plain : IsPlain source) {tree : Node}
    (parsed : parse .standard source = .ok tree) :
    ∃ value stop, stop ≤ source.length ∧
      (body (rule .standard)).Reads (.within source 0) value (.within source stop) ∧
      (∀ character ∈ source.drop stop, Lexeme.isGap character = true) ∧ tree.bare = value.bare := by
  obtain ⟨root, next, rootRead, rfl⟩ : ∃ root next,
      (program .standard).Reads (Cursor.ofText source) root next ∧
        tree = root.resolve (PositionTable.ofText source) := by
    unfold parse parseAfter at parsed
    split at parsed
    · rename_i root next trace run
      exact ⟨root, next, ⟨trace, run⟩, (Except.ok.inj parsed).symm⟩
    · cases parsed
    · cases parsed
  rw [Cursor.ofText_eq_within] at rootRead
  obtain ⟨value, middle, bodyRead, rootRead⟩ := reads_bind.mp rootRead
  obtain ⟨trailing, behind, commentsRead, rootRead⟩ := reads_bind.mp rootRead
  obtain ⟨finished, last, endRead, rootRead⟩ := reads_bind.mp rootRead
  obtain ⟨rfl, rfl⟩ := reads_pure.mp rootRead
  obtain ⟨before, stop, rfl, -, laid⟩ := reads_body (rule_readsTrees _) (Nat.zero_le _) bodyRead
  have inside := laid.bounds.2
  obtain ⟨rfl, rfl⟩ := Reads.unique commentsRead ⟨[], commentsBefore_plain plain .gap inside⟩
  refine ⟨value, stop, inside, bodyRead, ?_, by simp⟩
  obtain ⟨length, scanned, -, -⟩ := reads_terminal.mp (reads_afterSkip.mp endRead)
  rw [Cursor.rest_advance, Cursor.rest_within] at scanned
  refine all_of_drop_countWhile ?_
  cases spent : (source.drop stop).drop (Skip.gap.length (source.drop stop)) with
  | nil => exact spent
  | cons character rest =>
      rw [spent] at scanned
      cases scanned

/-- A body up to the end of a text is a program, if no comment stands behind it. -/
theorem parse_of_body {text : List Char} {node : Node} {stop : Nat}
    (uncommented : (commentsBefore .gap).Reads (.within text stop) [] (.within text stop))
    (read : (body (rule .standard)).Reads (.within text 0) node (.within text stop))
    (spacing : ∀ character ∈ text.drop stop, Lexeme.isGap character = true) :
    parse .standard text = .ok (node.resolve (PositionTable.ofText text)) := by
  obtain ⟨trace, run⟩ : (program .standard).Reads (.within text 0) node
      ((Cursor.within text stop).advance (Skip.gap.length (text.drop stop))) := by
    refine reads_bind.mpr ⟨node, _, read, reads_bind.mpr ⟨[], _, uncommented, reads_bind.mpr
      ⟨_, _, reads_afterSkip.mpr (reads_terminal.mpr ⟨0, ?_, rfl, rfl⟩), reads_pure.mpr
        ⟨(node.appendComments_nil).symm, rfl⟩⟩⟩⟩
    have spent : (text.drop stop).drop (Skip.gap.length (text.drop stop)) = [] := by
      rw [Skip.length, countWhile, List.takeWhile_eq_self_iff.mpr spacing, List.drop_length]
    rw [Cursor.rest_advance, Cursor.rest_within, spent]
    rfl
  exact parseAfter_of_matched run

theorem parse_of_plain_body {text : List Char} (plain : IsPlain text) {node : Node} {stop : Nat}
    (inside : stop ≤ text.length)
    (read : (body (rule .standard)).Reads (.within text 0) node (.within text stop))
    (spacing : ∀ character ∈ text.drop stop, Lexeme.isGap character = true) :
    parse .standard text = .ok (node.resolve (PositionTable.ofText text)) :=
  parse_of_body ⟨[], commentsBefore_plain plain .gap inside⟩ read spacing

end Matcher

/-! ### Statements across a seam -/

/-- What follows the last statement of a source without comments: a gap up to the end of the line
or to what closes the source, and then something that takes in no statement. -/
structure StatementTail (core gap rest : List Char) : Prop where
  plain : IsPlain (core ++ (gap ++ rest))
  spacing : ∀ character ∈ gap, Lexeme.isGap character = true
  solid : startsWithChar Lexeme.isGap rest = false
  trails : Trails .statement (gap ++ rest)
  apart : StartsApart rest
  line : '/' ∉ Lexeme.firstLine (gap ++ rest)

def StatementTail.seam {core gap rest : List Char} (tail : StatementTail core gap rest) : Seam where
  ending := .statement
  source := core
  tail := gap ++ rest
  trails := tail.trails
  unmarked := tail.plain.unmarked
  noComment _ := CommentSpan.ofLine?_eq_none fun member =>
    tail.plain.noSign (List.mem_append_right _ (List.mem_of_mem_drop member))
  noMember :=
    have apart := tail.apart.behind_gap tail.spacing tail.solid
    ⟨apart.punctuation (by decide) "", apart.punctuation (by decide) "."⟩
  line _ := tail.line

namespace Matcher

variable {core gap rest : List Char}

section

variable (tail : StatementTail core gap rest) {value : Node} {trace : List Attempt}
  (run : rule .standard (.expression .statement) (.within core (Skip.gap.length core)) =
    .matched value (.within core core.length) trace)
  (closed : SealedTrace .statement core trace)
include tail run closed

/-- The statements of a source are read in a longer text and go on with the further ones. -/
theorem body_reads_across {links : List (ChainLink × Node)} {grow : Node → Node} {last : Cursor}
    (grows : Grows (OperatorTables.standard.of .statement) links grow)
    (further : (many (chainStep .standard (rule .standard) .statement)).Reads
      (.within (core ++ (gap ++ rest)) core.length) links last) :
    (body (rule .standard)).Reads (.within (core ++ (gap ++ rest)) 0) (grow value) last := by
  have within := Skip.length_le .gap core
  obtain ⟨stop, stop_eq, filled, -⟩ := rule_readsTrees _ within ⟨trace, run⟩
  obtain rfl : core.length = stop := congrArg Cursor.offset stop_eq
  have landing : Skip.gap.length (core ++ (gap ++ rest)) = Skip.gap.length core := by
    refine Skip.length_append_of_filled (by decide) (fun spent => ?_) _
    rw [List.drop_eq_nil_iff] at spent
    omega
  have expanded : (rule .standard (.expression .statement)).Reads
      (.within tail.seam.text (Skip.gap.length core)) (grow value) last :=
    @ruleWithin_expands tail.seam .statement links grow last grows further _ _ within _ _ run closed
  rw [reads_body_iff, Cursor.rest_within, List.drop_zero, landing, Cursor.advance_within (by
    rw [List.length_append]
    omega), Nat.zero_add]
  exact Or.inl expanded

/-- Without further statements the reading ends where it does in the source alone. -/
theorem body_reads_alone (closes : ClosesBody rest) :
    (body (rule .standard)).Reads (.within (core ++ (gap ++ rest)) 0) value
      (.within (core ++ (gap ++ rest)) core.length) := by
  refine body_reads_across tail run closed (.nothing _) (reads_many .nil ?_ (Nat.zero_le _))
  exact chainStep_rejects_of_closing closes tail.spacing
    (by rw [Cursor.rest_within, List.drop_left])

end

/-! ### Bodies in front of what closes them -/

/-- A body is closed by the end of the text or by what ends a construct. -/
theorem closesBody_of_closing {closing : List Char}
    (closes : closing ∈ [[], [')'], ['\x7d'], ['e', 'n', 'd']]) : ClosesBody closing := by
  have each : ∀ closing ∈ [[], [')'], ['\x7d'], ['e', 'n', 'd']], ClosesBody closing := by
    decide +kernel
  exact each closing closes

theorem closesBody_nil : ClosesBody [] :=
  closesBody_of_closing List.mem_cons_self

theorem statementTail_of_closing (core gap : List Char) {closing : List Char} (plain : IsPlain (core ++ (gap ++ closing)))
    (spacing : ∀ character ∈ gap, Lexeme.isGap character = true)
    (trails : Trails .statement (gap ++ closing)) (closes : ClosesBody closing) :
    StatementTail core gap closing where
  plain := plain
  spacing := spacing
  solid := closes.solid
  trails := trails
  apart := closes.apart
  line slash := by
    rcases List.mem_append.mp ((List.takeWhile_prefix _).subset slash) with inGap | inClosing
    · exact absurd (spacing _ inGap) (by decide)
    · exact closes.noSlash inClosing

theorem body_reads_nothing {closing : List Char} (closes : ClosesBody closing)
    (spacing : ∀ character ∈ gap, Lexeme.isGap character = true) :
    (body (rule .standard)).Reads (.within (gap ++ closing) 0) (Node.emptyAt (0 : Nat))
      (.within (gap ++ closing) 0) := by
  have landing : Skip.gap.length (gap ++ closing) = gap.length :=
    Lexeme.length_gap spacing closes.solid
  refine reads_body_iff.mpr (Or.inr ⟨rfl, rfl, ?_⟩)
  refine rule_rejects (lands_behind (List.forall_mem_nil _) closes.starts ?_) .statement
    closes.noOperand
  rw [Cursor.rest_advance, Cursor.rest_within, List.drop_zero, landing, List.drop_left,
    List.nil_append]

/-- A program without statements is empty. -/
theorem bare_of_parse_nothing {source : List Char} (plain : IsPlain source)
    (spacing : ∀ character ∈ source, Lexeme.isGap character = true) {tree : Node}
    (parsed : parse .standard source = .ok tree) : tree.bare = (Node.emptyAt (0 : Nat)).bare := by
  obtain ⟨value, stop, -, read, -, bare_eq⟩ := parse_reads plain parsed
  have alone := body_reads_nothing closesBody_nil spacing
  rw [List.append_nil] at alone
  obtain ⟨rfl, -⟩ := Reads.unique read alone
  exact bare_eq

/-- A gap behind a program that leaves nothing open changes nothing. -/
theorem parse_before_gap (plain : IsPlain (core ++ gap))
    (spacing : ∀ character ∈ gap, Lexeme.isGap character = true) {value : Node}
    {trace : List Attempt}
    (run : rule .standard (.expression .statement) (.within core (Skip.gap.length core)) =
      .matched value (.within core core.length) trace)
    (closed : SealedTrace .statement core trace) :
    ∃ tree, parse .standard (core ++ gap) = .ok tree ∧ tree.bare = value.bare := by
  have alone := body_reads_alone (statementTail_of_closing core gap (by simpa using plain) spacing
    (Trails.ofGap spacing .ends) closesBody_nil) run closed closesBody_nil
  rw [List.append_nil] at alone
  exact ⟨_, parse_of_plain_body plain (by simp) alone (by simpa using spacing), by simp⟩

/-- A program that leaves nothing open is what its statements are read as. -/
theorem bare_of_parse_closed (plain : IsPlain (core ++ gap))
    (spacing : ∀ character ∈ gap, Lexeme.isGap character = true) {tree value : Node}
    (parsed : parse .standard (core ++ gap) = .ok tree) {trace : List Attempt}
    (run : rule .standard (.expression .statement) (.within core (Skip.gap.length core)) =
      .matched value (.within core core.length) trace)
    (closed : SealedTrace .statement core trace) : tree.bare = value.bare := by
  obtain ⟨other, otherParsed, same⟩ := parse_before_gap plain spacing run closed
  cases parsed.symm.trans otherParsed
  exact same

theorem body_reads_enclosed {source closing : List Char}
    (plain : IsPlain (source ++ (gap ++ closing))) {tree : Node}
    (parsed : parse .standard source = .ok tree) (shut : LeavesNothingOpen source)
    (spacing : ∀ character ∈ gap, Lexeme.isGap character = true)
    (trails : Trails .statement (gap ++ closing)) (closes : ClosesBody closing) :
    ∃ node stop, stop ≤ source.length ∧ (body (rule .standard)).Reads
        (.within (source ++ (gap ++ closing)) 0) node (.within (source ++ (gap ++ closing)) stop) ∧
      (∀ character ∈ source.drop stop, Lexeme.isGap character = true) ∧
      tree.bare = node.bare := by
  have sourcePlain := plain.of_append.1
  rcases shut with blank | ⟨core, before, rfl, beforeSpacing, shut⟩
  · have enclosed := body_reads_nothing closes (List.forall_mem_append.mpr ⟨blank, spacing⟩)
    exact ⟨_, 0, Nat.zero_le _, by rwa [List.append_assoc] at enclosed, blank,
      bare_of_parse_nothing sourcePlain blank parsed⟩
  · obtain ⟨value, trace, run, closed⟩ := closed_statements shut
    have enclosed := body_reads_alone (statementTail_of_closing core (before ++ gap)
      (by simpa using plain) (List.forall_mem_append.mpr ⟨beforeSpacing, spacing⟩)
      (by simpa using Trails.ofGap beforeSpacing trails) closes) run closed closes
    exact ⟨value, core.length, by simp, by simpa using enclosed, by simpa using beforeSpacing,
      bare_of_parse_closed sourcePlain beforeSpacing parsed run closed⟩

/-! ### Bodies behind other text -/

/-- In a text without comments what stands behind a gap is the first token there. -/
theorem lands_solid {text : List Char} (plain : IsPlain text) {offset : Nat}
    (inside : offset ≤ text.length)
    (solid : startsWithChar Lexeme.isGap (text.drop offset) = false) :
    Lands (.within text offset) offset (text.drop offset) := by
  refine lands_within plain.unmarked inside (List.nil_append _).symm (List.forall_mem_nil _) ?_
    (CommentSpan.ofLine?_eq_none fun member => plain.noSign (List.mem_of_mem_drop member))
  cases rest_eq : text.drop offset with
  | nil => rfl
  | cons character rest =>
      rw [rest_eq] at solid
      exact (Bool.or_eq_false_iff.mp solid).1

theorem body_reads_behind {front text : List Char} (plain : IsPlain (front ++ text)) {node : Node}
    {stop : Nat} (read : (body (rule .standard)).Reads (.within text 0) node (.within text stop)) :
    ∃ moved, (body (rule .standard)).Reads (.within (front ++ text) front.length) moved
        (.within (front ++ text) (front.length + stop)) ∧ moved.bare = node.bare := by
  have place := Skip.length_le .gap text
  have behind : (front ++ text).drop (front.length + Skip.gap.length text) =
      text.drop (Skip.gap.length text) := by
    rw [← List.drop_drop, List.drop_left]
  have solid := startsWithChar_drop_countWhile Lexeme.isGap text
  have ignores := IgnoresBlanks.rule (.expression .statement)
  have moves := Moves.rule .standard front.length (.expression .statement)
  have inside : front.length + Skip.gap.length text ≤ (front ++ text).length := by
    rw [List.length_append]
    omega
  have lands := lands_solid plain.of_append.2 place solid
  have landsToo : Lands (.within (front ++ text) (front.length + Skip.gap.length text))
      (front.length + Skip.gap.length text) (text.drop (Skip.gap.length text)) := by
    have landsHere := lands_solid plain inside (by rw [behind]; exact solid)
    rwa [behind] at landsHere
  rw [reads_body_iff, Cursor.rest_within, List.drop_zero, Cursor.advance_within (by omega),
    Nat.zero_add] at read
  simp only [reads_body_iff, Cursor.rest_within, List.drop_left, Cursor.advance_within inside]
  rcases read with statements | ⟨rfl, next_eq, missing⟩
  · obtain ⟨last, next_eq, filled, -⟩ := rule_readsTrees _ place statements
    obtain rfl : stop = last := congrArg Cursor.offset next_eq
    have moved := ignores.reads_moved moves lands landsToo statements
    rw [Cursor.moved_within (by omega)] at moved
    exact ⟨_, Or.inl moved, by simp⟩
  · obtain rfl : stop = 0 := congrArg Cursor.offset next_eq
    exact ⟨_, Or.inr ⟨rfl, rfl, ignores.rejects_moved moves lands landsToo missing⟩, rfl⟩

theorem body_reads_behind_gap {lead text : List Char} (plain : IsPlain (lead ++ text))
    (spacing : ∀ character ∈ lead, Lexeme.isGap character = true) {node : Node} {stop : Nat}
    (inside : stop ≤ text.length)
    (read : (body (rule .standard)).Reads (.within text 0) node (.within text stop)) :
    ∃ moved last before, last ≤ (lead ++ text).length ∧
      (body (rule .standard)).Reads (.within (lead ++ text) 0) moved (.within (lead ++ text) last) ∧
      (lead ++ text).drop last = before ++ text.drop stop ∧
      (∀ character ∈ before, Lexeme.isGap character = true) ∧ moved.bare = node.bare := by
  obtain ⟨moved, movedRead, same⟩ := body_reads_behind plain read
  have bound : lead.length + Skip.gap.length text ≤ (lead ++ text).length := by
    have := Skip.length_le .gap text
    rw [List.length_append]
    omega
  have landing : Skip.gap.length (lead ++ text) = lead.length + Skip.gap.length text := by
    rw [Skip.length, countWhile, List.takeWhile_append_of_pos spacing, List.length_append]
    rfl
  have atStart : ((Cursor.within (lead ++ text) 0).advance
      (Skip.gap.length (Cursor.within (lead ++ text) 0).rest)) =
        .within (lead ++ text) (lead.length + Skip.gap.length text) := by
    rw [Cursor.rest_within, List.drop_zero, landing, Cursor.advance_within (by omega),
      Nat.zero_add]
  rw [reads_body_iff, Cursor.rest_within, List.drop_left, Cursor.advance_within bound] at movedRead
  rcases movedRead with statements | ⟨rfl, next_eq, missing⟩
  · refine ⟨moved, lead.length + stop, [], by simpa using inside, ?_, ?_, by simp, same⟩
    · rw [reads_body_iff, atStart]
      exact Or.inl statements
    · rw [← List.drop_drop, List.drop_left, List.nil_append]
  · obtain rfl : stop = 0 := Nat.add_eq_left.mp (congrArg Cursor.offset next_eq)
    refine ⟨Node.emptyAt (0 : Nat), 0, lead, Nat.zero_le _, ?_, by simp, spacing,
      Eq.trans rfl same⟩
    rw [reads_body_iff, atStart]
    exact Or.inr ⟨rfl, rfl, missing⟩

/-- In front of a body nothing takes its first statement for a member, a parent class or
parameters. -/
theorem startsApart_of_body {text closing : List Char} (plain : IsPlain text)
    (closes : ClosesBody closing) {node : Node} {stop : Nat}
    (read : (body (rule .standard)).Reads (.within text 0) node (.within text stop))
    (rest_eq : text.drop stop = gap ++ closing)
    (spacing : ∀ character ∈ gap, Lexeme.isGap character = true) :
    StartsApart (text.drop (Skip.blanks.length text)) := by
  have place := Skip.length_le .gap text
  rw [reads_body_iff, Cursor.rest_within, List.drop_zero, Cursor.advance_within (by omega),
    Nat.zero_add] at read
  rcases read with statements | ⟨rfl, next_eq, missing⟩
  · have apart := startsApart_of_reads
      (lands_solid plain place (startsWithChar_drop_countWhile Lexeme.isGap text)) statements
    have spacing : ∀ character ∈ text.take (Skip.gap.length text), Lexeme.isGap character = true := by
      rw [Skip.length, take_countWhile]
      exact List.all_eq_true.mp List.all_takeWhile
    have behind := apart.behind_gap spacing (startsWithChar_drop_countWhile Lexeme.isGap text)
    rwa [List.take_append_drop] at behind
  · obtain rfl : stop = 0 := congrArg Cursor.offset next_eq
    rw [List.drop_zero] at rest_eq
    rw [rest_eq]
    exact closes.apart.behind_gap spacing closes.solid

end Matcher

end RubySyntax
