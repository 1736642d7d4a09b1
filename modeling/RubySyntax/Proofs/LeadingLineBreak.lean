import RubySyntax.Proofs.ErrorReports
import RubySyntax.Proofs.SeamRuns
import RubySyntax.Proofs.SourceConservation
import RubySyntax.Proofs.StatementSequences

/-!
# Programs behind a line break

A line break in front of a program belongs to the gap before its first statement.  It moves
every node and the place of every failure one character on and one line down, and changes
nothing else, apart from the placeholder of a program without statements, which stays at
the start of the text.
-/

namespace RubySyntax

/-! ### One line further down -/

/-- The place one line further down. -/
def Position.lowered (position : Position) : Position :=
  { position with line := position.line + 1 }

namespace Node

mutual

/-- The tree behind one more line break. -/
def lowered : Node → Node
  | ⟨data, children, comments, offset, position⟩ =>
    ⟨data, loweredAll children, loweredAll comments, offset.map (· + 1),
      position.map Position.lowered⟩

/-- Several trees behind one more line break. -/
def loweredAll : List Node → List Node
  | [] => []
  | node :: others => node.lowered :: loweredAll others

end

/-- The tree of a program behind one more line break.  The placeholder of a program without
statements stays where it is, which is on the line break. -/
def behindLineBreak (tree : Node) : Node :=
  if tree.isEmpty then { tree.lowered with offset := tree.offset, position := some ⟨1, -1⟩ }
  else tree.lowered

end Node

/-- Another error is the error one line further down. -/
structure ParseError.IsLowered (error other : ParseError) : Prop where
  message_eq : other.message = error.message
  expected_eq : other.expected = error.expected
  offset_eq : other.offset = error.offset + 1
  line_eq : other.line = error.line + 1
  column_eq : other.column = error.column
  position_eq : other.position = error.position.lowered

/-! ### Places behind a line break -/

theorem PositionTable.positionsFrom_lowered (line column : Int) (text : List Char) :
    positionsFrom (line + 1) column text = (positionsFrom line column text).map Position.lowered := by
  have place_eq (character : Char) (line column : Int) :
      place character (line + 1) column = (place character line column).lowered := by
    rw [place, place]
    split <;> rfl
  induction text generalizing line column with
  | nil => rfl
  | cons character rest ih =>
      simp only [positionsFrom, List.map_cons, place_eq, ← ih]
      rfl

/-- Every place of a text is one line further down behind a line break. -/
theorem PositionTable.clamped_behindLineBreak (text : List Char) (offset : Nat) :
    (ofText ('\n' :: text)).clamped ((offset : Int) + 1) =
      ((ofText text).clamped offset).lowered := by
  have entries_eq : positionsFrom 0 0 ('\n' :: text) =
      ⟨1, -1⟩ :: (positionsFrom 0 0 text).map Position.lowered := by
    rw [← positionsFrom_lowered]
    rfl
  have inside : min offset text.length < (positionsFrom 0 0 text).length := by
    rw [length_positionsFrom]
    omega
  have least : min (offset + 1) (text.length + 1) = min offset text.length + 1 := by omega
  rw [clamped, clamped, size_ofText, size_ofText, List.length_cons, Nat.add_sub_cancel,
    Nat.add_sub_cancel, Int.toNat_natCast, ← Int.natCast_succ, Int.toNat_natCast, least, ofText,
    ofText, List.getElem?_toArray, List.getElem?_toArray, entries_eq, List.getElem?_cons_succ,
    List.getElem?_map, List.getElem?_eq_getElem inside]
  rfl

theorem boundAt_succ (length offset : Nat) :
    boundAt (length + 1) ((offset : Int) + 1) = boundAt length offset + 1 := by
  rw [boundAt, boundAt, if_neg (by omega), if_neg (by omega)]
  omega

theorem textBefore_behindLineBreak (text : List Char) (offset : Nat) :
    textBefore ('\n' :: text) ((offset : Int) + 1) = '\n' :: textBefore text offset := by
  rw [textBefore, textBefore, List.length_cons, boundAt_succ, List.take_succ_cons]

theorem lastLineStart_behindLineBreak (before : List Char) :
    lastLineStart ('\n' :: before) = lastLineStart before + 1 := by
  have stops : (before.reverse ++ ['\n']).takeWhile (· != '\n') =
      before.reverse.takeWhile (· != '\n') := by
    rw [List.takeWhile_append]
    split
    · rename_i whole
      simpa using ((List.takeWhile_prefix _).eq_of_length whole).symm
    · rfl
  have short := (List.takeWhile_prefix (l := before.reverse) (· != '\n')).length_le
  rw [List.length_reverse] at short
  rw [lastLineStart, lastLineStart, List.reverse_cons, stops, List.length_cons]
  omega

theorem describeFound_behindLineBreak (text : List Char) (offset : Nat) :
    describeFound ('\n' :: text) ((offset : Int) + 1) = describeFound text offset := by
  have slice_eq : sliceBetween ('\n' :: text) ((offset : Int) + 1) ((offset : Int) + 1 + 12) =
      sliceBetween text offset ((offset : Int) + 12) := by
    have stop_eq : (offset : Int) + 1 + 12 = ((offset + 12 : Nat) : Int) + 1 := by omega
    have other_eq : (offset : Int) + 12 = ((offset + 12 : Nat) : Int) := by omega
    rw [stop_eq, other_eq, sliceBetween, sliceBetween, List.length_cons, boundAt_succ,
      boundAt_succ, List.take_succ_cons, List.drop_succ_cons]
  have ends_iff : (((('\n' :: text).length : Nat) : Int) ≤ (offset : Int) + 1) ↔
      ((text.length : Int) ≤ offset) := by
    rw [List.length_cons]
    omega
  rw [describeFound, describeFound, slice_eq]
  simp only [ends_iff]

/-! ### Trees behind a line break -/

namespace Node

/-- A node that was read and is not resolved yet. -/
def AwaitsPosition (node : Node) : Prop :=
  node.position = none ∧ ∃ offset : Nat, node.offset = some (offset : Int)

mutual

/-- A tree that is read behind a line break is resolved one line further down. -/
theorem located_moved (text : List Char) (tree : Node)
    (awaits : ∀ node ∈ tree.allNodes, node.AwaitsPosition) :
    (tree.moved 1).located (.ofText ('\n' :: text)) = (tree.located (.ofText text)).lowered := by
  obtain ⟨data, children, comments, offset, position⟩ := tree
  rw [allNodes] at awaits
  simp only [List.cons_append, List.mem_cons, List.mem_append, forall_eq_or_imp] at awaits
  obtain ⟨⟨unresolved, place, offset_eq⟩, below⟩ := awaits
  obtain rfl : position = none := unresolved
  obtain rfl : offset = some (place : Int) := offset_eq
  rw [moved, located, located, lowered,
    locatedAll_moved text children fun node member => below node (Or.inl member),
    locatedAll_moved text comments fun node member => below node (Or.inr member)]
  have position_eq : (none <|> ((some (place : Int)).map (· + ((1 : Nat) : Int))).map
      (PositionTable.ofText ('\n' :: text)).clamped) =
        some ((PositionTable.ofText text).clamped place).lowered :=
    congrArg some (PositionTable.clamped_behindLineBreak text place)
  rw [position_eq]
  rfl

theorem locatedAll_moved (text : List Char) (nodes : List Node)
    (awaits : ∀ node ∈ allNodesOfAll nodes, node.AwaitsPosition) :
    locatedAll (.ofText ('\n' :: text)) (movedAll 1 nodes) =
      loweredAll (locatedAll (.ofText text) nodes) := by
  cases nodes with
  | nil => rfl
  | cons node others =>
      rw [allNodesOfAll] at awaits
      rw [movedAll, locatedAll, locatedAll, loweredAll,
        located_moved text node fun inner member => awaits inner (List.mem_append_left _ member),
        locatedAll_moved text others fun inner member =>
          awaits inner (List.mem_append_right _ member)]

end

/-- The tree that a program is read as behind a line break, before it is resolved. -/
def movedBehindLineBreak (tree : Node) : Node :=
  if tree.isEmpty then { tree.moved 1 with offset := tree.offset } else tree.moved 1

/-- A program behind a line break is resolved as it is without it, one line further down. -/
theorem located_movedBehindLineBreak (text : List Char) (tree : Node)
    (awaits : ∀ node ∈ tree.allNodes, node.AwaitsPosition)
    (starts : tree.isEmpty = true → tree.offset = some 0) :
    tree.movedBehindLineBreak.located (.ofText ('\n' :: text)) =
      (tree.located (.ofText text)).behindLineBreak := by
  have isEmpty_eq : (tree.located (.ofText text)).isEmpty = tree.isEmpty := by
    rw [isEmpty, isEmpty, located_data, located_children, List.isEmpty_map]
  have moved_eq := located_moved text tree awaits
  rw [movedBehindLineBreak, behindLineBreak, isEmpty_eq]
  split
  · rename_i untold
    have unresolved := (awaits tree (by simp [allNodes_eq])).1
    rw [← moved_eq, located_eq, located_eq]
    simp [resolved, positionIn, Node.moved_eq, unresolved, starts untold]
    rfl
  · exact moved_eq

end Node

/-! ### Failures behind a line break -/

def FurthestFailure.moved (distance : Nat) (failure : FurthestFailure) : FurthestFailure :=
  { failure with offset := failure.offset + distance }

namespace FurthestFailure

variable (distance : Nat)

theorem record_moved (furthest? : Option FurthestFailure) (attempt : Attempt) :
    record (furthest?.map (moved distance)) (attempt.moved distance) =
      (record furthest? attempt).map (moved distance) := by
  cases matched_eq : attempt.matched with
  | true => simp [record, Attempt.moved, matched_eq]
  | false =>
      cases furthest? with
      | none => simp [record, Attempt.moved, matched_eq, moved]
      | some furthest =>
          simp only [record, Attempt.moved, matched_eq, moved, Option.map_some,
            Nat.add_lt_add_iff_right, Nat.add_right_cancel_iff, Bool.false_eq_true, if_false]
          split
          · rfl
          · split <;> rfl

theorem foldl_record_moved (furthest? : Option FurthestFailure) (trace : List Attempt) :
    (trace.map (Attempt.moved distance)).foldl record (furthest?.map (moved distance)) =
      (trace.foldl record furthest?).map (moved distance) := by
  induction trace generalizing furthest? with
  | nil => rfl
  | cons attempt trace ih => rw [List.map_cons, List.foldl_cons, List.foldl_cons, record_moved, ih]

theorem reported_moved (furthest? : Option FurthestFailure) (endOffset : Nat) :
    reported (furthest?.map (moved distance)) (endOffset + distance) =
      (reported furthest? endOffset).moved distance := by
  cases furthest? with
  | none => rfl
  | some furthest =>
      simp only [reported, Option.map_some, moved, Nat.add_le_add_iff_right]
      split <;> rfl

end FurthestFailure

theorem ParseError.ofFailure_isLowered (text : List Char) (failure : FurthestFailure) :
    (ofFailure text failure).IsLowered (ofFailure ('\n' :: text) (failure.moved 1)) where
  message_eq := by
    have := describeFound_behindLineBreak text failure.offset
    simp only [ofFailure, FurthestFailure.moved]
    rw [Int.natCast_add, Int.natCast_one, this]
  expected_eq := rfl
  offset_eq := Int.natCast_succ _
  line_eq := by
    have before_eq := textBefore_behindLineBreak text failure.offset
    simp only [line, ofFailure, FurthestFailure.moved]
    rw [Int.natCast_add, Int.natCast_one, before_eq, lineFeedCount, lineFeedCount,
      List.count_cons_self]
  column_eq := by
    have before_eq := textBefore_behindLineBreak text failure.offset
    simp only [column, ofFailure, FurthestFailure.moved]
    rw [Int.natCast_add, Int.natCast_one, before_eq, lastLineStart_behindLineBreak]
    omega
  position_eq := PositionTable.clamped_behindLineBreak text failure.offset

/-! ### Runs behind a line break -/

theorem Outcome.after_moved {α : Type} (distance : Nat) (move : α → α) (earlier : List Attempt)
    (outcome : Outcome α) :
    (outcome.moved distance move).after (earlier.map (Attempt.moved distance)) =
      (outcome.after earlier).moved distance move := by
  cases outcome <;> simp [moved, after]

namespace Matcher

/-- What stands behind a gap stands behind a line break and the gap. -/
theorem advance_gap_behindLineBreak (text : List Char) :
    (Cursor.ofText ('\n' :: text)).advance (Skip.gap.length ('\n' :: text)) =
      ((Cursor.ofText text).advance (Skip.gap.length text)).moved 1 := by
  have gap : Lexeme.isGap '\n' = true := by decide
  have longer : Skip.gap.length ('\n' :: text) = Skip.gap.length text + 1 := by
    simp [Skip.length, countWhile, gap]
  rw [longer, ← Cursor.advance_moved]
  rfl

theorem afterGap_behindLineBreak {α : Type} {move : α → α} {matcher other : Matcher α}
    (moves : Moves 1 move matcher other) (text : List Char) :
    (∃ fault, afterSkip .gap matcher (Cursor.ofText text) = .aborted fault) ∨
      afterSkip .gap other (Cursor.ofText ('\n' :: text)) =
        (afterSkip .gap matcher (Cursor.ofText text)).moved 1 move := by
  have skipped (matcher : Matcher α) (text : List Char) :
      afterSkip .gap matcher (Cursor.ofText text) =
        matcher ((Cursor.ofText text).advance (Skip.gap.length text)) :=
    Outcome.after_nil _
  rw [skipped, skipped, advance_gap_behindLineBreak]
  exact moves _

/-- A repetition that came to its end does so under any greater bound. -/
theorem manyUpTo_of_le {α : Type} {matcher : Matcher α} {limit more : Nat} (le : limit ≤ more)
    {cursor last : Cursor} {values : List α} {trace : List Attempt}
    (run : manyUpTo matcher limit cursor = .matched values last trace) :
    manyUpTo matcher more cursor = .matched values last trace := by
  induction limit generalizing more cursor values trace with
  | zero => cases run
  | succ limit ih =>
      obtain ⟨more, rfl⟩ : ∃ fewer, more = fewer + 1 := ⟨more - 1, by omega⟩
      rw [manyUpTo_succ]
      rcases manyUpTo_eq_matched run with
        ⟨ended, rfl, rfl⟩ | ⟨value, next, others, front, back, one, rest, rfl, rfl⟩
      · rw [ended]
      · rw [one]
        dsimp only
        rw [ih (Nat.le_of_succ_le_succ le) rest]

/-- The comments in front of the first token, and the gap in front of the end, are read alike
behind a line break. -/
theorem commentsBefore_behindLineBreak (text : List Char) :
    ∃ comments next other trace,
      commentsBefore .gap (Cursor.ofText text) = .matched comments next trace ∧
      commentsBefore .gap (Cursor.ofText ('\n' :: text)) =
        .matched (comments.map (Node.moved 1)) other (trace.map (Attempt.moved 1)) ∧
      afterSkip .gap (terminal .endOfInput) other =
        (afterSkip .gap (terminal .endOfInput) next).moved 1 (Node.moved 1) := by
  have ends (cursor : Cursor) :
      ¬ ∃ fault, afterSkip .gap (terminal .endOfInput) cursor = .aborted fault := by
    rintro ⟨fault, aborted⟩
    exact (Consumes.token _).afterSkip.ne_aborted (Nat.lt_succ_self _) fault aborted
  obtain ⟨comments, next, trace, run⟩ : ∃ comments next trace,
      commentsBefore .gap (Cursor.ofText text) = .matched comments next trace := by
    rcases (Consumes.commentsBefore .gap).halts (Cursor.ofText text) (Nat.lt_succ_self _) with
      ⟨comments, next, trace, run⟩ | ⟨trace, run⟩
    · exact ⟨comments, next, trace, run⟩
    · exact absurd run (manyUpTo_ne_failed _ _ _ _)
  have first := afterGap_behindLineBreak Moves.anyComment text
  have repeated (text : List Char) : commentsBefore .gap (Cursor.ofText text) =
      manyUpTo (afterSkip .gap anyComment) (text.length + 1) (Cursor.ofText text) := rfl
  rw [repeated] at run
  rw [repeated, repeated, List.length_cons, manyUpTo_succ _ (text.length + 1)]
  rcases manyUpTo_eq_matched run with
    ⟨unread, rfl, rfl⟩ | ⟨comment, middle, others, front, back, one, rest, rfl, rfl⟩
  · -- Without comments both texts are read on from their start.
    rcases first with ⟨fault, aborted⟩ | moved
    · rw [unread] at aborted
      cases aborted
    · rw [unread] at moved
      refine ⟨_, _, .ofText ('\n' :: text), _, run, by rw [moved]; rfl, ?_⟩
      exact (afterGap_behindLineBreak (Moves.terminal _) text).resolve_left (ends _)
  · rcases first with ⟨fault, aborted⟩ | moved
    · rw [one] at aborted
      cases aborted
    · rw [one] at moved
      have onward : manyUpTo (afterSkip .gap anyComment) (text.length + 1) (middle.moved 1) =
          .matched (others.map (Node.moved 1)) (next.moved 1) (back.map (Attempt.moved 1)) := by
        refine manyUpTo_of_le (Nat.le_succ _) ?_
        rcases Moves.anyComment.afterSkip.manyUpTo text.length middle with
          ⟨fault, aborted⟩ | moved
        · rw [aborted] at rest
          cases rest
        · rw [moved, rest]
          rfl
      refine ⟨_, _, next.moved 1, _, run, ?_, ?_⟩
      · simp [moved, Outcome.moved, onward]
      · exact ((Moves.terminal _).afterSkip next).resolve_left (ends _)

/-- What is read or else left out at a cursor. -/
theorem orEmpty_apply (matcher : Matcher Node) (cursor : Cursor) :
    orEmpty matcher cursor =
      match matcher cursor with
      | .matched node next trace => .matched node next trace
      | .failed trace => .matched (.emptyAt cursor.offset) cursor trace
      | .aborted fault => .aborted fault := by
  rw [orEmpty, bind_apply, here]
  dsimp only
  rw [bind_apply, optional]
  cases matcher cursor with
  | matched node next trace => exact congrArg _ (List.append_nil trace)
  | failed trace => exact congrArg _ (List.append_nil trace)
  | aborted fault => rfl

/-- What stands behind the statements of a program, which keep the comments there. -/
def ending (root : Node) : Matcher Node := do
  let trailing ← commentsBefore .gap
  let _ ← afterSkip .gap (terminal .endOfInput)
  return root.appendComments trailing

theorem program_eq_ending (tables : OperatorTables) :
    program tables = body (rule tables) >>= ending :=
  rfl

theorem Moves.ending (root : Node) (distance : Nat) :
    Moves.Trees distance (ending root) (Matcher.ending (root.moved distance)) :=
  (commentsBefore .gap).bind fun _ => (terminal _).afterSkip.bind fun _ =>
    .pure (Node.appendComments_moved _ _ _).symm

theorem Consumes.ending (root : Node) {bound : Nat} : Consumes 0 bound (ending root) :=
  (commentsBefore .gap).bind fun _ => (token _).afterSkip.bind fun _ => .pure

/-- Behind statements the end of a program is read alike. -/
theorem ending_moved {root : Node} (filled : root.isEmpty = false) (cursor : Cursor) :
    ending (root.moved 1) (cursor.moved 1) =
      (ending root cursor).moved 1 Node.movedBehindLineBreak := by
  have answers : Answers (fun tree => tree.isEmpty = false) (ending root) :=
    .bindAny fun _ => .bindAny fun _ => .pure filled
  rw [(Moves.ending root 1 cursor).resolve_left fun ⟨fault, aborted⟩ =>
    (Consumes.ending root).ne_aborted (Nat.lt_succ_self _) fault aborted]
  cases run : ending root cursor with
  | matched tree next trace =>
      simp [Outcome.moved, Node.movedBehindLineBreak, answers ⟨trace, run⟩]
  | failed trace => rfl
  | aborted fault => rfl

/-- Without statements the end of a program is looked for at the start of the text. -/
theorem ending_behindLineBreak (text : List Char) :
    ending (.emptyAt 0) (Cursor.ofText ('\n' :: text)) =
      (ending (.emptyAt 0) (Cursor.ofText text)).moved 1 Node.movedBehindLineBreak := by
  obtain ⟨comments, next, other, trace, run, runToo, ends⟩ := commentsBefore_behindLineBreak text
  rw [ending, bind_apply, bind_apply, run, runToo]
  dsimp only
  rw [bind_apply, bind_apply, ends]
  cases afterSkip .gap (terminal .endOfInput) next with
  | matched token last back =>
      have vacant : ((Node.emptyAt 0).appendComments comments).movedBehindLineBreak =
          (Node.emptyAt 0).appendComments (comments.map (Node.moved 1)) := by
        simp [Node.movedBehindLineBreak, Node.isEmpty, Node.appendComments, Node.emptyAt,
          Node.moved_eq]
      simp [Outcome.moved, Outcome.after, pure, Matcher.pure, vacant]
  | failed back => simp [Outcome.moved, Outcome.after]
  | aborted fault => rfl

theorem statements_filled {text : List Char} {tree : Node} {next : Cursor}
    (read : (afterSkip .gap (rule .standard (.expression .statement))).Reads (Cursor.ofText text)
      tree next) : tree.isEmpty = false := by
  obtain ⟨before, spacing, treeRead⟩ := reads_afterSkip_within (Nat.zero_le text.length) read
  obtain ⟨stop, -, filled, laid⟩ := rule_readsTrees _ spacing.within treeRead
  exact laid.isEmpty_eq_false filled

/-- The placeholder of a program without statements stands at the start of the text. -/
theorem program_offset_of_isEmpty {text : List Char} {tree : Node} {next : Cursor}
    (read : (program .standard).Reads (Cursor.ofText text) tree next)
    (vacant : tree.isEmpty = true) : tree.offset = some 0 := by
  obtain ⟨root, middle, rootRead, endingRead⟩ := reads_bind.mp read
  obtain ⟨trailing, behind, -, endRead⟩ := reads_bind.mp endingRead
  obtain ⟨token, last, -, answered⟩ := reads_bind.mp endRead
  obtain ⟨rfl, -⟩ := reads_pure.mp answered
  rcases reads_orEmpty rootRead with statementsRead | ⟨isVacant, -⟩
  · have filled : root.isEmpty = false := statements_filled statementsRead
    exact absurd (show root.isEmpty = true from vacant) (by simp [filled])
  · exact isVacant.offset_eq

/-- A program behind a line break is read as it is without it. -/
theorem program_behindLineBreak (text : List Char) :
    program .standard (Cursor.ofText ('\n' :: text)) =
      (program .standard (Cursor.ofText text)).moved 1 Node.movedBehindLineBreak := by
  have unaborted (fault : Fault) :
      afterSkip .gap (rule .standard (.expression .statement)) (Cursor.ofText text) ≠
        .aborted fault :=
    (Consumes.rule usable_standard _).afterSkip.ne_aborted (Nat.lt_succ_self _) fault
  have statements :=
    (afterGap_behindLineBreak (Moves.rule .standard 1 (.expression .statement)) text).resolve_left
      fun ⟨fault, aborted⟩ => unaborted fault aborted
  rw [program_eq_ending, bind_apply, bind_apply, body, orEmpty_apply, orEmpty_apply, statements]
  cases read : afterSkip .gap (rule .standard (.expression .statement)) (Cursor.ofText text) with
  | matched tree next front =>
      have ends := ending_moved (statements_filled ⟨front, read⟩) next
      exact (congrArg (Outcome.after _) ends).trans (Outcome.after_moved _ _ _ _)
  | failed front =>
      have ends := ending_behindLineBreak text
      exact (congrArg (Outcome.after _) ends).trans (Outcome.after_moved _ _ _ _)
  | aborted fault => exact absurd read (unaborted fault)

end Matcher

/-! ### Programs -/

/-- A failed run behind a line break is reported one line further down. -/
theorem ParseFailure.ofTrace_moved (text : List Char) {trace : List Attempt} (tried : trace ≠ []) :
    ∃ error other endOffset, ofTrace text none trace = .mismatch error endOffset ∧
      ofTrace ('\n' :: text) none (trace.map (Attempt.moved 1)) = .mismatch other (endOffset + 1) ∧
        error.IsLowered other := by
  have last_eq : ((trace.map (Attempt.moved 1)).getLast?.map Attempt.offset).getD 0 =
      (trace.getLast?.map Attempt.offset).getD 0 + 1 := by
    rw [List.getLast?_map, List.getLast?_eq_some_getLast tried]
    rfl
  have furthest_eq : (trace.map (Attempt.moved 1)).foldl FurthestFailure.record
      (FurthestFailure.reset none) =
        (trace.foldl FurthestFailure.record (FurthestFailure.reset none)).map
          (FurthestFailure.moved 1) :=
    FurthestFailure.foldl_record_moved 1 none trace
  refine ⟨_, _, _, rfl, ?_, ParseError.ofFailure_isLowered text _⟩
  rw [ofTrace, last_eq, furthest_eq, FurthestFailure.reported_moved]

/-- Every node that a program is read as has an offset and no position yet. -/
theorem awaitsPosition_of_matched {text : List Char} {tree : Node} {next : Cursor}
    {trace : List Attempt}
    (run : Matcher.program .standard (Cursor.ofText text) = .matched tree next trace) :
    ∀ node ∈ tree.allNodes, node.AwaitsPosition := by
  intro node member
  have laid := parse_laid (parseAfter_of_matched run)
  have placed : node.located (.ofText text) ∈ (tree.resolve (.ofText text)).allNodes := by
    rw [Node.resolve_eq_located, Node.allNodes_located]
    exact List.mem_map_of_mem member
  obtain ⟨offset, -, offset_eq⟩ := laid.offset_le placed
  exact ⟨Matcher.program_unplaced ⟨trace, run⟩ node member, offset,
    (Node.located_offset _ _).symm.trans offset_eq⟩

/-- A line break in front of a text changes nothing but places: the text is a program or not as
before, each node of its tree is one line further down, and so is its error.  Only the placeholder of
a program without statements stays where it is, at the start of the text. -/
theorem parse_behind_line_break (text : List Char) :
    (∃ tree, parse .standard text = .ok tree ∧
      parse .standard ('\n' :: text) = .ok tree.behindLineBreak ∧
        (tree.isEmpty = true → tree.offset = some 0)) ∨
    ∃ error other endOffset, parse .standard text = .error (.mismatch error endOffset) ∧
      parse .standard ('\n' :: text) = .error (.mismatch other (endOffset + 1)) ∧
        error.IsLowered other := by
  have behind := Matcher.program_behindLineBreak text
  cases run : Matcher.program .standard (Cursor.ofText text) with
  | matched tree next trace =>
      left
      rw [run] at behind
      have parsed : parse .standard text = .ok (tree.resolve (.ofText text)) :=
        parseAfter_of_matched run
      have stays : tree.isEmpty = true → tree.offset = some 0 :=
        Matcher.program_offset_of_isEmpty ⟨trace, run⟩
      refine ⟨_, parsed, (parseAfter_of_matched behind).trans (congrArg _ ?_), ?_⟩
      · rw [Node.resolve_eq_located, Node.resolve_eq_located]
        exact Node.located_movedBehindLineBreak text tree (awaitsPosition_of_matched run) stays
      · rwa [Node.resolve_eq_located, Node.located_isEmpty, Node.located_offset]
  | failed trace =>
      right
      rw [run] at behind
      obtain ⟨earlier, offset, trace_eq⟩ := Matcher.program_eq_failed run
      obtain ⟨error, other, endOffset, failure_eq, failureToo, lowered⟩ :=
        ParseFailure.ofTrace_moved text (show trace ≠ [] by simp [trace_eq])
      exact ⟨error, other, endOffset, (parseAfter_of_failed run).trans (congrArg _ failure_eq),
        (parseAfter_of_failed behind).trans (congrArg _ failureToo), lowered⟩
  | aborted fault =>
      exact absurd run ((Matcher.Consumes.program usable_standard).ne_aborted
        (Nat.lt_succ_self _) fault)

/-- A comment without statements stays with the placeholder, which a line break does not
move. -/
theorem parse_behind_line_break_comment :
    ∃ tree other, parse .standard "# c".toList = .ok tree ∧
      parse .standard ('\n' :: "# c".toList) = .ok other ∧ tree.comments.length = 1 ∧
        tree.offset = some 0 ∧ other.offset = some 0 := by
  have stays (text : List Char) (member : text ∈ ["# c".toList, '\n' :: "# c".toList]) :
      ∃ tree : Node, parse .standard text = .ok (tree.located (.ofText text)) ∧
        (tree.comments.length == 1 && tree.offset == some 0) = true := by
    refine exists_parse_of_acceptsWhere ?_
    revert text
    rw [OperatorTables.standard_eq]
    decide +kernel
  obtain ⟨tree, parsed, shown⟩ := stays "# c".toList List.mem_cons_self
  obtain ⟨other, parsedToo, shownToo⟩ :=
    stays ('\n' :: "# c".toList) (List.mem_cons_of_mem _ List.mem_cons_self)
  rw [Bool.and_eq_true, beq_iff_eq, beq_iff_eq] at shown shownToo
  refine ⟨_, _, parsed, parsedToo, ?_, ?_, ?_⟩
  · rw [Node.located_comments, List.length_map, shown.1]
  · rw [Node.located_offset, shown.2]
  · rw [Node.located_offset, shownToo.2]

end RubySyntax
