import RubySyntax.Proofs.AttemptTraces
import RubySyntax.Proofs.GrammarTotality

/-!
# What an error reports

Every production records where it does not fit, so a program that is refused has
failed at the furthest place that it tried at all.  The error names that place,
and there every token that was expected, in the order in which they were tried.
-/

namespace RubySyntax

namespace Matcher

namespace Records

variable {rules : Rules}

/-! ### Parts of productions -/

theorem orEmpty {matcher : Matcher Node} (covers : Covers matcher) : Records (orEmpty matcher) :=
  here.bind fun _ => (optional covers).bind fun _ => pure

theorem closing {closer : Matcher Node} {kind : Skip} (records : Records closer) :
    Records (closing closer kind) :=
  (commentsBefore kind).bind fun _ => records.afterSkip.bind fun _ => pure

theorem closingToken (kind : Terminal) (skip : Skip) :
    Records (Matcher.closing (Matcher.terminal kind) skip) :=
  (terminal kind).closing

theorem comma : Records comma :=
  (terminal _).afterSkip

theorem commaOnSameLine : Records commaOnSameLine :=
  (terminal _).afterSkip

theorem separated {item separator : Matcher Node} (items : Records item)
    (separators : Records separator) : Records (separated item separator) :=
  items.bind fun _ => (many (separators.bind fun _ => items).toCovers).bind fun _ => pure

theorem itemList {item separator : Matcher Node} (items : Records item)
    (separators : Records separator) : Records (itemList item separator) :=
  here.bind fun _ => (items.separated separators).bind fun _ => pure

theorem optionalItemList {item separator : Matcher Node} (items : Records item)
    (separators : Records separator) : Records (optionalItemList item separator) :=
  here.bind fun _ => (optional (items.separated separators).toCovers).bind fun _ => pure

theorem trailedItemList {item separator : Matcher Node} (items : Records item)
    (separators : Records separator) : Records (trailedItemList item separator) :=
  here.bind fun _ => (optional ((items.separated separators).bind fun _ =>
    (optional separators.toCovers).bind fun _ => pure).toCovers).bind fun _ => pure

/-- What is optional behind a raw scanner may go unrecorded. -/
theorem optionalScan {scanner : Scanner} {α : Type} {matcher : Matcher α}
    (records : Records matcher) :
    Records (Matcher.optional (do
      scan scanner
      matcher)) :=
  optional ((Covers.scan scanner).bind fun _ => records)

theorem splatParameter : Records splatParameter :=
  (terminal _).spaced.bind fun _ => (terminal _).bind fun _ => pure

theorem parameter {default : Matcher Node} (values : Records default) :
    Records (parameter default) := by
  refine firstOf (List.cons_ne_nil _ _) fun matcher member => ?_
  simp only [List.mem_cons, List.not_mem_nil, or_false] at member
  rcases member with rfl | rfl | rfl
  · exact splatParameter
  · exact (terminal _).spaced.bind fun _ => (optionalScan values).bind fun _ => pure
  · refine (terminal _).spaced.bind fun name => (optional ((terminal _).afterSkip.bind
      fun equals => values.bind fun value => pure).toCovers).bind fun default? => ?_
    rcases default? with _ | ⟨equals, value⟩ <;> exact pure

theorem definition {word : String} {parts : Matcher (List Node)} (records : Records parts) :
    Records (definition word parts) :=
  (terminal _).bind fun _ => records.bind fun _ => pure

theorem definedName : Records definedName := by
  refine (terminal _).spaced.bind fun name => (optional ((terminal _).bind fun dot =>
    (terminal _).bind fun member => pure).toCovers).bind fun singleton? => ?_
  rcases singleton? with _ | ⟨dot, member⟩ <;> exact pure

theorem aliasName : Records aliasName := by
  refine (firstOf (List.cons_ne_nil _ _) fun matcher member => ?_).afterSkip
  simp only [List.mem_cons, List.not_mem_nil, or_false] at member
  rcases member with rfl | rfl | rfl <;> exact terminal _

/-! ### Productions -/

section

variable (expressions : ∀ reference, Records (rules reference))
include expressions

theorem body : Records (body rules) :=
  orEmpty (expressions (.expression .statement)).afterSkip.toCovers

theorem bodyUpTo {closer : Matcher (List Node)} (closes : Records closer) :
    Records (bodyUpTo rules closer) :=
  (body expressions).bind fun _ => closes.bind fun _ => pure

theorem bodyUpToEnd : Records (bodyUpToEnd rules) :=
  bodyUpTo expressions (closingToken _ _)

theorem argument (mode : Mode) : Records (argument rules mode) :=
  ((terminal _).spaced.bind fun _ => (expressions (.expression mode)).bind fun _ => pure).orElse
    (expressions (.expression mode)).toCovers

theorem bracketed (opening closer : String) : Records (bracketed rules opening closer) :=
  (terminal _).bind fun _ => ((argument expressions .argument).trailedItemList comma).bind
    fun _ => (closingToken _ _).bind fun _ => pure

theorem methodDefinition : Records (methodDefinition rules) := by
  have parenthesized : Records (parenthesizedParameters rules) :=
    (terminal _).afterSkip.bind fun _ =>
      ((parameter (expressions (.expression .argument))).optionalItemList comma).bind fun _ =>
        (closingToken _ _).bind fun _ => pure
  have bare : Covers (bareParameters rules) :=
    (Covers.scan _).bind fun _ =>
      (parameter (expressions (.expression .command))).itemList commaOnSameLine
  exact definition (definedName.bind fun _ => (orEmpty (parenthesized.orElse bare).toCovers).bind
    fun _ => (bodyUpToEnd expressions).bind fun _ => pure)

theorem classDefinition : Records (classDefinition rules) := by
  have singleton : Records (singletonTarget rules) :=
    (terminal _).spaced.bind fun _ => (expressions .operand).bind fun _ => pure
  have parent : Records (parentClass rules) :=
    (terminal _).spaced.bind fun _ => (expressions .operand).bind fun _ => pure
  have header : Records (classHeader rules) :=
    (expressions .operand).bind fun _ => (orEmpty parent.toCovers).bind fun _ => pure
  exact definition ((singleton.orElse header.toCovers).bind fun _ =>
    (bodyUpToEnd expressions).bind fun _ => pure)

theorem moduleDefinition : Records (moduleDefinition rules) :=
  definition ((expressions .operand).bind fun _ => (bodyUpToEnd expressions).bind fun _ => pure)

theorem group : Records (group rules) :=
  (terminal _).bind fun _ => (bodyUpTo expressions (closingToken _ _)).bind fun _ => pure

theorem primary : Records (primary rules) := by
  refine (firstOf (List.cons_ne_nil _ _) fun matcher member => ?_).spaced
  simp only [List.mem_cons, List.not_mem_nil, or_false] at member
  rcases member with rfl | rfl | rfl | rfl | rfl | rfl | rfl | rfl | rfl | rfl | rfl | rfl | rfl
  · exact methodDefinition expressions
  · exact classDefinition expressions
  · exact moduleDefinition expressions
  · exact definition (aliasName.bind fun _ => aliasName.bind fun _ => pure)
  · exact terminal _
  · exact terminal _
  · exact terminal _
  · exact terminal _
  · exact terminal _
  · exact terminal _
  · exact group expressions
  · exact (bracketed expressions _ _).bind fun _ => pure
  · exact (bracketed expressions _ _).bind fun _ => pure

theorem suffix : Records (suffix rules) := by
  have parameters : Records (blockParameters rules) :=
    (terminal _).afterSkip.bind fun _ =>
      ((parameter (expressions .operand)).optionalItemList comma).bind fun _ =>
        (terminal _).afterSkip.bind fun _ => pure
  have block : Records (braceBlock rules) :=
    (terminal _).bind fun _ => (orEmpty parameters.toCovers).bind fun _ =>
      (bodyUpTo expressions (closingToken _ _)).bind fun _ => pure
  refine firstOf (List.cons_ne_nil _ _) fun matcher member => ?_
  simp only [List.mem_cons, List.not_mem_nil, or_false] at member
  rcases member with rfl | rfl | rfl | rfl | rfl
  · exact (bracketed expressions _ _).bind fun _ => pure
  · exact (bracketed expressions _ _).bind fun _ => pure
  · exact ((terminal _).orElse (terminal _).toCovers).spaced.bind fun _ =>
      (terminal _).afterSkip.bind fun _ => pure
  · exact (terminal _).bind fun _ => (terminal _).bind fun _ => pure
  · exact block.afterSkip.bind fun _ => pure

theorem operand : Records (operand rules) :=
  (primary expressions).bind fun _ => (many (suffix expressions).toCovers).bind fun _ => pure

theorem commandCall : Records (commandCall rules) := by
  refine (operand expressions).bind fun callee =>
    (optionalScan ((argument expressions .command).itemList commaOnSameLine)).bind
      fun arguments? => ?_
  cases arguments? <;> exact pure

theorem chainOperand (tables : OperatorTables) (mode : Mode) :
    Records (chainOperand tables rules mode) := by
  have plain : Records (plainOperand rules mode) := by
    cases mode with
    | statement => exact commandCall expressions
    | argument => exact operand expressions
    | command => exact operand expressions
  exact ((terminal _).spaced.bind fun _ => (expressions _).bind fun _ => ofReduction).orElse
    plain.toCovers

theorem chainLink (tables : OperatorTables) (mode : Mode) :
    Records (chainLink tables rules mode) := by
  have before {matcher : Matcher Node} (records : Records matcher) :
      Records (beforeOperator mode matcher) := by
    cases mode with
    | statement => exact records.afterSkip
    | argument => exact records.spaced
    | command => exact records.afterSkip
  have operators (kind : Terminal) : Records (operatorLink mode (Matcher.terminal kind)) :=
    (before (terminal kind)).bind fun _ => pure
  have conditional : Records (conditionalLink rules mode) :=
    (before (terminal _)).bind fun _ => (expressions _).bind fun _ =>
      (terminal _).spaced.bind fun _ => pure
  cases mode with
  | statement =>
      refine firstOf (List.cons_ne_nil _ _) fun matcher member => ?_
      simp only [List.cons_append, List.nil_append, List.mem_cons, List.not_mem_nil,
        or_false] at member
      rcases member with rfl | rfl | rfl | rfl
      · exact operators _
      · exact conditional
      · exact operators _
      · exact operators _
  | argument | command =>
      refine firstOf (List.cons_ne_nil _ _) fun matcher member => ?_
      simp only [List.mem_cons, List.not_mem_nil, or_false] at member
      rcases member with rfl | rfl
      · exact operators _
      · exact conditional

theorem chain (tables : OperatorTables) (mode : Mode) : Records (chain tables rules mode) :=
  (chainOperand expressions tables mode).bind fun _ =>
    (many ((chainLink expressions tables mode).bind fun _ =>
      (chainOperand expressions tables mode).bind fun _ => pure).toCovers).bind fun _ => ofReduction

end

theorem ruleWithin (tables : OperatorTables) (depth : Nat) (reference : Rule) :
    Records (ruleWithin tables depth reference) := by
  induction depth generalizing reference with
  | zero => exact abort
  | succ depth ih =>
      cases reference with
      | operand => exact operand ih
      | expression mode => exact chain ih tables mode

theorem rule (tables : OperatorTables) (reference : Rule) : Records (rule tables reference) where
  fits run := (ruleWithin tables _ reference).fits run
  refuses run := (ruleWithin tables _ reference).refuses run
  fails run := (ruleWithin tables _ reference).fails run

theorem program (tables : OperatorTables) : Records (program tables) :=
  (body (rule tables)).bind fun _ => (commentsBefore .gap).bind fun _ =>
    (terminal _).afterSkip.bind fun _ => pure

end Records

/-- A program is only refused where the end of the text is looked for last. -/
theorem program_eq_failed {tables : OperatorTables} {cursor : Cursor} {trace : List Attempt}
    (run : program tables cursor = .failed trace) :
    ∃ earlier offset, trace = earlier ++ [⟨offset, "end of input", false⟩] := by
  rcases bind_eq_failed run with bodyFailed | ⟨root, middle, front, back, -, behindRun, rfl⟩
  · -- The statements may be left out.
    rcases bind_eq_failed bodyFailed with hereFailed | ⟨_, _, _, _, -, optionalRun, -⟩
    · cases hereFailed
    · rcases bind_eq_failed optionalRun with optionalFailed | ⟨_, _, _, _, -, pureFailed, -⟩
      · exact absurd optionalFailed (optional_ne_failed _ _ _)
      · cases pureFailed
  · rcases bind_eq_failed behindRun with
      commentsFailed | ⟨trailing, last, comments, more, -, endRun, rfl⟩
    · exact absurd commentsFailed (manyUpTo_ne_failed _ _ _ _)
    · rcases bind_eq_failed endRun with endFailed | ⟨_, _, _, _, -, pureFailed, -⟩
      · have failed := afterSkip_eq_failed endFailed
        rw [terminal] at failed
        split at failed
        · cases failed
        · cases failed
          exact ⟨front ++ comments, _, (List.append_assoc _ _ _).symm⟩
      · cases pureFailed

end Matcher

/-! ### What is noted about a trace -/

/-- The names of the tokens that failed at an offset, in the order of the attempts. -/
def failedNames (trace : List Attempt) (offset : Nat) : List String :=
  (trace.filter fun attempt => !attempt.matched && attempt.offset == offset).map Attempt.terminal

namespace FurthestFailure

/-- What is noted is the furthest failure of a trace: its offset, and the names that failed
there, each at its first attempt. -/
def Describes (trace : List Attempt) : Option FurthestFailure → Prop
  | none => ∀ attempt ∈ trace, attempt.matched = true
  | some furthest =>
    (∃ attempt ∈ trace, attempt.matched = false ∧ attempt.offset = furthest.offset) ∧
      (∀ attempt ∈ trace, attempt.matched = false → attempt.offset ≤ furthest.offset) ∧
        furthest.expected = (failedNames trace furthest.offset).eraseDups ∧
          furthest.expected.Nodup

variable {trace : List Attempt}

private theorem failedNames_append (trace : List Attempt) (attempt : Attempt) (offset : Nat) :
    failedNames (trace ++ [attempt]) offset = failedNames trace offset ++
      if attempt.matched = false ∧ attempt.offset = offset then [attempt.terminal] else [] := by
  rw [failedNames, List.filter_append, List.map_append]
  congr 1
  by_cases fails : attempt.matched = false ∧ attempt.offset = offset
  · simp [fails]
  · rw [if_neg fails, List.filter_eq_nil_iff.mpr]
    · rfl
    · intro other member
      rw [List.mem_singleton.mp member]
      simpa using fails

private theorem failedNames_eq_nil {offset : Nat}
    (before : ∀ attempt ∈ trace, attempt.matched = false → attempt.offset < offset) :
    failedNames trace offset = [] := by
  rw [failedNames, List.filter_eq_nil_iff.mpr, List.map_nil]
  intro attempt member accepted
  simp only [Bool.and_eq_true, Bool.not_eq_true', beq_iff_eq] at accepted
  exact absurd (before attempt member accepted.1) (by omega)

/-- A failure behind all others is the only one that is noted. -/
private theorem describes_first {attempt : Attempt} (failed : attempt.matched = false)
    (before : ∀ other ∈ trace, other.matched = false → other.offset < attempt.offset) :
    Describes (trace ++ [attempt]) (some ⟨attempt.offset, [attempt.terminal]⟩) := by
  refine ⟨⟨attempt, by simp, failed, rfl⟩, fun other member otherFailed => ?_, ?_, by simp⟩
  · rcases List.mem_append.mp member with earlier | last
    · exact Nat.le_of_lt (before other earlier otherFailed)
    · exact Nat.le_of_eq (by rw [List.mem_singleton.mp last])
  · rw [failedNames_append, failedNames_eq_nil before, if_pos ⟨failed, rfl⟩]
    simp [List.eraseDups_cons]

private theorem describes_same {furthest : FurthestFailure} {attempt : Attempt}
    (described : Describes trace (some furthest))
    (within : attempt.matched = false → attempt.offset ≤ furthest.offset)
    (known : attempt.matched = false → attempt.offset = furthest.offset →
      attempt.terminal ∈ furthest.expected) :
    Describes (trace ++ [attempt]) (some furthest) := by
  obtain ⟨⟨found, foundMem, foundFailed, found_eq⟩, bounded, expected_eq, nodup⟩ := described
  refine ⟨⟨found, List.mem_append_left _ foundMem, foundFailed, found_eq⟩,
    fun other member otherFailed => ?_, ?_, nodup⟩
  · rcases List.mem_append.mp member with earlier | last
    · exact bounded other earlier otherFailed
    · rw [List.mem_singleton.mp last] at otherFailed ⊢
      exact within otherFailed
  · rw [failedNames_append]
    split
    · rename_i fails
      have listed := known fails.1 fails.2
      rw [expected_eq, List.mem_eraseDups] at listed
      rw [List.eraseDups_append, expected_eq]
      simp [List.removeAll, listed]
    · rw [List.append_nil, expected_eq]

private theorem describes_more {furthest : FurthestFailure} {attempt : Attempt}
    (described : Describes trace (some furthest)) (failed : attempt.matched = false)
    (same : attempt.offset = furthest.offset) (unknown : attempt.terminal ∉ furthest.expected) :
    Describes (trace ++ [attempt])
      (some ⟨furthest.offset, furthest.expected ++ [attempt.terminal]⟩) := by
  obtain ⟨⟨found, foundMem, foundFailed, found_eq⟩, bounded, expected_eq, nodup⟩ := described
  refine ⟨⟨found, List.mem_append_left _ foundMem, foundFailed, found_eq⟩,
    fun other member otherFailed => ?_, ?_, ?_⟩
  · rcases List.mem_append.mp member with earlier | last
    · exact bounded other earlier otherFailed
    · exact Nat.le_of_eq (by rw [List.mem_singleton.mp last, same])
  · have unlisted := unknown
    rw [expected_eq, List.mem_eraseDups] at unlisted
    rw [failedNames_append, if_pos ⟨failed, same⟩, List.eraseDups_append, expected_eq]
    simp [List.removeAll, unlisted, List.eraseDups_cons]
  · exact List.nodup_append.mpr ⟨nodup, by simp, fun name member other last =>
      List.mem_singleton.mp last ▸ fun same => unknown (same ▸ member)⟩

/-- What one more attempt adds to what is noted. -/
theorem describes_record {furthest? : Option FurthestFailure}
    (described : Describes trace furthest?) (attempt : Attempt) :
    Describes (trace ++ [attempt]) (record furthest? attempt) := by
  unfold record
  cases failed : attempt.matched with
  | true =>
      rw [if_pos rfl]
      cases furthest? with
      | none =>
          intro other member
          rcases List.mem_append.mp member with earlier | last
          · exact described other earlier
          · rw [List.mem_singleton.mp last, failed]
      | some furthest =>
          exact describes_same described (by simp [failed]) (by simp [failed])
  | false =>
      rw [if_neg Bool.false_ne_true]
      cases furthest? with
      | none =>
          refine describes_first failed fun other member otherFailed => ?_
          rw [described other member] at otherFailed
          cases otherFailed
      | some furthest =>
          dsimp only
          split
          · rename_i further
            exact describes_first failed fun other member otherFailed =>
              Nat.lt_of_le_of_lt (described.2.1 other member otherFailed) further
          · rename_i notFurther
            split
            · rename_i fresh
              exact describes_more described failed fresh.1 fresh.2
            · rename_i stale
              refine describes_same described (fun _ => Nat.le_of_not_lt notFurther)
                fun _ same => ?_
              exact Decidable.not_not.mp fun unknown => stale ⟨same, unknown⟩

/-- What is noted behind a whole trace describes it. -/
theorem describes_ofTrace (trace : List Attempt) : Describes trace (ofTrace trace) := by
  have run : ∀ (rest : List Attempt) {front : List Attempt} {furthest? : Option FurthestFailure},
      Describes front furthest? → Describes (front ++ rest) (rest.foldl record furthest?) := by
    intro rest
    induction rest with
    | nil => exact fun described => by simpa using described
    | cons attempt rest ih =>
        intro front furthest? described
        have := ih (describes_record described attempt)
        rwa [List.append_assoc] at this
  exact run trace (show Describes [] none from fun attempt member => nomatch member)

end FurthestFailure

/-! ### Errors -/

/-- The error of a run that ended with the given attempts: it stands at the furthest of them
all, and names the tokens that failed there. -/
structure ReportsTrace (text : List Char) (trace : List Attempt) (error : ParseError)
    (endOffset : Nat) : Prop where
  /-- Some token was tried at the offset of the error. -/
  tried : ∃ attempt ∈ trace, error.offset = attempt.offset
  /-- No token was tried behind it, whether it was read or not. -/
  furthest : ∀ attempt ∈ trace, (attempt.offset : Int) ≤ error.offset
  /-- The names of what failed there, in the order of the first attempts. -/
  expected_eq : error.expected = (failedNames trace error.offset.toNat).eraseDups
  nonempty : error.expected ≠ []
  nodup : error.expected.Nodup
  /-- The end of the text was looked for, and not behind the error. -/
  end_tried : ⟨endOffset, "end of input", false⟩ ∈ trace ∧ (endOffset : Int) ≤ error.offset
  message_eq : error.message = "Expected " ++ " or ".intercalate error.expected ++ ", found " ++
    describeFound text error.offset

/-- The error of a program that was refused, whatever was noted before. -/
private theorem reportsTrace_of_failed {tables : OperatorTables} {text : List Char}
    {trace : List Attempt} (run : Matcher.program tables (Cursor.ofText text) = .failed trace)
    (noted : Option FurthestFailure) :
    ∃ error endOffset, ParseFailure.ofTrace text noted trace = .mismatch error endOffset ∧
      ReportsTrace text trace error endOffset := by
  have records := Matcher.Records.program tables
  have ends := records.refuses run
  obtain ⟨earlier, endOffset, trace_eq⟩ := Matcher.program_eq_failed run
  have endTried : ⟨endOffset, "end of input", false⟩ ∈ trace := by
    rw [trace_eq]
    exact List.mem_append_right _ List.mem_cons_self
  have last : (trace.getLast?.map Attempt.offset).getD 0 = endOffset := by
    simp [trace_eq]
  have described := FurthestFailure.describes_ofTrace trace
  cases found : FurthestFailure.ofTrace trace with
  | none =>
      rw [found] at described
      exact absurd (described _ endTried) Bool.false_ne_true
  | some failure =>
      rw [found] at described
      obtain ⟨⟨attempt, member, failed, offset_eq⟩, bounded, expected_eq, nodup⟩ := described
      have within : endOffset ≤ failure.offset := bounded _ endTried rfl
      have listed : attempt.terminal ∈ failure.expected := by
        rw [expected_eq, List.mem_eraseDups, failedNames]
        exact List.mem_map.mpr ⟨attempt, List.mem_filter.mpr ⟨member, by simp [failed, offset_eq]⟩,
          rfl⟩
      refine ⟨ParseError.ofFailure text failure, endOffset, ?_, ?_⟩
      · have noted_eq : trace.foldl FurthestFailure.record (FurthestFailure.reset noted) =
            some failure := found
        rw [ParseFailure.ofTrace]
        simp only [noted_eq, last, FurthestFailure.reported, if_pos within]
      · refine ⟨⟨attempt, member, congrArg _ offset_eq.symm⟩, fun other otherMem => ?_,
          expected_eq, List.ne_nil_of_mem listed, nodup, ⟨endTried, Int.ofNat_le.mpr within⟩, ?_⟩
        · obtain ⟨behind, behindMem, behindFailed, reaches⟩ := ends other otherMem
          exact Int.ofNat_le.mpr (Nat.le_trans reaches (bounded behind behindMem behindFailed))
        · have filled : failure.expected.isEmpty = false := by
            cases expected : failure.expected with
            | nil =>
                rw [expected] at listed
                cases listed
            | cons name names => rfl
          rw [ParseError.ofFailure, ParseError.messageFor, filled]
          rfl

/-- The error of a text that is no program stands at the furthest offset at which any token was
tried, and names exactly the tokens that failed there, whatever the parser noted before. -/
theorem parse_reports_furthest {noted : Option FurthestFailure} {text : List Char}
    {failure : ParseFailure} (refused : parseAfter .standard noted text = .error failure) :
    ∃ error endOffset trace, failure = .mismatch error endOffset ∧
      Matcher.program .standard (Cursor.ofText text) = .failed trace ∧
        ReportsTrace text trace error endOffset := by
  rcases (Matcher.Consumes.program usable_standard).halts (Cursor.ofText text)
      (Nat.lt_succ_self _) with ⟨tree, next, trace, run⟩ | ⟨trace, run⟩
  · rw [parseAfter_of_matched run] at refused
    cases refused
  · rw [parseAfter_of_failed run] at refused
    obtain ⟨error, endOffset, failure_eq, reports⟩ := reportsTrace_of_failed run noted
    exact ⟨error, endOffset, trace, (Except.error.inj refused).symm.trans failure_eq, run, reports⟩

theorem parse_reports_furthest_unclosed :
    ∃ failure, parseAfter .standard (some ⟨40, ["number"]⟩) "f(a, b c".toList = .error failure ∧
      ∃ error endOffset trace, failure = .mismatch error endOffset ∧
        Matcher.program .standard (Cursor.ofText "f(a, b c".toList) = .failed trace ∧
          ReportsTrace "f(a, b c".toList trace error endOffset := by
  have refused : (parseAfter .standard (some ⟨40, ["number"]⟩) "f(a, b c".toList).isOk = false := by
    rw [OperatorTables.standard_eq]
    decide +kernel
  cases parsed : parseAfter .standard (some ⟨40, ["number"]⟩) "f(a, b c".toList with
  | ok tree =>
      rw [parsed] at refused
      cases refused
  | error failure => exact ⟨failure, rfl, parse_reports_furthest parsed⟩

end RubySyntax
