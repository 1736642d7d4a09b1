import RubySyntax.Proofs.OperandStarts
import RubySyntax.Proofs.PhraseReading
import RubySyntax.Proofs.SeamScanning

/-!
# Where chains end

A chain goes on as long as a link and an operand follow.  In front of what closes a body
or a list of arguments there is no link, or only a separator of statements with no operand
behind it.  Between two statements the separator takes in the whole gap.
-/

namespace RubySyntax

namespace Lexeme

variable {gap rest : List Char}

theorem length_gap (spacing : ∀ character ∈ gap, isGap character = true)
    (solid : startsWithChar isGap rest = false) : countWhile isGap (gap ++ rest) = gap.length := by
  have noLength : countWhile isGap rest = 0 := by
    cases rest with
    | nil => rfl
    | cons character rest =>
        have noGap : isGap character = false := solid
        simp [countWhile_cons, noGap]
  rw [countWhile, List.takeWhile_append_of_pos spacing, List.length_append]
  exact congrArg (gap.length + ·) noLength

theorem separator_gap {mark : Char} (breaks : mark ∈ [';', '\n'])
    (spacing : ∀ character ∈ gap, isGap character = true)
    (solid : startsWithChar isGap rest = false) :
    separator (mark :: (gap ++ rest)) = some (gap.length + 1) := by
  have isMark : (mark == ';' || mark == '\n') = true := by simpa using breaks
  rw [separator, if_pos isMark, length_gap spacing solid]

theorem horizontalLength_gap (spacing : ∀ character ∈ gap, isGap character = true)
    (starts : startsToken rest = true) :
    ∃ lead behind, gap = lead ++ behind ∧ horizontalLength (gap ++ rest) = lead.length ∧
      ∀ character ∈ behind.head?, isHorizontal character = false := by
  induction gap with
  | nil =>
      have none_eq : Skip.horizontal.length ([] ++ rest) = 0 :=
        Skip.length_lead (by decide) .none starts
      exact ⟨[], [], rfl, none_eq, by simp⟩
  | cons character gap ih =>
      obtain ⟨isGap, spacing⟩ := List.forall_mem_cons.mp spacing
      have plain := ne_backslash_of_isGap isGap
      rw [List.cons_append, horizontalLength.eq_4 _ _ (fun _ same => absurd same plain)
        (fun _ same => absurd same plain)]
      cases horizontal : isHorizontal character with
      | true =>
          obtain ⟨lead, behind, rfl, length_eq, stops⟩ := ih spacing
          exact ⟨character :: lead, behind, rfl, congrArg (· + 1) length_eq, stops⟩
      | false => exact ⟨[], character :: gap, rfl, rfl, by simpa using horizontal⟩

end Lexeme

namespace Matcher

variable {rules : Rules} {mode : Mode} {cursor : Cursor} {rest : List Char} {offset : Nat}

/-! ### Tokens that links begin with -/

def operatorTerminals (mode : Mode) : List Terminal :=
  [.oneOf (OperatorTables.standard.of mode).infixSpellings "operator", .punctuation "?"] ++
    if mode = .statement then [.punctuation ","] else []

def linkTerminals (mode : Mode) : List Terminal :=
  operatorTerminals mode ++ if mode = .statement then [.separator] else []

def opensLink (mode : Mode) (rest : List Char) : Bool :=
  (linkTerminals mode).any fun kind => (kind.scanner rest).isSome

theorem opensLink_eq_false :
    opensLink mode rest = false ↔ ∀ kind ∈ linkTerminals mode, kind.scanner rest = none := by
  simp [opensLink]

theorem chainLink_rejects (each : ∀ kind ∈ linkTerminals mode,
    (beforeOperator mode (terminal kind)).Rejects cursor) :
    (chainLink .standard rules mode).Rejects cursor := by
  have link {kind : Terminal} {continuation : Node → Matcher ChainLink}
      (member : kind ∈ linkTerminals mode) :
      (beforeOperator mode (terminal kind) >>= continuation).Rejects cursor :=
    rejects_bind.mpr (Or.inl (each kind member))
  simp only [linkTerminals, operatorTerminals] at link
  cases mode with
  | statement =>
      exact rejects_firstOf_cons.mpr ⟨link (by simp), rejects_firstOf_cons.mpr
        ⟨link (by simp), rejects_firstOf_cons.mpr ⟨link (by simp),
          rejects_firstOf_cons.mpr ⟨link (by simp), rejects_firstOf_nil⟩⟩⟩⟩
  | argument | command =>
      exact rejects_firstOf_cons.mpr ⟨link (by simp), rejects_firstOf_cons.mpr
        ⟨link (by simp), rejects_firstOf_nil⟩⟩

theorem chainLink_rejects_onLine (closed :
    opensLink .statement (cursor.rest.drop (Lexeme.horizontalLength cursor.rest)) = false) :
    (chainLink .standard rules .statement).Rejects cursor := by
  refine chainLink_rejects fun kind member => rejects_afterSkip.mpr (rejects_terminal.mpr ?_)
  rw [Cursor.rest_advance]
  exact opensLink_eq_false.mp closed kind member

theorem chainLink_rejects_of_lands (lands : Lands cursor offset rest)
    (closed : opensLink .argument rest = false) :
    (chainLink .standard rules .argument).Rejects cursor :=
  chainLink_rejects fun kind member =>
    spaced_terminal_rejects lands (opensLink_eq_false.mp closed kind member)

/-- In front of a break no operator stands but a comma. -/
theorem operators_reject_break (isBreak : IsBreak rest)
    (apart : mode = .statement → rest.head? ≠ some ',') :
    ∀ kind ∈ operatorTerminals mode, kind.scanner rest = none := by
  have infixes : Lexeme.oneOf (OperatorTables.standard.of mode).infixSpellings rest = none :=
    (Lexeme.oneOf_stopsAtBreaks (infixSpellings_solid mode) isBreak []).trans
      (infixSpellings_apart mode "" (by simp))
  have question : Lexeme.punctuation "?" "" rest = none :=
    (Lexeme.punctuation_stopsAtBreaks (by decide) isBreak []).trans (by decide)
  intro kind member
  simp only [operatorTerminals, List.mem_append, List.mem_cons, List.not_mem_nil, or_false] at member
  rcases member with (rfl | rfl) | listed
  · simpa only [Terminal.oneOf] using infixes
  · exact question
  · split at listed
    · rename_i statements
      obtain rfl := List.mem_singleton.mp listed
      cases rest with
      | nil => decide
      | cons character rest =>
          have other : character ≠ ',' := fun same => apart statements (by rw [same]; rfl)
          simp [Terminal.punctuation, Lexeme.punctuation, List.isPrefixOf, other.symm]
    · cases listed

/-- In front of a break there are no links but commas and separators. -/
theorem opensLink_break (isBreak : IsBreak rest)
    (apart : mode = .statement → ∀ character ∈ rest.head?, character ∉ [',', ';', '\n', '#']) :
    opensLink mode rest = false := by
  rw [opensLink_eq_false]
  intro kind member
  rcases List.mem_append.mp member with operator | listed
  · refine operators_reject_break isBreak (fun statements comma => ?_) kind operator
    exact apart statements ',' comma (by decide)
  · split at listed
    · rename_i statements
      obtain rfl := List.mem_singleton.mp listed
      cases rest with
      | nil => rfl
      | cons character rest =>
          have other := apart statements character rfl
          simp_all [Terminal.separator, Lexeme.separator]
    · cases listed

/-! ### Ends of bodies -/

/-- What may close a body. -/
structure ClosesBody (closing : List Char) : Prop where
  starts : startsToken closing = true
  solid : startsWithChar Lexeme.isGap closing = false
  noOperand : opensOperand .statement closing = false
  noLink : opensLink .statement closing = false
  apart : StartsApart closing
  noSlash : '/' ∉ closing

/-- What closes a body is none of the words that an operand or a link of a statement begins
with. -/
theorem closesBody_iff {closing : List Char} : ClosesBody closing ↔
    startsToken closing = true ∧ startsWithChar Lexeme.isGap closing = false ∧
      (opensPrimary closing ||
        (Lexeme.oneOf (Mode.prefixWords .statement) closing).isSome) = false ∧
      [Terminal.oneOf (Mode.infixWords .statement) "operator", .punctuation "?", .punctuation ",",
        .separator].all (fun kind => (kind.scanner closing).isNone) = true ∧
      StartsApart closing ∧ '/' ∉ closing := by
  have links : opensLink .statement closing = false ↔
      [Terminal.oneOf (OperatorTables.standard.of .statement).infixSpellings "operator",
        .punctuation "?", .punctuation ",", .separator].all
          (fun kind => (kind.scanner closing).isNone) = true := by
    simp [opensLink_eq_false, linkTerminals, operatorTerminals]
  rw [← infixSpellings_eq, ← prefixSpellings_eq, ← links]
  constructor
  · rintro ⟨starts, solid, noOperand, noLink, apart, noSlash⟩
    exact ⟨starts, solid, noOperand, noLink, apart, noSlash⟩
  · rintro ⟨starts, solid, noOperand, noLink, apart, noSlash⟩
    exact ⟨starts, solid, noOperand, noLink, apart, noSlash⟩

instance (closing : List Char) : Decidable (ClosesBody closing) :=
  decidable_of_iff _ closesBody_iff.symm

theorem chainLink_reads_separator {lead gap : List Char} {mark : Char}
    (rest_eq : cursor.rest = lead ++ mark :: (gap ++ rest))
    (horizontal : Lexeme.horizontalLength cursor.rest = lead.length) (breaks : mark ∈ [';', '\n'])
    (spacing : ∀ character ∈ gap, Lexeme.isGap character = true)
    (solid : startsWithChar Lexeme.isGap rest = false) :
    (chainLink .standard rules .statement).Reads cursor
      (.operator (leafAt .separator (cursor.advance lead.length) (gap.length + 1)))
      ((cursor.advance lead.length).advance (gap.length + 1)) := by
  have marks : ∀ mark ∈ [';', '\n'], mark ∈ breakCharacters ∧ mark ≠ ',' := by decide
  have behind : (cursor.advance lead.length).rest = mark :: (gap ++ rest) := by
    rw [Cursor.rest_advance, rest_eq, List.drop_left]
  have operator {kind : Terminal} {continuation : Node → Matcher ChainLink}
      (member : kind ∈ operatorTerminals .statement) :
      (onSameLine (terminal kind) >>= continuation).Rejects cursor := by
    refine rejects_bind.mpr (Or.inl (rejects_afterSkip.mpr (rejects_terminal.mpr ?_)))
    rw [Skip.length, horizontal, behind]
    refine operators_reject_break (.mark (marks mark breaks).1 _) (fun _ comma => ?_) kind member
    exact (marks mark breaks).2 (Option.some.inj comma)
  simp only [operatorTerminals] at operator
  refine reads_firstOf_cons.mpr (Or.inr ⟨operator (by simp), reads_firstOf_cons.mpr (Or.inr
    ⟨operator (by simp), reads_firstOf_cons.mpr (Or.inr ⟨operator (by simp),
      reads_firstOf_cons.mpr (Or.inl (reads_bind.mpr ⟨_, _, reads_afterSkip.mpr ?_,
        reads_pure.mpr ⟨rfl, rfl⟩⟩))⟩)⟩)⟩)
  rw [Skip.length, horizontal]
  refine reads_terminal.mpr ⟨gap.length + 1, ?_, rfl, rfl⟩
  rw [behind]
  exact Lexeme.separator_gap breaks spacing solid

theorem chainStep_rejects_of_closing {gap closing : List Char} (closes : ClosesBody closing)
    (spacing : ∀ character ∈ gap, Lexeme.isGap character = true)
    (rest_eq : cursor.rest = gap ++ closing) :
    (chainStep .standard rules .statement).Rejects cursor := by
  obtain ⟨lead, behind, rfl, length_eq, stops⟩ :=
    Lexeme.horizontalLength_gap spacing closes.starts
  rw [← rest_eq] at length_eq
  have landing : cursor.rest.drop (Lexeme.horizontalLength cursor.rest) = behind ++ closing := by
    rw [length_eq, rest_eq, List.append_assoc, List.drop_left]
  cases behind with
  | nil =>
      refine rejects_bind.mpr (Or.inl (chainLink_rejects_onLine ?_))
      rw [landing]
      exact closes.noLink
  | cons mark gap =>
      have isGap := spacing mark (by simp)
      by_cases breaks : mark ∈ [';', '\n']
      · have split : cursor.rest = lead ++ mark :: (gap ++ closing) := by
          rw [rest_eq, List.append_assoc, List.cons_append]
        have behind : ((cursor.advance lead.length).advance (gap.length + 1)).rest =
            [] ++ closing := by
          rw [Cursor.rest_advance, Cursor.rest_advance, split, List.drop_left,
            List.drop_succ_cons, List.drop_left, List.nil_append]
        refine rejects_bind.mpr (Or.inr ⟨_, _, chainLink_reads_separator split length_eq breaks
          (fun character member => spacing character (by simp [member])) closes.solid,
          rejects_bind.mpr (Or.inl (chainOperand_rejects rules
            (lands_behind (by simp) closes.starts behind) .statement closes.noOperand))⟩)
      · refine rejects_bind.mpr (Or.inl (chainLink_rejects_onLine ?_))
        rw [landing]
        refine opensLink_break (.mark (Lexeme.mem_breakCharacters_of_isGap isGap) _) ?_
        rintro - character member
        cases member
        simp only [List.mem_cons, List.not_mem_nil, or_false, not_or] at breaks ⊢
        refine ⟨?_, breaks.1, breaks.2, ?_⟩ <;> rintro rfl <;> exact absurd isGap (by decide)

end Matcher

end RubySyntax
