import RubySyntax.Proofs.SeamRules
import RubySyntax.Proofs.TreeShapes

/-!
# Chains that go on behind a seam

The last chain of a source goes on where the longer text holds further statements.
The operand that a prefix operator or an assignment takes is such a chain itself, so
that it takes the further statements first.  They leave it again when it is reduced:
the separator is applied last, and everything in front of it goes below it.
-/

namespace RubySyntax

/-! ### Trees that grow -/

/-- Further links that grow every tree, and that leave what was reduced before in place. -/
structure Grows (table : OperatorTable) (links : List (ChainLink × Node)) (grow : Node → Node) :
    Prop where
  reduceChain : ∀ tree, table.reduceChain tree links = .ok (grow tree)
  insert : ∀ {pending : Pending}, table.contains pending.key = true → ∀ tree,
    pending.insert table (grow tree) = grow (pending.insert table tree)

theorem Grows.nothing (table : OperatorTable) : Grows table [] id where
  reduceChain _ := rfl
  insert _ _ := rfl

theorem Grows.statements {separator next : Node} {links : List (ChainLink × Node)} {tree : Node}
    (separates : separator.data = Tag.sequence)
    (reduced : OperatorTables.standard.statement.reduceChain next links = .ok tree) :
    Grows OperatorTables.standard.statement ((.operator separator, next) :: links) fun front =>
      (Pending.linking front separator []).insert OperatorTables.standard.statement tree where
  reduceChain front := by
    have known : OperatorTables.standard.statement.HasLink (.operator separator) := by
      show OperatorTables.standard.statement.contains separator.data = true
      rw [separates]
      exact usable_standard.hasSeparator
    rw [OperatorTable.reduceChain, reduced]
    exact OperatorTable.reduceLink_eq_insert known front tree
  insert known front := by
    refine Pending.insert_insert_linking ?_ tree
    rw [separates]
    exact binds_separator known

namespace Matcher

variable {seam : Seam} {mode : Mode} {links : List (ChainLink × Node)} {grow : Node → Node}
  {last : Cursor}

section

variable {rules others : Rules}
  (expressions : ∀ reference, Anchored seam reference.reach (rules reference) (others reference))
  (grows : Grows (OperatorTables.standard.of mode) links grow)
  (expands : ∀ {offset : Nat} {value : Node} {trace : List Attempt},
    offset ≤ seam.source.length → rules (.expression mode) (.within seam.source offset) =
      .matched value (.within seam.source seam.source.length) trace →
    SealedTrace seam.ending seam.source trace →
    (others (.expression mode)).Reads (.within seam.text offset) (grow value) last)
  (further : (many (chainStep .standard others mode)).Reads
    (.within seam.text seam.source.length) links last)
include expressions grows expands further

/-- The operand that ends a source is followed by the further links, or takes them in. -/
theorem chainOperand_expands {offset : Nat} (within : offset ≤ seam.source.length) {value : Node}
    {trace : List Attempt} (run : chainOperand .standard rules mode (.within seam.source offset) =
      .matched value (.within seam.source seam.source.length) trace)
    (closed : SealedTrace seam.ending seam.source trace) :
    ∃ operand steps middle,
      (chainOperand .standard others mode).Reads (.within seam.text offset) operand middle ∧
      (chainStep .standard others mode).ReadsEach middle steps last ∧
      (OperatorTables.standard.of mode).reduceChain operand steps = .ok (grow value) := by
  rcases orElse_eq_matched run with prefixRun | ⟨front, back, failed, plainRun, rfl⟩
  · obtain ⟨operator, next, front, back, operatorRun, restRun, rfl⟩ := bind_eq_matched prefixRun
    obtain ⟨inner, behind, innerTrace, none, innerRun, done, rfl⟩ := bind_eq_matched restRun
    obtain ⟨reduced, rfl⟩ := reads_ofReduction.mp ⟨_, done⟩
    simp only [sealedTrace_append] at closed
    have operators : Anchored seam .inside
        (spaced (terminal (.oneOf (OperatorTables.standard.of mode).prefixSpellings
          "unary operator")))
        (spaced (terminal (.oneOf (OperatorTables.standard.of mode).prefixSpellings
          "unary operator"))) :=
      (Anchored.oneOf (usable_standard.context mode).hasPrefix (prefixSpellings_solid mode)
        (by decide)).spaced
    obtain ⟨place, onward, before, rfl, read⟩ := operators.reads within operatorRun closed.1
    have there := (expressions (.expression mode)).anchors before innerRun closed.2.1
    have expanded := expands before innerRun closed.2.1
    have spelled : operator.data ∈ (OperatorTables.standard.of mode).prefixSpellings :=
      Answers.spaced (· ∈ (OperatorTables.standard.of mode).prefixSpellings)
        (oneOf_answers (prefixSpellings_standard mode).1) ⟨_, operatorRun⟩
    have fits : Pending.Fits mode (.prefixed operator) := .prefixed spelled
    have value_eq := (fits.reduceAs_eq inner).symm.trans reduced
    cases value_eq
    refine ⟨_, [], last, reads_orElse.mpr (Or.inl (reads_bind.mpr ⟨operator, _, read there,
      reads_bind.mpr ⟨grow inner, last, expanded, reads_ofReduction.mpr
        ⟨fits.reduceAs_eq (grow inner), rfl⟩⟩⟩)), .nil, ?_⟩
    rw [grows.insert fits.known]
    rfl
  · obtain ⟨frontClosed, backClosed⟩ := sealedTrace_append.mp closed
    have plain := Anchored.plainOperand expressions mode
    obtain ⟨stop, onward, before, stop_eq, read⟩ := plain.reads within plainRun backClosed
    obtain rfl : seam.source.length = stop := congrArg Cursor.offset stop_eq
    have there := plain.anchors within plainRun backClosed
    have rejects := (Anchored.prefixed expressions mode).rejects within failed frontClosed
      (there.reach _)
    exact ⟨value, links, _, reads_orElse.mpr (Or.inr ⟨rejects, read trivial⟩),
      further.each_of_many, grows.reduceChain value⟩

variable (behind : ∀ reference, TriesBehind (rules reference))
include behind

/-- The operands of a source are followed by the further links, or the last one takes them in. -/
private theorem steps_expand {limit : Nat} {steps : List (ChainLink × Node)} :
    ∀ {offset : Nat} {operand : Node} {middle : Cursor} {front back : List Attempt},
      offset ≤ seam.source.length →
      chainOperand .standard rules mode (.within seam.source offset) =
        .matched operand middle front →
      manyUpTo (chainStep .standard rules mode) limit middle =
        .matched steps (.within seam.source seam.source.length) back →
      SealedTrace seam.ending seam.source front → SealedTrace seam.ending seam.source back →
      ∃ first further middle,
        (chainOperand .standard others mode).Reads (.within seam.text offset) first middle ∧
        (chainStep .standard others mode).ReadsEach middle further last ∧
        ∀ value, (OperatorTables.standard.of mode).reduceChain operand steps = .ok value →
          (OperatorTables.standard.of mode).reduceChain first further = .ok (grow value) := by
  induction limit generalizing steps with
  | zero =>
      intro offset operand middle front back _ _ run
      cases run
  | succ limit ih =>
      intro offset operand middle front back within operandRun run frontClosed backClosed
      rcases manyUpTo_eq_matched run with
        ⟨-, rfl, rfl⟩ | ⟨step, next, others', stepTrace, restTrace, stepRun, restRun, rfl, rfl⟩
      · obtain ⟨first, steps, stop, read, each, reduced⟩ :=
          chainOperand_expands expressions grows expands further within operandRun frontClosed
        refine ⟨first, steps, stop, read, each, fun value value_eq => ?_⟩
        cases value_eq
        exact reduced
      · obtain ⟨link, place, linkTrace, operandTrace, linkRun, pairRun, rfl⟩ :=
          bind_eq_matched stepRun
        obtain ⟨right, after, rightTrace, none, rightRun, done, rfl⟩ := bind_eq_matched pairRun
        cases done
        simp only [sealedTrace_append] at backClosed
        obtain ⟨⟨linkClosed, rightClosed, -⟩, restClosed⟩ := backClosed
        have operands := Anchored.chainOperand expressions mode
        have unopened :=
          ((TriesBehind.chainOperand behind mode).tried operandRun).uncommented frontClosed
        obtain ⟨start, -, startWithin, rfl, operandRead⟩ :=
          operands.reads within operandRun frontClosed
        obtain ⟨stop, onward, stopWithin, rfl, linkRead⟩ :=
          (PersistsAt.chainLink expressions mode startWithin unopened).reads linkRun linkClosed
        have there := operands.anchors stopWithin rightRun rightClosed
        obtain ⟨first, steps, middle, firstRead, each, reduced⟩ :=
          ih stopWithin rightRun restRun rightClosed restClosed
        refine ⟨operand, (link, first) :: steps, _,
          operandRead ((there.earlier onward).reach _), .cons (reads_bind.mpr ⟨link, _,
            linkRead (there.reach _), reads_bind.mpr ⟨first, _, firstRead,
              reads_pure.mpr ⟨rfl, rfl⟩⟩⟩) each, fun value value_eq => ?_⟩
        have known := chainLink_hasLink usable_standard rules mode ⟨_, linkRun⟩
        rw [OperatorTable.reduceChain] at value_eq ⊢
        cases right_eq : (OperatorTables.standard.of mode).reduceChain right others' with
        | error missing =>
            rw [right_eq] at value_eq
            cases value_eq
        | ok tree =>
            rw [right_eq] at value_eq
            have value_eq' := (OperatorTable.reduceLink_eq_insert known operand tree).symm.trans value_eq
            cases value_eq'
            rw [reduced tree right_eq, ← grows.insert (link.contains_key known operand)]
            exact OperatorTable.reduceLink_eq_insert known operand (grow tree)

/-- A chain that ends a source goes on with the further links. -/
theorem chain_expands {offset : Nat} (within : offset ≤ seam.source.length) {value : Node}
    {trace : List Attempt} (run : chain .standard rules mode (.within seam.source offset) =
      .matched value (.within seam.source seam.source.length) trace)
    (closed : SealedTrace seam.ending seam.source trace)
    (consumes : ∀ bound, Consumes 1 bound (chainStep .standard others mode)) :
    (chain .standard others mode).Reads (.within seam.text offset) (grow value) last := by
  obtain ⟨operand, middle, front, back, operandRun, restRun, rfl⟩ := bind_eq_matched run
  obtain ⟨steps, stop, stepsTrace, none, stepsRun, done, rfl⟩ := bind_eq_matched restRun
  obtain ⟨reduced, rfl⟩ := reads_ofReduction.mp ⟨_, done⟩
  simp only [sealedTrace_append] at closed
  obtain ⟨first, others', place, read, each, grown⟩ :=
    steps_expand expressions grows expands further behind within operandRun stepsRun closed.1
      closed.2.1
  refine reads_bind.mpr ⟨first, place, read, reads_bind.mpr ⟨others', last,
    (consumes _).manyOfEach each further.rejects_of_many (Nat.lt_succ_self _),
    reads_ofReduction.mpr ⟨grown value reduced, rfl⟩⟩⟩

end

theorem ruleWithin_expands (grows : Grows (OperatorTables.standard.of mode) links grow)
    (further : (many (chainStep .standard (rule .standard) mode)).Reads
      (.within seam.text seam.source.length) links last) (depth : Nat) {offset : Nat}
    (within : offset ≤ seam.source.length) {value : Node} {trace : List Attempt}
    (run : ruleWithin .standard depth (.expression mode) (.within seam.source offset) =
      .matched value (.within seam.source seam.source.length) trace)
    (closed : SealedTrace seam.ending seam.source trace) :
    (rule .standard (.expression mode)).Reads (.within seam.text offset) (grow value) last := by
  induction depth generalizing offset value trace with
  | zero => cases run
  | succ depth ih =>
      rw [rule_eq_production usable_standard]
      refine chain_expands (Anchored.ruleWithin depth) grows (fun within run closed => ?_) further
        (TriesBehind.ruleWithin depth) within run closed fun bound => ?_
      · exact ih within run closed
      · exact (Consumes.chainStep (Consumes.rule usable_standard) usable_standard mode).mono
          (Nat.le_refl _) (Nat.le_succ bound)

end Matcher

end RubySyntax
