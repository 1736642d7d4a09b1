import RubySyntax.Proofs.GrammarTotality
import RubySyntax.Proofs.NameReading

/-!
# Phrases as expressions

The grammar reads a phrase in one chain: its operands and operators up to the
first prefix operator, which takes the whole rest as its operand.  The chain is
reduced from its right end with rotations, and so the expression that is read is
the tree of the reference parser.
-/

namespace RubySyntax

/-! ### Texts of phrases -/

namespace Phrase

theorem words_ne_nil (phrase : Phrase) : phrase.words.map String.toList ≠ [] := by
  cases phrase <;> simp [words]

theorem text_name (word : String) : (name word).text = word.toList :=
  List.intercalate_singleton

theorem text_prefixed (operator : String) (rest : Phrase) :
    (prefixed operator rest).text = operator.toList ++ ' ' :: rest.text := by
  rw [text, words, List.map_cons, List.intercalate_cons_of_ne_nil rest.words_ne_nil, text]
  simp

theorem text_linked (word operator : String) (rest : Phrase) :
    (linked word operator rest).text =
      word.toList ++ ' ' :: (operator.toList ++ ' ' :: rest.text) := by
  rw [text, words, List.map_cons, List.map_cons, List.intercalate_cons_of_ne_nil (by simp),
    List.intercalate_cons_of_ne_nil rest.words_ne_nil, text]
  simp

private theorem intercalate_append {separator : List Char} {front back : List (List Char)}
    (frontFilled : front ≠ []) (backFilled : back ≠ []) :
    separator.intercalate (front ++ back) =
      separator.intercalate front ++ separator ++ separator.intercalate back := by
  induction front with
  | nil => exact (frontFilled rfl).elim
  | cons word front ih =>
      cases front with
      | nil =>
          rw [List.singleton_append, List.intercalate_cons_of_ne_nil backFilled,
            List.intercalate_singleton]
      | cons second front =>
          have inner := ih (by simp)
          rw [List.cons_append] at inner
          rw [List.cons_append, List.cons_append, List.intercalate_cons_cons, inner,
            List.intercalate_cons_cons]
          simp

theorem text_conditional (word : String) (middle rest : Phrase) :
    (conditional word middle rest).text =
      word.toList ++ ' ' :: '?' :: ' ' :: (middle.text ++ ' ' :: ':' :: ' ' :: rest.text) := by
  rw [text, words, List.map_cons, List.map_cons, List.map_append, List.map_cons,
    List.intercalate_cons_of_ne_nil (by simp), List.intercalate_cons_of_ne_nil (by simp),
    intercalate_append middle.words_ne_nil (by simp),
    List.intercalate_cons_of_ne_nil rest.words_ne_nil, text, text]
  simp [show "?".toList = ['?'] by decide, show ":".toList = [':'] by decide]

theorem length_prefixed (operator : String) (rest : Phrase) :
    (prefixed operator rest).text.length = operator.length + 1 + rest.text.length := by
  simp only [text_prefixed, List.length_append, List.length_cons, String.length_toList]
  omega

theorem length_linked (word operator : String) (rest : Phrase) :
    (linked word operator rest).text.length =
      word.length + 1 + operator.length + 1 + rest.text.length := by
  simp only [text_linked, List.length_append, List.length_cons, String.length_toList]
  omega

theorem length_conditional (word : String) (middle rest : Phrase) :
    (conditional word middle rest).text.length =
      word.length + 3 + middle.text.length + 3 + rest.text.length := by
  simp only [text_conditional, List.length_append, List.length_cons, String.length_toList]
  omega

end Phrase

/-! ### Operators of the language -/

/-- What is known of a prefix operator: it makes no lists, and a token is read where it stands. -/
theorem prefixSpellings_plain (mode : Mode) :
    ∀ word ∈ (OperatorTables.standard.of mode).prefixSpellings,
      listOperators.contains word = false ∧ word.toList ≠ [] ∧
        startsToken word.toList = true ∧ startsWithChar Lexeme.isGap word.toList = false :=
  forall_prefixSpellings (by decide +kernel) mode

theorem infixSpellings_solid (mode : Mode) :
    ∀ word ∈ (OperatorTables.standard.of mode).infixSpellings, IsSolid word.toList := by
  have each : ∀ word ∈ allInfixWords, word.toList.all isSolidCharacter = true := by decide
  exact forall_infixSpellings (fun word member => isSolid_of_all (each word member)) mode

/-- No infix operator is read where a mark of another production stands, or nothing. -/
theorem infixSpellings_apart (mode : Mode) : ∀ word ∈ ["", "?", ":", ",", ";"],
    Lexeme.oneOf (OperatorTables.standard.of mode).infixSpellings word.toList = none := by
  have unread : ∀ spelling ∈ (OperatorTables.standard.of mode).infixSpellings,
      ∀ word ∈ ["", "?", ":", ",", ";"], Lexeme.spelling spelling word.toList = none :=
    forall_infixSpellings (by decide +kernel) mode
  exact fun word member => Matcher.oneOf_eq_none (usable_standard.context mode).hasInfix
    fun spelling spelled => unread spelling spelled word member

theorem contains_linkingSpellings (mode : Mode) : ∀ word ∈ "?" :: Phrase.linkingSpellings mode,
    (OperatorTables.standard.of mode).contains word = true := by
  refine List.forall_mem_cons.mpr ⟨(usable_standard.context mode).hasConditional, ?_⟩
  refine List.forall_mem_append.mpr
    ⟨fun word => OperatorTable.contains_of_mem_infixSpellings, ?_⟩
  cases mode with
  | statement =>
      exact List.forall_mem_cons.mpr ⟨usable_standard.hasComma,
        List.forall_mem_singleton.mpr usable_standard.hasSeparator⟩
  | argument => exact List.forall_mem_nil _
  | command => exact List.forall_mem_nil _

/-- What stands behind a phrase: nothing, or the colon of the conditional that it belongs to. -/
inductive EndsPhrase : Mode → List Char → Prop
  | ends {mode : Mode} : EndsPhrase mode []
  | colon (rest : List Char) : EndsPhrase .argument (' ' :: ':' :: ' ' :: rest)

theorem EndsPhrase.follows {mode : Mode} {tail : List Char} (ends : EndsPhrase mode tail) :
    Follows mode tail := by
  cases ends with
  | ends => exact .ends
  | colon rest =>
      have member : ":" ∈ Phrase.followers .argument := by simp [Phrase.followers]
      exact .word member rest

namespace Phrase

theorem length_pos_of_isName {word : String} (isName : isName word = true) : 0 < word.length := by
  obtain ⟨⟨⟨character, rest, word_eq, -⟩, -⟩, -⟩ := Matcher.isName_spec isName
  rw [← String.length_toList, word_eq]
  simp

/-- A phrase begins with a character of a token. -/
theorem startsSolid {mode : Mode} {phrase : Phrase} (fits : phrase.fits mode = true)
    (tail : List Char) : startsWithChar Lexeme.isGap (phrase.text ++ tail) = false := by
  have ofName : ∀ {word : String} (behind : List Char), isName word = true →
      startsWithChar Lexeme.isGap (word.toList ++ behind) = false := by
    intro word behind isName
    obtain ⟨⟨⟨character, rest, word_eq, starts⟩, -⟩, -⟩ := Matcher.isName_spec isName
    have notBreak : character ≠ ';' := Lexeme.ne_of_isNameStart starts (by decide)
    rw [word_eq]
    simp [startsWithChar, Lexeme.isGap, Lexeme.isBlank_of_isNameStart starts, notBreak]
  cases phrase with
  | name word =>
      rw [text_name]
      exact ofName tail fits
  | prefixed operator rest =>
      simp only [Phrase.fits, Bool.and_eq_true, List.contains_iff_mem] at fits
      obtain ⟨-, filled, -, solid⟩ := prefixSpellings_plain mode operator fits.1
      rw [text_prefixed]
      cases characters : operator.toList with
      | nil => exact (filled characters).elim
      | cons character others =>
          rw [characters] at solid
          exact solid
  | linked word operator rest =>
      simp only [Phrase.fits, Bool.and_eq_true] at fits
      rw [text_linked, List.append_assoc]
      exact ofName _ fits.1.1
  | conditional word middle rest =>
      simp only [Phrase.fits, Bool.and_eq_true] at fits
      rw [text_conditional, List.append_assoc]
      exact ofName _ fits.1.1

end Phrase

namespace Matcher

variable {text lead rest tail : List Char} {offset : Nat} {mode : Mode}

/-! ### Links -/

theorem operatorLink_reads {matcher : Matcher Node} {node : Node} {next : Cursor}
    (stands : Stands text offset (lead ++ rest)) (isLead : IsLead lead)
    (starts : startsToken rest = true)
    (reads : matcher.Reads (Cursor.within text (offset + lead.length)) node next) :
    (operatorLink mode matcher).Reads (Cursor.within text offset) (.operator node) next :=
  reads_bind.mpr ⟨node, next, beforeOperator_reads stands isLead starts mode reads,
    reads_pure.mpr ⟨rfl, rfl⟩⟩

section

variable {word behind : List Char} (stands : Stands text offset (lead ++ (word ++ behind)))
  (isLead : IsLead lead) (starts : startsToken (word ++ behind) = true)
  (isBreak : IsBreak behind)

include stands isLead starts isBreak

theorem infixLink_rejects
    (scanned : Lexeme.oneOf (OperatorTables.standard.of mode).infixSpellings word = none) :
    (operatorLink mode (terminal
      (.oneOf (OperatorTables.standard.of mode).infixSpellings "operator"))).Rejects
        (Cursor.within text offset) :=
  rejects_bind.mpr (Or.inl (beforeOperator_rejects stands isLead starts mode
    (rejects_word (Lexeme.oneOf_stopsAtBreaks (infixSpellings_solid mode) isBreak)
      stands.advance.2 scanned)))

theorem conditionalLink_rejects (rules : Rules)
    (scanned : Lexeme.punctuation "?" "" word = none) :
    (conditionalLink rules mode).Rejects (Cursor.within text offset) :=
  rejects_bind.mpr (Or.inl (beforeOperator_rejects stands isLead starts mode
    (rejects_word (Lexeme.punctuation_stopsAtBreaks (by decide) isBreak)
      stands.advance.2 scanned)))

end

section

variable {word : String} (stands : Stands text offset (' ' :: (word.toList ++ ' ' :: rest)))
  (starts : startsToken (word.toList ++ ' ' :: rest) = true)

include stands

/-- Behind an operator its blank is left, if the operator is read alone. -/
theorem stands_behind_operator :
    Stands text (offset + 1 + word.length) ([' '] ++ rest) := by
  have behind : Stands text offset ([' '] ++ (word.toList ++ ' ' :: rest)) := stands
  exact behind.behind_word

include starts

theorem operatorLink_reads_word {kind : Terminal}
    (stops : Lexeme.StopsAt (' ' :: rest) kind.scanner)
    (dataOf_eq : kind.dataOf = String.ofList)
    (scanned : kind.scanner word.toList = some word.length) :
    (operatorLink mode (terminal kind)).Reads (Cursor.within text offset)
      (.operator (.token word (offset + 1))) (Cursor.within text (offset + 1 + word.length)) := by
  have behind : Stands text offset ([' '] ++ (word.toList ++ ' ' :: rest)) := stands
  exact operatorLink_reads behind .blank starts
    (reads_word stops dataOf_eq behind.advance.2 scanned)

end

/-- A break between statements takes the blank behind it. -/
theorem separatorLink_reads (solid : startsWithChar Lexeme.isGap rest = false)
    (stands : Stands text offset (' ' :: (Tag.sequence.toList ++ ' ' :: rest))) :
    (operatorLink .statement (terminal .separator)).Reads (Cursor.within text offset)
        (.operator (.token Tag.sequence (offset + 1))) (Cursor.within text (offset + 3)) ∧
      Stands text (offset + 3) rest := by
  have behind : Stands text offset ([' '] ++ ';' :: ' ' :: rest) := by
    rwa [show Tag.sequence.toList = [';'] by decide] at stands
  have place : Stands text (offset + 1) ([';', ' '] ++ rest) := behind.advance.2
  obtain ⟨advanced, behindBreak⟩ := place.advance
  have starts : startsToken ([';'] ++ ' ' :: rest) = true := by
    rw [startsToken_append_break (.blank rest) (by simp)]
    decide
  refine ⟨operatorLink_reads behind .blank starts
    (reads_terminal.mpr ⟨2, ?_, rfl, advanced.symm⟩), behindBreak⟩
  have noGap : countWhile Lexeme.isGap rest = 0 := by
    cases rest with
    | nil => rfl
    | cons character rest =>
        have notGap : Lexeme.isGap character = false := solid
        rw [countWhile_cons, notGap]
        rfl
  have blank : Lexeme.isGap ' ' = true := by decide
  rw [Cursor.rest_within, show text.drop (offset + [' '].length) = ';' :: ' ' :: rest from
    place.drop_eq]
  simp [Terminal.separator, Lexeme.separator, countWhile_cons, noGap, blank]

theorem chainLink_reads (rules : Rules) {operator : String}
    (member : operator ∈ Phrase.linkingSpellings mode)
    (solid : startsWithChar Lexeme.isGap rest = false)
    (stands : Stands text offset (' ' :: (operator.toList ++ ' ' :: rest))) :
    ∃ middle lead, IsLead lead ∧ Stands text middle (lead ++ rest) ∧
      middle + lead.length = offset + 1 + operator.length + 1 ∧
      (chainLink .standard rules mode).Reads (Cursor.within text offset)
        (.operator (.token operator (offset + 1))) (Cursor.within text middle) := by
  obtain ⟨filled, startsWord, -⟩ :=
    Phrase.followers_plain mode operator (List.mem_append_left _ member)
  have starts : startsToken (operator.toList ++ ' ' :: rest) = true := by
    rw [startsToken_append_break (.blank rest) filled]
    exact startsWord
  have spaced : Stands text offset ([' '] ++ (operator.toList ++ ' ' :: rest)) := stands
  have apart := infixSpellings_apart mode
  rcases List.mem_append.mp member with infixMember | listMember
  · refine ⟨_, [' '], .blank, stands_behind_operator stands, rfl, ?_⟩
    have reads : (operatorLink mode (terminal
        (.oneOf (OperatorTables.standard.of mode).infixSpellings "operator"))).Reads
          (Cursor.within text offset) (.operator (.token operator (offset + 1)))
          (Cursor.within text (offset + 1 + operator.length)) :=
      operatorLink_reads_word stands starts
        (Lexeme.oneOf_stopsAtBreaks (infixSpellings_solid mode) (.blank rest)) rfl
        (Lexeme.oneOf_toList infixMember)
    cases mode <;> exact reads_firstOf_cons.mpr (Or.inl reads)
  · cases mode with
    | argument | command => cases listMember
    | statement =>
        have noInfix : operator ∈ ["", "?", ":", ",", ";"] := by
          simp only [List.mem_cons, List.not_mem_nil, or_false] at listMember
          rcases listMember with rfl | rfl <;> decide
        have noOperator := infixLink_rejects spaced .blank starts (.blank rest)
          (apart operator noInfix)
        have noConditional : (conditionalLink rules .statement).Rejects
            (Cursor.within text offset) := by
          refine conditionalLink_rejects spaced .blank starts (.blank rest) rules ?_
          simp only [List.mem_cons, List.not_mem_nil, or_false] at listMember
          rcases listMember with rfl | rfl <;> decide
        have noComma : Lexeme.StopsAt (' ' :: rest) (Lexeme.punctuation "," "") :=
          Lexeme.punctuation_stopsAt (by simp only [List.head?_cons]; decide)
        simp only [List.mem_cons, List.not_mem_nil, or_false] at listMember
        rcases listMember with rfl | rfl
        · refine ⟨_, [' '], .blank, stands_behind_operator stands, rfl, ?_⟩
          refine reads_firstOf_cons.mpr (Or.inr ⟨noOperator, reads_firstOf_cons.mpr
            (Or.inr ⟨noConditional, reads_firstOf_cons.mpr (Or.inl ?_)⟩)⟩)
          exact operatorLink_reads_word stands starts noComma rfl (by decide)
        · obtain ⟨reads, behind⟩ := separatorLink_reads solid stands
          refine ⟨_, [], .none, behind, rfl, ?_⟩
          refine reads_firstOf_cons.mpr (Or.inr ⟨noOperator, reads_firstOf_cons.mpr
            (Or.inr ⟨noConditional, reads_firstOf_cons.mpr (Or.inr ⟨?_,
              reads_firstOf_cons.mpr (Or.inl reads)⟩)⟩)⟩)
          exact rejects_bind.mpr (Or.inl (beforeOperator_rejects spaced .blank starts _
            (rejects_word noComma spaced.advance.2 (by decide))))

/-- A mark of a conditional between two blanks. -/
theorem mark_reads {mark excluded : String} (place : Stands text offset (mark.toList ++ ' ' :: rest))
    (solid : IsSolid mark.toList ∧ IsSolid excluded.toList)
    (scanned : Lexeme.punctuation mark excluded mark.toList = some mark.length) :
    (punctuation mark excluded).Reads (Cursor.within text offset) (.token mark offset)
      (Cursor.within text (offset + mark.length)) :=
  reads_word (Lexeme.punctuation_stopsAtBreaks solid (.blank rest)) rfl place scanned

/-- A question mark with a phrase of its own up to the colon is read as a link. -/
theorem chainLink_reads_conditional {rules : Rules} {middle : List Char} {node : Node}
    (stands : Stands text offset ([' '] ++ ("?".toList ++ ' ' ::
      (middle ++ ([' '] ++ (":".toList ++ ' ' :: rest))))))
    (reads : (rules (.expression .argument)).Reads (Cursor.within text (offset + 2)) node
      (Cursor.within text (offset + 3 + middle.length))) :
    (chainLink .standard rules mode).Reads (Cursor.within text offset)
        (.conditional (.token "?" (offset + 1)) node)
        (Cursor.within text (offset + 3 + middle.length + 2)) ∧
      Stands text (offset + 3 + middle.length + 2) ([' '] ++ rest) := by
  have starts : ∀ (mark : String) (others : List Char), mark ∈ ["?", ":"] →
      startsToken (mark.toList ++ ' ' :: others) = true := by
    intro mark others member
    have filled : ∀ word ∈ ["?", ":"], word.toList ≠ [] ∧ startsToken word.toList = true := by
      decide
    rw [startsToken_append_break (.blank others) (filled mark member).1]
    exact (filled mark member).2
  have questionPlace := stands.advance.2
  have middlePlace : Stands text (offset + 3) (middle ++ ([' '] ++ (":".toList ++ ' ' :: rest))) :=
    stands.behind_word.behind_blank.2
  have gapPlace := middlePlace.advance.2
  have colonPlace := gapPlace.advance.2
  have colonRead : (spaced (punctuation ":" ":")).Reads
      (Cursor.within text (offset + 3 + middle.length))
      (.token ":" (offset + 3 + middle.length + 1))
      (Cursor.within text (offset + 3 + middle.length + 2)) :=
    spaced_reads gapPlace .blank (starts ":" _ (by simp))
      (mark_reads colonPlace (by decide) (by decide))
  have questionRead : (beforeOperator mode (punctuation "?")).Reads (Cursor.within text offset)
      (.token "?" (offset + 1)) (Cursor.within text (offset + 2)) :=
    beforeOperator_reads stands .blank (starts "?" _ (by simp)) mode
      (mark_reads questionPlace (by decide) (by decide))
  have link : (conditionalLink rules mode).Reads (Cursor.within text offset)
      (.conditional (.token "?" (offset + 1)) node)
      (Cursor.within text (offset + 3 + middle.length + 2)) := by
    refine reads_bind.mpr ⟨_, _, questionRead, reads_bind.mpr ⟨_, _, reads,
      reads_bind.mpr ⟨_, _, colonRead, reads_pure.mpr ⟨?_, rfl⟩⟩⟩⟩
    rw [show (Node.token ":" (offset + 3 + middle.length + 1)).comments = [] from rfl,
      Node.appendComments_nil]
  have noInfix := infixLink_rejects stands .blank (starts "?" _ (by simp))
    (.blank _) (infixSpellings_apart mode "?" (by simp))
  refine ⟨?_, gapPlace.behind_word⟩
  cases mode <;>
    exact reads_firstOf_cons.mpr (Or.inr ⟨noInfix, reads_firstOf_cons.mpr (Or.inl link)⟩)

/-! ### Ends of chains -/

theorem chainStep_rejects (rules : Rules) (ends : EndsPhrase mode tail)
    (stands : Stands text offset tail) :
    (chainStep .standard rules mode).Rejects (Cursor.within text offset) := by
  refine rejects_bind.mpr (Or.inl ?_)
  cases ends with
  | ends =>
      have noWord : Stands text offset ([] ++ ([] ++ [])) := stands
      have starts : startsToken ([] ++ []) = true := by decide
      have noInfix : (operatorLink mode (terminal
          (.oneOf (OperatorTables.standard.of mode).infixSpellings "operator"))).Rejects
            (Cursor.within text offset) :=
        infixLink_rejects noWord .none starts .ends (infixSpellings_apart mode "" (by simp))
      have noConditional : (conditionalLink rules mode).Rejects (Cursor.within text offset) :=
        conditionalLink_rejects noWord .none starts .ends rules (by decide)
      have nothing : ∀ {kind : Terminal}, kind.scanner [] = none →
          (operatorLink mode (terminal kind)).Rejects (Cursor.within text offset) := by
        intro kind scanned
        refine rejects_bind.mpr (Or.inl (beforeOperator_rejects noWord .none starts mode
          (rejects_terminal.mpr ?_)))
        rw [Cursor.rest_within, noWord.advance.2.drop_eq]
        exact scanned
      cases mode with
      | statement =>
          exact rejects_firstOf_cons.mpr ⟨noInfix, rejects_firstOf_cons.mpr ⟨noConditional,
            rejects_firstOf_cons.mpr ⟨nothing (by decide),
              rejects_firstOf_cons.mpr ⟨nothing (by decide), rejects_firstOf_nil⟩⟩⟩⟩
      | argument | command =>
          exact rejects_firstOf_cons.mpr ⟨noInfix,
            rejects_firstOf_cons.mpr ⟨noConditional, rejects_firstOf_nil⟩⟩
  | colon rest =>
      have colon : Stands text offset ([' '] ++ ([':'] ++ ' ' :: rest)) := stands
      have starts : startsToken ([':'] ++ ' ' :: rest) = true := by
        rw [startsToken_append_break (.blank rest) (by simp)]
        decide
      exact rejects_firstOf_cons.mpr
        ⟨infixLink_rejects colon .blank starts (.blank rest)
          (infixSpellings_apart .argument ":" (by simp)),
        rejects_firstOf_cons.mpr ⟨conditionalLink_rejects colon .blank starts (.blank rest) rules
          (by decide), rejects_firstOf_nil⟩⟩

/-! ### Phrases -/

/-- A phrase at a place is read as a first operand and the links behind it, which reduce to its
tree. -/
structure ReadsPhrase (text : List Char) (mode : Mode) (rules : Rules) (start place : Nat)
    (phrase : Phrase) (first : Node) (links : List (ChainLink × Node)) (middle : Nat) : Prop where
  operand : (chainOperand .standard rules mode).Reads (Cursor.within text start) first
    (Cursor.within text middle)
  begins : start ≤ middle
  steps : (chainStep .standard rules mode).ReadsEach (Cursor.within text middle) links
    (Cursor.within text (place + phrase.text.length))
  reduced : (OperatorTables.standard.of mode).reduceChain first links =
    .ok (phrase.folded mode place)
  bounded : links.length + middle ≤ place + phrase.text.length

theorem ReadsPhrase.chain_reads {rules : Rules} {start place middle : Nat} {phrase : Phrase}
    {first : Node} {links : List (ChainLink × Node)}
    (reads : ReadsPhrase text mode rules start place phrase first links middle)
    (ends : EndsPhrase mode tail) (stands : Stands text (place + phrase.text.length) tail) :
    (chain .standard rules mode).Reads (Cursor.within text start) (phrase.folded mode place)
      (Cursor.within text (place + phrase.text.length)) := by
  refine reads_bind.mpr ⟨first, _, reads.operand, reads_bind.mpr ⟨links, _, ?_,
    reads_ofReduction.mpr ⟨reads.reduced, rfl⟩⟩⟩
  refine reads_many reads.steps (chainStep_rejects rules ends stands) ?_
  have within := stands.within
  have bounded := reads.bounded
  rw [Cursor.rest_within, List.length_drop]
  omega

theorem ReadsPhrase.cons {rules : Rules} {start place middle behind begin last : Nat}
    {front rest : Phrase} {name first : Node} {link : ChainLink}
    {links : List (ChainLink × Node)}
    (reads : ReadsPhrase text mode rules behind begin rest first links last)
    (operand : (chainOperand .standard rules mode).Reads (Cursor.within text start) name
      (Cursor.within text middle))
    (linkReads : (chainLink .standard rules mode).Reads (Cursor.within text middle) link
      (Cursor.within text behind))
    (begins : start ≤ middle) (before : middle < behind)
    (reduced : (OperatorTables.standard.of mode).reduceLink name link (rest.folded mode begin) =
      .ok (front.folded mode place))
    (length_eq : begin + rest.text.length = place + front.text.length) :
    ReadsPhrase text mode rules start place front name ((link, first) :: links) middle := by
  have step : (chainStep .standard rules mode).Reads (Cursor.within text middle) (link, first)
      (Cursor.within text last) :=
    reads_bind.mpr ⟨_, _, linkReads, reads_bind.mpr ⟨_, _, reads.operand,
      reads_pure.mpr ⟨rfl, rfl⟩⟩⟩
  refine ⟨operand, begins, .cons step ?_, ?_, ?_⟩
  · rw [← length_eq]
    exact reads.steps
  · rw [OperatorTable.reduceChain, reads.reduced]
    exact reduced
  · have bounded := reads.bounded
    have ordered := reads.begins
    rw [List.length_cons]
    omega

theorem prefixed_reads {rules : Rules} {operator : String} {operand : Node} {stop : Nat}
    (member : operator ∈ (OperatorTables.standard.of mode).prefixSpellings)
    (isLead : IsLead lead) (stands : Stands text offset (lead ++ (operator.toList ++ ' ' :: rest)))
    (reads : (rules (.expression mode)).Reads
      (Cursor.within text (offset + lead.length + operator.length)) operand
      (Cursor.within text stop)) :
    (prefixed .standard rules mode).Reads (Cursor.within text offset)
      ((Pending.prefixed (.token operator (offset + lead.length))).insert
        (OperatorTables.standard.of mode) operand) (Cursor.within text stop) := by
  obtain ⟨plain, filled, starts, -⟩ := prefixSpellings_plain mode operator member
  have startsHere : startsToken (operator.toList ++ ' ' :: rest) = true := by
    rw [startsToken_append_break (.blank rest) filled]
    exact starts
  have operatorRead : (spaced (terminal
      (.oneOf (OperatorTables.standard.of mode).prefixSpellings "unary operator"))).Reads
        (Cursor.within text offset) (.token operator (offset + lead.length))
        (Cursor.within text (offset + lead.length + operator.length)) :=
    spaced_reads stands isLead startsHere
      (reads_word (Lexeme.oneOf_stopsAtBreaks (prefixSpellings_solid mode) (.blank rest)) rfl
        stands.advance.2 (Lexeme.oneOf_toList member))
  refine reads_bind.mpr ⟨_, _, operatorRead, reads_bind.mpr ⟨_, _, reads,
    reads_ofReduction.mpr ⟨?_, rfl⟩⟩⟩
  have levelled : (OperatorTables.standard.of mode).contains
      (Pending.prefixed (.token operator (offset + lead.length))).key = true :=
    OperatorTable.contains_of_mem_prefixSpellings member
  exact Pending.reduceAs_eq_insert levelled (fun _ => plain) operand

/-- An operator of the language is reduced without a failure. -/
theorem reduce_linking (mode : Mode) {operator : String}
    (member : operator ∈ "?" :: Phrase.linkingSpellings mode) (left : Node) (place : Nat)
    (middle : List Node) (tree : Node) :
    (OperatorTables.standard.of mode).reduce (.token operator place) (left :: middle) tree =
      .ok ((Pending.linking left (.token operator place) middle).insert
        (OperatorTables.standard.of mode) tree) := by
  have known : (OperatorTables.standard.of mode).contains
      (Pending.linking left (.token operator place) middle).key = true :=
    contains_linkingSpellings mode operator member
  exact Pending.reduceAs_eq_insert known (by rintro ⟨⟩) tree

/-- Wherever a phrase stands in front of its end, it is read as the operands and links that
reduce to its tree. -/
def ReadPhrase (phrase : Phrase) : Prop :=
  ∀ ⦃text : List Char⦄ ⦃mode : Mode⦄ ⦃depth offset : Nat⦄ ⦃lead tail : List Char⦄,
    phrase.fits mode = true → phrase.text.length ≤ depth → IsLead lead → EndsPhrase mode tail →
      Stands text offset (lead ++ (phrase.text ++ tail)) →
        ∃ first links middle, ReadsPhrase text mode (ruleWithin .standard depth) offset
          (offset + lead.length) phrase first links middle

theorem readPhrase_name (word : String) : ReadPhrase (.name word) := by
  intro text mode depth offset lead tail fits deep isLead ends stands
  have filled := Phrase.length_pos_of_isName fits
  rw [Phrase.text_name] at deep stands
  rw [String.length_toList] at deep
  have deepName : 0 < depth := by omega
  refine ⟨_, [], _, chainOperand_reads_name deepName fits isLead ends.follows stands, ?_, ?_,
    rfl, ?_⟩
  · omega
  · rw [Phrase.text_name, String.length_toList]
    exact .nil
  · rw [Phrase.text_name, String.length_toList]
    simp

theorem readPhrase_prefixed (operator : String) {rest : Phrase} (inner : ReadPhrase rest) :
    ReadPhrase (.prefixed operator rest) := by
  intro text mode depth offset lead tail fits deep isLead ends stands
  simp only [Phrase.fits, Bool.and_eq_true, List.contains_iff_mem] at fits
  have length_eq := Phrase.length_prefixed operator rest
  obtain ⟨smaller, rfl⟩ : ∃ smaller, depth = smaller + 1 := ⟨depth - 1, by omega⟩
  have here : Stands text offset (lead ++ (operator.toList ++ ' ' :: (rest.text ++ tail))) := by
    simpa [Phrase.text_prefixed] using stands
  have behind : Stands text (offset + lead.length + operator.length)
      ([' '] ++ (rest.text ++ tail)) := here.behind_word
  have deepRest : rest.text.length ≤ smaller := by omega
  obtain ⟨first, links, middle, reads⟩ := inner fits.2 deepRest .blank ends behind
  have operandRead : (ruleWithin .standard (smaller + 1) (.expression mode)).Reads _ _ _ :=
    reads.chain_reads ends behind.advance.2.advance.2
  have stop_eq : offset + lead.length + (Phrase.prefixed operator rest).text.length =
      offset + lead.length + operator.length + [' '].length + rest.text.length := by
    rw [length_eq, List.length_singleton]
    omega
  refine ⟨_, [], _, reads_orElse.mpr (Or.inl (prefixed_reads fits.1 isLead here operandRead)),
    ?_, ?_, rfl, ?_⟩
  · omega
  · rw [stop_eq]
    exact .nil
  · rw [stop_eq]
    simp

theorem readPhrase_linked (word operator : String) {rest : Phrase} (inner : ReadPhrase rest) :
    ReadPhrase (.linked word operator rest) := by
  intro text mode depth offset lead tail fits deep isLead ends stands
  simp only [Phrase.fits, Bool.and_eq_true, List.contains_iff_mem] at fits
  obtain ⟨⟨isName, member⟩, restFits⟩ := fits
  have length_eq := Phrase.length_linked word operator rest
  have here : Stands text offset (lead ++ (word.toList ++
      ' ' :: (operator.toList ++ ' ' :: (rest.text ++ tail)))) := by
    simpa [Phrase.text_linked] using stands
  have follows : Follows mode (' ' :: (operator.toList ++ ' ' :: (rest.text ++ tail))) :=
    .word (List.mem_append_left _ member) _
  have deepName : 0 < depth := by omega
  have nameRead := chainOperand_reads_name deepName isName isLead follows here
  obtain ⟨behind, gap, isGap, place, begin_eq, linkRead⟩ :=
    chainLink_reads (ruleWithin .standard depth) member (Phrase.startsSolid restFits tail)
      here.behind_word
  have deepRest : rest.text.length ≤ depth := by omega
  obtain ⟨first, links, last, reads⟩ := inner restFits deepRest isGap ends place
  rw [begin_eq] at reads
  have gapWithin : gap.length ≤ 1 := by
    cases isGap <;> simp
  refine ⟨_, _, _, reads.cons nameRead linkRead ?_ ?_
    (reduce_linking mode (List.mem_cons_of_mem _ member) _ _ [] _) ?_⟩
  · omega
  · omega
  · omega

theorem readPhrase_conditional (word : String) {middle rest : Phrase}
    (middleInner : ReadPhrase middle) (restInner : ReadPhrase rest) :
    ReadPhrase (.conditional word middle rest) := by
  intro text mode depth offset lead tail fits deep isLead ends stands
  simp only [Phrase.fits, Bool.and_eq_true] at fits
  obtain ⟨⟨isName, middleFits⟩, restFits⟩ := fits
  have length_eq := Phrase.length_conditional word middle rest
  obtain ⟨smaller, rfl⟩ : ∃ smaller, depth = smaller + 1 := ⟨depth - 1, by omega⟩
  have question_eq : "?".toList = ['?'] := by decide
  have colon_eq : ":".toList = [':'] := by decide
  have here : Stands text offset (lead ++ (word.toList ++ ([' '] ++ ("?".toList ++ ' ' ::
      (middle.text ++ ([' '] ++ (":".toList ++ ' ' :: (rest.text ++ tail)))))))) := by
    simpa [Phrase.text_conditional, question_eq, colon_eq] using stands
  have question := here.behind_word
  have follows : Follows mode ([' '] ++ ("?".toList ++ ' ' ::
      (middle.text ++ ([' '] ++ (":".toList ++ ' ' :: (rest.text ++ tail)))))) :=
    .word (by simp [Phrase.followers]) _
  have nameRead := chainOperand_reads_name smaller.succ_pos isName isLead follows here
  have middleEnds : EndsPhrase .argument
      ([' '] ++ (":".toList ++ ' ' :: (rest.text ++ tail))) := by
    rw [colon_eq]
    exact .colon _
  have middlePlace : Stands text (offset + lead.length + word.length + 2) ([' '] ++
      (middle.text ++ ([' '] ++ (":".toList ++ ' ' :: (rest.text ++ tail))))) :=
    question.behind_word
  have deepMiddle : middle.text.length ≤ smaller := by omega
  obtain ⟨middleFirst, middleLinks, middleLast, middleReads⟩ :=
    middleInner middleFits deepMiddle .blank middleEnds middlePlace
  have middleRead : (ruleWithin .standard (smaller + 1) (.expression .argument)).Reads _ _ _ :=
    middleReads.chain_reads middleEnds middlePlace.advance.2.advance.2
  obtain ⟨linkRead, place⟩ := chainLink_reads_conditional question middleRead
  have deepRest : rest.text.length ≤ smaller + 1 := by omega
  obtain ⟨first, links, last, reads⟩ := restInner restFits deepRest .blank ends place
  refine ⟨_, _, _, reads.cons nameRead linkRead ?_ ?_
    (reduce_linking mode List.mem_cons_self _ _ [_] _) ?_⟩
  · omega
  · omega
  · rw [List.length_singleton]
    omega

theorem readPhrase (phrase : Phrase) : ReadPhrase phrase := by
  induction phrase with
  | name word => exact readPhrase_name word
  | prefixed operator rest ih => exact readPhrase_prefixed operator ih
  | linked word operator rest ih => exact readPhrase_linked word operator ih
  | conditional word middle rest middleIH restIH =>
      exact readPhrase_conditional word middleIH restIH

end Matcher

/-- An expression that is a phrase is read up to its end, and its tree is the one of the
reference parser. -/
theorem matchExpression_eq_shiftReduce {mode : Mode} {phrase : Phrase}
    (fits : phrase.fits mode = true) :
    ∃ trace next, matchExpression .standard mode phrase.text =
        .matched (phrase.shiftReduce mode [] 0).tree next trace ∧
      next.rest = [] ∧ next.offset = phrase.text.length := by
  have stands : Stands phrase.text 0 ([] ++ (phrase.text ++ [])) := ⟨Nat.zero_le _, by simp⟩
  obtain ⟨first, links, middle, reads⟩ :=
    Matcher.readPhrase phrase fits (Nat.le_refl _) .none .ends stands
  obtain ⟨trace, run⟩ := reads.chain_reads .ends stands.advance.2.advance.2
  have tree_eq : (phrase.shiftReduce mode [] 0).tree = phrase.folded mode 0 :=
    @Phrase.tree_shiftReduce mode [] trivial 0 phrase
  rw [tree_eq]
  exact ⟨trace, _, run, by simp, by simp⟩

/-- Prefix operators, a power, a conditional, a list of three items and a modifier in one statement,
and two statements behind it. -/
def mixedPhrase : Phrase :=
  .prefixed "-" (.linked "a" "**" (.conditional "b" (.prefixed "not" (.name "c"))
    (.linked "d" "," (.linked "e" "," (.linked "f" "if" (.linked "g" ";" (.linked "h" ";"
      (.name "i"))))))))

/-- The tree of `- a ** b ? not c : d , e , f if g ; h ; i`, whose lists have three items each. -/
def mixedPhraseTree : Node :=
  let power := (Node.token "**" 4).withChildren
    [(Node.token "-" 0).withChildren [.token "a" 2], .token "b" 7]
  let choice := (Node.token "?" 9).withChildren
    [power, (Node.token "not" 11).withChildren [.token "c" 15], .token "d" 19]
  let items := (Node.token "," 21).withChildren [choice, .token "e" 23, .token "f" 27]
  (Node.token ";" 34).withChildren
    [(Node.token "if" 29).withChildren [items, .token "g" 32], .token "h" 36, .token "i" 40]

theorem matchExpression_eq_shiftReduce_mixed :
    mixedPhrase.fits .statement = true ∧
      (mixedPhrase.shiftReduce .statement [] 0).tree = mixedPhraseTree ∧
      ∃ trace next, matchExpression .standard .statement
          "- a ** b ? not c : d , e , f if g ; h ; i".toList =
            .matched mixedPhraseTree next trace ∧
        next.rest = [] ∧ next.offset = 41 := by
  have fits : mixedPhrase.fits .statement = true := by
    simp only [mixedPhrase, Phrase.fits, Phrase.linkingSpellings, prefixSpellings_eq,
      infixSpellings_eq]
    decide
  have text_eq : mixedPhrase.text = "- a ** b ? not c : d , e , f if g ; h ; i".toList := by
    decide
  have length_eq : mixedPhrase.text.length = 41 := by decide
  have tree_eq : (mixedPhrase.shiftReduce .statement [] 0).tree = mixedPhraseTree := by
    simp only [mixedPhrase, Phrase.shiftReduce, OperatorTables.of_standard]
    rfl
  refine ⟨fits, tree_eq, ?_⟩
  rw [← text_eq, ← length_eq, ← tree_eq]
  exact matchExpression_eq_shiftReduce fits

end RubySyntax
