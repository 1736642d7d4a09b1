import RubySyntax.Proofs.BodyReading

/-!
# Forms behind a head that is known

A text that begins with a known head is read by the form of that head.  If nothing stands
behind the form, the text is a program of one statement.
-/

namespace RubySyntax

theorem Stands.lt_length {text rest : List Char} {offset : Nat} {character : Char}
    (stands : Stands text offset (character :: rest)) : offset < text.length := by
  have length_eq := congrArg List.length stands.drop_eq
  rw [List.length_drop, List.length_cons] at length_eq
  omega

theorem Stands.lands {text lead rest : List Char} {offset : Nat}
    (stands : Stands text offset (lead ++ rest)) (isLead : IsLead lead)
    (starts : startsToken rest = true) :
    Lands (.within text offset) (offset + lead.length) rest := by
  have blank : ∀ character ∈ lead, isBlank character = true := by
    cases isLead <;> decide
  exact Matcher.lands_behind blank starts (by rw [Cursor.rest_within, stands.drop_eq])

namespace Matcher

variable {text lead front back rest : List Char} {offset : Nat}

/-! ### Heads -/

theorem reads_token {kind : Terminal} (stands : Stands text offset (front ++ back))
    (dataOf_eq : kind.dataOf = String.ofList)
    (scanned : kind.scanner (front ++ back) = some front.length) :
    (terminal kind).Reads (.within text offset) (.token (String.ofList front) offset)
      (.within text (offset + front.length)) := by
  refine reads_terminal.mpr ⟨front.length, ?_, ?_, stands.advance.1.symm⟩
  · rw [Cursor.rest_within, stands.drop_eq, scanned]
  · rw [leafAt, dataOf_eq, Cursor.rest_within, stands.drop_eq, List.take_left]
    rfl

theorem punctuation_here (symbol : String) (rest : List Char) :
    Lexeme.punctuation symbol "" (symbol.toList ++ rest) = some symbol.toList.length := by
  have begins : symbol.toList.isPrefixOf (symbol.toList ++ rest) = true :=
    List.isPrefixOf_iff_prefix.mpr (List.prefix_append _ _)
  have free : ∀ text : List Char, startsWithChar "".toList.contains text = false := by
    intro text
    cases text <;> rfl
  rw [Lexeme.punctuation, begins, free, String.length_toList]
  rfl

theorem primary_reads_form {rules : Rules} (stands : Stands text offset (lead ++ rest))
    (isLead : IsLead lead) (starts : startsToken rest = true) {before behind : List (Matcher Node)}
    {form : Matcher Node} (split : operandForms rules = before ++ form :: behind)
    (unread : (operandTerminals.take before.length).all
      (fun kind => (kind.scanner rest).isNone) = true)
    {node : Node} {next : Cursor} (reads : form.Reads (.within text (offset + lead.length)) node next) :
    (primary rules).Reads (.within text offset) node next := by
  refine primary_reads_of_lands rules (stands.lands isLead starts) split
    (by simpa using unread) ?_
  have advanced : (Cursor.within text offset).advance
      (Skip.blanks.length (Cursor.within text offset).rest) = .within text (offset + lead.length) :=
    advance_lead (by decide) stands isLead starts
  rwa [advanced]

/-- The operators in front of an operand of a statement. -/
def prefixWords : List String :=
  ["!", "~", "+", "-", "*", "**", "&", "defined?", "not"]

theorem prefixSpellings_statement :
    (OperatorTables.standard.of .statement).prefixSpellings = prefixWords :=
  prefixSpellings_eq .statement

theorem prefixed_rejects_form (rules : Rules)
    (stands : Stands text offset (lead ++ rest)) (isLead : IsLead lead)
    (starts : startsToken rest = true)
    (unread : prefixWords.all (fun word => (Lexeme.spelling word rest).isNone) = true) :
    (prefixed .standard rules .statement).Rejects (.within text offset) := by
  have noWord : Lexeme.oneOf prefixWords rest = none :=
    oneOf_eq_none (by decide) fun word member => by
      simpa using List.all_eq_true.mp unread word member
  refine rejects_bind.mpr (Or.inl (spaced_terminal_rejects (stands.lands isLead starts) ?_))
  rw [prefixSpellings_statement]
  exact noWord

/-! ### Ends of operands -/

/-- Behind blanks something stands, where no comment does. -/
theorem lands_plain (plain : IsPlain text) (inside : offset ≤ text.length) :
    Lands (.within text offset) (offset + Skip.blanks.length (text.drop offset))
      ((text.drop offset).drop (Skip.blanks.length (text.drop offset))) := by
  obtain ⟨blanks, rest, drop_eq, blank, solid, landing⟩ :=
    exists_countWhile isBlank (text.drop offset)
  have lands := lands_within plain.unmarked inside drop_eq blank solid
    (CommentSpan.ofLine?_eq_none fun member => plain.noSign
      (List.mem_of_mem_drop (drop_eq ▸ List.mem_append_right blanks member)))
  rw [Skip.length, landing]
  rwa [drop_eq, List.drop_left]

/-- What stands behind a break is no member unless it begins with a dot. -/
theorem memberSuffix_rejects {cursor : Cursor} (lands : Lands cursor offset rest)
    (apart : StartsApart rest) : memberSuffix.Rejects cursor := by
  refine rejects_bind.mpr (Or.inl (spaced_rejects_of_lands lands (rejects_orElse.mpr ⟨?_, ?_⟩))) <;>
  · refine rejects_terminal.mpr ?_
    rw [lands.rest_eq]
    exact apart.punctuation (by decide) _

section

variable (rules : Rules) (isBreak : IsBreak rest) (stands : Stands text offset rest)
include isBreak stands

/-- What has to touch the operand does not stand in front of a break. -/
theorem bracketSuffix_rejects_break {tag opening closer : String} (solid : IsSolid opening.toList)
    (filled : Lexeme.punctuation opening "" [] = none) :
    (bracketSuffix rules tag opening closer).Rejects (.within text offset) :=
  rejects_bind.mpr (Or.inl (rejects_bind.mpr (Or.inl
    (punctuation_rejects_break ⟨solid, by decide⟩ filled isBreak stands))))

theorem scopeSuffix_rejects_break : scopeSuffix.Rejects (.within text offset) :=
  rejects_bind.mpr (Or.inl
    (punctuation_rejects_break (by decide) (by decide) isBreak stands))

variable (member : memberSuffix.Rejects (.within text offset))
include member

theorem suffix_rejects_break (block : (blockSuffix rules).Rejects (.within text offset)) :
    (suffix rules).Rejects (.within text offset) := by
  refine rejects_firstOf ?_
  simp only [List.forall_mem_cons, List.not_mem_nil, false_implies, implies_true, and_true]
  exact ⟨bracketSuffix_rejects_break rules isBreak stands (by decide) (by decide),
    bracketSuffix_rejects_break rules isBreak stands (by decide) (by decide), member,
    scopeSuffix_rejects_break isBreak stands, block⟩

theorem suffix_reads_block {block : Suffix} {next : Cursor}
    (read : (blockSuffix rules).Reads (.within text offset) block next) :
    (suffix rules).Reads (.within text offset) block next :=
  reads_firstOf_cons.mpr (Or.inr
    ⟨bracketSuffix_rejects_break rules isBreak stands (by decide) (by decide),
      reads_firstOf_cons.mpr (Or.inr
        ⟨bracketSuffix_rejects_break rules isBreak stands (by decide) (by decide),
          reads_firstOf_cons.mpr (Or.inr ⟨member, reads_firstOf_cons.mpr (Or.inr
            ⟨scopeSuffix_rejects_break isBreak stands,
              reads_firstOf_cons.mpr (Or.inl read)⟩)⟩)⟩)⟩)

end

theorem suffix_rejects_end (rules : Rules) (text : List Char) :
    (suffix rules).Rejects (.within text text.length) :=
  have follows : Follows .statement [] := .ends
  suffix_rejects rules follows ⟨Nat.le_refl _, List.drop_length⟩

theorem operand_reads_end {rules : Rules} {node : Node}
    (read : (primary rules).Reads (.within text offset) node (.within text text.length)) :
    (operand rules).Reads (.within text offset) node (.within text text.length) :=
  reads_bind.mpr ⟨_, _, read, reads_bind.mpr ⟨[], _,
    reads_many .nil (suffix_rejects_end rules text) (Nat.zero_le _), reads_pure.mpr ⟨rfl, rfl⟩⟩⟩

theorem operand_reads_suffix {rules : Rules} {first : Node} {wrapped : Suffix} {stop : Nat}
    (read : (primary rules).Reads (.within text offset) first (.within text stop))
    (short : stop < text.length)
    (suffixRead : (suffix rules).Reads (.within text stop) wrapped (.within text text.length)) :
    (operand rules).Reads (.within text offset) (Suffix.attach first wrapped)
      (.within text text.length) := by
  have filled : [wrapped].length ≤ (Cursor.within text stop).rest.length := by
    rw [Cursor.rest_within, List.length_drop, List.length_singleton]
    omega
  exact reads_bind.mpr ⟨_, _, read, reads_bind.mpr ⟨[wrapped], _, reads_many
    (.cons suffixRead .nil) (suffix_rejects_end _ text) filled, reads_pure.mpr ⟨rfl, rfl⟩⟩⟩

theorem commentsBefore_end (kind : Skip) (text : List Char) :
    (commentsBefore kind).Reads (.within text text.length) [] (.within text text.length) := by
  refine reads_many .nil (rejects_afterSkip.mpr (rejects_orElse.mpr
    ⟨rejects_blockComment.mpr fun _ => ?_, rejects_commentOf.mpr ?_⟩)) (Nat.zero_le _) <;>
  · rw [Cursor.rest_advance, Cursor.rest_within, List.drop_length, List.drop_nil]
    rfl

/-- A text that is one operand is a program of one statement. -/
theorem parse_of_operand (solid : startsWithChar Lexeme.isGap text = false)
    (starts : startsToken text = true)
    (noPrefix : prefixWords.all (fun word => (Lexeme.spelling word text).isNone) = true)
    {node : Node}
    (read : (operand (rule .standard)).Reads (.within text 0) node (.within text text.length)) :
    ∃ tree, parse .standard text = .ok tree ∧ tree.bare = node.bare := by
  have ended : (Cursor.within text text.length).rest = [] := by
    rw [Cursor.rest_within, List.drop_length]
  have noArguments : (scan Lexeme.commandStart).Rejects (.within text text.length) := by
    rw [rejects_scan, ended]
    rfl
  have noStep : (chainStep .standard (rule .standard) .statement).Rejects
      (.within text text.length) :=
    chainStep_rejects_of_closing closesBody_nil (List.forall_mem_nil _) ended
  have called : (commandCall (rule .standard)).Reads (.within text 0) node
      (.within text text.length) :=
    reads_bind.mpr ⟨_, _, read, reads_bind.mpr ⟨none, _, reads_optional.mpr (Or.inr
      ⟨rfl, rfl, rejects_bind.mpr (Or.inl noArguments)⟩), reads_pure.mpr ⟨rfl, rfl⟩⟩⟩
  have statement : (rule .standard (.expression .statement)).Reads (.within text 0) node
      (.within text text.length) := by
    rw [rule_eq_production usable_standard]
    exact reads_bind.mpr ⟨node, _, reads_orElse.mpr (Or.inr
      ⟨prefixed_rejects_form _ ⟨Nat.zero_le _, List.nil_append _⟩ .none starts noPrefix, called⟩),
      reads_bind.mpr ⟨[], _, reads_many .nil noStep (Nat.zero_le _),
        reads_ofReduction.mpr ⟨rfl, rfl⟩⟩⟩
  have noGap : Skip.gap.length text = 0 :=
    @Lexeme.length_gap [] text (List.forall_mem_nil _) solid
  have bodyRead : (body (rule .standard)).Reads (.within text 0) node
      (.within text text.length) := by
    rw [reads_body_iff, Cursor.rest_within, List.drop_zero, noGap]
    exact Or.inl statement
  exact ⟨_, parse_of_body (commentsBefore_end .gap text) bodyRead (by simp), Node.bare_resolve _ _⟩

end Matcher

end RubySyntax
