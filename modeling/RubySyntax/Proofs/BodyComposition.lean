import RubySyntax.Proofs.HeadReading

/-!
# Programs as bodies

A program that leaves nothing open at its end is read alike as the body of a group, a
brace block, a method, a class or a module.
-/

namespace RubySyntax

namespace Matcher

variable {text front lead source gap closing : List Char}

/-- In a text without comments a closing token is read behind a gap. -/
theorem closing_reads {offset : Nat} (plain : IsPlain text) (inside : offset ≤ text.length)
    (drop_eq : text.drop offset = gap ++ closing)
    (spacing : ∀ character ∈ gap, Lexeme.isGap character = true)
    (solid : startsWithChar Lexeme.isGap closing = false) {closer : Terminal}
    (scanned : closer.scanner closing = some closing.length) :
    (Matcher.closing (terminal closer) .gap).Reads (.within text offset) []
      (.within text text.length) := by
  have lengths := congrArg List.length drop_eq
  rw [List.length_drop, List.length_append] at lengths
  have landing : Skip.gap.length (Cursor.within text offset).rest = gap.length := by
    rw [Cursor.rest_within, drop_eq]
    exact Lexeme.length_gap spacing solid
  have rest_eq : (Cursor.within text (offset + gap.length)).rest = closing := by
    rw [Cursor.rest_within, ← List.drop_drop, drop_eq, List.drop_left]
  have ended : (Cursor.within text (offset + gap.length)).advance closing.length =
      .within text text.length := by
    rw [Cursor.advance_within (by omega)]
    congr 1
    omega
  refine reads_bind.mpr ⟨[], _, ⟨[], commentsBefore_plain plain .gap inside⟩, reads_bind.mpr
    ⟨_, _, reads_afterSkip.mpr (reads_terminal.mpr ⟨closing.length, ?_, rfl, rfl⟩),
      reads_pure.mpr ⟨rfl, ?_⟩⟩⟩
  · rw [landing, Cursor.advance_within (by omega), rest_eq, scanned]
  · rw [landing, Cursor.advance_within (by omega), ended]

theorem bodyUpTo_reads (text_eq : text = front ++ (lead ++ (source ++ (gap ++ closing))))
    (plain : IsPlain text) {tree : Node} (parsed : parse .standard source = .ok tree)
    (shut : LeavesNothingOpen source)
    (leadSpacing : ∀ character ∈ lead, Lexeme.isGap character = true)
    (spacing : ∀ character ∈ gap, Lexeme.isGap character = true)
    (trails : Trails .statement (gap ++ closing)) (closes : ClosesBody closing) {closer : Terminal}
    (scanned : closer.scanner closing = some closing.length) :
    (∃ node, (bodyUpTo (rule .standard) (Matcher.closing (terminal closer) .gap)).Reads
        (.within text front.length) node (.within text text.length) ∧ node.bare = tree.bare) ∧
      StartsApart ((text.drop front.length).drop
        (Skip.blanks.length (text.drop front.length))) := by
  subst text_eq
  obtain ⟨-, behindPlain⟩ := plain.of_append
  obtain ⟨-, sourcePlain⟩ := behindPlain.of_append
  obtain ⟨node, stop, inside, read, trailing, same⟩ :=
    body_reads_enclosed sourcePlain parsed shut spacing trails closes
  obtain ⟨moved, last, before, within, movedRead, rest_eq, beforeSpacing, movedSame⟩ :=
    body_reads_behind_gap behindPlain leadSpacing (by
      rw [List.length_append]
      omega) read
  have drop_eq : (lead ++ (source ++ (gap ++ closing))).drop last =
      (before ++ source.drop stop ++ gap) ++ closing := by
    rw [rest_eq, List.drop_append_of_le_length inside]
    simp
  have restSpacing : ∀ character ∈ before ++ source.drop stop ++ gap,
      Lexeme.isGap character = true :=
    List.forall_mem_append.mpr ⟨List.forall_mem_append.mpr ⟨beforeSpacing, trailing⟩, spacing⟩
  obtain ⟨final, finalRead, finalSame⟩ := body_reads_behind plain movedRead
  refine ⟨⟨final.appendComments [], ?_, by simp [finalSame, movedSame, same]⟩, ?_⟩
  · refine reads_bind.mpr ⟨final, _, finalRead, reads_bind.mpr ⟨[], _,
      closing_reads plain ?_ ?_ restSpacing closes.solid scanned, reads_pure.mpr ⟨rfl, rfl⟩⟩⟩
    · rw [List.length_append]
      omega
    · rw [← List.drop_drop, List.drop_left, drop_eq]
  · rw [List.drop_left]
    exact startsApart_of_body behindPlain closes movedRead drop_eq restSpacing

/-! ### Heads of bodies -/

section

variable {rest : List Char} {offset : Nat} {node : Node} {last : Cursor}

theorem onSameLine_rejects_line {α : Type} {matcher : Matcher α}
    (stands : Stands text offset ('\n' :: rest)) (rejects : matcher.Rejects (.within text offset)) :
    (onSameLine matcher).Rejects (.within text offset) := by
  have here : (Cursor.within text offset).advance
      (Skip.horizontal.length (Cursor.within text offset).rest) = .within text offset := by
    rw [Cursor.rest_within, stands.drop_eq]
    rfl
  rw [onSameLine, rejects_afterSkip, here]
  exact rejects

/-- A name at the end of its line is an operand, if no member goes on behind the line. -/
theorem operand_reads_line {name : String} (isName : Phrase.isName name = true)
    (stands : Stands text offset ([' '] ++ (name.toList ++ '\n' :: rest)))
    (noMember : memberSuffix.Rejects (.within text (offset + 1 + name.length))) :
    (rule .standard .operand).Reads (.within text offset) (.token name (offset + 1))
      (.within text (offset + 1 + name.length)) := by
  have isBreak : IsBreak ('\n' :: rest) := .mark (by decide) rest
  have behind : Stands text (offset + 1 + name.length) ('\n' :: rest) := stands.behind_word
  have noBlock : (blockSuffix (rule .standard)).Rejects (.within text (offset + 1 + name.length)) :=
    rejects_bind.mpr (Or.inl (onSameLine_rejects_line behind (rejects_bind.mpr (Or.inl
      (punctuation_rejects_break (by decide) (by decide) isBreak behind)))))
  rw [rule_eq_production usable_standard]
  exact reads_bind.mpr ⟨_, _, primary_reads_name _ isName isBreak .blank stands,
    reads_bind.mpr ⟨[], _, reads_many .nil (suffix_rejects_break _ isBreak behind noMember noBlock)
      (Nat.zero_le _), reads_pure.mpr ⟨rfl, rfl⟩⟩⟩

theorem group_reads {rules : Rules} (stands : Stands text 0 ('(' :: rest))
    (read : (bodyUpTo rules (closingBody ")")).Reads (.within text 1) node last) :
    (primary rules).Reads (.within text 0) ((Node.token "(" 0).withChildren [node]) last := by
  have whole : Stands text 0 ([] ++ (['('] ++ rest)) := stands
  have opened : (punctuation "(").Reads (.within text 0) (.token "(" 0) (.within text 1) :=
    reads_token whole rfl (punctuation_here "(" rest)
  have split : operandForms rules = (earlyOperands rules ++ [terminal .identifier]) ++ group rules ::
      [container rules "[" "]", container rules "\x7b" "\x7d"] := rfl
  refine primary_reads_form whole .none rfl split rfl ?_
  exact reads_bind.mpr ⟨_, _, opened, reads_bind.mpr ⟨_, _, read, reads_pure.mpr ⟨rfl, rfl⟩⟩⟩

theorem method_reads {rules : Rules}
    (stands : Stands text 0 ('d' :: 'e' :: 'f' :: ' ' :: 'm' :: '\n' :: rest))
    (read : (bodyUpToEnd rules).Reads (.within text 5) node last) :
    (primary rules).Reads (.within text 0)
      ((Node.token "def" 0).withChildren [.token "m" 4, .emptyAt (5 : Nat), node]) last := by
  have whole : Stands text 0 ([] ++ (['d', 'e', 'f'] ++ (' ' :: 'm' :: '\n' :: rest))) := stands
  have named : Stands text 3 ([' '] ++ (['m'] ++ ('\n' :: rest))) := whole.advance.2.advance.2
  have behind : Stands text 5 ('\n' :: rest) := named.advance.2.advance.2
  have isBreak : IsBreak ('\n' :: rest) := .mark (by decide) rest
  have keywordRead : (keyword "def").Reads (.within text 0) (.token "def" 0) (.within text 3) :=
    reads_token stands rfl rfl
  have nameRead : (spaced (terminal .methodName)).Reads (.within text 3) (.token "m" 4)
      (.within text 5) :=
    spaced_reads named .blank rfl (reads_token named.advance.2 rfl rfl)
  have noDot : (punctuation ".").Rejects (.within text 5) :=
    punctuation_rejects_break (by decide) (by decide) isBreak behind
  have defined : definedName.Reads (.within text 3) (.token "m" 4) (.within text 5) :=
    reads_bind.mpr ⟨_, _, nameRead, reads_bind.mpr ⟨none, _, reads_optional.mpr (Or.inr
      ⟨rfl, rfl, rejects_bind.mpr (Or.inl noDot)⟩), reads_pure.mpr ⟨rfl, rfl⟩⟩⟩
  have noParameters : ((parenthesizedParameters rules).orElse (bareParameters rules)).Rejects
      (.within text 5) := by
    refine rejects_orElse.mpr ⟨rejects_bind.mpr (Or.inl (onSameLine_rejects_line behind
      (punctuation_rejects_break (by decide) (by decide) isBreak behind))),
      rejects_bind.mpr (Or.inl (rejects_scan.mpr ?_))⟩
    rw [Cursor.rest_within, behind.drop_eq]
    rfl
  have split : operandForms rules = [] ++ methodDefinition rules :: (operandForms rules).tail := rfl
  refine primary_reads_form whole .none rfl split rfl ?_
  exact reads_bind.mpr ⟨_, _, keywordRead, reads_bind.mpr ⟨_, _, reads_bind.mpr ⟨_, _, defined,
    reads_bind.mpr ⟨_, _, reads_orEmpty_iff.mpr (Or.inr ⟨rfl, rfl, noParameters⟩), reads_bind.mpr
    ⟨_, _, read, reads_pure.mpr ⟨rfl, rfl⟩⟩⟩⟩, reads_pure.mpr ⟨rfl, rfl⟩⟩⟩

section

variable {place : Nat} {behind : List Char} (apart : StartsApart behind)
include apart

theorem class_reads
    (stands : Stands text 0 ('c' :: 'l' :: 'a' :: 's' :: 's' :: ' ' :: 'C' :: '\n' :: rest))
    (lands : Lands (.within text 7) place behind)
    (read : (bodyUpToEnd (rule .standard)).Reads (.within text 7) node last) :
    (primary (rule .standard)).Reads (.within text 0)
      ((Node.token "class" 0).withChildren [.token "C" 6, .emptyAt (7 : Nat), node]) last := by
  have whole : Stands text 0 ([] ++ (['c', 'l', 'a', 's', 's'] ++
      (' ' :: 'C' :: '\n' :: rest))) := stands
  have named : Stands text 5 ([' '] ++ ("C".toList ++ ('\n' :: rest))) := whole.advance.2.advance.2
  have keywordRead : (keyword "class").Reads (.within text 0) (.token "class" 0)
      (.within text 5) :=
    reads_token stands rfl rfl
  have noTarget : (singletonTarget (rule .standard)).Rejects (.within text 5) :=
    rejects_bind.mpr (Or.inl (spaced_terminal_rejects (named.lands .blank rfl) rfl))
  have nameRead := operand_reads_line (by decide) named (memberSuffix_rejects lands apart)
  have noParent : (parentClass (rule .standard)).Rejects (.within text 7) :=
    rejects_bind.mpr (Or.inl (spaced_terminal_rejects lands (apart.punctuation (by decide) _)))
  have split : operandForms (rule .standard) = [methodDefinition (rule .standard)] ++
      classDefinition (rule .standard) :: (operandForms (rule .standard)).drop 2 := rfl
  refine primary_reads_form whole .none rfl split rfl ?_
  exact reads_bind.mpr ⟨_, _, keywordRead, reads_bind.mpr ⟨_, _, reads_bind.mpr ⟨_, _,
    reads_orElse.mpr (Or.inr ⟨noTarget, reads_bind.mpr ⟨_, _, nameRead, reads_bind.mpr ⟨_, _,
      reads_orEmpty_iff.mpr (Or.inr ⟨rfl, rfl, noParent⟩), reads_pure.mpr ⟨rfl, rfl⟩⟩⟩⟩),
    reads_bind.mpr ⟨_, _, read, reads_pure.mpr ⟨rfl, rfl⟩⟩⟩, reads_pure.mpr ⟨rfl, rfl⟩⟩⟩

theorem module_reads
    (stands : Stands text 0 ('m' :: 'o' :: 'd' :: 'u' :: 'l' :: 'e' :: ' ' :: 'M' :: '\n' :: rest))
    (lands : Lands (.within text 8) place behind)
    (read : (bodyUpToEnd (rule .standard)).Reads (.within text 8) node last) :
    (primary (rule .standard)).Reads (.within text 0)
      ((Node.token "module" 0).withChildren [.token "M" 7, node]) last := by
  have whole : Stands text 0 ([] ++ (['m', 'o', 'd', 'u', 'l', 'e'] ++
      (' ' :: 'M' :: '\n' :: rest))) := stands
  have named : Stands text 6 ([' '] ++ ("M".toList ++ ('\n' :: rest))) := whole.advance.2.advance.2
  have keywordRead : (keyword "module").Reads (.within text 0) (.token "module" 0)
      (.within text 6) :=
    reads_token stands rfl rfl
  have nameRead := operand_reads_line (by decide) named (memberSuffix_rejects lands apart)
  have split : operandForms (rule .standard) =
      [methodDefinition (rule .standard), classDefinition (rule .standard)] ++
        moduleDefinition (rule .standard) :: (operandForms (rule .standard)).drop 3 := rfl
  refine primary_reads_form whole .none rfl split rfl ?_
  exact reads_bind.mpr ⟨_, _, keywordRead, reads_bind.mpr ⟨_, _, reads_bind.mpr ⟨_, _, nameRead,
    reads_bind.mpr ⟨_, _, read, reads_pure.mpr ⟨rfl, rfl⟩⟩⟩, reads_pure.mpr ⟨rfl, rfl⟩⟩⟩

/-- A name with a brace block is a call without arguments. -/
theorem block_reads (stands : Stands text 0 ('f' :: ' ' :: '\x7b' :: rest))
    (behind_eq : (text.drop 3).drop (Skip.blanks.length (text.drop 3)) = behind)
    (read : (bodyUpTo (rule .standard) (closingBody "\x7d")).Reads (.within text 3) node
      (.within text text.length)) :
    (operand (rule .standard)).Reads (.within text 0)
      (Suffix.attachBlock (.token "f" 0)
        { data := Tag.block, children := [.emptyAt (3 : Nat), node], offset := some ((2 : Nat) : Int) })
      (.within text text.length) := by
  have whole : Stands text 0 ([] ++ ("f".toList ++ (' ' :: '\x7b' :: rest))) := stands
  have gapped : Stands text 1 ([' '] ++ (['\x7b'] ++ rest)) := whole.advance.2.advance.2
  have braced : Stands text 2 (['\x7b'] ++ rest) := gapped.advance.2
  have nameRead := primary_reads_name (rule .standard) (by decide) (.blank _) .none whole
  have opened : (punctuation "\x7b").Reads (.within text 2) (.token "\x7b" 2) (.within text 3) :=
    reads_token braced rfl (punctuation_here "\x7b" rest)
  have noParameters : (blockParameters (rule .standard)).Rejects (.within text 3) := by
    refine rejects_bind.mpr (Or.inl (rejects_afterSkip.mpr (rejects_terminal.mpr ?_)))
    rw [Cursor.rest_advance, Cursor.rest_within, behind_eq]
    exact apart.punctuation (by decide) _
  have noMember : memberSuffix.Rejects (.within text 1) :=
    memberSuffix_rejects (gapped.lands .blank rfl) (.mark (by decide) rest)
  have blockRead : (blockSuffix (rule .standard)).Reads (.within text 1) (.block _)
      (.within text text.length) :=
    reads_bind.mpr ⟨_, _, afterSkip_reads gapped .blank rfl (by decide) (reads_bind.mpr
      ⟨_, _, opened, reads_bind.mpr ⟨_, _, reads_orEmpty_iff.mpr (Or.inr ⟨rfl, rfl, noParameters⟩),
        reads_bind.mpr ⟨_, _, read, reads_pure.mpr ⟨rfl, rfl⟩⟩⟩⟩), reads_pure.mpr ⟨rfl, rfl⟩⟩
  have suffixRead := suffix_reads_block (rule .standard) (.blank _) gapped noMember blockRead
  exact operand_reads_suffix nameRead gapped.lt_length suffixRead

end

end

end Matcher

/-! ### Programs as bodies -/

/-- A construct around statements. -/
inductive BodyForm where
  | group
  | block
  | method
  | classBody
  | moduleBody
deriving DecidableEq, Repr

namespace BodyForm

def head : BodyForm → List Char
  | group => ['(']
  | block => ['f', ' ', '\x7b']
  | method => ['d', 'e', 'f', ' ', 'm']
  | classBody => ['c', 'l', 'a', 's', 's', ' ', 'C']
  | moduleBody => ['m', 'o', 'd', 'u', 'l', 'e', ' ', 'M']

/-- What stands on both sides of the statements. -/
def gap : BodyForm → List Char
  | group => []
  | block => [' ']
  | method => ['\n']
  | classBody => ['\n']
  | moduleBody => ['\n']

def closing : BodyForm → List Char
  | group => [')']
  | block => ['\x7d']
  | method => ['e', 'n', 'd']
  | classBody => ['e', 'n', 'd']
  | moduleBody => ['e', 'n', 'd']

def wrap (form : BodyForm) (source : List Char) : List Char :=
  form.head ++ (form.gap ++ (source ++ (form.gap ++ form.closing)))

example : method.wrap "a\nb".toList = "def m\na\nb\nend".toList := by
  decide +kernel

/-- The placeholder of what the construct leaves out. -/
def vacant : Node :=
  { data := Tag.empty }

/-- The tree of the construct over the tree of its body. -/
def around (form : BodyForm) (body : Node) : Node :=
  match form with
  | group => { data := Tag.group, children := [body] }
  | block =>
    { data := Tag.invoke
      children := [{ data := "f" }, { data := Tag.list },
        { data := Tag.block, children := [vacant, body] }] }
  | method => { data := "def", children := [{ data := "m" }, vacant, body] }
  | classBody => { data := "class", children := [{ data := "C" }, vacant, body] }
  | moduleBody => { data := "module", children := [{ data := "M" }, body] }

def closer : BodyForm → Terminal
  | group => .punctuation ")"
  | block => .punctuation "\x7d"
  | method => .keyword "end"
  | classBody => .keyword "end"
  | moduleBody => .keyword "end"

variable (form : BodyForm)

theorem gap_spacing : ∀ character ∈ form.gap, Lexeme.isGap character = true := by
  cases form <;> decide

theorem closer_scans : form.closer.scanner form.closing = some form.closing.length := by
  cases form <;> decide

theorem closing_closes : Matcher.ClosesBody form.closing := by
  cases form <;> exact Matcher.closesBody_of_closing (by decide)

theorem closing_trails : Trails .statement (form.gap ++ form.closing) := by
  cases form with
  | group => exact .closer (by decide) []
  | block => exact .gap (by decide) (.closer (by decide) [])
  | method | classBody | moduleBody => exact .feed _

theorem wrap_solid (source : List Char) :
    startsWithChar Lexeme.isGap (form.wrap source) = false := by
  cases form <;> rfl

theorem wrap_startsToken (source : List Char) : startsToken (form.wrap source) = true := by
  cases form <;> rfl

theorem wrap_noPrefix (source : List Char) : Matcher.prefixWords.all
    (fun word => (Lexeme.spelling word (form.wrap source)).isNone) = true := by
  cases form <;> rfl

theorem wrap_plain {source : List Char} (plain : IsPlain source) : IsPlain (form.wrap source) := by
  have onLine {head closing : List Char} (headPlain : IsPlain head)
      (closingPlain : IsPlain closing) :
      IsPlain (head ++ '\n' :: (source ++ '\n' :: closing)) :=
    headPlain.append_cons (by decide) (plain.append_cons (by decide) closingPlain)
  cases form with
  | group =>
      have nothing : IsPlain [] := by decide
      exact nothing.append_cons (by decide) (plain.append_cons (by decide) nothing)
  | block =>
      have headPlain : IsPlain ['f', ' ', '\x7b'] := by decide
      exact headPlain.append_cons (by decide)
        (plain.append_cons (by decide) (by decide))
  | method | classBody | moduleBody =>
      exact onLine (by decide) (by decide)

theorem operand_reads {source : List Char} {node : Node} (plain : IsPlain (form.wrap source))
    (apart : StartsApart (((form.wrap source).drop form.head.length).drop
      (Skip.blanks.length ((form.wrap source).drop form.head.length))))
    (read : (Matcher.bodyUpTo (Matcher.rule .standard)
      (Matcher.closing (Matcher.terminal form.closer) .gap)).Reads
        (.within (form.wrap source) form.head.length) node
        (.within (form.wrap source) (form.wrap source).length)) :
    ∃ whole, (Matcher.operand (Matcher.rule .standard)).Reads (.within (form.wrap source) 0) whole
        (.within (form.wrap source) (form.wrap source).length) ∧
      whole.bare = form.around node.bare := by
  have stands : Stands (form.wrap source) 0 (form.wrap source) := ⟨Nat.zero_le _, rfl⟩
  have inside : form.head.length ≤ (form.wrap source).length := by simp [wrap]
  have lands := Matcher.lands_plain plain inside
  cases form with
  | group => exact ⟨_, Matcher.operand_reads_end (Matcher.group_reads stands read), rfl⟩
  | block => exact ⟨_, Matcher.block_reads apart stands rfl read, rfl⟩
  | method => exact ⟨_, Matcher.operand_reads_end (Matcher.method_reads stands read), rfl⟩
  | classBody =>
      exact ⟨_, Matcher.operand_reads_end (Matcher.class_reads apart stands lands read), rfl⟩
  | moduleBody =>
      exact ⟨_, Matcher.operand_reads_end (Matcher.module_reads apart stands lands read), rfl⟩

theorem around_bare (body : Node) : (form.around body).bare = form.around body.bare := by
  cases form <;> rfl

end BodyForm

/-- A program that leaves nothing open is the body of every construct around it. -/
theorem parse_wrap (form : BodyForm) {source : List Char} {sourceTree : Node}
    (parsed : parse .standard source = .ok sourceTree) (plain : IsPlain source)
    (shut : LeavesNothingOpen source) :
    ∃ tree, parse .standard (form.wrap source) = .ok tree ∧
      (tree == form.around sourceTree) = true := by
  have wholePlain := form.wrap_plain plain
  obtain ⟨⟨body, read, same⟩, apart⟩ := Matcher.bodyUpTo_reads rfl wholePlain parsed shut
    form.gap_spacing form.gap_spacing form.closing_trails form.closing_closes form.closer_scans
  obtain ⟨whole, wholeRead, wholeSame⟩ := form.operand_reads wholePlain apart read
  obtain ⟨tree, wholeParsed, treeSame⟩ := Matcher.parse_of_operand
    (form.wrap_solid source) (form.wrap_startsToken source) (form.wrap_noPrefix source) wholeRead
  refine ⟨tree, wholeParsed, Node.beq_iff_bare.mpr ?_⟩
  rw [treeSame, wholeSame, same, form.around_bare]

theorem parse_wrap_member :
    ∃ source tree, parse .standard "a.b = c\nd".toList = .ok source ∧
      parse .standard (BodyForm.classBody.wrap "a.b = c\nd".toList) = .ok tree ∧
      (tree == BodyForm.classBody.around source) = true := by
  have accepted : accepts .standard "a.b = c\nd".toList = true := by
    rw [OperatorTables.standard_eq]
    decide +kernel
  obtain ⟨source, parsed⟩ := accepts_iff.mp accepted
  have shut : LeavesNothingOpen "a.b = c\nd".toList := by
    refine Or.inr ⟨"a.b = c\nd".toList, [], rfl, by decide, ?_⟩
    rw [matchStatements, OperatorTables.standard_eq]
    decide +kernel
  obtain ⟨tree, wrapped, same⟩ := parse_wrap .classBody parsed (by decide) shut
  exact ⟨source, tree, parsed, wrapped, same⟩

/-- The name of a module was read with a block, which the brace behind the program closes. -/
theorem parse_wrap_open :
    IsPlain "module M \x7ba\n/b\x7d end/ -c".toList ∧
    (∃ tree, parse .standard "module M \x7ba\n/b\x7d end/ -c".toList = .ok tree) ∧
    ¬ ∃ tree, parse .standard
      (BodyForm.block.wrap "module M \x7ba\n/b\x7d end/ -c".toList) = .ok tree := by
  simp only [← accepts_iff, OperatorTables.standard_eq]
  decide +kernel

end RubySyntax
