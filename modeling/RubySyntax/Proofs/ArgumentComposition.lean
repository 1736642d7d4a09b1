import RubySyntax.Proofs.HeadReading

/-!
# Arguments between brackets

Expressions that are read as arguments and leave nothing open at their ends are read alike
as the arguments of a call or of an index and as the elements of an array: no comma and no
neighbour is absorbed by any of them.
-/

namespace RubySyntax

/-! ### Lines of longer texts -/

namespace IsUnmarked

variable {front back : List Char}

/-- Behind other text only a first line is not looked at as a line of its own. -/
theorem behind (unmarked : IsUnmarked (front ++ back))
    (first : CommentSpan.startsMarker "=begin" back = false) : IsUnmarked back := by
  intro offset starts
  cases offset with
  | zero => exact first
  | succ offset =>
      have clean := unmarked _ ((startsLine_append_behind front (Nat.succ_pos offset)).trans starts)
      rwa [← List.drop_drop, List.drop_left] at clean

theorem append_break (frontUnmarked : IsUnmarked front) (isBreak : IsBreak back)
    (backUnmarked : IsUnmarked back) : IsUnmarked (front ++ back) := by
  intro offset starts
  rcases Nat.lt_or_ge front.length offset with beyond | inside
  · obtain ⟨inner, rfl⟩ : ∃ inner, offset = front.length + inner := ⟨offset - front.length, by omega⟩
    rw [startsLine_append_behind front (by omega)] at starts
    rw [← List.drop_drop, List.drop_left]
    exact backUnmarked inner starts
  · rw [startsLine_append inside] at starts
    rw [List.drop_append_of_le_length inside, CommentSpan.startsMarker_append_break (by decide) isBreak]
    exact frontUnmarked offset starts

/-- A character that neither ends a line nor begins a marker starts no comment. -/
theorem cons {character : Char} (apart : character ≠ '=' ∧ character ≠ '\n')
    (unmarked : IsUnmarked back) : IsUnmarked (character :: back) := by
  intro offset starts
  match offset with
  | 0 =>
      have equals : "=begin".toList = '=' :: "begin".toList := by decide
      simp [CommentSpan.startsMarker, equals, List.isPrefixOf, apart.1.symm]
  | 1 => simp [startsLine, apart.2] at starts
  | offset + 2 => exact unmarked (offset + 1) starts

end IsUnmarked

theorem intercalate_cons_flatMap (separator first : List Char) (others : List (List Char)) :
    separator.intercalate (first :: others) = first ++ others.flatMap (separator ++ ·) := by
  induction others generalizing first with
  | nil => simp
  | cons other others ih =>
      rw [List.intercalate_cons_cons, ih, List.flatMap_cons, List.append_assoc, List.append_assoc]

/-! ### Single arguments -/

/-- A text that is read as one argument: it leaves nothing open, and neither a comment nor a label
nor a line of a block comment stands in it where one would be taken for it. -/
structure IsArgument (text : List Char) (tree : Node) : Prop where
  read : ∃ next trace, matchExpression .standard .argument text = .matched tree next trace
  closes : (matchExpression .standard .argument text).Closes .argument text
  unmarked : IsUnmarked text
  uncommented : CommentSpan.ofLine? (text.drop (Skip.blanks.length text)) = none
  unlabelled : Lexeme.label (text.drop (Skip.blanks.length text)) = none

namespace IsArgument

variable {text : List Char} {tree : Node}

theorem run (isArgument : IsArgument text tree) : ∃ trace,
    Matcher.rule .standard (.expression .argument) (.within text 0) =
        .matched tree (.within text text.length) trace ∧ SealedTrace .argument text trace := by
  obtain ⟨next, trace, run⟩ := isArgument.read
  have closes := isArgument.closes
  rw [run] at closes
  obtain ⟨ended, closed⟩ := closes
  rw [matchExpression, Cursor.ofText_eq_within] at run
  obtain ⟨stop, rfl, -, laid⟩ := Matcher.rule_readsTrees _ (Nat.zero_le _) ⟨trace, run⟩
  obtain rfl : stop = text.length := Nat.le_antisymm laid.bounds.2 (List.drop_eq_nil_iff.mp ended)
  exact ⟨trace, run, closed⟩

theorem exists_tree (closes : (matchExpression .standard .argument text).Closes .argument text)
    (unmarked : IsUnmarked text)
    (uncommented : CommentSpan.ofLine? (text.drop (Skip.blanks.length text)) = none)
    (unlabelled : Lexeme.label (text.drop (Skip.blanks.length text)) = none) :
    ∃ tree, IsArgument text tree := by
  cases outcome : matchExpression .standard .argument text with
  | matched tree next trace =>
      exact ⟨tree, ⟨next, trace, outcome⟩, closes, unmarked, uncommented, unlabelled⟩
  | failed trace =>
      rw [outcome] at closes
      exact closes.elim
  | aborted fault =>
      rw [outcome] at closes
      exact closes.elim

end IsArgument

section

variable {mark : Char} (closes : mark ∈ Ending.argument.closers) (rest : List Char)
include closes

theorem length_closer (kind : Skip) : kind.length (mark :: rest) = 0 := by
  simp only [Ending.closers, List.mem_cons, List.not_mem_nil, or_false] at closes
  rcases closes with rfl | rfl | rfl <;> cases kind <;> rfl

theorem startsToken_closer : startsToken (mark :: rest) = true := by
  simp only [Ending.closers, List.mem_cons, List.not_mem_nil, or_false] at closes
  rcases closes with rfl | rfl | rfl <;> rfl

theorem beginsOperand_closer : Matcher.beginsOperand mark = false := by
  simp only [Ending.closers, List.mem_cons, List.not_mem_nil, or_false] at closes
  rcases closes with rfl | rfl | rfl <;> rfl

theorem isBreak_closer : IsBreak (mark :: rest) :=
  (Trails.closer closes rest : Trails .argument (mark :: rest)).isBreak

end

def argumentSeam {argument rest : List Char} {mark : Char} (closes : mark ∈ Ending.argument.closers)
    (unmarked : IsUnmarked (argument ++ mark :: rest)) : Seam where
  ending := .argument
  source := argument
  tail := mark :: rest
  trails := .closer closes rest
  unmarked := unmarked
  noComment kind := by
    rw [length_closer closes rest, List.drop_zero]
    simp only [Ending.closers, List.mem_cons, List.not_mem_nil, or_false] at closes
    rcases closes with rfl | rfl | rfl <;> rfl
  noMember := by
    rw [length_closer closes rest, List.drop_zero]
    simp only [Ending.closers, List.mem_cons, List.not_mem_nil, or_false] at closes
    rcases closes with rfl | rfl | rfl <;> exact ⟨rfl, rfl⟩
  line impossible := by cases impossible

theorem IsArgument.exists_token {source : List Char} {tree : Node}
    (isArgument : IsArgument source tree) :
    ∃ blanks core, source = blanks ++ core ∧ (∀ character ∈ blanks, isBlank character = true) ∧
      core ≠ [] ∧ startsWithChar isBlank core = false ∧ CommentSpan.ofLine? core = none ∧
      Lexeme.label core = none := by
  obtain ⟨trace, run, closed⟩ := isArgument.run
  have closes : ')' ∈ Ending.argument.closers := by decide
  have unmarked : IsUnmarked (source ++ [')']) :=
    isArgument.unmarked.append_break (isBreak_closer closes [])
      (IsPlain.unmarked (by decide))
  obtain ⟨character, member, solid, -⟩ : Continues source :=
    (@Matcher.Anchored.rule (argumentSeam closes unmarked) (.expression .argument)).anchors
      (Nat.zero_le _) run closed
  have uncommented := isArgument.uncommented
  have unlabelled := isArgument.unlabelled
  obtain ⟨blanks, core, rfl, blank, coreSolid, landing⟩ := exists_countWhile isBlank source
  rw [Skip.length, landing, List.drop_left] at uncommented unlabelled
  refine ⟨blanks, core, rfl, blank, ?_, coreSolid, uncommented, unlabelled⟩
  rintro rfl
  rw [List.append_nil] at member
  rw [blank character member] at solid
  cases solid

namespace Matcher

/-- In front of what ends an argument there is no further operator. -/
theorem chainStep_rejects_closer {rules : Rules} {cursor : Cursor} {rest : List Char} {mark : Char}
    (closes : mark ∈ Ending.argument.closers) (rest_eq : cursor.rest = mark :: rest) :
    (chainStep .standard rules .argument).Rejects cursor :=
  rejects_bind.mpr (Or.inl (chainLink_rejects_of_lands
    (lands_behind (List.forall_mem_nil _) (startsToken_closer closes rest) rest_eq)
    (opensLink_break (isBreak_closer closes rest) (by simp))))

theorem argument_rejects_closer {cursor : Cursor} {rest : List Char} {mark : Char}
    (closes : mark ∈ Ending.argument.closers) (rest_eq : cursor.rest = mark :: rest) :
    (argument (rule .standard) .argument).Rejects cursor := by
  have lands := lands_behind (List.forall_mem_nil _) (startsToken_closer closes rest) rest_eq
  have noLabel : Lexeme.label (mark :: rest) = none :=
    (Lexeme.label_stopsAtBreaks (isBreak_closer closes rest) []).trans (by decide)
  exact rejects_orElse.mpr ⟨rejects_bind.mpr (Or.inl (spaced_terminal_rejects lands noLabel)),
    rule_rejects lands .argument (opensOperand_eq_false .argument (beginsOperand_closer closes) rest)⟩

/-- In front of what ends it an argument is read as far as in its source alone. -/
theorem rule_reads_argument {source rest : List Char} {mark : Char} {tree : Node}
    (isArgument : IsArgument source tree) (closes : mark ∈ Ending.argument.closers)
    (unmarked : IsUnmarked (source ++ mark :: rest)) :
    (rule .standard (.expression .argument)).Reads (.within (source ++ mark :: rest) 0) tree
      (.within (source ++ mark :: rest) source.length) := by
  obtain ⟨trace, run, closed⟩ := isArgument.run
  have further : (many (chainStep .standard (rule .standard) .argument)).Reads
      (.within (source ++ mark :: rest) source.length) []
      (.within (source ++ mark :: rest) source.length) :=
    reads_many .nil (chainStep_rejects_closer closes (by rw [Cursor.rest_within, List.drop_left]))
      (Nat.zero_le _)
  exact @ruleWithin_expands (argumentSeam closes unmarked) .argument [] id _ (.nothing _) further _
    _ (Nat.zero_le _) _ _ run closed

theorem argument_reads {text lead source rest : List Char} {offset : Nat} {mark : Char} {tree : Node}
    (stands : Stands text offset (lead ++ (source ++ mark :: rest))) (unmarked : IsUnmarked text)
    (isArgument : IsArgument source tree) (blank : ∀ character ∈ lead, isBlank character = true)
    (closes : mark ∈ Ending.argument.closers) :
    ∃ moved stop, Stands text stop (mark :: rest) ∧
      (argument (rule .standard) .argument).Reads (.within text offset) moved (.within text stop) ∧
      moved.bare = tree.bare := by
  obtain ⟨front, text_eq, rfl⟩ : ∃ front, text = front ++ (lead ++ (source ++ mark :: rest)) ∧
      offset = front.length :=
    ⟨text.take offset, by rw [← stands.drop_eq, List.take_append_drop],
      (List.length_take_of_le stands.within).symm⟩
  have isBreak := isBreak_closer closes rest
  have regrouped : text = (front ++ lead) ++ (source ++ mark :: rest) := by simp [text_eq]
  have backUnmarked : IsUnmarked (source ++ mark :: rest) := by
    rw [regrouped] at unmarked
    refine unmarked.behind ?_
    rw [CommentSpan.startsMarker_append_break (by decide) isBreak]
    exact isArgument.unmarked 0 rfl
  have read := rule_reads_argument isArgument closes backUnmarked
  obtain ⟨blanks, core, rfl, allBlank, filled, solid, uncommented, unlabelled⟩ :=
    isArgument.exists_token
  have noLabel : Lexeme.label (core ++ mark :: rest) = none :=
    (Lexeme.label_stopsAtBreaks isBreak core).trans unlabelled
  have noLine := CommentSpan.ofLine?_append_of_none filled uncommented (mark :: rest)
  have tailSolid : startsWithChar isBlank (core ++ mark :: rest) = false := by
    cases core with
    | nil => exact absurd rfl filled
    | cons first core => exact solid
  have lands : Lands (.within ((blanks ++ core) ++ mark :: rest) 0) (0 + blanks.length)
      (core ++ mark :: rest) :=
    lands_within backUnmarked (Nat.zero_le _) (by simp) allBlank tailSolid noLine
  have landsToo : Lands (.within text front.length) (front.length + (lead ++ blanks).length)
      (core ++ mark :: rest) :=
    lands_within unmarked (by simp [text_eq]) (by simp [text_eq])
      (List.forall_mem_append.mpr ⟨blank, allBlank⟩) tailSolid noLine
  have moved := (IgnoresBlanks.rule (.expression .argument)).reads_moved
    (Moves.rule .standard (front ++ lead).length (.expression .argument)) lands
    (by simpa [Nat.add_assoc] using landsToo) read
  rw [Cursor.moved_within (List.length_pos_of_ne_nil (by simp [filled])), ← regrouped,
    List.length_append] at moved
  exact ⟨_, _, stands.advance.2.advance.2, reads_orElse.mpr (Or.inr ⟨rejects_bind.mpr (Or.inl
    (spaced_terminal_rejects landsToo noLabel)), moved⟩), Node.bare_moved _ _⟩

/-! ### Lists of arguments -/

theorem comma_reads {text rest : List Char} {offset : Nat} (stands : Stands text offset (',' :: rest)) :
    comma.Reads (.within text offset) (.token "," offset) (.within text (offset + 1)) := by
  have here : Stands text offset ([] ++ ([','] ++ rest)) := stands
  exact afterSkip_reads here .none rfl (by decide) (reads_token here rfl (punctuation_here "," rest))

/-- Behind an argument stands the comma in front of the next one, or what follows the last one. -/
theorem exists_closer {mark : Char} (closes : mark ∈ Ending.argument.closers) (behind : List Char)
    (others : List (List Char)) :
    ∃ first rest, others.flatMap ([',', ' '] ++ ·) ++ mark :: behind = first :: rest ∧
      first ∈ Ending.argument.closers := by
  cases others with
  | nil => exact ⟨mark, behind, rfl, closes⟩
  | cons other others => exact ⟨',', _, rfl, by decide⟩

theorem arguments_read {text behind : List Char} {mark : Char} (unmarked : IsUnmarked text)
    (closes : mark ∈ Ending.argument.closers) {others : List (List Char)} {trees : List Node}
    (each : List.Forall₂ IsArgument others trees) {offset : Nat}
    (stands : Stands text offset (others.flatMap ([',', ' '] ++ ·) ++ mark :: behind)) :
    ∃ moved stop, Stands text stop (mark :: behind) ∧
      (do let _ ← comma; argument (rule .standard) .argument).ReadsEach (.within text offset) moved
        (.within text stop) ∧
      moved.map Node.bare = trees.map Node.bare := by
  induction each generalizing offset with
  | nil => exact ⟨[], offset, stands, .nil, rfl⟩
  | @cons other tree others trees isArgument each ih =>
      obtain ⟨first, rest, tail_eq, firstCloses⟩ := exists_closer closes behind others
      have listed : Stands text offset ([','] ++ ([' '] ++ (other ++ first :: rest))) := by
        rw [← tail_eq]
        simpa using stands
      obtain ⟨item, place, behindItem, itemRead, itemSame⟩ :=
        argument_reads listed.advance.2 unmarked isArgument (by decide) firstCloses
      rw [← tail_eq] at behindItem
      obtain ⟨items, stop, behindItems, itemsRead, itemsSame⟩ := ih behindItem
      exact ⟨item :: items, stop, behindItems, .cons (reads_bind.mpr ⟨_, _, comma_reads listed,
        itemRead⟩) itemsRead, by simp [itemSame, itemsSame]⟩

/-- What ends a list: its last comma, if there is one, and the bracket. -/
def listEnd (trailing : Bool) (closer : Char) : List Char :=
  if trailing then [',', closer] else [closer]

section

variable {closer : Char} (closes : closer ∈ Ending.argument.closers) (noComma : closer ≠ ',')
  {text : List Char} {offset : Nat} {trailing : Bool}
include closes noComma

theorem comma_rejects_closer (stands : Stands text offset [closer]) :
    comma.Rejects (.within text offset) := by
  have here : Stands text offset ([] ++ [closer]) := stands
  refine afterSkip_rejects here .none (startsToken_closer closes []) (by decide)
    (rejects_terminal.mpr ?_)
  rw [List.length_nil, Nat.add_zero, Cursor.rest_within, stands.drop_eq]
  simp [Terminal.punctuation, Lexeme.punctuation, List.isPrefixOf, noComma.symm]

/-- Behind the last argument no further one is read. -/
theorem further_rejects (stands : Stands text offset (listEnd trailing closer)) :
    (do let _ ← comma; argument (rule .standard) .argument).Rejects (.within text offset) := by
  cases trailing with
  | false => exact rejects_bind.mpr (Or.inl (comma_rejects_closer closes noComma stands))
  | true =>
      have listed : Stands text offset ([','] ++ [closer]) := stands
      exact rejects_bind.mpr (Or.inr ⟨_, _, comma_reads listed,
        argument_rejects_closer closes listed.advance.2.drop_eq⟩)

theorem trailing_reads (stands : Stands text offset (listEnd trailing closer)) :
    ∃ comma? stop, Stands text stop [closer] ∧
      (optional comma).Reads (.within text offset) comma? (.within text stop) := by
  cases trailing with
  | false => exact ⟨none, offset, stands, reads_optional.mpr (Or.inr
      ⟨rfl, rfl, comma_rejects_closer closes noComma stands⟩)⟩
  | true =>
      have listed : Stands text offset ([','] ++ [closer]) := stands
      exact ⟨_, offset + 1, listed.advance.2, reads_optional.mpr (Or.inl
        ⟨_, rfl, comma_reads listed⟩)⟩

theorem separated_reads (unmarked : IsUnmarked text) {argument : List Char} {tree : Node}
    (isArgument : IsArgument argument tree) {others : List (List Char)} {trees : List Node}
    (each : List.Forall₂ IsArgument others trees)
    (stands : Stands text offset
      ([',', ' '].intercalate (argument :: others) ++ listEnd trailing closer)) :
    ∃ items stop, Stands text stop (listEnd trailing closer) ∧
      (separated (Matcher.argument (rule .standard) .argument) comma).Reads (.within text offset)
        items (.within text stop) ∧
      items.map Node.bare = (tree :: trees).map Node.bare := by
  obtain ⟨mark, behind, end_eq, markCloses⟩ : ∃ mark behind,
      listEnd trailing closer = mark :: behind ∧ mark ∈ Ending.argument.closers := by
    cases trailing with
    | false => exact ⟨closer, [], rfl, closes⟩
    | true => exact ⟨',', [closer], rfl, by decide⟩
  obtain ⟨first, rest, tail_eq, firstCloses⟩ := exists_closer markCloses behind others
  have listed : Stands text offset ([] ++ (argument ++ first :: rest)) := by
    rwa [intercalate_cons_flatMap, List.append_assoc, end_eq, tail_eq] at stands
  obtain ⟨item, place, behindItem, itemRead, itemSame⟩ :=
    argument_reads listed unmarked isArgument (List.forall_mem_nil _) firstCloses
  rw [← tail_eq] at behindItem
  obtain ⟨items, stop, behindItems, itemsRead, itemsSame⟩ :=
    arguments_read unmarked markCloses each behindItem
  rw [← end_eq] at behindItems
  have consumes (bound : Nat) : Consumes 1 bound
      (do let _ ← comma; Matcher.argument (rule .standard) .argument) :=
    Consumes.comma.bindAfter fun _ => Consumes.argument (Consumes.rule usable_standard) .argument
  have manyRead := (consumes _).manyOfEach itemsRead (further_rejects closes noComma behindItems)
    (Nat.lt_succ_self _)
  exact ⟨item :: items, stop, behindItems, reads_bind.mpr ⟨_, _, itemRead, reads_bind.mpr
    ⟨_, _, manyRead, reads_pure.mpr ⟨rfl, rfl⟩⟩⟩, by simp [itemSame, itemsSame]⟩

theorem bracketArguments_read (unmarked : IsUnmarked text) {arguments : List (List Char)}
    {trees : List Node} (each : List.Forall₂ IsArgument arguments trees)
    (filled : trailing = true → arguments ≠ [])
    (stands : Stands text offset ([',', ' '].intercalate arguments ++ listEnd trailing closer)) :
    ∃ list stop, Stands text stop [closer] ∧
      (bracketArguments (rule .standard)).Reads (.within text offset) list (.within text stop) ∧
      list.bare = { data := Tag.list, children := trees.map Node.bare } := by
  cases each with
  | nil =>
      obtain rfl : trailing = false := by simpa using filled
      have ended : Stands text offset [closer] := stands
      have missing : (argument (rule .standard) .argument).Rejects (.within text offset) :=
        argument_rejects_closer closes ended.drop_eq
      exact ⟨_, offset, stands, reads_bind.mpr ⟨_, _, reads_here.mpr ⟨rfl, rfl⟩, reads_bind.mpr
        ⟨none, _, reads_optional.mpr (Or.inr ⟨rfl, rfl, rejects_bind.mpr (Or.inl (rejects_bind.mpr
          (Or.inl missing)))⟩), reads_pure.mpr ⟨rfl, rfl⟩⟩⟩, rfl⟩
  | cons isArgument each =>
      obtain ⟨items, place, behind, itemsRead, itemsSame⟩ :=
        separated_reads closes noComma unmarked isArgument each stands
      obtain ⟨comma?, stop, ended, commaRead⟩ := trailing_reads closes noComma behind
      refine ⟨listNode offset items, stop, ended, reads_bind.mpr ⟨_, _, reads_here.mpr ⟨rfl, rfl⟩,
        reads_bind.mpr ⟨some items, _, reads_optional.mpr (Or.inl ⟨_, rfl, reads_bind.mpr
          ⟨_, _, itemsRead, reads_bind.mpr ⟨_, _, commaRead, reads_pure.mpr ⟨rfl, rfl⟩⟩⟩⟩),
          reads_pure.mpr ⟨rfl, rfl⟩⟩⟩, ?_⟩
      rw [Node.bare_eq]
      exact congrArg (fun children => ({ data := Tag.list, children := children } : Node)) itemsSame

end

end Matcher

/-! ### Lists between brackets -/

theorem others_unmarked {others : List (List Char)} {trees : List Node}
    (each : List.Forall₂ IsArgument others trees) {ending : List Char} (isBreak : IsBreak ending)
    (unmarked : IsUnmarked ending) :
    IsBreak (others.flatMap ([',', ' '] ++ ·) ++ ending) ∧
      IsUnmarked (others.flatMap ([',', ' '] ++ ·) ++ ending) := by
  induction each with
  | nil => exact ⟨isBreak, unmarked⟩
  | cons isArgument each ih =>
      rw [List.flatMap_cons, List.append_assoc, List.append_assoc]
      exact ⟨.mark (by decide) _, .cons (by decide) (.cons (by decide)
        (isArgument.unmarked.append_break ih.1 ih.2))⟩

/-- A construct around a list of arguments. -/
inductive ListForm where
  | call
  | index
  | array
deriving DecidableEq, Repr

namespace ListForm

def head : ListForm → List Char
  | call => ['f', '(']
  | index => ['a', '[']
  | array => ['[']

def closer : ListForm → Char
  | call => ')'
  | index => ']'
  | array => ']'

/-- The construct around arguments that commas separate, with a last comma or without. -/
def wrap (form : ListForm) (arguments : List (List Char)) (trailing : Bool) : List Char :=
  form.head ++ ([',', ' '].intercalate arguments ++ Matcher.listEnd trailing form.closer)

example : call.wrap ["a".toList, "b".toList] true = "f(a, b,)".toList := by
  decide +kernel

/-- The tree of the construct over the list of its arguments. -/
def overList (form : ListForm) (list : Node) : Node :=
  match form with
  | call => { data := Tag.invoke, children := [{ data := "f" }, list] }
  | index => { data := Tag.index, children := [{ data := "a" }, list] }
  | array => { data := "[", children := [list] }

/-- The tree of the construct over the trees of its arguments. -/
def around (form : ListForm) (trees : List Node) : Node :=
  form.overList { data := Tag.list, children := trees }

variable (form : ListForm)

theorem closer_closes : form.closer ∈ Ending.argument.closers ∧ form.closer ≠ ',' := by
  cases form <;> decide

theorem overList_bare (list : Node) : (form.overList list).bare = form.overList list.bare := by
  cases form <;> rfl

end ListForm

namespace Matcher

variable {text rest : List Char} {offset : Nat} {list : Node}

theorem punctuation_reads {mark : Char} (stands : Stands text offset (mark :: rest)) :
    (punctuation (String.ofList [mark])).Reads (.within text offset)
      (.token (String.ofList [mark]) offset) (.within text (offset + 1)) := by
  have here : Stands text offset ([mark] ++ rest) := stands
  refine reads_token here rfl ?_
  have scanned := punctuation_here (String.ofList [mark]) rest
  rwa [String.toList_ofList] at scanned

theorem bracketed_reads {rules : Rules} {opening closer : Char} {stop : Nat}
    (closes : closer ∈ Ending.argument.closers) (stands : Stands text offset (opening :: rest))
    (read : (bracketArguments rules).Reads (.within text (offset + 1)) list (.within text stop))
    (ended : Stands text stop [closer]) :
    (bracketed rules (String.ofList [opening]) (String.ofList [closer])).Reads (.within text offset)
      (.token (String.ofList [opening]) offset, list) (.within text text.length) := by
  have here : Stands text stop ([] ++ [closer]) := ended
  have last : text.length = stop + 1 := by
    have length_eq := congrArg List.length ended.drop_eq
    rw [List.length_drop, List.length_singleton] at length_eq
    omega
  have closed : (closingBracket (String.ofList [closer])).Reads (.within text stop) []
      (.within text text.length) := by
    rw [last]
    exact reads_bind.mpr ⟨_, _, commentsBefore_reads here .none (startsToken_closer closes []),
      reads_bind.mpr ⟨_, _, afterSkip_reads here .none (startsToken_closer closes []) (by decide)
        (punctuation_reads ended), reads_pure.mpr ⟨rfl, rfl⟩⟩⟩
  exact reads_bind.mpr ⟨_, _, punctuation_reads stands, reads_bind.mpr ⟨_, _, read,
    reads_bind.mpr ⟨_, _, closed, reads_pure.mpr ⟨by rw [Node.appendComments_nil], rfl⟩⟩⟩⟩

/-- A name of one letter in front of a bracket. -/
theorem primary_reads_letter {rules : Rules} {letter : Char} (stands : Stands text 0 (letter :: rest))
    (starts : startsToken (letter :: rest) = true)
    (unread : (operandTerminals.take 9).all
      (fun kind => (kind.scanner (letter :: rest)).isNone) = true)
    (scanned : Lexeme.identifier (letter :: rest) = some 1) :
    (primary rules).Reads (.within text 0) (.token (String.ofList [letter]) 0) (.within text 1) := by
  have whole : Stands text 0 ([] ++ ([letter] ++ rest)) := stands
  have split : operandForms rules = earlyOperands rules ++ terminal .identifier :: lateOperands rules :=
    rfl
  exact primary_reads_form whole .none starts split unread (reads_token whole rfl scanned)

end Matcher

namespace ListForm

variable (form : ListForm) {text rest : List Char} {list : Node} {stop : Nat}

theorem operand_reads (stands : Stands text 0 (form.head ++ rest))
    (read : (Matcher.bracketArguments (Matcher.rule .standard)).Reads
      (.within text form.head.length) list (.within text stop))
    (ended : Stands text stop [form.closer]) :
    ∃ whole, (Matcher.operand (Matcher.rule .standard)).Reads (.within text 0) whole
        (.within text text.length) ∧ whole.bare = form.overList list.bare := by
  cases form with
  | call =>
      have letter : Stands text 0 (['f'] ++ ('(' :: rest)) := stands
      have opened : Stands text 1 ('(' :: rest) := letter.advance.2
      have named : (Matcher.primary (Matcher.rule .standard)).Reads (.within text 0) (.token "f" 0)
          (.within text 1) :=
        Matcher.primary_reads_letter letter rfl rfl rfl
      have called : (Matcher.suffix (Matcher.rule .standard)).Reads (.within text 1)
          (.wrap ((Node.token "(" 1).retag Tag.invoke) list)
          (.within text text.length) :=
        Matcher.reads_firstOf_cons.mpr (Or.inl (Matcher.reads_bind.mpr ⟨_, _,
          Matcher.bracketed_reads (by decide) opened read ended, Matcher.reads_pure.mpr ⟨rfl, rfl⟩⟩))
      exact ⟨_, Matcher.operand_reads_suffix named opened.lt_length called, rfl⟩
  | index =>
      have letter : Stands text 0 (['a'] ++ ('[' :: rest)) := stands
      have opened : Stands text 1 ('[' :: rest) := letter.advance.2
      have named : (Matcher.primary (Matcher.rule .standard)).Reads (.within text 0) (.token "a" 0)
          (.within text 1) :=
        Matcher.primary_reads_letter letter rfl rfl rfl
      have noCall : (Matcher.bracketSuffix (Matcher.rule .standard) Tag.invoke "(" ")").Rejects
          (.within text 1) := by
        refine Matcher.rejects_bind.mpr (Or.inl (Matcher.rejects_bind.mpr (Or.inl
          (Matcher.rejects_terminal.mpr ?_))))
        rw [Cursor.rest_within, opened.drop_eq]
        rfl
      have indexed : (Matcher.suffix (Matcher.rule .standard)).Reads (.within text 1)
          (.wrap ((Node.token "[" 1).retag Tag.index) list)
          (.within text text.length) :=
        Matcher.reads_firstOf_cons.mpr (Or.inr ⟨noCall, Matcher.reads_firstOf_cons.mpr (Or.inl
          (Matcher.reads_bind.mpr ⟨_, _, Matcher.bracketed_reads (by decide) opened read ended,
            Matcher.reads_pure.mpr ⟨rfl, rfl⟩⟩))⟩)
      exact ⟨_, Matcher.operand_reads_suffix named opened.lt_length indexed, rfl⟩
  | array =>
      have whole : Stands text 0 ([] ++ ('[' :: rest)) := stands
      have split : Matcher.operandForms (Matcher.rule .standard) =
          (Matcher.earlyOperands (Matcher.rule .standard) ++
            [Matcher.terminal .identifier, Matcher.group (Matcher.rule .standard)]) ++
          Matcher.container (Matcher.rule .standard) "[" "]" ::
            [Matcher.container (Matcher.rule .standard) "\x7b" "\x7d"] := rfl
      have contained : (Matcher.container (Matcher.rule .standard) "[" "]").Reads (.within text 0)
          ((Node.token "[" 0).withChildren [list]) (.within text text.length) :=
        Matcher.reads_bind.mpr ⟨_, _, Matcher.bracketed_reads (by decide) stands read ended,
          Matcher.reads_pure.mpr ⟨rfl, rfl⟩⟩
      exact ⟨_, Matcher.operand_reads_end (Matcher.primary_reads_form whole .none rfl split rfl
        contained), rfl⟩

theorem wrap_unmarked {arguments : List (List Char)} {trees : List Node}
    (each : List.Forall₂ IsArgument arguments trees) (trailing : Bool) :
    IsUnmarked (form.wrap arguments trailing) := by
  have ended : IsUnmarked (Matcher.listEnd trailing form.closer) := by
    cases form <;> cases trailing <;> exact IsPlain.unmarked (by decide)
  have endBreak : IsBreak (Matcher.listEnd trailing form.closer) := by
    cases trailing with
    | false => exact isBreak_closer form.closer_closes.1 []
    | true => exact .mark (by decide) _
  have listed : IsUnmarked ([',', ' '].intercalate arguments ++
      Matcher.listEnd trailing form.closer) := by
    cases each with
    | nil => exact ended
    | cons isArgument each =>
        rw [intercalate_cons_flatMap, List.append_assoc]
        obtain ⟨isBreak, unmarked⟩ := others_unmarked each endBreak ended
        exact isArgument.unmarked.append_break isBreak unmarked
  cases form with
  | call => exact .cons (by decide) (.cons (by decide) listed)
  | index => exact .cons (by decide) (.cons (by decide) listed)
  | array => exact .cons (by decide) listed

end ListForm

/-- Texts that are read as arguments and leave nothing open are the arguments of every list that
holds them. -/
theorem parse_arguments (form : ListForm) {arguments : List (List Char)} {trees : List Node}
    (each : List.Forall₂ IsArgument arguments trees) {trailing : Bool}
    (filled : trailing = true → arguments ≠ []) :
    ∃ tree, parse .standard (form.wrap arguments trailing) = .ok tree ∧
      (tree == form.around trees) = true := by
  have place : Stands (form.wrap arguments trailing) 0 (form.head ++
      ([',', ' '].intercalate arguments ++ Matcher.listEnd trailing form.closer)) :=
    ⟨Nat.zero_le _, rfl⟩
  have behind := place.advance.2
  rw [Nat.zero_add] at behind
  obtain ⟨list, stop, ended, read, listSame⟩ := Matcher.bracketArguments_read form.closer_closes.1
    form.closer_closes.2 (form.wrap_unmarked each trailing) each filled behind
  obtain ⟨whole, wholeRead, wholeSame⟩ := form.operand_reads place read ended
  obtain ⟨tree, parsed, treeSame⟩ := Matcher.parse_of_operand (by cases form <;> rfl)
    (by cases form <;> rfl) (by cases form <;> rfl) wholeRead
  refine ⟨tree, parsed, Node.beq_iff_bare.mpr ?_⟩
  rw [treeSame, wholeSame, listSame, ListForm.around, form.overList_bare, Node.bare_eq]

theorem parse_arguments_mixed :
    ∃ first second tree, IsArgument "a = -b".toList first ∧
      IsArgument "c => d ? e : f".toList second ∧
      parse .standard (ListForm.call.wrap ["a = -b".toList, "c => d ? e : f".toList] true) = .ok tree ∧
      (tree == ListForm.call.around [first, second]) = true := by
  obtain ⟨first, isFirst⟩ : ∃ first, IsArgument "a = -b".toList first := by
    refine IsArgument.exists_tree ?_ (IsPlain.unmarked (by decide)) (by decide) (by decide)
    rw [OperatorTables.standard_eq]
    decide +kernel
  obtain ⟨second, isSecond⟩ : ∃ second, IsArgument "c => d ? e : f".toList second := by
    refine IsArgument.exists_tree ?_ (IsPlain.unmarked (by decide)) (by decide) (by decide)
    rw [OperatorTables.standard_eq]
    decide +kernel
  obtain ⟨tree, parsed, same⟩ := parse_arguments .call (.cons isFirst (.cons isSecond .nil))
    (fun _ => List.cons_ne_nil _ _)
  exact ⟨first, second, tree, isFirst, isSecond, parsed, same⟩

/-- A reading that goes to the end of its text. -/
def Outcome.TakesWhole {α : Type} : Outcome α → Prop
  | .matched _ next _ => next.rest = []
  | .failed _ => False
  | .aborted _ => False

instance {α : Type} : (outcome : Outcome α) → Decidable outcome.TakesWhole
  | .matched _ next _ => inferInstanceAs (Decidable (next.rest = []))
  | .failed _ => inferInstanceAs (Decidable False)
  | .aborted _ => inferInstanceAs (Decidable False)

/-- Expressions that are no arguments of a list: one that begins with a label, one whose module name
was read with a block, which the second argument closes, and two that make a block comment. -/
theorem parse_arguments_open :
    ((matchExpression .standard .argument "alias:a :b".toList).TakesWhole ∧
      ¬ ∃ tree, parse .standard (ListForm.call.wrap ["alias:a :b".toList] false) = .ok tree) ∧
    ((matchExpression .standard .argument "module M \x7ba\n/b\x7d end/ -c".toList).TakesWhole ∧
      (matchExpression .standard .argument "p\n/q/ /z\x7d/".toList).TakesWhole ∧
      ¬ ∃ tree, parse .standard (ListForm.array.wrap
        ["module M \x7ba\n/b\x7d end/ -c".toList, "p\n/q/ /z\x7d/".toList] false) = .ok tree) ∧
    ((matchExpression .standard .argument "a\n=begin?".toList).TakesWhole ∧
      (matchExpression .standard .argument "b\n=end?".toList).TakesWhole ∧
      ¬ ∃ tree, parse .standard
        (ListForm.array.wrap ["a\n=begin?".toList, "b\n=end?".toList] false) = .ok tree) := by
  simp only [← accepts_iff, OperatorTables.standard_eq]
  decide +kernel

end RubySyntax
