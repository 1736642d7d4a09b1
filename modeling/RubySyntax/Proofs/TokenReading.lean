import RubySyntax.Proofs.ReductionLayout

/-!
# Reading tokens

Every production is put together from tokens, from tokens behind comments and
from closing tokens with the comments in front of them.  This file says what
each of these reads in terms of offsets and layouts.
-/

namespace RubySyntax

/-- The leaf of a token that is spelled by a fixed word. -/
structure IsToken (text : List Char) (place : Nat) (word : String) (node : Node) : Prop where
  data_eq : node.data = word
  children_eq : node.children = []
  comments_eq : node.comments = []
  offset_eq : node.offset = some (place : Int)
  spelled : Spelled text place word

namespace Matcher

variable {text : List Char}

/-! ### Single tokens -/

def ReadsWord (text : List Char) (word : String) (matcher : Matcher Node) : Prop :=
  ∀ ⦃start : Nat⦄ ⦃node : Node⦄ ⦃next : Cursor⦄, start ≤ text.length →
    matcher.Reads (Cursor.within text start) node next →
      IsToken text start word node ∧ next = Cursor.within text (start + word.length)

private theorem leafAt_isToken {kind : Terminal} (dataOf_eq : kind.dataOf = String.ofList)
    {start : Nat} {word : String} (begins : word.toList <+: text.drop start)
    (inside : start ≤ text.length) :
    IsToken text start word (leafAt kind (Cursor.within text start) word.length) ∧
      (Cursor.within text start).advance word.length =
        Cursor.within text (start + word.length) := by
  have spelled : Spelled text start word := begins
  refine ⟨⟨?_, rfl, rfl, rfl, spelled⟩, Cursor.advance_within (spelled.bound inside)⟩
  rw [leafAt, dataOf_eq, Cursor.rest_within, ← String.length_toList,
    ← List.prefix_iff_eq_take.mp begins, String.ofList_toList]

theorem punctuation_readsWord {word excluded : String} :
    ReadsWord text word (punctuation word excluded) := by
  intro start node next inside reads
  obtain ⟨length, scanned, rfl, rfl⟩ := reads_terminal.mp reads
  obtain ⟨begins, rfl⟩ := Lexeme.punctuation_eq_some scanned
  exact leafAt_isToken rfl begins inside

theorem keyword_readsWord {word : String} : ReadsWord text word (keyword word) := by
  intro start node next inside reads
  obtain ⟨length, scanned, rfl, rfl⟩ := reads_terminal.mp reads
  obtain ⟨begins, rfl⟩ := Lexeme.spelling_eq_some scanned
  exact leafAt_isToken rfl begins inside

theorem reads_oneOf {spellings : List String} (nonempty : spellings ≠ []) {name : String}
    {start : Nat} {node : Node} {next : Cursor} (inside : start ≤ text.length)
    (reads : (terminal (.oneOf spellings name)).Reads (Cursor.within text start) node next) :
    ∃ word ∈ spellings, IsToken text start word node ∧
      next = Cursor.within text (start + word.length) := by
  obtain ⟨length, scanned, rfl, rfl⟩ := reads_terminal.mp reads
  obtain ⟨word, member, begins, rfl⟩ := Lexeme.oneOf_eq_some nonempty scanned
  exact ⟨word, member, leafAt_isToken rfl begins inside⟩

/-- What a matcher reads begins with its token and reaches further. -/
def ReadsBegins (text : List Char) (matcher : Matcher Node) : Prop :=
  ∀ ⦃start : Nat⦄ ⦃node : Node⦄ ⦃next : Cursor⦄, start ≤ text.length →
    matcher.Reads (Cursor.within text start) node next →
      ∃ stop, next = Cursor.within text stop ∧ Begins text start node stop

private theorem take_isPrefix_drop (length start : Nat) :
    (text.drop start).take length <+: text.drop start :=
  List.take_prefix length (text.drop start)

private theorem startsOperand_take {scanned : List Char} {length : Nat} (positive : 0 < length)
    (begins : ∃ character rest, scanned = character :: rest ∧
      character ∉ Lexeme.delimiters) :
    Lexeme.startsOperand (scanned.take length) = true := by
  obtain ⟨character, rest, rfl, free⟩ := begins
  obtain ⟨length, rfl⟩ : ∃ smaller, length = smaller + 1 := ⟨length - 1, by omega⟩
  simpa [Lexeme.startsOperand, startsWithChar] using free

/-- The terminals of operands read leaves whose data is the text of the token. -/
theorem terminal_readsBegins {kind : Terminal} (dataOf_eq : kind.dataOf = String.ofList)
    (operand : Lexeme.ReadsOperand kind.scanner)
    (signs : ∀ {scanned : List Char} {length : Nat}, kind.scanner scanned = some length →
      '#' ∈ scanned.take length → Lexeme.regexp (scanned.take length) = some length) :
    ReadsBegins text (terminal kind) := by
  intro start node next inside reads
  obtain ⟨length, scanned, rfl, rfl⟩ := reads_terminal.mp reads
  rw [Cursor.rest_within] at scanned
  have within := operand.within scanned
  rw [List.length_drop] at within
  have lengthData : (leafAt kind (Cursor.within text start) length).data.length = length := by
    rw [leafAt, dataOf_eq, Cursor.rest_within, String.length_ofList, List.length_take,
      List.length_drop]
    omega
  have listData : (leafAt kind (Cursor.within text start) length).data.toList =
      (text.drop start).take length := by
    rw [leafAt, dataOf_eq, Cursor.rest_within, String.toList_ofList]
  have token : LeafToken text start (leafAt kind (Cursor.within text start) length) := by
    refine ⟨rfl, rfl, ?_, ?_, ?_⟩
    · rw [Spelled, listData]
      exact take_isPrefix_drop length start
    · rw [listData]
      exact startsOperand_take (operand.pos scanned) (operand.begins scanned)
    · rw [listData, lengthData]
      exact signs scanned
  refine ⟨start + length, Cursor.advance_within (by omega), ?_⟩
  have begins := Begins.leaf token rfl
  rwa [lengthData] at begins

private theorem readsBegins_of_avoidsSign {kind : Terminal}
    (dataOf_eq : kind.dataOf = String.ofList) (operand : Lexeme.ReadsOperand kind.scanner)
    (avoids : Lexeme.AvoidsNumberSign kind.scanner) : ReadsBegins text (terminal kind) :=
  terminal_readsBegins dataOf_eq operand fun scanned sign => (avoids scanned sign).elim

theorem identifier_readsBegins : ReadsBegins text (terminal .identifier) :=
  readsBegins_of_avoidsSign rfl Lexeme.identifier_readsOperand Lexeme.identifier_avoidsNumberSign

theorem methodName_readsBegins : ReadsBegins text (terminal .methodName) :=
  readsBegins_of_avoidsSign rfl Lexeme.methodName_readsOperand Lexeme.methodName_avoidsNumberSign

theorem globalVariable_readsBegins : ReadsBegins text (terminal .globalVariable) :=
  readsBegins_of_avoidsSign rfl Lexeme.globalVariable_readsOperand
    Lexeme.globalVariable_avoidsNumberSign

theorem instanceVariable_readsBegins : ReadsBegins text (terminal .instanceVariable) :=
  readsBegins_of_avoidsSign rfl Lexeme.instanceVariable_readsOperand
    Lexeme.instanceVariable_avoidsNumberSign

theorem symbol_readsBegins : ReadsBegins text (terminal .symbol) :=
  readsBegins_of_avoidsSign rfl Lexeme.symbol_readsOperand Lexeme.symbol_avoidsNumberSign

theorem number_readsBegins : ReadsBegins text (terminal .number) :=
  readsBegins_of_avoidsSign rfl Lexeme.number_readsOperand Lexeme.number_avoidsNumberSign

theorem regexp_readsBegins : ReadsBegins text (terminal .regexp) :=
  terminal_readsBegins rfl Lexeme.regexp_readsOperand fun scanned _ => Lexeme.regexp_take scanned

theorem reads_label {start : Nat} {node : Node} {next : Cursor} (inside : start ≤ text.length)
    (reads : (terminal .label).Reads (Cursor.within text start) node next) :
    LeafToken text start node ∧ node.comments = [] ∧
      Spelled text (start + node.data.length) ":" ∧
      next = Cursor.within text (start + node.data.length + ":".length) := by
  obtain ⟨length, scanned, rfl, rfl⟩ := reads_terminal.mp reads
  rw [Cursor.rest_within] at scanned
  obtain ⟨stem, rest, rfl, positive, clean, colon, starts⟩ := Lexeme.label_eq_some scanned
  have within := clean.within
  rw [List.length_drop] at within
  have colonWithin : start + stem + 1 ≤ text.length := by
    have := congrArg List.length colon
    simp only [List.length_drop, List.length_cons] at this
    omega
  have listData : (leafAt .label (Cursor.within text start) (stem + 1)).data.toList =
      (text.drop start).take stem := by
    have dropped : ((text.drop start).take (stem + 1)).dropLast = (text.drop start).take stem := by
      rw [List.dropLast_eq_take, List.take_take, List.length_take, List.length_drop]
      congr 1
      omega
    rw [leafAt, Cursor.rest_within]
    simp only [Terminal.label, dropped, String.toList_ofList]
  have lengthData : (leafAt .label (Cursor.within text start) (stem + 1)).data.length = stem := by
    rw [← String.length_toList, listData, List.length_take, List.length_drop]
    omega
  refine ⟨⟨rfl, rfl, ?_, ?_, ?_⟩, rfl, ?_, ?_⟩
  · rw [Spelled, listData]
    exact take_isPrefix_drop stem start
  · rw [listData]
    exact startsOperand_take positive (Lexeme.startsOperand_eq_true starts)
  · rw [listData]
    exact fun sign => (clean.clean sign).elim
  · rw [lengthData, Spelled, ← List.drop_drop, colon]
    exact ⟨rest, rfl⟩
  · rw [lengthData]
    exact Cursor.advance_within colonWithin

/-! ### Tokens behind skips and comments -/

theorem reads_afterSkip_within {α : Type} {kind : Skip} {matcher : Matcher α} {start : Nat}
    {value : α} {next : Cursor} (inside : start ≤ text.length)
    (reads : (afterSkip kind matcher).Reads (Cursor.within text start) value next) :
    ∃ place, Spacing text start place ∧ matcher.Reads (Cursor.within text place) value next := by
  obtain ⟨within, skipped⟩ := advance_skip kind inside
  rw [reads_afterSkip, Cursor.rest_within, skipped] at reads
  exact ⟨_, (kind.length_spacingPrefix _).spacing inside, reads⟩

theorem reads_spaced {kind : Skip} (passes : kind.PassesLines) {matcher : Matcher Node}
    {start : Nat} {node : Node} {next : Cursor}
    (solid : ∀ {place : Nat} {inner : Node} {next : Cursor}, place ≤ text.length →
      matcher.Reads (Cursor.within text place) inner next → text[place]? ≠ some ';')
    (inside : start ≤ text.length)
    (reads : (spaced matcher kind).Reads (Cursor.within text start) node next) :
    ∃ comments place inner, CommentRun text start comments place ∧
      matcher.Reads (Cursor.within text place) inner next ∧ node = inner.withComments comments := by
  obtain ⟨comments, middle, commentsRead, reads⟩ := reads_bind.mp reads
  obtain ⟨inner, behind, innerRead, reads⟩ := reads_bind.mp reads
  obtain ⟨rfl, rfl⟩ := reads_pure.mp reads
  obtain ⟨stop, place, rfl, placeWithin, skipped, run⟩ :=
    reads_commentsBefore passes inside commentsRead
  rw [reads_afterSkip, skipped] at innerRead
  exact ⟨comments, place, inner, run (solid placeWithin innerRead), innerRead, rfl⟩

theorem reads_closing {kind : Skip} (passes : kind.PassesLines) {closer : Matcher Node}
    {word : String} (readsWord : ReadsWord text word closer)
    (member : word ∈ closingWords)
    {start : Nat} {comments : List Node} {next : Cursor} (inside : start ≤ text.length)
    (reads : (closing closer kind).Reads (Cursor.within text start) comments next) :
    ∃ place, CommentRun text start comments place ∧ Spelled text place word ∧
      next = Cursor.within text (place + word.length) := by
  obtain ⟨found, middle, commentsRead, reads⟩ := reads_bind.mp reads
  obtain ⟨token, behind, tokenRead, reads⟩ := reads_bind.mp reads
  obtain ⟨rfl, rfl⟩ := reads_pure.mp reads
  obtain ⟨stop, place, rfl, placeWithin, skipped, run⟩ :=
    reads_commentsBefore passes inside commentsRead
  rw [reads_afterSkip, skipped] at tokenRead
  obtain ⟨isToken, rfl⟩ := readsWord placeWithin tokenRead
  exact ⟨place, run (isToken.spelled.getElem?_ne_semicolon (closingWords_solid word member)), isToken.spelled, rfl⟩

/-- What a matcher reads as a token that leaves no node behind. -/
def ReadsDropped (text : List Char) (word : String) (matcher : Matcher Node) : Prop :=
  ∀ ⦃start : Nat⦄ ⦃node : Node⦄ ⦃next : Cursor⦄, start ≤ text.length →
    matcher.Reads (Cursor.within text start) node next →
      ∃ place, Spacing text start place ∧ Spelled text place word ∧
        next = Cursor.within text (place + word.length)

theorem ReadsWord.afterSkip {kind : Skip} {word : String} {matcher : Matcher Node}
    (readsWord : ReadsWord text word matcher) :
    ReadsDropped text word (afterSkip kind matcher) := by
  intro start node next inside reads
  obtain ⟨place, spacing, reads⟩ := reads_afterSkip_within inside reads
  obtain ⟨isToken, rfl⟩ := readsWord spacing.within reads
  exact ⟨place, spacing, isToken.spelled, rfl⟩

theorem comma_readsDropped : ReadsDropped text "," comma :=
  punctuation_readsWord.afterSkip

theorem commaOnSameLine_readsDropped : ReadsDropped text "," commaOnSameLine :=
  punctuation_readsWord.afterSkip

/-- Only blanks stand in front of a token that no comment can precede. -/
theorem ReadsWord.afterBlanks {word : String} {matcher : Matcher Node}
    (readsWord : ReadsWord text word matcher) {character : Char} {rest : List Char}
    (begins : word.toList = character :: rest)
    (solid : Lexeme.isGap character = false ∧ character ≠ '#' ∧ character ≠ '=') {start : Nat}
    {node : Node} {next : Cursor} (inside : start ≤ text.length)
    (reads : (Matcher.afterSkip .blanks matcher).Reads (Cursor.within text start) node next) :
    ∃ place, CommentRun text start [] place ∧ Spelled text place word ∧
      next = Cursor.within text (place + word.length) := by
  obtain ⟨placeWithin, skipped⟩ := advance_skip .blanks inside
  rw [reads_afterSkip, Cursor.rest_within, skipped] at reads
  obtain ⟨isToken, rfl⟩ := readsWord placeWithin reads
  have spelled := isToken.spelled
  have positive : 0 < word.length := by
    rw [← String.length_toList, begins]
    exact Nat.succ_pos _
  have present := spelled.getElem? positive
  rw [begins, Nat.add_zero] at present
  refine ⟨_, ?_, spelled, rfl⟩
  refine CommentRun.afterGaps ?_ (Nat.le_add_right _ _) (skip_gaps (Or.inl rfl))
  exact .settled placeWithin (tokenPlace_of_getElem? present solid)

/-- A comma may stand behind the last item of a list. -/
theorem reads_trailingComma {start : Nat} {comma? : Option Node} {next : Cursor}
    (inside : start ≤ text.length)
    (reads : (optional comma).Reads (Cursor.within text start) comma? next) :
    ∃ after, TrailingComma text start after ∧ next = Cursor.within text after := by
  rcases reads_optional.mp reads with ⟨node, -, reads⟩ | ⟨-, rfl, -⟩
  · obtain ⟨place, run, spelled, rfl⟩ :=
      punctuation_readsWord.afterBlanks rfl (by decide) inside reads
    exact ⟨_, .comma run (spelled.getElem? (by decide : 0 < ",".length)), rfl⟩
  · exact ⟨start, .none, rfl⟩

end Matcher

end RubySyntax
