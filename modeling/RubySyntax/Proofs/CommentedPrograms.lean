import Mathlib.Logic.Relation
import RubySyntax.Proofs.AddedComments
import RubySyntax.Proofs.TreeEquality

/-!
# Programs with more comments

A line comment may be added to a line of a program, unless the line breaks off in a line
continuation or behind a dot, or the next token is a comma, a bar or a stray semicolon.  The
program keeps its tree, and a text that is no program stays one.
-/

namespace RubySyntax

/-! ### Scanners in front of the comment -/

namespace Lexeme

section

variable {behind : List Char} (ends : EndsLine behind)
include ends

theorem endsLine_drop_commandGap : EndsLine (behind.drop (commandGapLength behind)) := by
  cases ends with
  | nothing => exact .nothing
  | feed rest => exact .feed rest
  | returnFeed rest => exact .returnFeed rest
  | comment blank unslashed rest =>
      rw [commandGapLength_eq, continuedLength_commented blank (by decide) (by decide),
        drop_length_commented]
      exact .comment (List.forall_mem_nil _) unslashed rest

theorem sameLineValue_endsLine : sameLineValue behind = none := by
  have value : ∀ character ∈ ['\n', '#'], ∀ rest, sameLineValue (character :: rest) = none := by
    intro character member rest
    simp only [List.mem_cons, List.not_mem_nil, or_false] at member
    rcases member with rfl | rfl <;> rfl
  cases ends with
  | nothing => rfl
  | feed rest => exact value _ (by decide) rest
  | returnFeed rest => exact congrArg (Option.map (· + 1)) (value '\n' (by decide) rest)
  | @comment blanks words blank _ rest =>
      induction blanks with
      | nil => exact value _ (by decide) _
      | cons character blanks ih =>
          obtain ⟨here, others⟩ := List.forall_mem_cons.mp blank
          have later := ih others
          simp only [List.mem_cons, List.not_mem_nil, or_false] at here
          rw [commented] at later
          rcases here with rfl | rfl <;> simp [commented, sameLineValue, isHorizontal, later]

variable {front : List Char} (takes : TakesComment front)
include takes

theorem commandStart_append_end : commandStart (front ++ behind) = commandStart front := by
  have within := (commandGapLength_spacingPrefix front).within
  have none := startsArgument_append_break (endsLine_drop_commandGap ends).isBreak []
  rw [List.nil_append] at none
  rw [commandGapLength_eq] at within none
  rw [commandStart, commandStart, commandGapLength_eq]
  by_cases ended : front.drop (continuedLength isCommandBlank front) = []
  · have all : continuedLength isCommandBlank front = front.length := by
      rw [List.drop_eq_nil_iff] at ended
      exact Nat.le_antisymm within ended
    rw [continuedLength_append_of_all (by decide) all, List.drop_length_add_append, none, ended]
    simp [startsArgument]
  · have whole := (takes.drop (continuedLength isCommandBlank front)).isUnbroken ended
    rw [continuedLength_append (by decide) whole, List.drop_append_of_le_length within,
      startsArgument_append_break ends.isBreak]

theorem sameLineValue_append_end : sameLineValue (front ++ behind) = sameLineValue front := by
  have none := sameLineValue_endsLine ends
  fun_induction sameLineValue front with
  | case1 => exact none
  | case2 rest ih =>
      rw [List.cons_append, List.cons_append, sameLineValue, ih (takes.drop 2)]
  | case3 rest ih =>
      rw [List.cons_append, List.cons_append, List.cons_append, sameLineValue, ih (takes.drop 3)]
  | case4 character rest _ _ horizontal ih =>
      have plain : character ≠ '\\' := by
        rintro rfl
        exact absurd horizontal (by decide)
      rw [List.cons_append, sameLineValue.eq_4 _ _ (fun _ same => absurd same plain)
        (fun _ same => absurd same plain), if_pos horizontal, ih (takes.drop 1)]
  | case5 character rest feed returned plain value =>
      have whole := takes.isUnbroken (List.cons_ne_nil character rest)
      obtain ⟨feedBehind, returnBehind⟩ := not_continuation whole feed returned behind
      have valueBehind : startsValue (character :: (rest ++ behind)) = true := value
      rw [List.cons_append, sameLineValue.eq_4 _ _ feedBehind returnBehind, if_neg plain,
        if_pos valueBehind]
  | case6 character rest feed returned plain noValue =>
      have whole := takes.isUnbroken (List.cons_ne_nil character rest)
      obtain ⟨feedBehind, returnBehind⟩ := not_continuation whole feed returned behind
      have noValueBehind : ¬ startsValue (character :: (rest ++ behind)) = true := noValue
      rw [List.cons_append, sameLineValue.eq_4 _ _ feedBehind returnBehind, if_neg plain,
        if_neg noValueBehind]

end

end Lexeme

/-! ### The likeness -/

theorem Node.bare_keepsShape : KeepsShape Node.bare where
  data := Node.bare_data
  children := Node.bare_children
  withChildren node children := by simp [Node.bare_eq, Node.withChildren]
  made data children node := by simp [Node.bare_eq]

namespace AddedComment

variable {added : AddedComment}

theorem scan_alike {scanner : Scanner}
    (stops : ∀ {front behind}, EndsLine behind → TakesComment front →
      scanner (front ++ behind) = scanner front)
    (within : ∀ {text length}, scanner text = some length → length ≤ text.length) :
    Matcher.Alike added.Near added.Near id (Matcher.scan scanner) (Matcher.scan scanner) := by
  intro cursor onward near
  rw [Matcher.scan, Matcher.scan]
  rcases near.same_or_ahead with alike | ⟨front, blanks, takes, blank, rest_eq, onward_eq⟩
  · rw [← alike.rest]
    cases scanned : scanner cursor.rest with
    | none => exact .failed
    | some length => exact .matched rfl (.of_same (SameText.advance alike (within scanned)))
  · rw [rest_eq, onward_eq, stops (.feed _) takes,
      stops (.comment blank added.unslashed _) takes]
    cases scanned : scanner front with
    | none => exact .failed
    | some length =>
        exact .matched rfl (near.advance takes blank rest_eq onward_eq (within scanned))

theorem terminal_same {kind : Terminal}
    (within : ∀ {text length}, kind.scanner text = some length → length ≤ text.length)
    {cursor onward : Cursor} (alike : SameText cursor onward) :
    (Matcher.terminal kind cursor).Alike SameText Node.bare (Matcher.terminal kind onward) := by
  cases scanned : kind.scanner cursor.rest with
  | none => exact .noToken scanned (alike.rest ▸ scanned)
  | some length =>
      refine .token scanned (alike.rest ▸ scanned) ?_ (SameText.advance alike (within scanned))
      simp [Node.bare_eq, Matcher.leafAt, alike.rest]

/-! ### Statement breaks -/

/-- A semicolon or a line feed ends behind its gap. -/
theorem separator_break {cursor : Cursor} {character : Char} {rest : List Char}
    (shown : cursor.rest = character :: rest) (breaks : character ∈ [';', '\n']) :
    ∃ length, Lexeme.separator cursor.rest = some length ∧
      cursor.advance length =
        (cursor.advance 1).advance (Skip.gap.length (cursor.advance 1).rest) := by
  have behind : (cursor.advance 1).rest = rest := by
    rw [Cursor.rest_advance, shown]
    rfl
  refine ⟨1 + Skip.gap.length rest, ?_, by rw [Cursor.advance_add, behind]⟩
  simp only [List.mem_cons, List.not_mem_nil, or_false] at breaks
  rw [shown, Nat.add_comm]
  rcases breaks with rfl | rfl <;> rfl

theorem separator_sign {cursor : Cursor} {rest : List Char} (shown : cursor.rest = '#' :: rest) :
    Lexeme.separator cursor.rest = some 0 := by
  rw [shown]
  rfl

theorem separator_none {cursor : Cursor} {character : Char} {rest : List Char}
    (shown : cursor.rest = character :: rest) (plain : character ∉ [';', '\n', '#']) :
    Lexeme.separator cursor.rest = none := by
  simp only [List.mem_cons, List.not_mem_nil, or_false, not_or] at plain
  simp [shown, Lexeme.separator, plain]

/-- Behind a break in front of the comment, operands start at the comment in one text and behind
its line in the other. -/
theorem Landed.separator {cursor onward : Cursor}
    (landed : added.Landed .horizontal cursor onward) :
    (Matcher.terminal .separator cursor).Alike added.Far Node.bare
      (Matcher.terminal .separator onward) := by
  have leaves (length count : Nat) :
      (Matcher.leafAt .separator cursor length).bare =
        (Matcher.leafAt .separator onward count).bare :=
    Node.bare_inj.mpr ⟨rfl, rfl⟩
  have near := landed.near
  cases landed with
  | same alike =>
      exact (terminal_same (fun scanned => (Lexeme.separator_spacingPrefix scanned).within)
        alike).mono fun alike => Or.inl (.of_same alike)
  | @ahead character front blanks takes blank rest_eq onward_eq _ =>
      by_cases breaks : character ∈ [';', '\n']
      · obtain ⟨length, scanned, reached⟩ := separator_break rest_eq breaks
        obtain ⟨count, scannedToo, reachedToo⟩ := separator_break onward_eq breaks
        have later : added.Near (cursor.advance 1) (onward.advance 1) :=
          near.advance takes blank rest_eq onward_eq (Nat.succ_le_succ (Nat.zero_le _))
        refine .token scanned scannedToo (leaves _ _) ?_
        rw [reached, reachedToo]
        exact (later.landed .gap).far (by decide)
      · by_cases sign : character = '#'
        · subst sign
          exact .token (separator_sign rest_eq) (separator_sign onward_eq) (leaves _ _)
            (Or.inl near)
        · have plain : character ∉ [';', '\n', '#'] := by
            simpa [sign] using breaks
          exact .noToken (separator_none rest_eq plain) (separator_none onward_eq plain)
  | @passed origin origin_eq cursor_eq onward_eq =>
      obtain rfl : cursor = origin := by
        rw [cursor_eq, origin_eq]
        rfl
      have scanned : Lexeme.separator cursor.rest = some (Skip.gap.length cursor.rest) := by
        rw [origin_eq, Skip.length, countWhile_cons, if_pos (by decide)]
        rfl
      have passed : added.Landed .gap (cursor.advance (Skip.gap.length cursor.rest)) onward :=
        .passed origin_eq rfl onward_eq
      exact .token scanned (separator_sign onward_eq) (leaves _ _) (passed.far (by decide))

theorem separator_far : Matcher.Alike added.Near added.Far Node.bare
    (Matcher.onSameLine (Matcher.terminal .separator))
    (Matcher.onSameLine (Matcher.terminal .separator)) :=
  fun _ _ near => (near.landed .horizontal).separator.after [] []

/-! ### Tokens that are looked for on later lines -/

/-- Where the texts part, neither goes on with a comma or a bar. -/
theorem Passed.noPunctuation {cursor onward : Cursor} (passed : added.Passed cursor onward)
    {symbol : String} (listed : symbol ∈ [",", "|"]) :
    Lexeme.punctuation symbol "" cursor.rest = none ∧
      Lexeme.punctuation symbol "" onward.rest = none := by
  have absent {text : List Char} (other : ∀ character ∈ text.head?, character ∉ [',', '|']) :
      Lexeme.punctuation symbol "" text = none := by
    cases scanned : Lexeme.punctuation symbol "" text with
    | none => rfl
    | some length =>
        obtain ⟨⟨behind, rfl⟩, -⟩ := Lexeme.punctuation_eq_some scanned
        simp only [List.mem_cons, List.not_mem_nil, or_false] at listed
        rcases listed with rfl | rfl <;> simp at other
  have fewer : ∀ character ∈ [',', '|'], character ∈ [',', '|', ';'] := by decide
  obtain ⟨⟨origin, origin_eq, cursor_eq⟩, rest_eq⟩ := passed
  constructor
  · refine absent fun character member listed => ?_
    have behind : cursor.rest = added.back.drop (Skip.blanks.length added.back) := by
      rw [cursor_eq, Cursor.rest_advance, origin_eq, Skip.length, countWhile_cons,
        if_pos (by decide), List.drop_succ_cons]
      rfl
    rw [behind] at member
    exact added.starts character member (fewer character listed)
  · rw [rest_eq]
    exact absent (by simp [commented])

theorem punctuationBehind_near {symbol : String} (listed : symbol ∈ [",", "|"]) :
    Matcher.Alike added.Near added.Near Node.bare
      (Matcher.afterSkip .blanks (Matcher.punctuation symbol))
      (Matcher.afterSkip .blanks (Matcher.punctuation symbol)) := by
  have inner : ∀ symbol ∈ [",", "|"], Lexeme.IsInLine symbol := by decide
  have stays : Lexeme.StaysOnLine (Terminal.punctuation symbol "").scanner :=
    Lexeme.punctuation_staysOnLine (inner symbol listed) (by decide)
  intro cursor onward near
  rcases (near.landed .blanks).far (by decide) with near | passed
  · exact (sharesWord.terminal stays (fun _ _ _ => Node.bare_inj.mpr ⟨rfl, rfl⟩) near).after [] []
  · obtain ⟨absent, absentToo⟩ := passed.noPunctuation listed
    exact (Outcome.Alike.noToken absent absentToo).after [] []

/-- Where something else than blanks comes before the comment, blanks lead to near places. -/
theorem Near.skip {cursor onward : Cursor} (near : added.Near cursor onward)
    {front blanks : List Char} (takes : TakesComment front)
    (blank : ∀ character ∈ blanks, character ∈ [' ', '\t'])
    (rest_eq : cursor.rest = front ++ '\n' :: added.back)
    (onward_eq : onward.rest = front ++ commented blanks added.words added.back)
    (filled : front.drop (Skip.blanks.length front) ≠ []) :
    added.Near.behind .blanks cursor onward := by
  rw [PlaceRelation.behind, rest_eq, onward_eq, Skip.length_append_of_filled (by decide) filled,
    Skip.length_append_of_filled (by decide) filled]
  exact near.advance takes blank rest_eq onward_eq (Skip.length_le .blanks front)

/-- Behind a dot both texts have the name before the comment. -/
theorem dot_near {symbol excluded : String} (inner : Lexeme.IsInLine symbol)
    (innerToo : Lexeme.IsInLine excluded) (dotted : symbol.toList.getLast? = some '.') :
    Matcher.Alike added.Near (added.Near.behind .blanks) Node.bare
      (Matcher.punctuation symbol excluded) (Matcher.punctuation symbol excluded) := by
  have stays : Lexeme.StaysOnLine (Terminal.punctuation symbol excluded).scanner :=
    Lexeme.punctuation_staysOnLine inner innerToo
  intro cursor onward near
  rcases near.same_or_ahead with alike | ⟨front, blanks, takes, blank, rest_eq, onward_eq⟩
  · exact (terminal_same stays.within alike).mono fun reached =>
      .of_same (SameText.skip reached .blanks)
  · have here := rest_eq ▸ stays.stops (.feed added.back) front
    have there := onward_eq ▸ stays.stops (.comment blank added.unslashed added.back) front
    cases scanned : (Terminal.punctuation symbol excluded).scanner front with
    | none => exact .noToken (here.trans scanned) (there.trans scanned)
    | some length =>
        have within := stays.within scanned
        obtain ⟨⟨later, rfl⟩, rfl⟩ := Lexeme.punctuation_eq_some scanned
        have dropped : (symbol.toList ++ later).drop symbol.length = later := by
          rw [← String.length_toList, List.drop_left]
        have behind {cursor : Cursor} {rest : List Char}
            (shown : cursor.rest = symbol.toList ++ later ++ rest) :
            (cursor.advance symbol.length).rest = later ++ rest := by
          rw [Cursor.rest_advance, shown, List.drop_append_of_le_length within, dropped]
        have filled : later.drop (Skip.blanks.length later) ≠ [] := by
          intro ended
          obtain ⟨start, symbol_eq⟩ := List.getLast?_eq_some_iff.mp dotted
          exact takes.undotted later (Skip.isBlank_of_drop_eq_nil ended)
            ⟨start, by simp [symbol_eq]⟩
        refine .token (here.trans scanned) (there.trans scanned) ?_
          ((near.advance takes blank rest_eq onward_eq within).skip
            (dropped ▸ takes.drop symbol.length) blank (behind rest_eq) (behind onward_eq) filled)
        rw [Matcher.leafAt_append rest_eq within, Matcher.leafAt_append onward_eq within]
        exact Node.bare_inj.mpr ⟨rfl, rfl⟩

theorem endOfInput_near : Matcher.Alike added.Near added.Near Node.bare
    (Matcher.terminal .endOfInput) (Matcher.terminal .endOfInput) := by
  have absent {text : List Char} (filled : text ≠ []) : Lexeme.endOfInput text = none := by
    cases text with
    | nil => exact absurd rfl filled
    | cons character text => rfl
  intro cursor onward near
  rcases near.same_or_ahead with alike | ⟨front, blanks, -, -, rest_eq, onward_eq⟩
  · refine (terminal_same (fun {text length} scanned => ?_) alike).mono .of_same
    cases text with
    | nil => cases scanned; exact Nat.le_refl 0
    | cons character text => cases scanned
  · exact .noToken (absent (by simp [rest_eq])) (absent (by simp [onward_eq, commented]))

/-- Texts one of which has one comment more are read alike. -/
def likeness (added : AddedComment) : Likeness where
  near := added.Near
  far := added.Far
  view := Node.bare
  notes := noNotes
  keepsShape := Node.bare_keepsShape
  view_inj := by simp [Node.bare_inj]
  notes_append _ _ := rfl
  far_of_near := Or.inl
  sharesWord := sharesWord
  near_horizontal near := (near.landed .horizontal).near
  far_gap near := (near.landed .gap).far (by decide)
  commentsBefore kind passes := fun _ _ far => comments_far passes _ _ far
  separator := separator_far
  punctuationBehind symbol listed := punctuationBehind_near listed
  dot := (dot_near (by decide) (by decide) (by decide)).orElse
    (dot_near (by decide) (by decide) (by decide))
  commandStart := scan_alike (fun ends takes => Lexeme.commandStart_append_end ends takes)
    fun scanned => (Lexeme.commandStart_spacingPrefix scanned).within
  sameLineValue := scan_alike (fun ends takes => Lexeme.sameLineValue_append_end ends takes)
    fun scanned => (Lexeme.sameLineValue_spacingPrefix scanned).within
  endOfInput := endOfInput_near

end AddedComment

/-! ### Programs -/

/-- Both texts are programs with equal trees, or neither of them is a program. -/
def SameProgram (first second : List Char) : Prop :=
  (∃ tree other, parse .standard first = .ok tree ∧ parse .standard second = .ok other ∧
    (tree == other) = true) ∨
  ∃ error endOffset otherError otherEnd,
    parse .standard first = .error (.mismatch error endOffset) ∧
      parse .standard second = .error (.mismatch otherError otherEnd)

namespace SameProgram

variable {first second third : List Char}

theorem symm (same : SameProgram first second) : SameProgram second first := by
  rcases same with ⟨tree, other, parsed, parsedToo, equal⟩ | ⟨_, _, _, _, failed, failedToo⟩
  · exact Or.inl ⟨other, tree, parsedToo, parsed,
      Node.beq_iff_bare.mpr (Node.beq_iff_bare.mp equal).symm⟩
  · exact Or.inr ⟨_, _, _, _, failedToo, failed⟩

theorem trans (same : SameProgram first second) (next : SameProgram second third) :
    SameProgram first third := by
  rcases same with ⟨tree, other, parsed, parsedToo, equal⟩ | ⟨_, _, _, _, failed, failedToo⟩
  · rcases next with ⟨another, last, reparsed, parsedLast, equalLast⟩ | ⟨_, _, _, _, failed, _⟩
    · obtain rfl : other = another := Except.ok.inj (parsedToo.symm.trans reparsed)
      exact Or.inl ⟨tree, last, parsed, parsedLast, Node.beq_iff_bare.mpr
        ((Node.beq_iff_bare.mp equal).trans (Node.beq_iff_bare.mp equalLast))⟩
    · exact nomatch parsedToo.symm.trans failed
  · rcases next with ⟨_, _, parsed, _, _⟩ | ⟨_, _, _, _, _, failedLast⟩
    · exact nomatch failedToo.symm.trans parsed
    · exact Or.inr ⟨_, _, _, _, failed, failedLast⟩

end SameProgram

/-- A line comment that may be added to a line changes no program. -/
theorem AddedComment.Texts.sameProgram {added : AddedComment} {first second : List Char}
    (texts : added.Texts first second) : SameProgram first second := by
  have start : added.Near (Cursor.ofText first) (Cursor.ofText second) := ⟨texts, Or.inl rfl⟩
  rcases added.likeness.parse_alike start with ⟨root, other, parsed, parsedToo, same⟩ | failed
  · refine Or.inl ⟨_, _, parsed, parsedToo, Node.beq_iff_bare.mpr ?_⟩
    rw [Node.bare_located, Node.bare_located]
    exact same
  · exact Or.inr failed

/-- The second text has one line comment more, where it may be added. -/
def AddsComment (first second : List Char) : Prop :=
  ∃ added : AddedComment, added.Texts first second

/-- Line comments that are added and erased one after the other change no program. -/
theorem sameProgram_of_addsComments {first second : List Char}
    (edits : Relation.EqvGen AddsComment first second) : SameProgram first second := by
  induction edits with
  | rel first second adds => exact adds.choose_spec.sameProgram
  | refl text =>
      have edited : AddedComment.Texts ⟨[], [], by decide, by decide, by decide⟩ text text :=
        .same text
      exact edited.sameProgram
  | symm first second _ same => exact same.symm
  | trans first second third _ _ same next => exact same.trans next

/-- The comment stands between a receiver and its member on the next line. -/
example : SameProgram "a\n.b".toList "a # it's\n.b".toList := by
  have added : AddsComment "a\n.b".toList "a # it's\n.b".toList :=
    ⟨⟨" it's".toList, ".b".toList, by decide, by decide, by decide⟩,
      .ahead (show TakesComment ['a'] by decide)
        (show ∀ character ∈ [' '], character ∈ [' ', '\t'] by decide)⟩
  exact sameProgram_of_addsComments (.rel _ _ added)

end RubySyntax
