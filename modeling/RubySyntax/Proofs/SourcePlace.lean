import RubySyntax.Proofs.LexemeExtent
import RubySyntax.Proofs.MatcherRuns

/-!
# Places in a source text

A cursor of a run is nothing but an offset into the source.  This file fixes the
text and speaks of offsets only: what may stand between two tokens, where a
comment starts and ends, and where the first token at or behind an offset
stands.
-/

namespace RubySyntax

/-- Whether a line of the text starts at an offset. -/
def startsLine (text : List Char) : Nat → Bool
  | 0 => true
  | offset + 1 => text[offset]? == some '\n'

namespace Cursor

/-- The cursor at an offset of a text. -/
def within (text : List Char) (offset : Nat) : Cursor :=
  ⟨offset, startsLine text offset, text.drop offset⟩

@[simp]
theorem offset_within (text : List Char) (offset : Nat) : (within text offset).offset = offset :=
  rfl

@[simp]
theorem rest_within (text : List Char) (offset : Nat) :
    (within text offset).rest = text.drop offset :=
  rfl

@[simp]
theorem atLineStart_within (text : List Char) (offset : Nat) :
    (within text offset).atLineStart = startsLine text offset :=
  rfl

theorem ofText_eq_within (text : List Char) : ofText text = within text 0 :=
  rfl

/-- Advancing within the text reaches the cursor so many characters further on. -/
theorem advance_within {text : List Char} {offset count : Nat}
    (inside : offset + count ≤ text.length) :
    (within text offset).advance count = within text (offset + count) := by
  induction count generalizing offset with
  | zero => rfl
  | succ count ih =>
      have here : offset < text.length := by omega
      have step : (within text offset).advance (count + 1) =
          (within text (offset + 1)).advance count := by
        simp only [within, List.drop_eq_getElem_cons here, advance, startsLine,
          List.getElem?_eq_getElem here]
        rfl
      rw [step, ih (by omega)]
      congr 1
      omega

end Cursor

/-! ### Spacing -/

/-- Whether the character at an offset only separates tokens: a blank, a semicolon or the
backslash of a line continuation. -/
def isSpacingAt (text : List Char) (offset : Nat) : Bool :=
  match text.drop offset with
  | [] => false
  | '\\' :: '\n' :: _ => true
  | '\\' :: '\r' :: '\n' :: _ => true
  | character :: _ => Lexeme.isGap character

/-- The characters from one offset to another only separate tokens. -/
structure Spacing (text : List Char) (start stop : Nat) : Prop where
  le : start ≤ stop
  within : stop ≤ text.length
  separates : ∀ offset, start ≤ offset → offset < stop → isSpacingAt text offset = true

namespace Spacing

variable {text : List Char}

theorem refl {offset : Nat} (within : offset ≤ text.length) : Spacing text offset offset :=
  ⟨Nat.le_refl _, within, fun _ _ _ => by omega⟩

theorem trans {start middle stop : Nat} (front : Spacing text start middle)
    (back : Spacing text middle stop) : Spacing text start stop := by
  refine ⟨Nat.le_trans front.le back.le, back.within, fun offset after before => ?_⟩
  by_cases early : offset < middle
  · exact front.separates offset after early
  · exact back.separates offset (Nat.le_of_not_lt early) before

end Spacing

theorem isSpacingAt_drop (text : List Char) (start offset : Nat) :
    isSpacingAt (text.drop start) offset = isSpacingAt text (start + offset) := by
  simp [isSpacingAt, List.drop_drop]

theorem isSpacingAt_of_isGap {text : List Char} {offset : Nat} {character : Char}
    (present : text[offset]? = some character) (gap : Lexeme.isGap character = true) :
    isSpacingAt text offset = true := by
  obtain ⟨inside, rfl⟩ := List.getElem?_eq_some_iff.mp present
  rw [isSpacingAt, List.drop_eq_getElem_cons inside]
  split
  · rename_i impossible
    cases impossible
  · rfl
  · rfl
  · rename_i begins
    cases begins
    exact gap

/-- The first characters of a text, as many as given, only separate tokens. -/
structure SpacingPrefix (text : List Char) (length : Nat) : Prop where
  within : length ≤ text.length
  separates : ∀ offset < length, isSpacingAt text offset = true

namespace SpacingPrefix

theorem zero (text : List Char) : SpacingPrefix text 0 :=
  ⟨Nat.zero_le _, fun _ impossible => absurd impossible (Nat.not_lt_zero _)⟩

theorem cons {character : Char} {rest : List Char} {length : Nat}
    (head : isSpacingAt (character :: rest) 0 = true) (tail : SpacingPrefix rest length) :
    SpacingPrefix (character :: rest) (length + 1) := by
  refine ⟨Nat.succ_le_succ tail.within, fun offset inside => ?_⟩
  cases offset with
  | zero => exact head
  | succ offset => exact tail.separates offset (Nat.lt_of_succ_lt_succ inside)

theorem ofCountWhile {test : Char → Bool}
    (gaps : ∀ character, test character = true → Lexeme.isGap character = true)
    (text : List Char) : SpacingPrefix text (countWhile test text) := by
  refine ⟨countWhile_le test text, fun offset inside => ?_⟩
  obtain ⟨character, present, passes⟩ := test_of_lt_countWhile inside
  exact isSpacingAt_of_isGap present (gaps character passes)

/-- What separates tokens at the start of the rest of a text does so in the text. -/
theorem spacing {text : List Char} {start length : Nat} (inside : start ≤ text.length)
    (spacingPrefix : SpacingPrefix (text.drop start) length) :
    Spacing text start (start + length) := by
  have bound := spacingPrefix.within
  rw [List.length_drop] at bound
  refine ⟨Nat.le_add_right _ _, by omega, fun offset after before => ?_⟩
  have := spacingPrefix.separates (offset - start) (by omega)
  rwa [isSpacingAt_drop, Nat.add_sub_cancel' after] at this

end SpacingPrefix

namespace Lexeme

theorem isGap_of_isBlank {character : Char} (blank : isBlank character = true) :
    isGap character = true := by
  simp [isGap, blank]

theorem isGap_of_isHorizontal {character : Char} (horizontal : isHorizontal character = true) :
    isGap character = true := by
  simp only [isHorizontal, Bool.or_eq_true, beq_iff_eq] at horizontal
  rcases horizontal with ((rfl | rfl) | rfl) | rfl <;> decide

/-- A space or a tab, which may stand in front of a command argument. -/
def isCommandBlank (character : Char) : Bool :=
  character == ' ' || character == '\t'

theorem isBlank_of_isCommandBlank {character : Char} (blank : isCommandBlank character = true) :
    isBlank character = true := by
  simp only [isCommandBlank, Bool.or_eq_true, beq_iff_eq] at blank
  rcases blank with rfl | rfl <;> decide

theorem isSpacingAt_head {character : Char} {rest : List Char}
    (gap : isGap character = true) : isSpacingAt (character :: rest) 0 = true :=
  isSpacingAt_of_isGap rfl gap

/-- The length of characters that pass a test and of backslashes that continue the line. -/
def continuedLength (passes : Char → Bool) : List Char → Nat
  | [] => 0
  | '\\' :: '\n' :: rest => continuedLength passes rest + 2
  | '\\' :: '\r' :: '\n' :: rest => continuedLength passes rest + 3
  | character :: rest => if passes character then continuedLength passes rest + 1 else 0

theorem horizontalLength_eq : horizontalLength = continuedLength isHorizontal := by
  funext text
  fun_induction horizontalLength text <;> simp [continuedLength, *]

theorem commandGapLength_eq : commandGapLength = continuedLength isCommandBlank := by
  funext text
  fun_induction commandGapLength text <;> simp [continuedLength, isCommandBlank, *]

theorem continuedLength_spacingPrefix {passes : Char → Bool}
    (gap : ∀ {character}, passes character = true → isGap character = true) (text : List Char) :
    SpacingPrefix text (continuedLength passes text) := by
  fun_induction continuedLength passes text with
  | case1 => exact .zero []
  | case2 rest ih => exact .cons rfl (.cons (isSpacingAt_head (by decide)) ih)
  | case3 rest ih =>
      exact .cons rfl (.cons (isSpacingAt_head (by decide))
        (.cons (isSpacingAt_head (by decide)) ih))
  | case4 character rest _ _ taken ih => exact .cons (isSpacingAt_head (gap taken)) ih
  | case5 => exact .zero _

theorem horizontalLength_spacingPrefix (text : List Char) :
    SpacingPrefix text (horizontalLength text) :=
  horizontalLength_eq ▸ continuedLength_spacingPrefix isGap_of_isHorizontal text

theorem commandGapLength_spacingPrefix (text : List Char) :
    SpacingPrefix text (commandGapLength text) :=
  commandGapLength_eq ▸
    continuedLength_spacingPrefix (fun blank => isGap_of_isBlank (isBlank_of_isCommandBlank blank))
      text

theorem commandStart_spacingPrefix {text : List Char} {length : Nat}
    (scanned : commandStart text = some length) : SpacingPrefix text length := by
  unfold commandStart at scanned
  dsimp only at scanned
  split at scanned
  · cases scanned
    exact commandGapLength_spacingPrefix text
  · cases scanned

theorem parameterStart_spacingPrefix {text : List Char} {length : Nat}
    (scanned : parameterStart text = some length) : SpacingPrefix text length := by
  unfold parameterStart at scanned
  dsimp only at scanned
  split at scanned
  · cases scanned
    exact .ofCountWhile (fun _ blank => isGap_of_isBlank (isBlank_of_isCommandBlank blank)) text
  · cases scanned

theorem sameLineValue_spacingPrefix {text : List Char} {length : Nat}
    (scanned : sameLineValue text = some length) : SpacingPrefix text length := by
  fun_induction sameLineValue text generalizing length with
  | case1 => cases scanned
  | case2 rest ih =>
      rcases continued : sameLineValue rest with _ | inner
      · simp [continued] at scanned
        subst scanned
        exact .zero _
      · simp [continued] at scanned
        subst scanned
        exact .cons rfl (.cons (isSpacingAt_head (by decide)) (ih continued))
  | case3 rest ih =>
      rcases continued : sameLineValue rest with _ | inner
      · simp [continued] at scanned
        subst scanned
        exact .zero _
      · simp [continued] at scanned
        subst scanned
        exact .cons rfl (.cons (isSpacingAt_head (by decide))
          (.cons (isSpacingAt_head (by decide)) (ih continued)))
  | case4 character rest _ _ horizontal ih =>
      obtain ⟨inner, innerScanned, rfl⟩ := Option.map_eq_some_iff.mp scanned
      exact .cons (isSpacingAt_head (isGap_of_isHorizontal horizontal)) (ih innerScanned)
  | case5 =>
      cases scanned
      exact .zero _
  | case6 => cases scanned

theorem separator_spacingPrefix {text : List Char} {length : Nat}
    (scanned : separator text = some length) : SpacingPrefix text length := by
  obtain ⟨within, gaps⟩ := separator_eq_some scanned
  refine ⟨within, fun offset inside => ?_⟩
  have present : text[offset]? = some text[offset] := List.getElem?_eq_getElem (by omega)
  refine isSpacingAt_of_isGap present (gaps _ ?_)
  exact List.mem_take_iff_getElem.mpr ⟨offset, by omega, rfl⟩

end Lexeme

/-- What is skipped in front of a token only separates tokens. -/
theorem Skip.length_spacingPrefix (kind : Skip) (text : List Char) :
    SpacingPrefix text (kind.length text) := by
  cases kind with
  | blanks => exact .ofCountWhile (fun _ => Lexeme.isGap_of_isBlank) text
  | gap => exact .ofCountWhile (fun _ passes => passes) text
  | horizontal => exact Lexeme.horizontalLength_spacingPrefix text

theorem Skip.length_le (kind : Skip) (text : List Char) : kind.length text ≤ text.length :=
  (kind.length_spacingPrefix text).within

/-! ### Comments -/

theorem CommentSpan.ofLine?_bounds {text : List Char} {span : CommentSpan}
    (found : ofLine? text = some span) :
    (∃ rest, text = '#' :: rest) ∧ 0 < span.textStart ∧
      span.textStart + span.textLength ≤ span.length ∧ span.length ≤ text.length := by
  unfold ofLine? at found
  split at found
  · rename_i rest
    cases found
    have lineWithin := countWhile_le (· != '\n') rest
    have leadWithin := countWhile_le (fun character => character == ' ' || character == '\t')
      (rest.takeWhile (· != '\n'))
    simp only [countWhile] at lineWithin leadWithin ⊢
    refine ⟨⟨rest, rfl⟩, by omega, by omega, ?_⟩
    simp only [List.length_cons]
    omega
  · cases found

theorem CommentSpan.blockTextLength?_lt {text : List Char} {length : Nat}
    (found : blockTextLength? text = some length) : length < text.length := by
  induction text generalizing length with
  | nil => cases found
  | cons character rest ih =>
      unfold blockTextLength? at found
      split at found
      · cases found
        simp
      · obtain ⟨inner, innerFound, rfl⟩ := Option.map_eq_some_iff.mp found
        have := ih innerFound
        simp only [List.length_cons]
        omega

theorem CommentSpan.ofBlock?_bounds {text : List Char} {span : CommentSpan}
    (found : ofBlock? text = some span) :
    (∃ rest, text = '=' :: rest) ∧ 0 < span.textStart ∧
      span.textStart + span.textLength ≤ span.length ∧ span.length ≤ text.length := by
  unfold ofBlock? at found
  split at found
  · rename_i marked
    have begins : ∃ rest, text = '=' :: rest := by
      simp only [startsMarker, Bool.and_eq_true] at marked
      obtain ⟨back, rfl⟩ := List.isPrefixOf_iff_prefix.mp marked.1
      exact ⟨_, rfl⟩
    refine ⟨begins, ?_⟩
    have openingWithin := countWhile_le (· != '\n') text
    dsimp only at found
    split at found
    · cases found
    · rename_i feed body behind
      have total : text.length = countWhile (· != '\n') text + (body.length + 1) := by
        have := congrArg List.length behind
        simp only [List.length_drop, List.length_cons] at this
        omega
      split at found
      · rename_i textLength textFound
        cases found
        have textWithin := blockTextLength?_lt textFound
        have lastWithin := countWhile_le (· != '\n') (body.drop (textLength + 1))
        simp only [List.length_drop] at lastWithin
        refine ⟨?_, ?_, ?_⟩ <;> dsimp only <;> omega
      · split at found
        · cases found
          have lastWithin := countWhile_le (· != '\n') body
          refine ⟨?_, ?_, ?_⟩ <;> dsimp only <;> omega
        · cases found
  · cases found

/-- The extent of the comment that starts at an offset of a text, if one does. -/
def commentSpan? (text : List Char) (offset : Nat) : Option CommentSpan :=
  (if startsLine text offset then CommentSpan.ofBlock? (text.drop offset) else none).or
    (CommentSpan.ofLine? (text.drop offset))

theorem commentSpan?_bounds {text : List Char} {offset : Nat} {span : CommentSpan}
    (found : commentSpan? text offset = some span) :
    (text[offset]? = some '#' ∨ text[offset]? = some '=') ∧ 0 < span.textStart ∧
      span.textStart + span.textLength ≤ span.length ∧ offset + span.length ≤ text.length := by
  rcases Option.or_eq_some_iff.mp found with block | ⟨-, line⟩
  · split at block
    · obtain ⟨⟨rest, begins⟩, start, inner, outer⟩ := CommentSpan.ofBlock?_bounds block
      have head := congrArg List.head? begins
      rw [List.head?_drop] at head
      rw [List.length_drop] at outer
      exact ⟨Or.inr head, start, inner, by omega⟩
    · cases block
  · obtain ⟨⟨rest, begins⟩, start, inner, outer⟩ := CommentSpan.ofLine?_bounds line
    have head := congrArg List.head? begins
    rw [List.head?_drop] at head
    rw [List.length_drop] at outer
    exact ⟨Or.inl head, start, inner, by omega⟩

theorem commentSpan?_length_pos {text : List Char} {offset : Nat} {span : CommentSpan}
    (found : commentSpan? text offset = some span) : 0 < span.length := by
  obtain ⟨-, start, inner, -⟩ := commentSpan?_bounds found
  omega

/-- The offset of the first token at or behind an offset: blanks, semicolons and comments
are passed over. -/
def tokenPlace (text : List Char) (offset : Nat) : Nat :=
  match _found : text[offset]? with
  | none => offset
  | some character =>
    if Lexeme.isGap character then tokenPlace text (offset + 1)
    else
      match _comment : commentSpan? text offset with
      | some span => tokenPlace text (offset + span.length)
      | none => offset
termination_by text.length - offset
decreasing_by
  · have := (List.getElem?_eq_some_iff.mp _found).1
    omega
  · have := (List.getElem?_eq_some_iff.mp _found).1
    have := commentSpan?_length_pos _comment
    omega

theorem tokenPlace_of_gap {text : List Char} {offset : Nat} {character : Char}
    (present : text[offset]? = some character) (gap : Lexeme.isGap character = true) :
    tokenPlace text offset = tokenPlace text (offset + 1) := by
  rw [tokenPlace]
  split
  · rename_i absent
    rw [present] at absent
    cases absent
  · rename_i found
    rw [present] at found
    cases found
    simp [gap]

theorem tokenPlace_of_comment {text : List Char} {offset : Nat} {span : CommentSpan}
    (found : commentSpan? text offset = some span) :
    tokenPlace text offset = tokenPlace text (offset + span.length) := by
  have marker := (commentSpan?_bounds found).1
  rw [tokenPlace]
  split
  · rename_i absent
    rw [absent] at marker
    rcases marker with impossible | impossible <;> cases impossible
  · rename_i character present
    have solid : Lexeme.isGap character = false := by
      rw [present] at marker
      rcases marker with equal | equal <;> cases equal <;> decide
    simp only [solid, Bool.false_eq_true, if_false]
    split
    · rename_i other otherFound
      rw [found] at otherFound
      cases otherFound
      rfl
    · rename_i absent
      rw [found] at absent
      cases absent

/-- An offset is its own token place when nothing is passed over there. -/
theorem tokenPlace_eq_self {text : List Char} {offset : Nat}
    (solid : ∀ character, text[offset]? = some character → Lexeme.isGap character = false)
    (noComment : commentSpan? text offset = none) : tokenPlace text offset = offset := by
  rw [tokenPlace]
  split
  · rfl
  · rename_i character present
    simp only [solid character present, Bool.false_eq_true, if_false]
    split
    · rename_i span found
      rw [noComment] at found
      cases found
    · rfl

/-- Nothing is passed over where a character stands that begins neither spacing nor a
comment. -/
theorem tokenPlace_of_getElem? {text : List Char} {offset : Nat} {character : Char}
    (present : text[offset]? = some character)
    (solid : Lexeme.isGap character = false ∧ character ≠ '#' ∧ character ≠ '=') :
    tokenPlace text offset = offset := by
  refine tokenPlace_eq_self (fun other otherPresent => ?_) ?_
  · rw [present] at otherPresent
    cases otherPresent
    exact solid.1
  · cases found : commentSpan? text offset with
    | none => rfl
    | some span =>
        have marker := (commentSpan?_bounds found).1
        rw [present] at marker
        rcases marker with sign | equals
        · exact absurd (Option.some.inj sign) solid.2.1
        · exact absurd (Option.some.inj equals) solid.2.2

/-- The offset of the first token behind an item that a comma may follow. -/
def placeBehind (text : List Char) (offset : Nat) : Nat :=
  if text[tokenPlace text offset]? = some ',' then tokenPlace text (tokenPlace text offset + 1)
  else tokenPlace text offset

/-- Gaps in front of a token are passed over. -/
theorem tokenPlace_of_gaps {text : List Char} {start middle : Nat} (le : start ≤ middle)
    (gaps : ∀ offset, start ≤ offset → offset < middle →
      ∃ character, text[offset]? = some character ∧ Lexeme.isGap character = true) :
    tokenPlace text start = tokenPlace text middle := by
  induction hidden : middle - start generalizing start with
  | zero =>
      obtain rfl : start = middle := by omega
      rfl
  | succ count ih =>
      obtain ⟨character, present, isGap⟩ := gaps start (Nat.le_refl _) (by omega)
      rw [tokenPlace_of_gap present isGap]
      exact ih (by omega) (fun offset after before => gaps offset (by omega) before) (by omega)

end RubySyntax
