import RubySyntax.Proofs.RelatedRuns
import RubySyntax.Proofs.SeamComments

/-!
# Comments in two texts

A comment ends where its line or its last line does.  If two texts stay related from the end of
one line to the end of the next, then a comment that begins both of them ends at related places.
-/

namespace RubySyntax

/-- The number of characters up to the end of the line. -/
abbrev lineLength (text : List Char) : Nat :=
  countWhile (· != '\n') text

/-- A line ends in front of a text. -/
def AtLineEnd (text : List Char) : Prop :=
  ∀ character ∈ text.head?, character = '\n'

@[simp]
theorem atLineEnd_nil : AtLineEnd [] := by
  simp [AtLineEnd]

@[simp]
theorem atLineEnd_cons {character : Char} {rest : List Char} :
    AtLineEnd (character :: rest) ↔ character = '\n' := by
  simp [AtLineEnd]

theorem atLineEnd_drop_lineLength (text : List Char) : AtLineEnd (text.drop (lineLength text)) := by
  intro character member
  rw [List.head?_drop] at member
  simpa using test_countWhile member

/-- What follows the line feed of a first line. -/
theorem drop_lineLength_add {text rest : List Char}
    (rest_eq : text.drop (lineLength text) = '\n' :: rest) (count : Nat) :
    text.drop (lineLength text + 1 + count) = rest.drop count := by
  rw [← List.drop_drop, ← List.drop_drop, rest_eq]
  rfl

theorem Cursor.advance_add (first second : Nat) (cursor : Cursor) :
    cursor.advance (first + second) = (cursor.advance first).advance second := by
  have ended (offset : Nat) (start : Bool) (count : Nat) :
      Cursor.advance count ⟨offset, start, []⟩ = ⟨offset, start, []⟩ := by
    cases count <;> rfl
  induction first generalizing cursor with
  | zero => rw [Nat.zero_add, Cursor.advance]
  | succ first ih =>
      obtain ⟨offset, start, rest⟩ := cursor
      cases rest with
      | nil => rw [ended, ended, ended]
      | cons character rest =>
          rw [Nat.succ_add]
          exact ih _

/-- Behind the same characters a line starts in both texts or in neither. -/
theorem Cursor.atLineStart_advance {cursor onward : Cursor} {word behind other : List Char}
    (rest_eq : cursor.rest = word ++ behind) (onward_eq : onward.rest = word ++ other) {count : Nat}
    (positive : 0 < count) (within : count ≤ word.length) :
    (cursor.advance count).atLineStart = (onward.advance count).atLineStart := by
  induction word generalizing cursor onward count with
  | nil => exact absurd within (Nat.not_le.mpr positive)
  | cons character word ih =>
      obtain ⟨offset, start, rest⟩ := cursor
      obtain ⟨otherOffset, otherStart, otherRest⟩ := onward
      obtain rfl : rest = character :: (word ++ behind) := rest_eq
      obtain rfl : otherRest = character :: (word ++ other) := onward_eq
      cases count with
      | zero => exact absurd positive (Nat.lt_irrefl 0)
      | succ count =>
          cases count with
          | zero => rfl
          | succ count =>
              have behindFirst := @ih ⟨offset + 1, character == '\n', word ++ behind⟩
                ⟨otherOffset + 1, character == '\n', word ++ other⟩ rfl rfl (count + 1)
              exact behindFirst (Nat.succ_pos count) (Nat.le_of_succ_le_succ within)

abbrev TextRelation :=
  List Char → List Char → Prop

namespace TextRelation

/-- Places in front of related texts.  Where a line ends it does not matter whether one starts. -/
structure At (related : TextRelation) (cursor onward : Cursor) : Prop where
  rest : related cursor.rest onward.rest
  start : cursor.atLineStart = onward.atLineStart ∨ AtLineEnd cursor.rest

theorem At.advance {related : TextRelation} {cursor onward : Cursor}
    (alike : related.At cursor onward) {word behind other : List Char}
    (rest_eq : cursor.rest = word ++ behind) (onward_eq : onward.rest = word ++ other) {count : Nat}
    (within : count ≤ word.length)
    (later : related (cursor.rest.drop count) (onward.rest.drop count)) :
    related.At (cursor.advance count) (onward.advance count) := by
  cases count with
  | zero => exact alike
  | succ count =>
      refine ⟨?_, Or.inl (Cursor.atLineStart_advance rest_eq onward_eq (Nat.succ_pos count) within)⟩
      rw [Cursor.rest_advance, Cursor.rest_advance]
      exact later

/-- Nothing is found in either text, or something is found behind which the texts are related. -/
def Finds (related : TextRelation) (first second : List Char) (found other : Option Nat) : Prop :=
  found = none ∧ other = none ∨ ∃ count further, found = some count ∧ other = some further ∧
    related (first.drop count) (second.drop further)

/-- A relation between texts that is kept from the end of one line to that of the next. -/
structure KeepsLines (related : TextRelation) : Prop where
  line {first second : List Char} : related first second →
    related (first.drop (lineLength first)) (second.drop (lineLength second))
  feed {first second : List Char} : related first second → AtLineEnd first → AtLineEnd second →
    first = [] ∧ second = [] ∨
      ∃ rest other, first = '\n' :: rest ∧ second = '\n' :: other ∧ related rest other
  marker {marker : String} (solid : IsSolid marker.toList) {first second : List Char} :
    related first second →
      CommentSpan.startsMarker marker first = CommentSpan.startsMarker marker second

end TextRelation

/-- Places in front of the same text. -/
def SameText : PlaceRelation :=
  TextRelation.At Eq

theorem SameText.advance {cursor onward : Cursor} (alike : SameText cursor onward) {count : Nat}
    (within : count ≤ cursor.rest.length) :
    SameText (cursor.advance count) (onward.advance count) := by
  have rest_eq : cursor.rest = cursor.rest ++ [] := (List.append_nil _).symm
  exact TextRelation.At.advance alike rest_eq (alike.rest.symm.trans rest_eq) within
    (by rw [alike.rest])

theorem SameText.skip {cursor onward : Cursor} (alike : SameText cursor onward) (kind : Skip) :
    SameText.behind kind cursor onward := by
  rw [PlaceRelation.behind, ← alike.rest]
  exact SameText.advance alike (Skip.length_le kind _)

namespace CommentSpan

theorem length_ofLine? (text : List Char) : (ofLine? text).map length =
    if text.head? = some '#' then some (lineLength text) else none := by
  cases text with
  | nil => rfl
  | cons character rest =>
      by_cases sign : character = '#'
      · subst sign
        rw [List.head?_cons, if_pos rfl, lineLength, countWhile_cons, if_pos (by decide)]
        rfl
      · rw [ofLine?.eq_2 _ (by simp [sign]), if_neg (by simp [sign])]
        rfl

theorem ofLine?_eq_some {text : List Char} {span : CommentSpan} (found : ofLine? text = some span) :
    span.length = lineLength text := by
  have length_eq := length_ofLine? text
  rw [found] at length_eq
  split at length_eq
  · exact Option.some.inj length_eq
  · cases length_eq

theorem ofBlock?_eq_some {text : List Char} {span : CommentSpan}
    (found : ofBlock? text = some span) :
    ∃ stop, span.length = stop + lineLength (text.drop stop) := by
  simp only [ofBlock?] at found
  split at found
  · split at found
    · cases found
    · rename_i body body_eq
      have behind : text.drop (lineLength text + 1) = body := by
        rw [← List.drop_drop, body_eq]
        rfl
      split at found
      · rename_i textLength _
        cases found
        refine ⟨lineLength text + 1 + (textLength + 1), ?_⟩
        have behindText : text.drop (lineLength text + 1 + (textLength + 1)) =
            body.drop (textLength + 1) := by
          rw [← List.drop_drop, behind]
        rw [behindText]
        rfl
      · split at found
        · cases found
          exact ⟨lineLength text + 1, by rw [behind]⟩
        · cases found
  · cases found

theorem blockTextLength?_line (text : List Char) :
    blockTextLength? text = match text.drop (lineLength text) with
      | [] => none
      | _ :: rest =>
        if startsBlockEnd rest then some (lineLength text)
        else (blockTextLength? rest).map (· + (lineLength text + 1)) := by
  induction text with
  | nil => rfl
  | cons character text ih =>
      rw [blockTextLength?, lineLength, countWhile_cons]
      by_cases feed : character = '\n'
      · subst feed
        simp
      · have kept : (character != '\n') = true := bne_iff_ne.mpr feed
        rw [if_neg (by simp [feed]), if_pos kept, List.drop_succ_cons, ih]
        cases text.drop (lineLength text) with
        | nil => rfl
        | cons first rest =>
            dsimp only
            split
            · rfl
            · rw [Option.map_map]
              exact congrArg (Option.map · _) (funext fun count => by simp [Nat.add_assoc])

end CommentSpan

namespace TextRelation.KeepsLines

variable {related : TextRelation} (keeps : related.KeepsLines) {first second : List Char}
include keeps

/-- Both texts end with their first line, or related ones follow it. -/
theorem next (alike : related first second) :
    first.drop (lineLength first) = [] ∧ second.drop (lineLength second) = [] ∨
      ∃ rest other, first.drop (lineLength first) = '\n' :: rest ∧
        second.drop (lineLength second) = '\n' :: other ∧ related rest other :=
  keeps.feed (keeps.line alike) (atLineEnd_drop_lineLength first) (atLineEnd_drop_lineLength second)

theorem blockText (alike : related first second) : related.Finds first second
    ((CommentSpan.blockTextLength? first).map (· + 1))
    ((CommentSpan.blockTextLength? second).map (· + 1)) := by
  induction length_eq : first.length using Nat.strong_induction_on generalizing first second with
  | _ length ih =>
    subst length_eq
    rw [CommentSpan.blockTextLength?_line first, CommentSpan.blockTextLength?_line second]
    rcases keeps.next alike with ⟨ends, endsToo⟩ | ⟨rest, other, rest_eq, other_eq, onward⟩
    · rw [ends, endsToo]
      exact Or.inl ⟨rfl, rfl⟩
    · have marked : CommentSpan.startsBlockEnd rest = CommentSpan.startsBlockEnd other :=
        keeps.marker (by decide) onward
      rw [rest_eq, other_eq]
      dsimp only
      rw [marked]
      split
      · exact Or.inr ⟨_, _, rfl, rfl, by simpa using
          (drop_lineLength_add rest_eq 0).symm ▸ (drop_lineLength_add other_eq 0).symm ▸ onward⟩
      · have shorter : rest.length < first.length := by
          have length_eq := congrArg List.length rest_eq
          rw [List.length_drop, List.length_cons] at length_eq
          omega
        rcases ih _ shorter onward rfl with ⟨none, noneToo⟩ | ⟨count, further, some, someToo, last⟩
        · rw [Option.map_eq_none_iff] at none noneToo
          rw [none, noneToo]
          exact Or.inl ⟨rfl, rfl⟩
        · obtain ⟨found, found_eq, rfl⟩ := Option.map_eq_some_iff.mp some
          obtain ⟨otherFound, otherFound_eq, rfl⟩ := Option.map_eq_some_iff.mp someToo
          rw [found_eq, otherFound_eq]
          refine Or.inr ⟨lineLength first + 1 + (found + 1), lineLength second + 1 + (otherFound + 1),
            ?_, ?_, ?_⟩
          · simp only [Option.map_some, Option.some.injEq]
            omega
          · simp only [Option.map_some, Option.some.injEq]
            omega
          · rw [drop_lineLength_add rest_eq, drop_lineLength_add other_eq]
            exact last

theorem ofLine? (alike : related first second)
    (signs : first.head? = some '#' ↔ second.head? = some '#') : related.Finds first second
      ((CommentSpan.ofLine? first).map CommentSpan.length)
      ((CommentSpan.ofLine? second).map CommentSpan.length) := by
  rw [CommentSpan.length_ofLine?, CommentSpan.length_ofLine?]
  by_cases sign : first.head? = some '#'
  · rw [if_pos sign, if_pos (signs.mp sign)]
    exact Or.inr ⟨_, _, rfl, rfl, keeps.line alike⟩
  · rw [if_neg sign, if_neg (mt signs.mpr sign)]
    exact Or.inl ⟨rfl, rfl⟩

/-- A block comment ends with its last line. -/
theorem ofBlock? (alike : related first second) : related.Finds first second
    ((CommentSpan.ofBlock? first).map CommentSpan.length)
    ((CommentSpan.ofBlock? second).map CommentSpan.length) := by
  have marker := keeps.marker (show IsSolid "=begin".toList by decide) alike
  rw [CommentSpan.ofBlock?, CommentSpan.ofBlock?, marker]
  split
  · rcases keeps.next alike with ⟨ends, endsToo⟩ | ⟨body, other, body_eq, other_eq, bodies⟩
    · simp only [ends, endsToo]
      exact Or.inl ⟨rfl, rfl⟩
    · have marked : CommentSpan.startsBlockEnd body = CommentSpan.startsBlockEnd other :=
        keeps.marker (by decide) bodies
      simp only [body_eq, other_eq]
      rcases keeps.blockText bodies with ⟨none, noneToo⟩ | ⟨count, further, some, someToo, last⟩
      · rw [Option.map_eq_none_iff] at none noneToo
        simp only [none, noneToo, marked]
        split
        · refine Or.inr ⟨_, _, rfl, rfl, ?_⟩
          rw [drop_lineLength_add body_eq, drop_lineLength_add other_eq]
          exact keeps.line bodies
        · exact Or.inl ⟨rfl, rfl⟩
      · obtain ⟨found, found_eq, rfl⟩ := Option.map_eq_some_iff.mp some
        obtain ⟨otherFound, otherFound_eq, rfl⟩ := Option.map_eq_some_iff.mp someToo
        simp only [found_eq, otherFound_eq]
        have whole := keeps.line last
        rw [List.drop_drop, List.drop_drop, ← drop_lineLength_add body_eq,
          ← drop_lineLength_add other_eq] at whole
        exact Or.inr ⟨_, _, rfl, rfl, by simpa only [Nat.add_assoc] using whole⟩
  · exact Or.inl ⟨rfl, rfl⟩

end TextRelation.KeepsLines

/-! ### Reading comments -/

namespace Matcher

variable {related : TextRelation} {γ : Type} {notes : Node → γ} {cursor onward : Cursor}

theorem commentOf_alike {kind : String} {span? : List Char → Option CommentSpan}
    (spans : related.Finds cursor.rest onward.rest ((span? cursor.rest).map CommentSpan.length)
      ((span? onward.rest).map CommentSpan.length))
    (ends : ∀ span ∈ span? cursor.rest, AtLineEnd (cursor.rest.drop span.length))
    (noted : ∀ span ∈ span? cursor.rest, ∀ other ∈ span? onward.rest, ∀ offset another : Int,
      notes (Node.comment kind (String.ofList ((cursor.rest.drop span.textStart).take
        span.textLength)) cursor.offset offset) =
      notes (Node.comment kind (String.ofList ((onward.rest.drop other.textStart).take
        other.textLength)) onward.offset another)) :
    (commentOf kind span? cursor).Alike related.At notes (commentOf kind span? onward) := by
  rcases spans with ⟨none, noneToo⟩ | ⟨count, further, some, someToo, last⟩
  · rw [Option.map_eq_none_iff] at none noneToo
    simp only [commentOf, none, noneToo]
    exact .failed
  · obtain ⟨span, found, rfl⟩ := Option.map_eq_some_iff.mp some
    obtain ⟨other, otherFound, rfl⟩ := Option.map_eq_some_iff.mp someToo
    simp only [commentOf, found, otherFound]
    refine .matched (noted span found other otherFound _ _) ⟨?_, Or.inr ?_⟩
    · rw [Cursor.rest_advance, Cursor.rest_advance]
      exact last
    · rw [Cursor.rest_advance]
      exact ends span found

theorem lineComment_alike (keeps : related.KeepsLines) (alike : related.At cursor onward)
    (signs : cursor.rest.head? = some '#' ↔ onward.rest.head? = some '#')
    (noted : ∀ span ∈ CommentSpan.ofLine? cursor.rest, ∀ other ∈ CommentSpan.ofLine? onward.rest,
      ∀ offset another : Int,
      notes (Node.comment Tag.lineComment (String.ofList ((cursor.rest.drop span.textStart).take
        span.textLength)) cursor.offset offset) =
      notes (Node.comment Tag.lineComment (String.ofList ((onward.rest.drop other.textStart).take
        other.textLength)) onward.offset another)) :
    (lineComment cursor).Alike related.At notes (lineComment onward) := by
  refine commentOf_alike (keeps.ofLine? alike.rest signs) (fun span found => ?_) noted
  rw [CommentSpan.ofLine?_eq_some found]
  exact atLineEnd_drop_lineLength _

theorem blockComment_alike (keeps : related.KeepsLines)
    (noted : ∀ (text other : String) (offset another start further : Int),
      notes (Node.comment Tag.blockComment text offset start) =
        notes (Node.comment Tag.blockComment other another further))
    (alike : related.At cursor onward) :
    (blockComment cursor).Alike related.At notes (blockComment onward) := by
  have spans := keeps.ofBlock? alike.rest
  have reads : (commentOf Tag.blockComment CommentSpan.ofBlock? cursor).Alike related.At notes
      (commentOf Tag.blockComment CommentSpan.ofBlock? onward) := by
    refine commentOf_alike spans (fun span found => ?_) fun _ _ _ _ _ _ => noted _ _ _ _ _ _
    obtain ⟨stop, length_eq⟩ := CommentSpan.ofBlock?_eq_some found
    rw [length_eq, ← List.drop_drop]
    exact atLineEnd_drop_lineLength _
  rw [blockComment, blockComment]
  rcases alike.start with start | ends
  · rw [start]
    split
    · exact reads
    · exact .failed
  · -- No block comment begins at the end of a line, whether a line starts there or not.
    have missing : CommentSpan.ofBlock? cursor.rest = none := by
      refine CommentSpan.ofBlock?_eq_none ?_
      cases rest_eq : cursor.rest with
      | nil => rfl
      | cons character rest =>
          rw [rest_eq, atLineEnd_cons] at ends
          subst ends
          rfl
    rcases spans with ⟨-, missingToo⟩ | ⟨_, _, found, -⟩
    · rw [Option.map_eq_none_iff] at missingToo
      have rejected (starts : Bool) {place : Cursor}
          (missing : CommentSpan.ofBlock? place.rest = none) :
          (if starts then commentOf Tag.blockComment CommentSpan.ofBlock? place
            else .failed []) = .failed [] := by
        cases starts <;> simp [commentOf, missing]
      rw [rejected _ missing, rejected _ missingToo]
      exact .failed
    · rw [missing] at found
      cases found

end Matcher

end RubySyntax
