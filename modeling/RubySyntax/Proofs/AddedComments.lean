import RubySyntax.Proofs.RelatedRules
import RubySyntax.Proofs.RelatedComments

/-!
# A comment that is added to a line

Two texts differ in one line comment, which stands at the end of a line of the second one.  What
scanners and skips take from both ends at places that are alike again: in front of that line end,
at the same characters, or behind the line end in the first text while the comment is still to
come in the second one.
-/

namespace RubySyntax

/-! ### The two texts -/

/-- The start of a line that a comment may stand behind: it breaks off in no line continuation,
and no dot whose member is still to come is the last thing in it. -/
structure TakesComment (front : List Char) : Prop where
  unbroken : ∀ broken ∈ [['\\'], ['\\', '\r']], ¬ broken <:+ front
  undotted : ∀ gap, (∀ character ∈ gap, isBlank character = true) → ¬ '.' :: gap <:+ front

namespace TakesComment

variable {front : List Char}

theorem suffix {later : List Char} (takes : TakesComment front) (suffix : later <:+ front) :
    TakesComment later :=
  ⟨fun broken member breaks => takes.unbroken broken member (breaks.trans suffix),
    fun gap blank dotted => takes.undotted gap blank (dotted.trans suffix)⟩

theorem drop (takes : TakesComment front) (count : Nat) : TakesComment (front.drop count) :=
  takes.suffix (List.drop_suffix count front)

theorem isUnbroken (takes : TakesComment front) (filled : front ≠ []) : IsUnbroken front := by
  intro member
  rcases List.mem_cons.mp member with rfl | broken
  · exact filled rfl
  · exact takes.unbroken front broken List.suffix_rfl

theorem iff_dropWhile : TakesComment front ↔
    (∀ broken ∈ [['\\'], ['\\', '\r']], ¬ broken <:+ front) ∧
      (front.reverse.dropWhile isBlank).head? ≠ some '.' := by
  constructor
  · rintro ⟨unbroken, undotted⟩
    refine ⟨unbroken, fun dotted => ?_⟩
    obtain ⟨start, start_eq⟩ := List.head?_eq_some_iff.mp dotted
    have parts := List.takeWhile_append_dropWhile (p := isBlank) (l := front.reverse)
    rw [start_eq] at parts
    refine undotted (front.reverse.takeWhile isBlank).reverse (fun character member => ?_)
      ⟨start.reverse, by simpa using congrArg List.reverse parts⟩
    exact List.all_eq_true.mp List.all_takeWhile character (List.mem_reverse.mp member)
  · rintro ⟨unbroken, undotted⟩
    refine ⟨unbroken, fun gap blank => ?_⟩
    rintro ⟨start, rfl⟩
    refine undotted ?_
    rw [List.reverse_append, List.reverse_cons, List.append_assoc,
      List.dropWhile_append_of_pos fun character member =>
        blank character (List.mem_reverse.mp member)]
    rfl

instance (front : List Char) : Decidable (TakesComment front) :=
  decidable_of_iff _ iff_dropWhile.symm

end TakesComment

/-- The words of a line comment, and the lines behind it. -/
structure AddedComment where
  words : List Char
  back : List Char
  onLine : '\n' ∉ words
  /-- A slash could end a regular expression. -/
  unslashed : '/' ∉ words
  /-- Commas, bars and stray semicolons are only looked for behind blanks. -/
  starts : ∀ character ∈ (back.drop (Skip.blanks.length back)).head?,
    character ∉ [',', '|', ';']

namespace AddedComment

variable (added : AddedComment)

/-- The second text has the comment at the end of a line, or both texts are the same. -/
inductive Texts : TextRelation
  | ahead {front blanks : List Char} (takes : TakesComment front)
      (blank : ∀ character ∈ blanks, character ∈ [' ', '\t']) :
      Texts (front ++ '\n' :: added.back) (front ++ commented blanks added.words added.back)
  | same (text : List Char) : Texts text text

/-- Places behind a token. -/
abbrev Near : PlaceRelation :=
  TextRelation.At added.Texts

/-- The first text has gone on behind the line end, and the second one is at the comment. -/
structure Passed (cursor onward : Cursor) : Prop where
  origin : ∃ origin : Cursor, origin.rest = '\n' :: added.back ∧
    cursor = origin.advance (Skip.blanks.length origin.rest)
  rest : onward.rest = commented [] added.words added.back

/-- Places in front of an operand. -/
def Far : PlaceRelation :=
  fun cursor onward => added.Near cursor onward ∨ added.Passed cursor onward

end AddedComment

/-! ### The line of the comment -/

/-- Where no semicolon follows the blanks, a gap is nothing but blanks. -/
theorem countWhile_isGap {text : List Char}
    (solid : ∀ character ∈ (text.drop (countWhile isBlank text)).head?, character ≠ ';') :
    countWhile Lexeme.isGap text = countWhile isBlank text := by
  induction text with
  | nil => rfl
  | cons character text ih =>
      rw [countWhile_cons] at solid
      rw [countWhile_cons, countWhile_cons]
      by_cases blank : isBlank character = true
      · rw [if_pos blank] at solid
        rw [if_pos blank, if_pos (by simp [Lexeme.isGap, blank]), ih (by simpa using solid)]
      · rw [if_neg blank] at solid
        have other : character ≠ ';' := by simpa using solid
        rw [if_neg blank, if_neg (by simp [Lexeme.isGap, blank, other])]

theorem drop_length_commented (blanks words back : List Char) :
    (commented blanks words back).drop blanks.length = commented [] words back := by
  rw [commented, List.drop_left]
  rfl

section

variable {blanks words back : List Char} (blank : ∀ character ∈ blanks, character ∈ [' ', '\t'])
include blank

theorem Lexeme.continuedLength_commented {passes : Char → Bool}
    (taken : ∀ character ∈ [' ', '\t'], passes character = true) (stops : passes '#' = false) :
    continuedLength passes (commented blanks words back) = blanks.length := by
  have solid : ∀ character ∈ [' ', '\t', '#'], character ≠ '\\' := by decide
  have wider : ∀ character ∈ [' ', '\t'], character ∈ [' ', '\t', '#'] := by decide
  have step {character : Char} (member : character ∈ [' ', '\t', '#']) (rest : List Char) :
      continuedLength passes (character :: rest) =
        if passes character then continuedLength passes rest + 1 else 0 :=
    continuedLength.eq_4 _ _ _ (fun _ same => absurd same (solid character member))
      fun _ same => absurd same (solid character member)
  induction blanks with
  | nil =>
      rw [commented, List.nil_append, step (by decide), stops]
      rfl
  | cons character blanks ih =>
      obtain ⟨here, others⟩ := List.forall_mem_cons.mp blank
      have more := ih others
      rw [commented] at more
      rw [commented, List.cons_append, step (wider character here),
        if_pos (taken character here), more, List.length_cons]

theorem Skip.length_commented (kind : Skip) :
    kind.length (commented blanks words back) = blanks.length := by
  have counted {test : Char → Bool} (passes : ∀ character ∈ [' ', '\t'], test character = true)
      (stops : test '#' = false) :
      countWhile test (commented blanks words back) = blanks.length := by
    rw [commented, countWhile_append_of_passes fun character member =>
      passes character (blank character member), countWhile_cons, stops]
    rfl
  cases kind with
  | blanks => exact counted (by decide) (by decide)
  | gap => exact counted (by decide) (by decide)
  | horizontal =>
      rw [length, Lexeme.horizontalLength_eq]
      exact Lexeme.continuedLength_commented blank (by decide) (by decide)

theorem drop_lineLength_commented (onLine : '\n' ∉ words) :
    (commented blanks words back).drop (lineLength (commented blanks words back)) =
      '\n' :: back := by
  have inner : ∀ character ∈ blanks ++ '#' :: words, (character != '\n') = true := by
    intro character member
    rw [bne_iff_ne]
    rintro rfl
    rcases List.mem_append.mp member with inBlanks | inWords
    · exact absurd (blank _ inBlanks) (by decide)
    · exact onLine (by simpa using inWords)
  have line : commented blanks words back = (blanks ++ '#' :: words) ++ '\n' :: back := by
    simp [commented]
  rw [line, lineLength, countWhile_append_of_passes inner, countWhile_cons, if_neg (by decide),
    Nat.add_zero, List.drop_left]

end

namespace AddedComment

variable {added : AddedComment}

theorem Texts.drop {front blanks : List Char} (takes : TakesComment front)
    (blank : ∀ character ∈ blanks, character ∈ [' ', '\t']) {count : Nat}
    (within : count ≤ front.length) : added.Texts ((front ++ '\n' :: added.back).drop count)
      ((front ++ commented blanks added.words added.back).drop count) := by
  rw [List.drop_append_of_le_length within, List.drop_append_of_le_length within]
  exact .ahead (takes.drop count) blank

theorem texts_keepsLines : added.Texts.KeepsLines where
  line texts := by
    cases texts with
    | same text => exact .same _
    | @ahead front blanks takes blank =>
        by_cases ended : front.drop (lineLength front) = []
        · have all : lineLength front = front.length := by
            rw [List.drop_eq_nil_iff] at ended
            exact Nat.le_antisymm (countWhile_le _ front) ended
          rw [lineLength, lineLength, countWhile_append_of_all all, countWhile_append_of_all all,
            List.drop_length_add_append, List.drop_length_add_append,
            drop_lineLength_commented blank added.onLine]
          exact .same _
        · rw [lineLength, lineLength, countWhile_append_of_drop ended,
            countWhile_append_of_drop ended]
          exact .drop takes blank (countWhile_le _ front)
  feed {first _} texts ends endsToo := by
    cases texts with
    | same =>
        cases first with
        | nil => exact Or.inl ⟨rfl, rfl⟩
        | cons character rest =>
            obtain rfl := atLineEnd_cons.mp ends
            exact Or.inr ⟨_, _, rfl, rfl, .same rest⟩
    | @ahead front blanks takes blank =>
        cases front with
        | nil =>
            cases blanks with
            | nil => exact absurd (atLineEnd_cons.mp endsToo) (by decide)
            | cons character blanks =>
                obtain rfl := atLineEnd_cons.mp endsToo
                exact absurd (blank '\n' List.mem_cons_self) (by decide)
        | cons character front =>
            obtain rfl := atLineEnd_cons.mp ends
            exact Or.inr ⟨_, _, rfl, rfl, .ahead (takes.drop 1) blank⟩
  marker solid _ _ texts := by
    cases texts with
    | same text => rfl
    | @ahead front blanks takes blank =>
        rw [CommentSpan.startsMarker_append_break solid (EndsLine.feed _).isBreak,
          CommentSpan.startsMarker_append_break solid
            (EndsLine.comment blank added.unslashed _).isBreak]

/-! ### Places -/

theorem Near.of_same {cursor onward : Cursor} (alike : SameText cursor onward) :
    added.Near cursor onward :=
  ⟨alike.rest ▸ .same cursor.rest, alike.start⟩

/-- Near places stand in front of the same text, or in front of the end of a line that has the
comment in the second text. -/
theorem Near.same_or_ahead {cursor onward : Cursor} (near : added.Near cursor onward) :
    SameText cursor onward ∨
      ∃ front blanks, TakesComment front ∧ (∀ character ∈ blanks, character ∈ [' ', '\t']) ∧
        cursor.rest = front ++ '\n' :: added.back ∧
        onward.rest = front ++ commented blanks added.words added.back := by
  obtain ⟨texts, start⟩ := near
  generalize first_eq : cursor.rest = first at texts
  generalize second_eq : onward.rest = second at texts
  cases texts with
  | same => exact Or.inl ⟨first_eq.trans second_eq.symm, start⟩
  | ahead takes blank => exact Or.inr ⟨_, _, takes, blank, rfl, rfl⟩

theorem Near.advance {cursor onward : Cursor} (near : added.Near cursor onward)
    {front blanks : List Char} (takes : TakesComment front)
    (blank : ∀ character ∈ blanks, character ∈ [' ', '\t'])
    (rest_eq : cursor.rest = front ++ '\n' :: added.back)
    (onward_eq : onward.rest = front ++ commented blanks added.words added.back) {count : Nat}
    (within : count ≤ front.length) :
    added.Near (cursor.advance count) (onward.advance count) := by
  refine TextRelation.At.advance near rest_eq onward_eq within ?_
  rw [rest_eq, onward_eq]
  exact .drop takes blank within

theorem sharesWord : added.Near.SharesWord := by
  intro cursor onward near
  rcases near.same_or_ahead with alike | ⟨front, blanks, takes, blank, rest_eq, onward_eq⟩
  · exact ⟨cursor.rest, [], [], by simp, by simp [alike.rest], .nothing, .nothing,
      fun count within => .of_same (SameText.advance alike within)⟩
  · exact ⟨front, _, _, rest_eq, onward_eq, .feed _, .comment blank added.unslashed _,
      fun count within => near.advance takes blank rest_eq onward_eq within⟩

/-- Where both texts go on behind a skip. -/
inductive Landed (added : AddedComment) (kind : Skip) (cursor onward : Cursor) : Prop
  | same (alike : SameText cursor onward)
  | ahead {character : Char} {front blanks : List Char} (takes : TakesComment (character :: front))
      (blank : ∀ character ∈ blanks, character ∈ [' ', '\t'])
      (rest_eq : cursor.rest = character :: (front ++ '\n' :: added.back))
      (onward_eq : onward.rest = character :: (front ++ commented blanks added.words added.back))
      (start : cursor.atLineStart = onward.atLineStart ∨ AtLineEnd cursor.rest)
  | passed {origin : Cursor} (origin_eq : origin.rest = '\n' :: added.back)
      (cursor_eq : cursor = origin.advance (kind.length origin.rest))
      (onward_eq : onward.rest = commented [] added.words added.back)

theorem Near.landed {cursor onward : Cursor} (near : added.Near cursor onward) (kind : Skip) :
    added.Landed kind (cursor.advance (kind.length cursor.rest))
      (onward.advance (kind.length onward.rest)) := by
  rcases near.same_or_ahead with alike | ⟨front, blanks, takes, blank, rest_eq, onward_eq⟩
  · exact .same (SameText.skip alike kind)
  · have within := Skip.length_le kind front
    rw [rest_eq, onward_eq]
    by_cases ended : front.drop (kind.length front) = []
    · have all : kind.length front = front.length := by
        rw [List.drop_eq_nil_iff] at ended
        exact Nat.le_antisymm within ended
      have atEnd : (cursor.advance front.length).rest = '\n' :: added.back := by
        rw [Cursor.rest_advance, rest_eq, List.drop_left]
      rw [Skip.length_append_of_all all, Skip.length_append_of_all all,
        Skip.length_commented blank, Cursor.advance_add, Cursor.advance_add]
      refine .passed atEnd (by rw [atEnd]) ?_
      rw [Cursor.rest_advance, Cursor.rest_advance, onward_eq, List.drop_left,
        drop_length_commented]
    · have whole := (takes.drop (kind.length front)).isUnbroken ended
      rw [Skip.length_append_of_isUnbroken whole, Skip.length_append_of_isUnbroken whole]
      have alike := near.advance takes blank rest_eq onward_eq within
      obtain ⟨character, later, shown⟩ := List.exists_cons_of_ne_nil ended
      refine .ahead (shown ▸ takes.drop _) blank ?_ ?_ alike.start
      · rw [Cursor.rest_advance, rest_eq, List.drop_append_of_le_length within, shown]
        rfl
      · rw [Cursor.rest_advance, onward_eq, List.drop_append_of_le_length within, shown]
        rfl

/-- Behind the line end, blanks are all that is skipped in front of a statement. -/
theorem length_lineFeed (added : AddedComment) {kind : Skip} (passes : kind ≠ .horizontal) :
    kind.length ('\n' :: added.back) = Skip.blanks.length ('\n' :: added.back) := by
  have gap : countWhile Lexeme.isGap added.back = countWhile isBlank added.back := by
    refine countWhile_isGap fun character member => ?_
    rintro rfl
    exact absurd (added.starts ';' member) (by decide)
  cases kind with
  | blanks => rfl
  | gap => rw [Skip.length, Skip.length, countWhile_cons, countWhile_cons, gap]; rfl
  | horizontal => exact absurd rfl passes

theorem Landed.far {kind : Skip} (passes : kind ≠ .horizontal) {cursor onward : Cursor}
    (landed : added.Landed kind cursor onward) : added.Far cursor onward := by
  cases landed with
  | same alike => exact Or.inl (.of_same alike)
  | ahead takes blank rest_eq onward_eq start =>
      exact Or.inl ⟨rest_eq ▸ onward_eq ▸ .ahead takes blank, start⟩
  | @passed origin origin_eq cursor_eq onward_eq =>
      refine Or.inr ⟨⟨origin, origin_eq, ?_⟩, onward_eq⟩
      rw [cursor_eq, origin_eq, length_lineFeed added passes]

theorem Landed.near {cursor onward : Cursor} (landed : added.Landed .horizontal cursor onward) :
    added.Near cursor onward := by
  cases landed with
  | same alike => exact .of_same alike
  | ahead takes blank rest_eq onward_eq start =>
      exact ⟨rest_eq ▸ onward_eq ▸ .ahead takes blank, start⟩
  | @passed origin origin_eq cursor_eq onward_eq =>
      obtain rfl : cursor = origin := by
        rw [cursor_eq, origin_eq]
        rfl
      have takes : TakesComment [] := ⟨by simp, by simp⟩
      have blank : ∀ character ∈ ([] : List Char), character ∈ [' ', '\t'] := by simp
      refine ⟨?_, Or.inr (by simp [origin_eq])⟩
      rw [origin_eq, onward_eq]
      exact .ahead takes blank

/-- Nothing is skipped behind a skip. -/
theorem length_drop_length {kind : Skip} (passes : kind ≠ .horizontal) (text : List Char) :
    kind.length (text.drop (kind.length text)) = 0 := by
  cases kind with
  | blanks | gap => exact countWhile_eq_zero (startsWithChar_drop_countWhile _ text)
  | horizontal => exact absurd rfl passes

theorem Passed.skip {cursor onward : Cursor} (passed : added.Passed cursor onward) {kind : Skip}
    (passes : kind ≠ .horizontal) : cursor.advance (kind.length cursor.rest) = cursor ∧
      onward.advance (kind.length onward.rest) = onward := by
  obtain ⟨⟨origin, origin_eq, cursor_eq⟩, rest_eq⟩ := passed
  constructor
  · rw [cursor_eq, Cursor.rest_advance, origin_eq, ← length_lineFeed added passes,
      length_drop_length passes]
    rfl
  · rw [rest_eq, Skip.length_commented (by simp)]
    rfl

theorem Far.skip {cursor onward : Cursor} (far : added.Far cursor onward) {kind : Skip}
    (passes : kind ≠ .horizontal) : added.Far.behind kind cursor onward := by
  rcases far with near | passed
  · exact (near.landed kind).far passes
  · obtain ⟨same, sameToo⟩ := passed.skip passes
    rw [PlaceRelation.behind, same, sameToo]
    exact Or.inr passed

/-! ### Comments -/

/-- What is compared of comments: nothing. -/
abbrev noNotes (_ : List Node) : List Node :=
  []

theorem keepsLines_eq : TextRelation.KeepsLines Eq where
  line := by rintro _ _ rfl; rfl
  feed := by
    rintro (_ | ⟨character, rest⟩) _ rfl ends -
    · exact Or.inl ⟨rfl, rfl⟩
    · obtain rfl := atLineEnd_cons.mp ends
      exact Or.inr ⟨rest, rest, rfl, rfl, rfl⟩
  marker _ _ _ := congrArg _

theorem anyComment_alike {related : TextRelation} (keeps : related.KeepsLines)
    {cursor onward : Cursor} (alike : related.At cursor onward)
    (signs : cursor.rest.head? = some '#' ↔ onward.rest.head? = some '#') :
    (Matcher.anyComment cursor).Alike related.At (fun _ => ()) (Matcher.anyComment onward) :=
  .orElse (Matcher.blockComment_alike keeps (fun _ _ _ _ _ _ => rfl) alike)
    (Matcher.lineComment_alike keeps alike signs fun _ _ _ _ _ _ => rfl)

theorem comments_same (kind : Skip) (limit bound : Nat) :
    Matcher.Alike (SameText.behind kind) (SameText.behind kind) noNotes
      (Matcher.manyUpTo (Matcher.afterSkip kind Matcher.anyComment) limit)
      (Matcher.manyUpTo (Matcher.afterSkip kind Matcher.anyComment) bound) := by
  have first : Matcher.Alike SameText SameText (fun _ => ()) Matcher.anyComment
      Matcher.anyComment := fun _ _ alike =>
    anyComment_alike keepsLines_eq alike (by rw [alike.rest])
  have each : Matcher.Alike (SameText.behind kind) (SameText.behind kind) (fun _ => ())
      (Matcher.afterSkip kind Matcher.anyComment) (Matcher.afterSkip kind Matcher.anyComment) :=
    first.afterSkip.mono id fun alike => SameText.skip alike kind
  exact fun _ _ alike => (each.manyUpTo limit bound alike).coarsen fun _ _ _ => rfl

theorem Passed.reads {cursor onward : Cursor} (passed : added.Passed cursor onward) :
    ∃ comment next, Matcher.anyComment onward = .matched comment next [] ∧
      ∀ {kind : Skip}, kind ≠ .horizontal →
        SameText cursor (next.advance (kind.length next.rest)) := by
  have noBlock : Matcher.blockComment onward = .failed [] := by
    have missing : CommentSpan.ofBlock? onward.rest = none :=
      CommentSpan.ofBlock?_eq_none (by rw [passed.rest]; rfl)
    rw [Matcher.blockComment]
    split <;> simp [Matcher.commentOf, missing]
  obtain ⟨span, found⟩ : ∃ span, CommentSpan.ofLine? onward.rest = some span := by
    rw [passed.rest]
    exact ⟨_, rfl⟩
  have atEnd : (onward.advance span.length).rest = '\n' :: added.back := by
    rw [Cursor.rest_advance, CommentSpan.ofLine?_eq_some found, passed.rest,
      drop_lineLength_commented (by simp) added.onLine]
  obtain ⟨comment, read⟩ : ∃ comment,
      Matcher.lineComment onward = .matched comment (onward.advance span.length) [] := by
    simp [Matcher.lineComment, Matcher.commentOf, found]
  refine ⟨comment, onward.advance span.length, ?_, fun {kind} passes => ?_⟩
  · rw [Matcher.anyComment, Matcher.orElse, noBlock]
    simp only [read]
    rfl
  · obtain ⟨origin, origin_eq, cursor_eq⟩ := passed.origin
    rw [atEnd, length_lineFeed added passes, cursor_eq, origin_eq]
    have whole : '\n' :: added.back = '\n' :: added.back ++ [] := (List.append_nil _).symm
    refine ⟨by rw [Cursor.rest_advance, Cursor.rest_advance, origin_eq, atEnd], Or.inl ?_⟩
    exact Cursor.atLineStart_advance (origin_eq.trans whole) (atEnd.trans whole)
      (countWhile_pos.mpr rfl) (Skip.length_le .blanks _)

/-- Behind a skip, near places stand in front of the same character. -/
theorem Near.head_eq {cursor onward : Cursor} {kind : Skip} (passes : kind ≠ .horizontal)
    (near : added.Near.behind kind cursor onward) :
    (cursor.advance (kind.length cursor.rest)).rest.head? =
      (onward.advance (kind.length onward.rest)).rest.head? := by
  rcases Near.same_or_ahead near with alike | ⟨front, blanks, -, -, rest_eq, onward_eq⟩
  · rw [alike.rest]
  · cases front with
    | nil =>
        have skipped := length_drop_length passes cursor.rest
        rw [← Cursor.rest_advance, rest_eq, List.nil_append,
          length_lineFeed added passes] at skipped
        have taken : 0 < Skip.blanks.length ('\n' :: added.back) := countWhile_pos.mpr rfl
        exact absurd skipped (Nat.pos_iff_ne_zero.mp taken)
    | cons character front => rw [rest_eq, onward_eq]; rfl

theorem comments_far {kind : Skip} (passes : kind ≠ .horizontal) (limit bound : Nat) :
    Matcher.Alike added.Far (added.Near.behind kind) noNotes
      (Matcher.manyUpTo (Matcher.afterSkip kind Matcher.anyComment) limit)
      (Matcher.manyUpTo (Matcher.afterSkip kind Matcher.anyComment) bound) := by
  induction limit generalizing bound with
  | zero => exact .abort
  | succ limit ih =>
      cases bound with
      | zero => exact .abortToo
      | succ bound =>
          intro cursor onward far
          have landed := far.skip passes
          rw [PlaceRelation.behind] at landed
          rcases landed with near | passed
          · -- a comment is read in both texts or in neither
            have run : (Matcher.afterSkip kind Matcher.anyComment cursor).Alike added.Near
                (fun _ => ()) (Matcher.afterSkip kind Matcher.anyComment onward) :=
              (anyComment_alike texts_keepsLines near
                (by rw [Near.head_eq passes near])).after [] []
            rw [Matcher.manyUpTo_succ, Matcher.manyUpTo_succ]
            generalize Matcher.afterSkip kind Matcher.anyComment cursor = outcome at run
            generalize Matcher.afterSkip kind Matcher.anyComment onward = another at run
            cases run with
            | @matched _ _ next further _ _ _ alike =>
                have rest := ih bound (Or.inl alike)
                dsimp only
                generalize Matcher.manyUpTo _ limit next = others at rest
                generalize Matcher.manyUpTo _ bound further = furthers at rest
                cases rest with
                | matched _ last => exact .matched rfl last
                | failed => exact .failed
                | aborted => exact .aborted
                | abortedToo => exact .abortedToo
            | failed => exact .matched rfl near
            | aborted => exact .aborted
            | abortedToo => exact .abortedToo
          · -- the added comment comes first in the second text, and then both are the same
            obtain ⟨comment, next, read, alike⟩ := passed.reads
            have found : Matcher.afterSkip kind Matcher.anyComment onward =
                .matched comment next [] := congrArg (Outcome.after []) read
            have start : SameText.behind kind cursor next := alike passes
            have rest := comments_same kind (limit + 1) bound start
            rw [Matcher.manyUpTo_succ _ bound onward, found]
            dsimp only
            generalize Matcher.manyUpTo _ (limit + 1) cursor = others at rest
            generalize Matcher.manyUpTo _ bound next = furthers at rest
            cases rest with
            | matched _ last => exact .matched rfl (.of_same last)
            | failed => exact .failed
            | aborted => exact .aborted
            | abortedToo => exact .abortedToo

end AddedComment

end RubySyntax
