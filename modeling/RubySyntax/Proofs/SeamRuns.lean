import RubySyntax.Proofs.AttemptTraces
import RubySyntax.Proofs.SeamComments

/-!
# Runs across a seam

A run over a source goes on in a longer text as it did before, as long as nothing that
the source leaves open at its end could be closed by what follows.  The attempts of a
run tell whether anything was open there.  There is one rule for each way to put
matchers together.
-/

namespace RubySyntax

/-! ### What a source leaves open -/

/-- The tokens that are looked for behind a complete operand. -/
def followingTerminals : List String :=
  [quoted "(", quoted "[", quoted "&.", quoted ".", quoted "::", quoted "\x7b", "operator",
    quoted "?"]

namespace Ending

/-- The tokens that are looked for behind what is complete without them. -/
def following : Ending → List String
  | statement => followingTerminals ++ [quoted ",", "statement separator"]
  | argument => followingTerminals

/-- Whether what follows a source could make a token longer that the source ends with. -/
def grows (ending : Ending) (terminal : String) (rest : List Char) : Bool :=
  [['$'], [':', '$']].contains rest ||
    ending == argument && ([['['], [':', '[']].contains rest ||
      terminal == Terminal.regexp.name && Lexeme.opensRegexp rest)

/-- A token may be looked for where the source goes on with something other than blanks and
backslashes, or where the source is over and the token may be missing. -/
structure Admits (ending : Ending) (terminal : String) (rest : List Char) : Prop where
  complete : Continues rest ∨ rest = [] ∧ terminal ∈ ending.following
  finished : ending.grows terminal rest = false

instance (ending : Ending) (terminal : String) (rest : List Char) :
    Decidable (ending.Admits terminal rest) :=
  decidable_of_iff ((Continues rest ∨ rest = [] ∧ terminal ∈ ending.following) ∧
      ending.grows terminal rest = false)
    ⟨fun ⟨complete, finished⟩ => ⟨complete, finished⟩,
      fun admits => ⟨admits.complete, admits.finished⟩⟩

theorem Admits.continues {ending : Ending} {terminal : String} {rest : List Char}
    (admits : ending.Admits terminal rest) (needed : terminal ∉ ending.following) :
    Continues rest :=
  admits.complete.resolve_right fun ended => needed ended.2

end Ending

/-- The attempt leaves nothing open at the end of a source: no token, and no comment in front
of the token. -/
structure Attempt.Sealed (ending : Ending) (source : List Char) (attempt : Attempt) : Prop where
  admits : ending.Admits attempt.terminal (source.drop attempt.offset)
  uncommented : Matcher.endsInComment source attempt.offset = false

instance (ending : Ending) (source : List Char) (attempt : Attempt) :
    Decidable (attempt.Sealed ending source) :=
  decidable_of_iff (ending.Admits attempt.terminal (source.drop attempt.offset) ∧
      Matcher.endsInComment source attempt.offset = false)
    ⟨fun ⟨admits, uncommented⟩ => ⟨admits, uncommented⟩,
      fun closed => ⟨closed.admits, closed.uncommented⟩⟩

/-- No attempt of a trace leaves anything open. -/
def SealedTrace (ending : Ending) (source : List Char) (trace : List Attempt) : Prop :=
  ∀ attempt ∈ trace, attempt.Sealed ending source

instance (ending : Ending) (source : List Char) (trace : List Attempt) :
    Decidable (SealedTrace ending source trace) :=
  inferInstanceAs (Decidable (∀ attempt ∈ trace, attempt.Sealed ending source))

section

variable {ending : Ending} {source : List Char} {front back : List Attempt} {attempt : Attempt}

@[simp]
theorem sealedTrace_append : SealedTrace ending source (front ++ back) ↔
    SealedTrace ending source front ∧ SealedTrace ending source back :=
  List.forall_mem_append

@[simp]
theorem sealedTrace_singleton : SealedTrace ending source [attempt] ↔
    attempt.Sealed ending source :=
  List.forall_mem_singleton

end

/-! ### Seams -/

/-- A source with what follows it in a longer text: blanks up to the end of its last line or to
what closes it, and then anything that is no member of what the source ends with. -/
structure Seam where
  ending : Ending
  source : List Char
  tail : List Char
  trails : Trails ending tail
  unmarked : IsUnmarked (source ++ tail)
  noComment : ∀ kind : Skip, CommentSpan.ofLine? (tail.drop (kind.length tail)) = none
  noMember : Lexeme.punctuation "&." "" (tail.drop (Skip.blanks.length tail)) = none ∧
    Lexeme.punctuation "." "." (tail.drop (Skip.blanks.length tail)) = none
  line : ending = .statement → '/' ∉ Lexeme.firstLine tail

/-- The longer text. -/
abbrev Seam.text (seam : Seam) : List Char :=
  seam.source ++ seam.tail

theorem Seam.drop_text (seam : Seam) {offset : Nat} (inside : offset ≤ seam.source.length) :
    seam.text.drop offset = seam.source.drop offset ++ seam.tail :=
  List.drop_append_of_le_length inside

theorem Seam.drop_behind (seam : Seam) (count : Nat) :
    seam.text.drop (seam.source.length + count) = seam.tail.drop count := by
  rw [← List.drop_drop, List.drop_left]

/-- The places of a source that a statement about its runs reaches. -/
inductive Reach where
  /-- Those that the source continues behind. -/
  | inside
  /-- All of them. -/
  | whole

/-- Whether a place with the given rest of the source is reached. -/
def Reach.Holds : Reach → List Char → Prop
  | inside, rest => Continues rest
  | whole, _ => True

theorem Reach.Holds.of_drop {reach : Reach} {rest : List Char} {count : Nat}
    (holds : reach.Holds (rest.drop count)) : reach.Holds rest := by
  cases reach with
  | inside => exact Continues.of_drop holds
  | whole => trivial

theorem Reach.Holds.earlier {reach : Reach} {source : List Char} {offset stop : Nat}
    (holds : reach.Holds (source.drop stop)) (before : offset ≤ stop) :
    reach.Holds (source.drop offset) := by
  have later : reach.Holds ((source.drop offset).drop (stop - offset)) := by
    rwa [List.drop_drop, Nat.add_sub_cancel' before]
  exact later.of_drop

theorem Continues.earlier {source : List Char} {offset stop : Nat}
    (continues : Continues (source.drop stop)) (before : offset ≤ stop) :
    Continues (source.drop offset) :=
  have holds : Reach.inside.Holds (source.drop stop) := continues
  holds.earlier before

theorem Continues.reach {rest : List Char} (continues : Continues rest) (reach : Reach) :
    reach.Holds rest := by
  cases reach with
  | inside => exact continues
  | whole => trivial

theorem Outcome.after_nil {α : Type} (outcome : Outcome α) : outcome.after [] = outcome := by
  cases outcome <;> rfl

namespace Matcher

variable {α β γ : Type}

/-- A run from one place of the source that leaves nothing open is repeated in the longer text. -/
structure PersistsAt (seam : Seam) (reach : Reach) (offset : Nat) (matcher other : Matcher α) :
    Prop where
  reads : ∀ {next : Cursor} {value : α} {trace : List Attempt},
    matcher (.within seam.source offset) = .matched value next trace →
    SealedTrace seam.ending seam.source trace →
    ∃ stop, offset ≤ stop ∧ stop ≤ seam.source.length ∧ next = .within seam.source stop ∧
      (reach.Holds (seam.source.drop stop) →
        other.Reads (.within seam.text offset) value (.within seam.text stop))
  rejects : ∀ {trace : List Attempt}, matcher (.within seam.source offset) = .failed trace →
    SealedTrace seam.ending seam.source trace →
    reach.Holds (seam.source.drop offset) → other.Rejects (.within seam.text offset)

/-- Every run in the source of a seam that leaves nothing open is repeated in the longer text. -/
structure Persists (seam : Seam) (reach : Reach) (matcher other : Matcher α) : Prop where
  place : ∀ {offset : Nat}, offset ≤ seam.source.length →
    PersistsAt seam reach offset matcher other

/-- A matcher that leaves something open where it does not fit at the end of a source. -/
structure Guarded (seam : Seam) (reach : Reach) (matcher other : Matcher α) : Prop
    extends Persists seam reach matcher other where
  guards : ∀ {offset : Nat} {trace : List Attempt}, offset ≤ seam.source.length →
    matcher (.within seam.source offset) = .failed trace →
    SealedTrace seam.ending seam.source trace → Continues (seam.source.drop offset)

/-- A matcher that leaves something open wherever it starts at the end of a source. -/
structure Anchored (seam : Seam) (reach : Reach) (matcher other : Matcher α) : Prop
    extends Guarded seam reach matcher other where
  anchors : ∀ {offset : Nat} {next : Cursor} {value : α} {trace : List Attempt},
    offset ≤ seam.source.length →
    matcher (.within seam.source offset) = .matched value next trace →
    SealedTrace seam.ending seam.source trace → Continues (seam.source.drop offset)

variable {seam : Seam} {reach : Reach} {matcher other : Matcher α}

/-- What always fits is repeated wherever it reads alike. -/
theorem Guarded.ofReads
    (total : ∀ {cursor trace}, matcher cursor ≠ .failed trace)
    (reads : ∀ {offset next value trace}, offset ≤ seam.source.length →
      matcher (.within seam.source offset) = .matched value next trace →
      SealedTrace seam.ending seam.source trace →
      ∃ stop, offset ≤ stop ∧ stop ≤ seam.source.length ∧ next = .within seam.source stop ∧
        (reach.Holds (seam.source.drop stop) →
          other.Reads (.within seam.text offset) value (.within seam.text stop))) :
    Guarded seam reach matcher other where
  place within := ⟨reads within, fun run => absurd run total⟩
  guards _ run := absurd run total

namespace PersistsAt

variable {offset : Nat}

/-! ### Sequences and choices -/

theorem bind {first firstOther : Matcher α} {continuation continued : α → Matcher β}
    (persists : PersistsAt seam reach offset first firstOther)
    (continues : ∀ value, Guarded seam reach (continuation value) (continued value)) :
    PersistsAt seam reach offset (first >>= continuation) (firstOther >>= continued) where
  reads run closed := by
    obtain ⟨value, next, front, back, firstRun, secondRun, rfl⟩ := bind_eq_matched run
    obtain ⟨frontClosed, backClosed⟩ := sealedTrace_append.mp closed
    obtain ⟨middle, onward, before, rfl, read⟩ := persists.reads firstRun frontClosed
    obtain ⟨stop, further, last, rfl, readOn⟩ :=
      ((continues value).place before).reads secondRun backClosed
    exact ⟨stop, Nat.le_trans onward further, last, rfl, fun holds =>
      reads_bind.mpr ⟨value, _, read (holds.earlier further), readOn holds⟩⟩
  rejects run closed holds := by
    rcases bind_eq_failed run with failed | ⟨value, next, front, back, firstRun, failed, rfl⟩
    · exact rejects_bind.mpr (Or.inl (persists.rejects failed closed holds))
    · obtain ⟨frontClosed, backClosed⟩ := sealedTrace_append.mp closed
      obtain ⟨middle, onward, before, rfl, read⟩ := persists.reads firstRun frontClosed
      have there := ((continues value).guards before failed backClosed).reach reach
      exact rejects_bind.mpr (Or.inr ⟨value, _, read there,
        ((continues value).place before).rejects failed backClosed there⟩)

theorem orElse {second otherwise : Matcher α} (first : PersistsAt seam reach offset matcher other)
    (alternative : PersistsAt seam reach offset second otherwise) :
    PersistsAt seam reach offset (matcher.orElse second) (other.orElse otherwise) where
  reads run closed := by
    rcases orElse_eq_matched run with firstRun | ⟨front, back, failed, secondRun, rfl⟩
    · obtain ⟨stop, onward, before, next_eq, read⟩ := first.reads firstRun closed
      exact ⟨stop, onward, before, next_eq, fun holds => reads_orElse.mpr (Or.inl (read holds))⟩
    · obtain ⟨frontClosed, backClosed⟩ := sealedTrace_append.mp closed
      obtain ⟨stop, onward, before, next_eq, read⟩ := alternative.reads secondRun backClosed
      exact ⟨stop, onward, before, next_eq, fun holds => reads_orElse.mpr (Or.inr
        ⟨first.rejects failed frontClosed (holds.earlier onward), read holds⟩)⟩
  rejects run closed holds := by
    obtain ⟨front, back, failed, failedToo, rfl⟩ := orElse_eq_failed run
    obtain ⟨frontClosed, backClosed⟩ := sealedTrace_append.mp closed
    exact rejects_orElse.mpr ⟨first.rejects failed frontClosed holds,
      alternative.rejects failedToo backClosed holds⟩

theorem firstOfNil :
    PersistsAt seam reach offset (firstOf ([] : List (Matcher α))) (firstOf []) where
  reads run := nomatch run
  rejects _ _ _ := rejects_firstOf_nil

theorem firstOfCons {matchers others : List (Matcher α)}
    (head : PersistsAt seam reach offset matcher other)
    (tail : PersistsAt seam reach offset (firstOf matchers) (firstOf others)) :
    PersistsAt seam reach offset (firstOf (matcher :: matchers)) (firstOf (other :: others)) :=
  head.orElse tail

theorem inside (persists : PersistsAt seam .whole offset matcher other) :
    PersistsAt seam .inside offset matcher other where
  reads run closed := by
    obtain ⟨stop, onward, before, next_eq, read⟩ := persists.reads run closed
    exact ⟨stop, onward, before, next_eq, fun _ => read trivial⟩
  rejects run closed _ := persists.rejects run closed trivial

end PersistsAt

namespace Persists

theorem reads (persists : Persists seam reach matcher other) {offset : Nat} {next : Cursor}
    {value : α} {trace : List Attempt} (within : offset ≤ seam.source.length)
    (run : matcher (.within seam.source offset) = .matched value next trace)
    (closed : SealedTrace seam.ending seam.source trace) :
    ∃ stop, offset ≤ stop ∧ stop ≤ seam.source.length ∧ next = .within seam.source stop ∧
      (reach.Holds (seam.source.drop stop) →
        other.Reads (.within seam.text offset) value (.within seam.text stop)) :=
  (persists.place within).reads run closed

theorem rejects (persists : Persists seam reach matcher other) {offset : Nat}
    {trace : List Attempt} (within : offset ≤ seam.source.length)
    (run : matcher (.within seam.source offset) = .failed trace)
    (closed : SealedTrace seam.ending seam.source trace)
    (holds : reach.Holds (seam.source.drop offset)) : other.Rejects (.within seam.text offset) :=
  (persists.place within).rejects run closed holds

theorem inside (persists : Persists seam .whole matcher other) :
    Persists seam .inside matcher other where
  place within := (persists.place within).inside

theorem bind {first firstOther : Matcher α} {continuation continued : α → Matcher β}
    (persists : Persists seam reach first firstOther)
    (continues : ∀ value, Guarded seam reach (continuation value) (continued value)) :
    Persists seam reach (first >>= continuation) (firstOther >>= continued) where
  place within := (persists.place within).bind continues

theorem orElse {second otherwise : Matcher α} (first : Persists seam reach matcher other)
    (alternative : Persists seam reach second otherwise) :
    Persists seam reach (matcher.orElse second) (other.orElse otherwise) where
  place within := (first.place within).orElse (alternative.place within)

theorem firstOfNil : Persists seam reach (firstOf ([] : List (Matcher α))) (firstOf []) where
  place _ := .firstOfNil

theorem firstOfCons {matchers others : List (Matcher α)} (head : Persists seam reach matcher other)
    (tail : Persists seam reach (firstOf matchers) (firstOf others)) :
    Persists seam reach (firstOf (matcher :: matchers)) (firstOf (other :: others)) :=
  head.orElse tail

/-! ### Options and repetitions -/

theorem optional (persists : Persists seam reach matcher other) :
    Guarded seam reach (optional matcher) (optional other) := by
  refine .ofReads (optional_ne_failed _ _ _) ?_
  intro offset next value? trace within run closed
  rcases optional_eq_matched run with ⟨value, read, rfl⟩ | ⟨failed, rfl, rfl⟩
  · obtain ⟨stop, onward, before, next_eq, readToo⟩ := persists.reads within read closed
    exact ⟨stop, onward, before, next_eq, fun holds =>
      reads_optional.mpr (Or.inl ⟨value, rfl, readToo holds⟩)⟩
  · exact ⟨offset, Nat.le_refl _, within, rfl, fun holds =>
      reads_optional.mpr (Or.inr ⟨rfl, rfl, persists.rejects within failed closed holds⟩)⟩

end Persists

section

variable {place : Nat → Prop}
  (persists : ∀ {offset : Nat}, offset ≤ seam.source.length → place offset →
    PersistsAt seam reach offset matcher other)
  (settles : ∀ {offset : Nat} {next : Cursor} {value : α} {trace : List Attempt},
    matcher (.within seam.source offset) = .matched value next trace →
    SealedTrace seam.ending seam.source trace → place next.offset)
include persists settles

private theorem manyUpTo_persists {limit : Nat}
    {offset : Nat} {last : Cursor} {values : List α} {trace : List Attempt}
    (within : offset ≤ seam.source.length) (there : place offset)
    (run : manyUpTo matcher limit (.within seam.source offset) = .matched values last trace)
    (closed : SealedTrace seam.ending seam.source trace) :
    values.length < limit ∧ ∃ stop, offset ≤ stop ∧ stop ≤ seam.source.length ∧
      last = .within seam.source stop ∧ (reach.Holds (seam.source.drop stop) →
        other.ReadsEach (.within seam.text offset) values (.within seam.text stop) ∧
          other.Rejects (.within seam.text stop)) := by
  induction limit generalizing offset values trace with
  | zero => cases run
  | succ limit ih =>
      rcases manyUpTo_eq_matched run with
        ⟨failed, rfl, rfl⟩ | ⟨value, next, others, front, back, firstRun, restRun, rfl, rfl⟩
      · exact ⟨Nat.succ_pos _, offset, Nat.le_refl _, within, rfl, fun holds =>
          ⟨.nil, (persists within there).rejects failed closed holds⟩⟩
      · obtain ⟨frontClosed, backClosed⟩ := sealedTrace_append.mp closed
        have behind := settles firstRun frontClosed
        obtain ⟨middle, onward, before, rfl, read⟩ :=
          (persists within there).reads firstRun frontClosed
        obtain ⟨few, stop, further, lastWithin, last_eq, each⟩ := ih before behind restRun backClosed
        refine ⟨Nat.succ_lt_succ few, stop, Nat.le_trans onward further, lastWithin, last_eq,
          fun holds => ?_⟩
        exact ⟨.cons (read (holds.earlier further)) (each holds).1, (each holds).2⟩

/-- A repetition that goes from one place of a kind to the next. -/
theorem PersistsAt.many {offset : Nat} (within : offset ≤ seam.source.length)
    (there : place offset) : PersistsAt seam reach offset (many matcher) (many other) where
  reads run closed := by
    obtain ⟨few, stop, onward, before, last_eq, each⟩ :=
      manyUpTo_persists persists settles within there run closed
    refine ⟨stop, onward, before, last_eq, fun holds => ?_⟩
    refine reads_many (each holds).1 (each holds).2 ?_
    simp only [Cursor.rest_within, List.length_drop, List.length_append] at few ⊢
    omega
  rejects run := absurd run (manyUpTo_ne_failed _ _ _ _)

end

/-- A repetition always fits. -/
theorem Persists.many (persists : Persists seam reach matcher other) :
    Guarded seam reach (many matcher) (many other) :=
  have each {offset : Nat} (within : offset ≤ seam.source.length) :
      PersistsAt seam reach offset (Matcher.many matcher) (Matcher.many other) :=
    .many (fun within (_ : True) => persists.place within) (fun _ _ => trivial) within trivial
  .ofReads (manyUpTo_ne_failed _ _ _ _) fun within run closed => (each within).reads run closed

namespace Guarded

theorem pure {value : α} : Guarded seam reach (pure value) (pure value) := by
  refine .ofReads (fun run => nomatch run) ?_
  intro offset next answer trace within run _
  cases run
  exact ⟨offset, Nat.le_refl _, within, rfl, fun _ => reads_pure.mpr ⟨rfl, rfl⟩⟩

theorem abort {fault : Fault} : Guarded seam reach (abort fault) other :=
  .ofReads (fun run => nomatch run) fun _ run => nomatch run

theorem ofReduction {reduction : Except MissingOperator α} :
    Guarded seam reach (ofReduction reduction) (ofReduction reduction) := by
  cases reduction with
  | ok value => exact pure
  | error missing => exact abort

theorem here : Guarded seam reach here here := by
  refine .ofReads (fun run => nomatch run) ?_
  intro offset next answer trace within run _
  cases run
  exact ⟨offset, Nat.le_refl _, within, rfl, fun _ => reads_here.mpr ⟨rfl, rfl⟩⟩

theorem inside (guarded : Guarded seam .whole matcher other) :
    Guarded seam .inside matcher other where
  toPersists := guarded.toPersists.inside
  guards := guarded.guards

theorem bind {first firstOther : Matcher α} {continuation continued : α → Matcher β}
    (guarded : Guarded seam reach first firstOther)
    (continues : ∀ value, Guarded seam reach (continuation value) (continued value)) :
    Guarded seam reach (first >>= continuation) (firstOther >>= continued) where
  toPersists := guarded.toPersists.bind continues
  guards within run closed := by
    rcases bind_eq_failed run with failed | ⟨value, next, front, back, firstRun, failed, rfl⟩
    · exact guarded.guards within failed closed
    · obtain ⟨frontClosed, backClosed⟩ := sealedTrace_append.mp closed
      obtain ⟨middle, onward, before, rfl, -⟩ := guarded.reads within firstRun frontClosed
      exact Continues.earlier
        ((continues value).guards before failed backClosed) onward

/-- What is closed behind by something that the source has to hold is read to its end. -/
theorem closedBy {first firstOther : Matcher α} {continuation continued : α → Matcher β}
    (guarded : Guarded seam .inside first firstOther)
    (closes : ∀ value, Anchored seam reach (continuation value) (continued value)) :
    Anchored seam reach (first >>= continuation) (firstOther >>= continued) where
  place within := by
    refine ⟨fun run closed => ?_, fun run closed holds => ?_⟩
    · obtain ⟨value, next, front, back, firstRun, secondRun, rfl⟩ := bind_eq_matched run
      obtain ⟨frontClosed, backClosed⟩ := sealedTrace_append.mp closed
      obtain ⟨middle, onward, before, rfl, read⟩ := guarded.reads within firstRun frontClosed
      obtain ⟨stop, further, last, rfl, readOn⟩ :=
        (closes value).reads before secondRun backClosed
      have there := (closes value).anchors before secondRun backClosed
      exact ⟨stop, Nat.le_trans onward further, last, rfl, fun holds =>
        reads_bind.mpr ⟨value, _, read there, readOn holds⟩⟩
    · rcases bind_eq_failed run with failed | ⟨value, next, front, back, firstRun, failed, rfl⟩
      · exact rejects_bind.mpr (Or.inl
          (guarded.rejects within failed closed (guarded.guards within failed closed)))
      · obtain ⟨frontClosed, backClosed⟩ := sealedTrace_append.mp closed
        obtain ⟨middle, onward, before, rfl, read⟩ := guarded.reads within firstRun frontClosed
        have there := (closes value).guards before failed backClosed
        exact rejects_bind.mpr (Or.inr ⟨value, _, read there,
          (closes value).rejects before failed backClosed (there.reach reach)⟩)
  guards within run closed := by
    rcases bind_eq_failed run with failed | ⟨value, next, front, back, firstRun, failed, rfl⟩
    · exact guarded.guards within failed closed
    · obtain ⟨frontClosed, backClosed⟩ := sealedTrace_append.mp closed
      obtain ⟨middle, onward, before, rfl, -⟩ := guarded.reads within firstRun frontClosed
      exact Continues.earlier
        ((closes value).guards before failed backClosed) onward
  anchors within run closed := by
    obtain ⟨value, next, front, back, firstRun, secondRun, rfl⟩ := bind_eq_matched run
    obtain ⟨frontClosed, backClosed⟩ := sealedTrace_append.mp closed
    obtain ⟨middle, onward, before, rfl, -⟩ := guarded.reads within firstRun frontClosed
    exact Continues.earlier
      ((closes value).anchors before secondRun backClosed) onward

end Guarded

namespace Anchored

theorem inside (anchored : Anchored seam .whole matcher other) :
    Anchored seam .inside matcher other where
  toGuarded := anchored.toGuarded.inside
  anchors := anchored.anchors

theorem bind {first firstOther : Matcher α} {continuation continued : α → Matcher β}
    (anchored : Anchored seam reach first firstOther)
    (continues : ∀ value, Guarded seam reach (continuation value) (continued value)) :
    Anchored seam reach (first >>= continuation) (firstOther >>= continued) where
  toGuarded := anchored.toGuarded.bind continues
  anchors within run closed := by
    obtain ⟨value, next, front, back, firstRun, -, rfl⟩ := bind_eq_matched run
    exact anchored.anchors within firstRun (sealedTrace_append.mp closed).1

theorem orElse {second otherwise : Matcher α} (first : Anchored seam reach matcher other)
    (alternative : Persists seam reach second otherwise) :
    Anchored seam reach (matcher.orElse second) (other.orElse otherwise) where
  toPersists := first.toPersists.orElse alternative
  guards within run closed := by
    obtain ⟨front, back, failed, -, rfl⟩ := orElse_eq_failed run
    exact first.guards within failed (sealedTrace_append.mp closed).1
  anchors within run closed := by
    rcases orElse_eq_matched run with firstRun | ⟨front, back, failed, -, rfl⟩
    · exact first.anchors within firstRun closed
    · exact first.guards within failed (sealedTrace_append.mp closed).1

theorem firstOfCons {matchers others : List (Matcher α)} (head : Anchored seam reach matcher other)
    (tail : Persists seam reach (firstOf matchers) (firstOf others)) :
    Anchored seam reach (firstOf (matcher :: matchers)) (firstOf (other :: others)) :=
  head.orElse tail

end Anchored

/-! ### Scanners and terminals -/

/-- A scanner answers the same in front of a tail, and nothing beyond the source. -/
structure ScansOn (tail : List Char) (reach : Reach) (scanner : Scanner) (rest : List Char) :
    Prop where
  rejects : scanner rest = none → reach.Holds rest → scanner (rest ++ tail) = none
  within : ∀ {length}, scanner rest = some length → length ≤ rest.length
  reads : ∀ {length}, scanner rest = some length → reach.Holds (rest.drop length) →
    scanner (rest ++ tail) = some length

/-- A scanner that does not see what is behind the source. -/
theorem ScansOn.ofEq {tail rest : List Char} {scanner : Scanner}
    (eq : scanner (rest ++ tail) = scanner rest)
    (within : ∀ {length}, scanner rest = some length → length ≤ rest.length) :
    ScansOn tail reach scanner rest where
  rejects unread _ := eq.trans unread
  within := within
  reads read _ := eq.trans read

/-- A scanner that may only look past the source at its end. -/
theorem ScansOn.ofContinues {tail rest : List Char} {scanner : Scanner}
    (eq : Continues rest → scanner (rest ++ tail) = scanner rest)
    (within : ∀ {length}, scanner rest = some length → length ≤ rest.length) :
    ScansOn tail .inside scanner rest where
  rejects unread continues := (eq continues).trans unread
  within := within
  reads read continues := (eq (Continues.of_drop continues)).trans read

theorem ScansOn.ofStops {scanner : Scanner} (stops : Lexeme.StopsAt seam.tail scanner)
    (within : ∀ {text length}, scanner text = some length → length ≤ text.length)
    (rest : List Char) : ScansOn seam.tail reach scanner rest :=
  .ofEq (stops rest) within

theorem Persists.scan {scanner : Scanner}
    (scans : ∀ rest, ScansOn seam.tail reach scanner rest) :
    Persists seam reach (scan scanner) (scan scanner) where
  place {offset} within := by
    refine ⟨fun {next value trace} run closed => ?_, fun run closed holds => ?_⟩
    · obtain ⟨length, scanned, rfl⟩ := reads_scan.mp ⟨trace, run⟩
      have bound := (scans _).within scanned
      simp only [Cursor.rest_within, List.length_drop] at bound
      refine ⟨offset + length, Nat.le_add_right _ _, by omega, Cursor.advance_within (by omega),
        fun holds => reads_scan.mpr ⟨length, ?_, (Cursor.advance_within ?_).symm⟩⟩
      · rw [Cursor.rest_within, seam.drop_text within]
        refine (scans _).reads scanned ?_
        rwa [List.drop_drop]
      · simp only [List.length_append]
        omega
    · rw [rejects_scan, Cursor.rest_within, seam.drop_text within]
      exact (scans _).rejects (rejects_scan.mp ⟨_, run⟩) holds

section

variable {kind : Terminal}

/-- Where a token is looked for without leaving anything open, it may be looked for. -/
theorem terminal_admits {ending : Ending} {source : List Char} {offset : Nat}
    {trace : List Attempt}
    (run : (∃ value next, terminal kind (.within source offset) = .matched value next trace) ∨
      terminal kind (.within source offset) = .failed trace)
    (closed : SealedTrace ending source trace) :
    ending.Admits kind.name (source.drop offset) := by
  rw [Matcher.terminal] at run
  rcases run with ⟨value, next, run⟩ | run
  · split at run
    · cases run
      exact (sealedTrace_singleton.mp closed).admits
    · cases run
  · split at run
    · cases run
    · cases run
      exact (sealedTrace_singleton.mp closed).admits

variable (scans : ∀ rest, seam.ending.Admits kind.name rest →
  ScansOn seam.tail reach kind.scanner rest)
include scans

theorem Persists.terminal : Persists seam reach (terminal kind) (terminal kind) where
  place {offset} within := by
    refine ⟨fun {next value trace} run closed => ?_, fun run closed holds => ?_⟩
    · have scansHere := scans _ (terminal_admits (Or.inl ⟨_, _, run⟩) closed)
      obtain ⟨length, scanned, rfl, rfl⟩ := reads_terminal.mp ⟨trace, run⟩
      have bound := scansHere.within scanned
      rw [List.length_drop] at bound
      have data_eq : (seam.text.drop offset).take length =
          (seam.source.drop offset).take length := by
        rw [seam.drop_text within, List.take_append_of_le_length]
        rw [List.length_drop]
        omega
      refine ⟨offset + length, Nat.le_add_right _ _, by omega, Cursor.advance_within (by omega),
        fun holds => reads_terminal.mpr ⟨length, ?_, ?_, (Cursor.advance_within ?_).symm⟩⟩
      · rw [Cursor.rest_within, seam.drop_text within]
        refine scansHere.reads scanned ?_
        rwa [List.drop_drop]
      · simp only [leafAt, Cursor.rest_within, Cursor.offset_within, data_eq]
      · simp only [List.length_append]
        omega
    · rw [rejects_terminal, Cursor.rest_within, seam.drop_text within]
      exact (scans _ (terminal_admits (Or.inr run) closed)).rejects
        (rejects_terminal.mp ⟨_, run⟩) holds

/-- A token that has to stand in the source is missed at its end. -/
theorem Anchored.terminal (needed : kind.name ∉ seam.ending.following) :
    Anchored seam reach (terminal kind) (terminal kind) where
  toPersists := .terminal scans
  guards _ run closed := (terminal_admits (Or.inr run) closed).continues needed
  anchors _ run closed := (terminal_admits (Or.inl ⟨_, _, run⟩) closed).continues needed

end

/-! ### Skips -/

/-- Behind a skip the longer text stands where the source does, unless the skip reaches the
end of the source and goes on. -/
private theorem Persists.ofLanding {kind : Skip} (persists : Persists seam reach matcher other)
    (fits : ∀ {offset next value trace stop}, offset ≤ seam.source.length →
      matcher (.within seam.source offset) = .matched value next trace →
      SealedTrace seam.ending seam.source trace → next = .within seam.source stop → offset ≤ stop →
      reach.Holds (seam.source.drop stop) → Continues (seam.source.drop offset))
    (refuses : ∀ {start offset trace}, start ≤ seam.source.length →
      offset = start + kind.length (seam.source.drop start) → offset ≤ seam.source.length →
      matcher (.within seam.source offset) = .failed trace → SealedTrace seam.ending seam.source trace →
      reach.Holds (seam.source.drop start) → Continues (seam.source.drop offset) ∨
        offset = seam.source.length ∧
          other.Rejects (.within seam.text (seam.source.length + kind.length seam.tail))) :
    Persists seam reach (afterSkip kind matcher) (afterSkip kind other) := by
  have lands : ∀ {offset}, offset ≤ seam.source.length →
      Continues (seam.source.drop (offset + kind.length (seam.source.drop offset))) →
      (Cursor.within seam.text offset).advance (kind.length (seam.text.drop offset)) =
        .within seam.text (offset + kind.length (seam.source.drop offset)) := by
    intro offset within continues
    rw [← List.drop_drop] at continues
    rw [seam.drop_text within, Skip.length_append_of_isUnbroken continues.isUnbroken seam.tail]
    refine Cursor.advance_within ?_
    have := (advance_skip kind within).1
    simp only [List.length_append]
    omega
  refine ⟨fun {offset} within => ⟨?_, ?_⟩⟩
  · intro next value trace run closed
    obtain ⟨bound, skipped⟩ := advance_skip kind within
    have behind := afterSkip_eq_matched run
    rw [Cursor.rest_within, skipped] at behind
    obtain ⟨stop, onward, before, rfl, read⟩ := persists.reads bound behind closed
    refine ⟨stop, by omega, before, rfl, fun holds => reads_afterSkip.mpr ?_⟩
    rw [Cursor.rest_within, lands within (fits bound behind closed rfl onward holds)]
    exact read holds
  · intro trace run closed holds
    obtain ⟨bound, skipped⟩ := advance_skip kind within
    have behind := afterSkip_eq_failed run
    rw [Cursor.rest_within, skipped] at behind
    rw [rejects_afterSkip, Cursor.rest_within]
    rcases refuses within rfl bound behind closed holds with continues | ⟨ended, rejected⟩
    · rw [lands within continues]
      exact persists.rejects bound behind closed (continues.reach reach)
    · have all : kind.length (seam.source.drop offset) = (seam.source.drop offset).length := by
        rw [List.length_drop]
        omega
      have longer := Skip.length_append_of_all all seam.tail
      have inside : offset ≤ seam.text.length := by
        simp only [List.length_append]
        omega
      have inText := (advance_skip kind inside).2
      have place : offset + kind.length (seam.text.drop offset) =
          seam.source.length + kind.length seam.tail := by
        rw [seam.drop_text within, longer]
        omega
      rw [inText, place]
      exact rejected

/-- Blanks do not reach the end of a source that has something left. -/
theorem Persists.afterSkip {kind : Skip} (inner : kind ≠ .gap)
    (persists : Persists seam .inside matcher other) :
    Persists seam .inside (afterSkip kind matcher) (afterSkip kind other) := by
  refine persists.ofLanding (fun _ _ _ _ onward holds => holds.earlier onward) ?_
  rintro start offset trace - rfl - - - holds
  left
  rw [← List.drop_drop]
  exact Skip.continues_drop inner holds

theorem Anchored.afterSkip {kind : Skip} (anchored : Anchored seam reach matcher other) :
    Anchored seam reach (afterSkip kind matcher) (afterSkip kind other) where
  toPersists := anchored.toPersists.ofLanding
    (fun within run closed _ _ _ => anchored.anchors within run closed)
    (fun _ _ within run closed _ => Or.inl (anchored.guards within run closed))
  guards within run closed := by
    obtain ⟨bound, skipped⟩ := advance_skip _ within
    have behind := afterSkip_eq_failed run
    rw [Cursor.rest_within, skipped] at behind
    exact Continues.earlier (anchored.guards bound behind closed)
      (Nat.le_add_right _ _)
  anchors within run closed := by
    obtain ⟨bound, skipped⟩ := advance_skip _ within
    have behind := afterSkip_eq_matched run
    rw [Cursor.rest_within, skipped] at behind
    exact Continues.earlier (anchored.anchors bound behind closed)
      (Nat.le_add_right _ _)

/-- Some token of a trace was tried at an offset. -/
def TriedAt (offset : Nat) (trace : List Attempt) : Prop :=
  ∃ attempt ∈ trace, attempt.offset = offset

section

variable {ending : Ending} {source : List Char} {offset : Nat} {trace : List Attempt}
  (tried : TriedAt offset trace) (closed : SealedTrace ending source trace)
include tried closed

/-- What leaves nothing open is tried at the end of a source or in front of something more. -/
theorem TriedAt.tight : source.drop offset = [] ∨ Continues (source.drop offset) := by
  obtain ⟨attempt, member, rfl⟩ := tried
  exact (closed attempt member).admits.complete.symm.imp_left And.left

/-- What leaves nothing open is not tried in front of a comment that runs up to the end. -/
theorem TriedAt.uncommented : endsInComment source offset = false := by
  obtain ⟨attempt, member, rfl⟩ := tried
  exact (closed attempt member).uncommented

end

theorem TriedAt.left {offset : Nat} {front back : List Attempt} (tried : TriedAt offset front) :
    TriedAt offset (front ++ back) := by
  obtain ⟨attempt, member, offset_eq⟩ := tried
  exact ⟨attempt, List.mem_append_left _ member, offset_eq⟩

theorem TriedAt.right {offset : Nat} {front back : List Attempt} (tried : TriedAt offset back) :
    TriedAt offset (front ++ back) := by
  obtain ⟨attempt, member, offset_eq⟩ := tried
  exact ⟨attempt, List.mem_append_right _ member, offset_eq⟩

/-- The first token of a matcher is tried right where it starts. -/
structure Tries (matcher : Matcher α) : Prop where
  reads : ∀ {cursor next : Cursor} {value : α} {trace : List Attempt},
    matcher cursor = .matched value next trace → TriedAt cursor.offset trace
  rejects : ∀ {cursor : Cursor} {trace : List Attempt}, matcher cursor = .failed trace →
    TriedAt cursor.offset trace

namespace Tries

theorem terminal (kind : Terminal) : Tries (terminal kind) where
  reads run := by
    rw [Matcher.terminal] at run
    split at run
    · cases run
      exact ⟨_, List.mem_cons_self, rfl⟩
    · cases run
  rejects run := by
    rw [Matcher.terminal] at run
    split at run
    · cases run
    · cases run
      exact ⟨_, List.mem_cons_self, rfl⟩

theorem bind {continuation : α → Matcher β} (tries : Tries matcher) :
    Tries (matcher >>= continuation) where
  reads run := by
    obtain ⟨value, next, front, back, firstRun, -, rfl⟩ := bind_eq_matched run
    exact (tries.reads firstRun).left
  rejects run := by
    rcases bind_eq_failed run with failed | ⟨value, next, front, back, firstRun, -, rfl⟩
    · exact tries.rejects failed
    · exact (tries.reads firstRun).left

theorem orElse {second : Matcher α} (tries : Tries matcher) :
    Tries (matcher.orElse second) where
  reads run := by
    rcases orElse_eq_matched run with firstRun | ⟨front, back, failed, -, rfl⟩
    · exact tries.reads firstRun
    · exact (tries.rejects failed).left
  rejects run := by
    obtain ⟨front, back, failed, -, rfl⟩ := orElse_eq_failed run
    exact (tries.rejects failed).left

private theorem manyUpTo (tries : Tries matcher) {limit : Nat} {cursor last : Cursor}
    {values : List α} {trace : List Attempt}
    (run : manyUpTo matcher limit cursor = .matched values last trace) :
    TriedAt last.offset trace := by
  induction limit generalizing cursor values trace with
  | zero => cases run
  | succ limit ih =>
      rcases manyUpTo_eq_matched run with
        ⟨failed, -, rfl⟩ | ⟨value, next, others, front, back, -, restRun, -, rfl⟩
      · exact tries.rejects failed
      · exact (ih restRun).right

/-- A repetition tries one token more right where it ends. -/
theorem many (tries : Tries matcher) {cursor last : Cursor} {values : List α}
    {trace : List Attempt} (run : many matcher cursor = .matched values last trace) :
    TriedAt last.offset trace :=
  tries.manyUpTo run

end Tries

/-- What the end of a source does not have to hold is not found behind it either. -/
theorem Persists.afterSkipOver {kind : Skip} (persists : Persists seam .whole matcher other)
    (tries : Tries matcher)
    (missing : ∀ value next,
      ¬ matcher.Reads (.within seam.source seam.source.length) value next)
    (missingBehind :
      other.Rejects (.within seam.text (seam.source.length + kind.length seam.tail))) :
    Persists seam .whole (Matcher.afterSkip kind matcher) (Matcher.afterSkip kind other) := by
  refine persists.ofLanding ?_ ?_
  · intro offset next value trace stop within run closed _ _ _
    refine ((tries.reads run).tight closed).resolve_left fun ended =>
      missing value next ⟨trace, ?_⟩
    rwa [← Nat.le_antisymm within (List.drop_eq_nil_iff.mp ended)]
  · intro start offset trace _ _ within run closed _
    exact ((tries.rejects run).tight closed).symm.imp_right fun ended =>
      ⟨Nat.le_antisymm within (List.drop_eq_nil_iff.mp ended), missingBehind⟩

/-- A token on the same line that need not stand in the source is not found behind it. -/
theorem Persists.onSameLine {kind : Terminal}
    (scans : ∀ rest, seam.ending.Admits kind.name rest →
      ScansOn seam.tail .whole kind.scanner rest)
    (missing : kind.scanner [] = none)
    (missingBehind : kind.name ∈ seam.ending.following →
      kind.scanner (seam.tail.drop (Lexeme.horizontalLength seam.tail)) = none) :
    Persists seam .whole (Matcher.onSameLine (Matcher.terminal kind))
      (Matcher.onSameLine (Matcher.terminal kind)) := by
  refine (Persists.terminal scans).ofLanding ?_ ?_
  · intro offset next value trace stop within run closed _ _ _
    obtain ⟨length, scanned, -⟩ := reads_terminal.mp ⟨trace, run⟩
    refine (terminal_admits (Or.inl ⟨_, _, run⟩) closed).complete.resolve_right fun ended => ?_
    rw [Cursor.rest_within, ended.1, missing] at scanned
    cases scanned
  · intro start offset trace _ _ within run closed _
    refine (terminal_admits (Or.inr run) closed).complete.imp_right fun ended => ?_
    refine ⟨Nat.le_antisymm within (List.drop_eq_nil_iff.mp ended.1), ?_⟩
    rw [rejects_terminal, Cursor.rest_within, seam.drop_behind]
    exact missingBehind ended.2

/-- What tries a token where it starts need only persist where no comment is open. -/
theorem PersistsAt.ofTried {offset : Nat} (tries : Tries matcher)
    (persists : endsInComment seam.source offset = false →
      PersistsAt seam reach offset matcher other) : PersistsAt seam reach offset matcher other where
  reads run closed := (persists ((tries.reads run).uncommented closed)).reads run closed
  rejects run closed := (persists ((tries.rejects run).uncommented closed)).rejects run closed

theorem ofReduction_ne_failed (reduction : Except MissingOperator α) (cursor : Cursor)
    (trace : List Attempt) : ofReduction reduction cursor ≠ .failed trace := by
  cases reduction <;> exact fun impossible => nomatch impossible

/-- A matcher that reads nothing. -/
structure Still (matcher : Matcher α) : Prop where
  stays : ∀ {cursor next : Cursor} {value : α} {trace : List Attempt},
    matcher cursor = .matched value next trace → next = cursor

theorem Still.pure {value : α} : Still (Pure.pure value) where
  stays run := by
    cases run
    rfl

theorem Still.ofReduction {reduction : Except MissingOperator α} :
    Still (ofReduction reduction) where
  stays run := by
    cases reduction with
    | ok value => exact Still.pure.stays run
    | error missing => exact nomatch run

/-- A matcher behind whose reads another token is tried. -/
structure TriesBehind (matcher : Matcher α) : Prop where
  tried : ∀ {cursor next : Cursor} {value : α} {trace : List Attempt},
    matcher cursor = .matched value next trace → TriedAt next.offset trace

namespace TriesBehind

theorem abort {fault : Fault} : TriesBehind (abort fault : Matcher α) where
  tried run := nomatch run

/-- What ends a sequence decides what is tried behind it. -/
theorem bindLast {continuation : α → Matcher β}
    (behind : ∀ value, TriesBehind (continuation value)) :
    TriesBehind (matcher >>= continuation) where
  tried run := by
    obtain ⟨value, middle, front, back, -, lastRun, rfl⟩ := bind_eq_matched run
    exact ((behind value).tried lastRun).right

theorem bindStill {continuation : α → Matcher β} (behind : TriesBehind matcher)
    (still : ∀ value, Still (continuation value)) : TriesBehind (matcher >>= continuation) where
  tried run := by
    obtain ⟨value, middle, front, back, firstRun, lastRun, rfl⟩ := bind_eq_matched run
    obtain rfl := (still value).stays lastRun
    exact (behind.tried firstRun).left

theorem orElse {second : Matcher α} (first : TriesBehind matcher) (otherwise : TriesBehind second) :
    TriesBehind (matcher.orElse second) where
  tried run := by
    rcases orElse_eq_matched run with firstRun | ⟨front, back, -, secondRun, rfl⟩
    · exact first.tried firstRun
    · exact (otherwise.tried secondRun).right

private theorem manyUpTo (behind : TriesBehind matcher) {limit : Nat} {cursor last : Cursor}
    {values : List α} {trace : List Attempt}
    (run : manyUpTo matcher limit cursor = .matched values last trace) :
    last = cursor ∨ TriedAt last.offset trace := by
  induction limit generalizing cursor values trace with
  | zero => cases run
  | succ limit ih =>
      rcases manyUpTo_eq_matched run with
        ⟨-, -, rfl⟩ | ⟨value, next, others, front, back, firstRun, restRun, -, rfl⟩
      · exact Or.inl rfl
      · refine Or.inr ?_
        rcases ih restRun with rfl | tried
        · exact (behind.tried firstRun).left
        · exact tried.right

/-- A repetition of such a matcher behind another one. -/
theorem bindMany {first : Matcher α} {step : Matcher β} {continuation : α → List β → Matcher γ}
    (behind : TriesBehind first) (steps : TriesBehind step)
    (still : ∀ value values, Still (continuation value values)) :
    TriesBehind (first >>= fun value => many step >>= continuation value) where
  tried run := by
    obtain ⟨value, middle, front, back, firstRun, rest, rfl⟩ := bind_eq_matched run
    obtain ⟨values, last, more, none, manyRun, done, rfl⟩ := bind_eq_matched rest
    obtain rfl := (still value values).stays done
    rcases steps.manyUpTo manyRun with rfl | tried
    · exact (behind.tried firstRun).left
    · exact tried.left.right

end TriesBehind

/-- What always fits need only persist where another token was tried and no comment is open. -/
theorem Anchored.bindBehind {first firstOther : Matcher α} {continuation continued : α → Matcher β}
    (anchored : Anchored seam reach first firstOther) (behind : TriesBehind first)
    (continues : ∀ value {offset}, offset ≤ seam.source.length →
      endsInComment seam.source offset = false →
      PersistsAt seam reach offset (continuation value) (continued value))
    (total : ∀ value {cursor trace}, continuation value cursor ≠ .failed trace) :
    Anchored seam reach (first >>= continuation) (firstOther >>= continued) where
  place within := by
    refine ⟨fun run closed => ?_, fun run closed holds => ?_⟩
    · obtain ⟨value, next, front, back, firstRun, secondRun, rfl⟩ := bind_eq_matched run
      obtain ⟨frontClosed, backClosed⟩ := sealedTrace_append.mp closed
      have unopened := (behind.tried firstRun).uncommented frontClosed
      obtain ⟨middle, onward, before, rfl, read⟩ := anchored.reads within firstRun frontClosed
      obtain ⟨stop, further, last, rfl, readOn⟩ :=
        (continues value before unopened).reads secondRun backClosed
      exact ⟨stop, Nat.le_trans onward further, last, rfl, fun holds =>
        reads_bind.mpr ⟨value, _, read (holds.earlier further), readOn holds⟩⟩
    · rcases bind_eq_failed run with failed | ⟨value, next, front, back, firstRun, failed, rfl⟩
      · exact rejects_bind.mpr (Or.inl (anchored.rejects within failed closed holds))
      · exact absurd failed (total value)
  guards within run closed := by
    rcases bind_eq_failed run with failed | ⟨value, next, front, back, firstRun, failed, rfl⟩
    · exact anchored.guards within failed closed
    · exact absurd failed (total value)
  anchors within run closed := by
    obtain ⟨value, next, front, back, firstRun, -, rfl⟩ := bind_eq_matched run
    exact anchored.anchors within firstRun (sealedTrace_append.mp closed).1

/-! ### Comments -/

/-- Comments are read alike unless they run up to the end of the source. -/
theorem commentsBefore_reads_text {kind : Skip} (counts : kind ≠ .horizontal) {offset : Nat}
    (within : offset ≤ seam.source.length) {comments : List Node} {next : Cursor}
    (read : (commentsBefore kind).Reads (.within seam.source offset) comments next) :
    ∃ stop, offset ≤ stop ∧ stop ≤ seam.source.length ∧ next = .within seam.source stop ∧
      ((stop = seam.source.length → comments = []) →
        (commentsBefore kind).Reads (.within seam.text offset) comments (.within seam.text stop)) :=
  commentsBefore_append seam.trails.isBreak seam.unmarked seam.noComment counts within read

theorem Guarded.commentsBefore {kind : Skip} (counts : kind ≠ .horizontal) :
    Guarded seam .inside (commentsBefore kind) (commentsBefore kind) := by
  refine .ofReads (manyUpTo_ne_failed _ _ _ _) ?_
  intro offset next comments trace within run _
  obtain ⟨stop, onward, before, next_eq, read⟩ := commentsBefore_reads_text counts within ⟨_, run⟩
  refine ⟨stop, onward, before, next_eq, fun continues => read fun ended => ?_⟩
  have spent : seam.source.drop stop = [] := List.drop_eq_nil_iff.mpr (Nat.le_of_eq ended.symm)
  exact absurd spent continues.ne_nil

theorem Anchored.abort {fault : Fault} : Anchored seam reach (abort fault) other where
  toGuarded := .abort
  anchors _ run := nomatch run

theorem Anchored.spaced {node another : Matcher Node} (anchored : Anchored seam reach node another) :
    Anchored seam reach (spaced node) (spaced another) :=
  (Guarded.commentsBefore (by decide)).closedBy fun _ => anchored.afterSkip.bind fun _ => .pure

theorem eq_failed_of_bind_pure {answer : α → β} {cursor : Cursor} {trace : List Attempt}
    (run : (matcher >>= fun value => Pure.pure (answer value)) cursor = .failed trace) :
    matcher cursor = .failed trace := by
  rcases bind_eq_failed run with failed | ⟨value, next, front, back, -, impossible, -⟩
  · exact failed
  · exact nomatch impossible

/-- What need not stand in the source is read behind its comments, unless only blanks follow
them. -/
theorem PersistsAt.spaced {node another : Matcher Node} {offset : Nat}
    (within : offset ≤ seam.source.length) (unopened : endsInComment seam.source offset = false)
    (tries : Tries node)
    (persists : Persists seam reach (Matcher.afterSkip .blanks node)
      (Matcher.afterSkip .blanks another)) :
    PersistsAt seam reach offset (spaced node) (spaced another) := by
  have behind (comments : List Node) : Persists seam reach
      (Matcher.afterSkip .blanks node >>= fun node => Pure.pure (node.withComments comments))
      (Matcher.afterSkip .blanks another >>= fun node => Pure.pure (node.withComments comments)) :=
    persists.bind fun _ => .pure
  have read_comments {comments : List Node} {next : Cursor} {trace : List Attempt}
      (run : Matcher.commentsBefore .blanks (.within seam.source offset) =
        .matched comments next trace) :
      ∃ middle, offset ≤ middle ∧ middle ≤ seam.source.length ∧
        next = .within seam.source middle ∧ (Matcher.commentsBefore .blanks).Reads
          (.within seam.text offset) comments (.within seam.text middle) := by
    obtain ⟨middle, onward, before, rfl, read⟩ :=
      commentsBefore_reads_text (by decide) within ⟨_, run⟩
    refine ⟨middle, onward, before, rfl, read fun ended => ?_⟩
    exact eq_nil_of_endsInComment unopened ⟨_, run⟩ (by simp [ended])
  refine ⟨fun run closed => ?_, fun run closed holds => ?_⟩
  · obtain ⟨comments, next, front, back, commentsRun, nodeRun, rfl⟩ := bind_eq_matched run
    obtain ⟨middle, onward, before, rfl, read⟩ := read_comments commentsRun
    obtain ⟨stop, further, last, rfl, readOn⟩ :=
      (behind comments).reads before nodeRun (sealedTrace_append.mp closed).2
    exact ⟨stop, Nat.le_trans onward further, last, rfl, fun holds =>
      reads_bind.mpr ⟨comments, _, read, readOn holds⟩⟩
  · rcases bind_eq_failed run with failed | ⟨comments, next, front, back, commentsRun, failed, rfl⟩
    · exact absurd failed (manyUpTo_ne_failed _ _ _ _)
    · obtain ⟨middle, onward, before, rfl, read⟩ := read_comments commentsRun
      have closedBehind := (sealedTrace_append.mp closed).2
      refine rejects_bind.mpr (Or.inr ⟨comments, _, read, ?_⟩)
      refine (behind comments).rejects before failed closedBehind ?_
      obtain ⟨-, skipped⟩ := advance_skip .blanks before
      have landed := afterSkip_eq_failed (eq_failed_of_bind_pure failed)
      rw [Cursor.rest_within, skipped] at landed
      rcases (tries.rejects landed).tight closedBehind with ended | continues
      · -- only blanks are left, so that no comment was read
        rw [Cursor.offset_within, ← List.drop_drop] at ended
        have blank := Skip.isBlank_of_drop_eq_nil ended
        obtain rfl := eq_nil_of_endsInComment unopened ⟨_, commentsRun⟩ blank
        have each := Reads.each_of_many ⟨_, commentsRun⟩
        generalize last_eq : Cursor.within seam.source middle = last at each
        cases each
        obtain rfl : middle = offset := congrArg Cursor.offset last_eq
        exact holds
      · exact (continues.earlier (Nat.le_add_right _ _)).reach reach

end Matcher

end RubySyntax
