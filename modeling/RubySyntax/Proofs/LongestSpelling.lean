import RubySyntax.Proofs.MatcherRuns
import RubySyntax.Proofs.LexemeExtent
import RubySyntax.Proofs.SourcePlace

/-!
# The longest spelling

Several spellings are tried from the longest to the shortest, and the first one that
fits is read.  One that begins as a word only fits where the word ends, so that a longer
spelling may be passed over for a shorter one.  What is read is the longest of all the
spellings that fit, in whatever order and however often they are listed.
-/

namespace RubySyntax

namespace Lexeme

/-- A spelling stands at the start of a text, and where it begins as a word the word ends
behind it. -/
structure Fits (word : String) (text : List Char) : Prop where
  begins : word.toList <+: text
  ends : ∀ first, word.toList.head? = some first → isWordCharacter first = true →
    ∀ next, text[word.length]? = some next →
      isWordCharacter next = false ∧ next ≠ '?' ∧ next ≠ '!'

/-- The longest of several spellings that fit at the start of a text. -/
structure IsLongestFit (spellings : List String) (text : List Char) (word : String) : Prop where
  member : word ∈ spellings
  fits : Fits word text
  longest : ∀ other ∈ spellings, Fits other text → other.length ≤ word.length

variable {spellings : List String} {text : List Char} {word : String}

/-! ### One spelling -/

theorem isWordEnd_iff : isWordEnd text = true ↔ ∀ next, text.head? = some next →
    isWordCharacter next = false ∧ next ≠ '?' ∧ next ≠ '!' := by
  cases text with
  | nil => simp [isWordEnd, startsWithChar]
  | cons next rest => simp [isWordEnd, startsWithChar, continuesWord, and_assoc]

/-- A spelling is read where it fits, and it is read as it is. -/
theorem spelling_eq_some_iff {length : Nat} :
    spelling word text = some length ↔ Fits word text ∧ length = word.length := by
  have boundary : (!startsWithChar isWordCharacter word.toList ||
      isWordEnd (text.drop word.length)) = true ↔
      ∀ first, word.toList.head? = some first → isWordCharacter first = true →
        ∀ next, text[word.length]? = some next →
          isWordCharacter next = false ∧ next ≠ '?' ∧ next ≠ '!' := by
    rw [Bool.or_eq_true, isWordEnd_iff, List.head?_drop]
    cases word.toList with
    | nil => simp [startsWithChar]
    | cons first others =>
        cases starts : isWordCharacter first <;> simp [startsWithChar, starts]
  unfold spelling
  split
  · rename_i fits
    rw [Bool.and_eq_true, List.isPrefixOf_iff_prefix, boundary] at fits
    rw [Option.some.injEq, and_iff_right ⟨fits.1, fits.2⟩]
    exact eq_comm
  · rename_i unfit
    simp only [reduceCtorEq, false_iff, not_and]
    intro fits
    rw [Bool.and_eq_true, List.isPrefixOf_iff_prefix, boundary] at unfit
    exact absurd ⟨fits.begins, fits.ends⟩ unfit

theorem spelling_eq_none_iff : spelling word text = none ↔ ¬ Fits word text := by
  rw [Option.eq_none_iff_forall_not_mem]
  constructor
  · intro unread fits
    exact unread word.length (spelling_eq_some_iff.mpr ⟨fits, rfl⟩)
  · intro unfit length scanned
    exact unfit (spelling_eq_some_iff.mp scanned).1

/-! ### The order in which spellings are tried -/

theorem insertLongest_pairwise (sorted : spellings.Pairwise fun longer shorter =>
      shorter.length ≤ longer.length) :
    (insertLongest word spellings).Pairwise fun longer shorter =>
      shorter.length ≤ longer.length := by
  induction spellings with
  | nil => exact List.pairwise_singleton _ _
  | cons other others ih =>
      obtain ⟨bound, sortedRest⟩ := List.pairwise_cons.mp sorted
      rw [insertLongest]
      split
      · rename_i shorter
        refine List.pairwise_cons.mpr ⟨?_, sorted⟩
        rw [List.forall_mem_cons]
        exact ⟨shorter, fun later member => Nat.le_trans (bound later member) shorter⟩
      · rename_i longer
        refine List.pairwise_cons.mpr ⟨fun later member => ?_, ih sortedRest⟩
        rcases mem_insertLongest.mp member with rfl | inOthers
        · omega
        · exact bound later inOthers

/-- No spelling is tried before a longer one. -/
theorem longestFirst_pairwise (spellings : List String) :
    (longestFirst spellings).Pairwise fun longer shorter => shorter.length ≤ longer.length := by
  induction spellings with
  | nil => exact .nil
  | cons word others ih => exact insertLongest_pairwise ih

/-! ### Several spellings -/

/-- Two spellings of one length that begin a text are the same. -/
theorem IsLongestFit.unique {other : String} (isLongest : IsLongestFit spellings text word)
    (isLongestToo : IsLongestFit spellings text other) : word = other := by
  have le := isLongestToo.longest word isLongest.member isLongest.fits
  have ge := isLongest.longest other isLongestToo.member isLongestToo.fits
  rw [← String.length_toList, ← String.length_toList] at le ge
  have within : word.toList <+: other.toList :=
    List.prefix_of_prefix_length_le isLongest.fits.begins isLongestToo.fits.begins le
  exact String.toList_inj.mp (within.eq_of_length_le ge)

/-- The first spelling that fits, in the order in which they are tried, is the longest. -/
theorem exists_isLongestFit_of_oneOf (filled : spellings ≠ []) {length : Nat}
    (scanned : oneOf spellings text = some length) :
    ∃ word, IsLongestFit spellings text word ∧ length = word.length := by
  have notEmpty : spellings.isEmpty = false := by simpa using filled
  rw [oneOf, notEmpty, if_neg (by simp)] at scanned
  obtain ⟨earlier, word, later, order_eq, spelled, passed⟩ :=
    List.findSome?_eq_some_iff.mp scanned
  obtain ⟨fits, length_eq⟩ := spelling_eq_some_iff.mp spelled
  have sorted := longestFirst_pairwise spellings
  rw [order_eq, List.pairwise_append, List.pairwise_cons] at sorted
  have listed : ∀ other, other ∈ spellings ↔ other ∈ earlier ∨ other = word ∨ other ∈ later := by
    intro other
    rw [← mem_longestFirst, order_eq, List.mem_append, List.mem_cons]
  refine ⟨word, ⟨(listed word).mpr (Or.inr (Or.inl rfl)), fits, ?_⟩, length_eq⟩
  intro other member otherFits
  rcases (listed other).mp member with before | rfl | behind
  · exact absurd otherFits (spelling_eq_none_iff.mp (passed other before))
  · exact Nat.le_refl _
  · exact sorted.2.1.1 other behind

theorem oneOf_eq_none_iff (filled : spellings ≠ []) :
    oneOf spellings text = none ↔ ∀ word ∈ spellings, ¬ Fits word text := by
  have notEmpty : spellings.isEmpty = false := by simpa using filled
  rw [oneOf, notEmpty, if_neg (by simp), List.findSome?_eq_none_iff]
  simp only [mem_longestFirst, spelling_eq_none_iff]

theorem oneOf_of_isLongestFit (filled : spellings ≠ [])
    (isLongest : IsLongestFit spellings text word) :
    oneOf spellings text = some word.length := by
  cases scanned : oneOf spellings text with
  | none =>
      have unfit := (oneOf_eq_none_iff filled).mp scanned word isLongest.member
      exact absurd isLongest.fits unfit
  | some length =>
      obtain ⟨other, isLongestToo, rfl⟩ := exists_isLongestFit_of_oneOf filled scanned
      rw [isLongest.unique isLongestToo]

/-- Where nothing stands behind it, a spelling fits. -/
theorem fits_toList (word : String) : Fits word word.toList where
  begins := List.prefix_refl _
  ends := by
    intro _ _ _ next found
    rw [← String.length_toList, List.getElem?_eq_none (Nat.le_refl _)] at found
    cases found

/-- Alone, each of several spellings is read as a whole. -/
theorem oneOf_toList (member : word ∈ spellings) : oneOf spellings word.toList = some word.length :=
  oneOf_of_isLongestFit (List.ne_nil_of_mem member)
    { member := member
      fits := fits_toList word
      longest := fun _ _ fits => by
        simpa only [String.length_toList] using fits.begins.length_le }

/-- Where a spelling fits, one of those that do is the longest. -/
theorem exists_isLongestFit (member : word ∈ spellings) (fits : Fits word text) :
    ∃ longest, IsLongestFit spellings text longest := by
  have filled : spellings ≠ [] := List.ne_nil_of_mem member
  cases scanned : oneOf spellings text with
  | none => exact absurd fits ((oneOf_eq_none_iff filled).mp scanned word member)
  | some length =>
      obtain ⟨longest, isLongest, -⟩ := exists_isLongestFit_of_oneOf filled scanned
      exact ⟨longest, isLongest⟩

end Lexeme

namespace Matcher

/-- At every place of a text, the leaf that is read holds the longest spelling that fits there,
and the cursor moves behind it.  Nothing is read exactly where no spelling fits. -/
theorem terminal_oneOf_longest {spellings : List String} (filled : spellings ≠ []) (name : String)
    {text : List Char} {offset : Nat} (inside : offset ≤ text.length) :
    (∀ word, Lexeme.IsLongestFit spellings (text.drop offset) word ↔
      terminal (.oneOf spellings name) (.within text offset) =
        .matched { data := word, offset := some (offset : Int) }
          (.within text (offset + word.length)) [⟨offset, name, true⟩]) ∧
      (terminal (.oneOf spellings name) (.within text offset) =
          .failed [⟨offset, name, false⟩] ↔
        ∀ word ∈ spellings, ¬ Lexeme.Fits word (text.drop offset)) ∧
      ∀ word ∈ spellings, Lexeme.Fits word (text.drop offset) →
        ∃ longest, Lexeme.IsLongestFit spellings (text.drop offset) longest := by
  -- What is read is determined by what the scanner answers.
  have run : ∀ word, Lexeme.IsLongestFit spellings (text.drop offset) word →
      terminal (.oneOf spellings name) (.within text offset) =
        .matched { data := word, offset := some (offset : Int) }
          (.within text (offset + word.length)) [⟨offset, name, true⟩] := by
    intro word isLongest
    have begins := isLongest.fits.begins
    have data_eq : String.ofList ((text.drop offset).take word.length) = word := by
      rw [← String.length_toList, ← List.prefix_iff_eq_take.mp begins, String.ofList_toList]
    have bound : offset + word.length ≤ text.length := by
      have := begins.length_le
      rw [String.length_toList, List.length_drop] at this
      omega
    simp only [terminal, Terminal.oneOf, Cursor.rest_within, Cursor.offset_within,
      Lexeme.oneOf_of_isLongestFit filled isLongest, data_eq, Cursor.advance_within bound]
  have unread : terminal (.oneOf spellings name) (.within text offset) =
      .failed [⟨offset, name, false⟩] ↔ Lexeme.oneOf spellings (text.drop offset) = none := by
    simp only [terminal, Terminal.oneOf, Cursor.rest_within, Cursor.offset_within]
    cases Lexeme.oneOf spellings (text.drop offset) <;> simp
  refine ⟨fun word => ⟨run word, fun matched => ?_⟩, ?_, fun word member fits =>
    Lexeme.exists_isLongestFit member fits⟩
  · cases scanned : Lexeme.oneOf spellings (text.drop offset) with
    | none =>
        rw [unread.mpr scanned] at matched
        cases matched
    | some length =>
        obtain ⟨longest, isLongest, -⟩ := Lexeme.exists_isLongestFit_of_oneOf filled scanned
        rw [run longest isLongest] at matched
        cases matched
        exact isLongest
  · rw [unread, Lexeme.oneOf_eq_none_iff filled]

/-- The longest spelling that begins the text, `not=`, is passed over because a letter follows
it; the equals sign does not go on with the word `not`. -/
theorem terminal_oneOf_longest_passedOver :
    ["no", "not", "=", "not=", "not", "=="] ≠ [] ∧ 2 ≤ "x not=a".toList.length ∧
      Lexeme.IsLongestFit ["no", "not", "=", "not=", "not", "=="] "not=a".toList "not" := by
  refine ⟨by decide, by decide, ?_⟩
  exact ((@terminal_oneOf_longest ["no", "not", "=", "not=", "not", "=="] (by decide) "operator"
    "x not=a".toList 2 (by decide)).1 "not").mpr rfl

end Matcher

end RubySyntax
