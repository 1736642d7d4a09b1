import RubySyntax.YamlFlowScalar
import RubySyntax.YamlScalarText

/-!
# Reading quoted scalars of YAML

A quoted scalar is read part by part: blanks, line breaks, escapes, doubled quotes
and characters that stand for themselves.  A text between single quotes that was
folded is read back as it was, unless it holds the next-line character, which
counts as a line feed.
-/

namespace RubySyntax

/-! ### Places in a text -/

namespace YamlCharacter

/-- A character that takes a column of its own and separates nothing. -/
def IsOrdinary (character : Char) : Prop :=
  isSeparator character = false ∧ character ≠ byteOrderMark

/-- A text that begins with no blank and no line break. -/
def BeginsSolid (text : List Char) : Prop :=
  ∀ character ∈ text.head?, isSeparator character = false

theorem beginsSolid_cons {character : Char} {text : List Char}
    (solid : isSeparator character = false) : BeginsSolid (character :: text) := by
  rintro _ ⟨⟩
  exact solid

/-- The line breaks that a scalar keeps as they are. -/
def keptBreaks : List Char :=
  ['\n', Char.ofNat 0x2028, Char.ofNat 0x2029]

theorem keptBreaks_spec : ∀ character ∈ keptBreaks,
    (character = '\n' ∨ character.toNat = 0x2028 ∨ character.toNat = 0x2029) ∧
      isSpaceOrTab character = false ∧ character ≠ '\r' ∧ character ≠ '-' ∧ character ≠ '.' := by
  decide

theorem takeWhile_blanks {text : List Char} (solid : BeginsSolid text) (count : Nat) :
    (List.replicate count ' ' ++ text).takeWhile isSpaceOrTab = List.replicate count ' ' := by
  have stops : text.takeWhile isSpaceOrTab = [] := by
    cases text with
    | nil => rfl
    | cons character text =>
        have noBlank := solid character rfl
        rw [isSeparator, Bool.or_eq_false_iff] at noBlank
        simp [noBlank.1]
  rw [List.takeWhile_append_of_pos, stops, List.append_nil]
  intro character member
  obtain rfl := List.eq_of_mem_replicate member
  rfl

end YamlCharacter

namespace YamlCursor

open YamlCharacter

@[simp]
theorem rest_step (cursor : YamlCursor) : cursor.step.rest = cursor.rest.drop 1 := by
  rw [step]
  split
  next rest_eq => rw [rest_eq]; rfl
  next character rest rest_eq =>
    rw [rest_eq]
    dsimp only
    split
    · rfl
    · split <;> rfl

@[simp]
theorem rest_forward (count : Nat) (cursor : YamlCursor) :
    (cursor.forward count).rest = cursor.rest.drop count := by
  induction count generalizing cursor with
  | zero => rfl
  | succ count ih => rw [forward, ih, rest_step, List.drop_drop, Nat.add_comm]

theorem takeBreak?_eq_none {cursor : YamlCursor} (solid : BeginsSolid cursor.rest) :
    cursor.takeBreak? = none := by
  rw [takeBreak?]
  split
  next rest_eq =>
    have returns := solid '\r' (by rw [rest_eq]; rfl)
    exact absurd returns (by decide)
  next character _ _ rest_eq =>
    have noBreak := solid character (by rw [rest_eq]; rfl)
    rw [isSeparator, Bool.or_eq_false_iff] at noBreak
    rw [if_neg, if_neg (by simp [noBreak.2])]
    rintro (separator | separator) <;> simp [isBreak, separator] at noBreak
  next => rfl

theorem takeBreak?_eq_some {cursor : YamlCursor} {character : Char} {text : List Char}
    (rest_eq : cursor.rest = character :: text) (kept : character ∈ keptBreaks) :
    cursor.takeBreak? = some (character, cursor.step) := by
  obtain ⟨kinds, -, noReturn, -⟩ := keptBreaks_spec character kept
  rw [takeBreak?, rest_eq]
  split
  next same => exact absurd (List.cons.inj same).1 noReturn
  next other _ _ same =>
    obtain ⟨rfl, -⟩ := List.cons.inj same
    split
    next => rfl
    next apart =>
      obtain rfl := kinds.resolve_right apart
      rfl
  next same => cases same

/-- No document ends where a line begins with neither a hyphen nor a point. -/
theorem atDocumentBoundary_eq_false {cursor : YamlCursor}
    (apart : ∀ character ∈ cursor.rest.head?, character ≠ '-' ∧ character ≠ '.') :
    cursor.atDocumentBoundary = false := by
  rw [atDocumentBoundary, atDocumentMarker, atDocumentMarker]
  cases rest_eq : cursor.rest with
  | nil => rfl
  | cons character text =>
      obtain ⟨noHyphen, noPoint⟩ := apart character (by rw [rest_eq]; rfl)
      have hyphens : "---".toList = ['-', '-', '-'] := rfl
      have points : "...".toList = ['.', '.', '.'] := rfl
      rw [hyphens, points, List.isPrefixOf, List.isPrefixOf]
      simp [Ne.symm noHyphen, Ne.symm noPoint]

theorem rest_skipBlanks {cursor : YamlCursor} {count : Nat} {text : List Char}
    (rest_eq : cursor.rest = List.replicate count ' ' ++ text) (solid : BeginsSolid text) :
    (cursor.skipWhile isSpaceOrTab).rest = text := by
  rw [skipWhile, takeWhile, rest_forward, rest_eq, takeWhile_blanks solid]
  exact List.drop_left

end YamlCursor

namespace YamlFlowScalar

open YamlCharacter

/-! ### Space in a quoted scalar -/

theorem quotedBreaks_eq {more text : List Char} {margin bound : Nat} {cursor : YamlCursor}
    (kept : ∀ character ∈ more, character ∈ keptBreaks) (solid : BeginsSolid text)
    (rest_eq : cursor.rest = more ++ (List.replicate (margin + 1) ' ' ++ text))
    (enough : more.length < bound) :
    ∃ last, quotedBreaks bound cursor = .ok (more, last) ∧ last.rest = text := by
  induction more generalizing cursor bound with
  | nil =>
      obtain _ | bound := bound
      · cases enough
      have goesOn : cursor.atDocumentBoundary = false :=
        YamlCursor.atDocumentBoundary_eq_false (by simp [rest_eq, List.replicate_succ])
      have behind : (cursor.skipWhile isSpaceOrTab).rest = text :=
        YamlCursor.rest_skipBlanks rest_eq solid
      have ends : (cursor.skipWhile isSpaceOrTab).takeBreak? = none :=
        YamlCursor.takeBreak?_eq_none (behind ▸ solid)
      exact ⟨_, by simp [quotedBreaks, goesOn, ends], behind⟩
  | cons character more ih =>
      obtain _ | bound := bound
      · cases enough
      have isKept := kept character (.head _)
      obtain ⟨-, noBlank, -, noHyphen, noPoint⟩ := keptBreaks_spec character isKept
      have goesOn : cursor.atDocumentBoundary = false :=
        YamlCursor.atDocumentBoundary_eq_false (by simp [rest_eq, noHyphen, noPoint])
      have same : cursor.skipWhile isSpaceOrTab = cursor := by
        rw [YamlCursor.skipWhile, YamlCursor.takeWhile, rest_eq]
        simp [noBlank, YamlCursor.forward]
      have broken := YamlCursor.takeBreak?_eq_some rest_eq isKept
      obtain ⟨last, read, last_rest⟩ := @ih bound cursor.step
        (fun other member => kept other (.tail _ member))
        (by rw [YamlCursor.rest_step, rest_eq]; rfl) (Nat.lt_of_succ_lt_succ enough)
      exact ⟨last, by simp [quotedBreaks, goesOn, same, broken, read, bind, Except.bind, pure,
        Except.pure], last_rest⟩

theorem readQuotedSpace?_solid {cursor : YamlCursor} (solid : BeginsSolid cursor.rest) :
    readQuotedSpace? cursor = .ok none := by
  have none : cursor.rest.takeWhile isSpaceOrTab = [] := takeWhile_blanks solid 0
  have ends := YamlCursor.takeBreak?_eq_none solid
  simp [readQuotedSpace?, YamlCursor.takeWhile, none, YamlCursor.forward, ends]

theorem readQuotedSpace?_spaces {cursor : YamlCursor} {count : Nat} {text : List Char}
    (rest_eq : cursor.rest = List.replicate (count + 1) ' ' ++ text) (solid : BeginsSolid text) :
    ∃ next, readQuotedSpace? cursor = .ok (some (List.replicate (count + 1) 0x20, next)) ∧
      next.rest = text := by
  have blanks := takeWhile_blanks solid (count + 1)
  have behind := YamlCursor.rest_skipBlanks rest_eq solid
  have ends := YamlCursor.takeBreak?_eq_none (behind.symm ▸ solid)
  rw [YamlCursor.skipWhile] at behind ends
  refine ⟨_, ?_, behind⟩
  simp only [YamlCursor.takeWhile, rest_eq, blanks, List.length_replicate] at ends ⊢
  simp [readQuotedSpace?, YamlCursor.takeWhile, rest_eq, blanks, ends, codePoints]

theorem readQuotedSpace?_breaks {cursor : YamlCursor} {first : Char} {more text : List Char}
    {margin : Nat} (kept : ∀ character ∈ first :: more, character ∈ keptBreaks)
    (solid : BeginsSolid text)
    (rest_eq : cursor.rest = first :: more ++ (List.replicate (margin + 1) ' ' ++ text)) :
    ∃ next, readQuotedSpace? cursor =
      .ok (some (codePoints (foldedBreaks first more), next)) ∧ next.rest = text := by
  have isKept := kept first (.head _)
  obtain ⟨-, noBlank, -⟩ := keptBreaks_spec first isKept
  have broken := YamlCursor.takeBreak?_eq_some rest_eq isKept
  have step_rest : cursor.step.rest = more ++ (List.replicate (margin + 1) ' ' ++ text) := by
    rw [YamlCursor.rest_step, rest_eq]
    rfl
  have enough : more.length < cursor.step.rest.length + 1 := by
    rw [step_rest, List.length_append]
    omega
  obtain ⟨last, read, last_rest⟩ := quotedBreaks_eq
    (fun character member => kept character (.tail _ member)) solid step_rest enough
  have none : cursor.rest.takeWhile isSpaceOrTab = [] := by simp [rest_eq, noBlank]
  refine ⟨last, ?_, last_rest⟩
  simp only [readQuotedSpace?, YamlCursor.takeWhile, none, List.length_nil, YamlCursor.forward,
    broken]
  rw [read]
  rfl

/-! ### Parts of a quoted scalar -/

/-- A text that is left of a quoted scalar, with the code points that it stands for.  Behind its
closing quote the given text follows. -/
inductive QuotedText (quote : Char) (behind : List Char) : List Char → List Nat → Prop where
  /-- The closing quote, which no second one follows between single quotes. -/
  | close (single : quote = '\'' → behind.head? ≠ some '\'') :
      QuotedText quote behind (quote :: behind) []
  /-- Spaces count as they are. -/
  | spaces (count : Nat) {text : List Char} {content : List Nat} (solid : BeginsSolid text)
      (goesOn : QuotedText quote behind text content) :
      QuotedText quote behind (List.replicate (count + 1) ' ' ++ text)
        (List.replicate (count + 1) 0x20 ++ content)
  /-- Line breaks are folded, and the margin behind them does not count. -/
  | breaks {first : Char} {more : List Char} (margin : Nat) {text : List Char}
      {content : List Nat} (kept : ∀ character ∈ first :: more, character ∈ keptBreaks)
      (solid : BeginsSolid text) (goesOn : QuotedText quote behind text content) :
      QuotedText quote behind (first :: more ++ (List.replicate (margin + 1) ' ' ++ text))
        (codePoints (foldedBreaks first more) ++ content)
  /-- A quote between single quotes is doubled. -/
  | doubled (single : quote = '\'') {text : List Char} {content : List Nat}
      (goesOn : QuotedText quote behind text content) :
      QuotedText quote behind (quote :: quote :: text) (quote.toNat :: content)
  /-- An escape between double quotes. -/
  | escape (double : quote ≠ '\'') {written text : List Char} {escaped content : List Nat}
      (read : ∀ cursor : YamlCursor, cursor.rest = written ++ text →
        ∃ next, readEscape cursor = .ok (escaped, next) ∧ next.rest = text)
      (goesOn : QuotedText quote behind text content) :
      QuotedText quote behind ('\\' :: (written ++ text)) (escaped ++ content)
  /-- Any other character stands for itself. -/
  | character {character : Char} {text : List Char} {content : List Nat}
      (solid : isSeparator character = false) (apart : character ≠ quote)
      (unescaped : character = '\\' → quote = '\'')
      (goesOn : QuotedText quote behind text content) :
      QuotedText quote behind (character :: text) (character.toNat :: content)

/-- A quoted scalar is read up to its closing quote. -/
theorem QuotedText.read {quote : Char} (isQuote : quote ∈ ['\'', '"']) {behind text : List Char}
    {content : List Nat} (written : QuotedText quote behind text content) {bound : Nat}
    {cursor : YamlCursor} (rest_eq : cursor.rest = text) (enough : text.length < bound) :
    ∃ next, quotedFrom quote bound cursor = .ok (content, next) ∧ next.rest = behind := by
  have quotes_solid : ∀ quote ∈ ['\'', '"'], isSeparator quote = false := by decide
  have solidQuote := quotes_solid quote isQuote
  -- Each piece of the written text is taken by one turn of the loop.
  induction written generalizing bound cursor with
  | close single =>
      obtain _ | bound := bound
      · cases enough
      have space := readQuotedSpace?_solid (rest_eq ▸ beginsSolid_cons solidQuote)
      refine ⟨cursor.step, ?_, by rw [YamlCursor.rest_step, rest_eq]; rfl⟩
      rw [quotedFrom, space, rest_eq]
      by_cases isSingle : quote = '\''
      · simp [bind, Except.bind, pure, Except.pure, isSingle, single isSingle]
      · simp [bind, Except.bind, pure, Except.pure, isSingle]
  | spaces count solid _ ih =>
      obtain _ | bound := bound
      · cases enough
      obtain ⟨next, space, next_rest⟩ := readQuotedSpace?_spaces rest_eq solid
      obtain ⟨last, read, last_rest⟩ := @ih bound next next_rest (by simp at enough; omega)
      refine ⟨last, ?_, last_rest⟩
      rw [quotedFrom, space]
      simp [bind, Except.bind, pure, Except.pure, read]
  | breaks margin kept solid _ ih =>
      obtain _ | bound := bound
      · cases enough
      obtain ⟨next, space, next_rest⟩ := readQuotedSpace?_breaks kept solid rest_eq
      obtain ⟨last, read, last_rest⟩ := @ih bound next next_rest (by simp at enough; omega)
      refine ⟨last, ?_, last_rest⟩
      rw [quotedFrom, space]
      simp [bind, Except.bind, pure, Except.pure, read]
  | doubled single _ ih =>
      obtain _ | bound := bound
      · cases enough
      have space := readQuotedSpace?_solid (rest_eq ▸ beginsSolid_cons solidQuote)
      obtain ⟨last, read, last_rest⟩ := @ih bound (cursor.forward 2)
        (by rw [YamlCursor.rest_forward, rest_eq]; rfl) (by simp at enough; omega)
      refine ⟨last, ?_, last_rest⟩
      rw [quotedFrom, space, rest_eq]
      rw [single] at read
      simp [bind, Except.bind, pure, Except.pure, single, read]
  | escape double readEscape _ ih =>
      obtain _ | bound := bound
      · cases enough
      have space := readQuotedSpace?_solid (rest_eq ▸ beginsSolid_cons (by decide))
      obtain ⟨next, escaped, next_rest⟩ := readEscape cursor.step
        (by rw [YamlCursor.rest_step, rest_eq]; rfl)
      obtain ⟨last, read, last_rest⟩ := @ih bound next next_rest (by simp at enough; omega)
      refine ⟨last, ?_, last_rest⟩
      have apart : '\\' ≠ quote := by
        rintro rfl
        exact absurd isQuote (by decide)
      rw [quotedFrom, space, rest_eq]
      simp [bind, Except.bind, pure, Except.pure, apart, double, escaped, read]
  | character solid apart unescaped _ ih =>
      obtain _ | bound := bound
      · cases enough
      have space := readQuotedSpace?_solid (rest_eq ▸ beginsSolid_cons solid)
      obtain ⟨last, read, last_rest⟩ := @ih bound cursor.step
        (by rw [YamlCursor.rest_step, rest_eq]; rfl) (by simp at enough; omega)
      refine ⟨last, ?_, last_rest⟩
      rw [quotedFrom, space, rest_eq]
      simp [bind, Except.bind, pure, Except.pure, apart, read]
      exact fun isBackslash double => absurd (unescaped isBackslash) double

/-- The scalar whose opening quote is next is read. -/
theorem QuotedText.quoted_eq {quote : Char} (isQuote : quote ∈ ['\'', '"'])
    {behind text : List Char} {content : List Nat}
    (written : QuotedText quote behind text content) {cursor : YamlCursor}
    (rest_eq : cursor.rest = quote :: text) :
    ∃ next, quoted quote cursor = .ok (content, next) ∧ next.rest = behind := by
  have step_rest : cursor.step.rest = text := by
    rw [YamlCursor.rest_step, rest_eq]
    rfl
  exact written.read isQuote step_rest (by rw [rest_eq, List.length_cons]; omega)

end YamlFlowScalar

/-! ### Single quotes -/

namespace YamlScalarText

open YamlCharacter YamlFlowScalar

theorem not_isSpecial {character : Char} (simple : isSpecial character = false) :
    character = ' ' ∨ isLineEnd character = true ∨ IsOrdinary character := by
  by_cases isSpace : character = ' '
  · exact .inl isSpace
  · by_cases lineEnd : isLineEnd character = true
    · exact .inr (.inl lineEnd)
    · refine .inr (.inr ⟨?_, ?_⟩)
      · rw [Bool.not_eq_true] at lineEnd
        rw [isSeparator, Bool.or_eq_false_iff, isSpaceOrTab, Bool.or_eq_false_iff]
        refine ⟨⟨by simpa using isSpace, ?_⟩, ?_⟩
        · rw [beq_eq_false_iff_ne]
          rintro rfl
          exact absurd simple (by decide)
        · rw [isBreak, List.contains_cons, List.contains_cons, Bool.or_eq_false_iff]
          rw [isLineEnd, List.contains_cons, Bool.or_eq_false_iff] at lineEnd
          refine ⟨lineEnd.1, Bool.or_eq_false_iff.mpr ⟨?_, lineEnd.2⟩⟩
          rw [beq_eq_false_iff_ne]
          intro returns
          simp [isSpecial, returns] at simple
      · rintro rfl
        exact absurd simple (by decide)

/-- A character that may stand between single quotes. -/
def IsSimple (character : Char) : Prop :=
  character = ' ' ∨ character ∈ keptBreaks ∨ isSeparator character = false

namespace Piece

def text : Piece → List Char
  | spaces count => List.replicate count ' '
  | breaks characters => characters
  | word characters => characters

def isWord : Piece → Bool
  | word _ => true
  | _ => false

/-- A piece is not empty and holds only characters of its kind. -/
def IsFilled : Piece → Prop
  | spaces count => 0 < count
  | breaks characters => characters ≠ [] ∧ ∀ character ∈ characters, character ∈ keptBreaks
  | word characters => characters ≠ [] ∧ ∀ character ∈ characters, isSeparator character = false

/-- Words alternate with spaces or line breaks. -/
def Alternate : List Piece → Prop
  | [] => True
  | piece :: rest => piece.IsFilled ∧ (∀ next ∈ rest.head?, piece.isWord ≠ next.isWord) ∧
      Alternate rest

end Piece

theorem hasNeighbours_cons (first second : Char → Bool) (character : Char) (text : List Char) :
    hasNeighbours first second (character :: text) =
      (first character && text.head?.any second || hasNeighbours first second text) := by
  cases text with
  | nil => simp [hasNeighbours]
  | cons next text => rfl

theorem keptBreaks_isLineEnd : ∀ character ∈ keptBreaks, isLineEnd character = true := by
  decide

theorem pieceKind_spec {character : Char} (simple : IsSimple character) :
    (character = ' ' ∧ pieceKind character = 0) ∨
      (character ∈ keptBreaks ∧ isLineEnd character = true ∧ pieceKind character = 1) ∨
      (isSeparator character = false ∧ pieceKind character = 2) := by
  have breaks : ∀ character ∈ keptBreaks, pieceKind character = 1 := by decide
  rcases simple with rfl | kept | solid
  · exact .inl ⟨rfl, rfl⟩
  · exact .inr (.inl ⟨kept, keptBreaks_isLineEnd character kept, breaks character kept⟩)
  · refine .inr (.inr ⟨solid, ?_⟩)
    rw [isSeparator, Bool.or_eq_false_iff, isSpaceOrTab, Bool.or_eq_false_iff] at solid
    have noEnd : isLineEnd character = false := by
      have noBreak := solid.2
      simp only [isBreak, isLineEnd, List.contains_cons, Bool.or_eq_false_iff] at noBreak ⊢
      exact ⟨noBreak.1, noBreak.2.2⟩
    rw [pieceKind, solid.1.1, noEnd]
    rfl

/-- A character is put in front of pieces where no space meets a line break. -/
theorem alternate_consPiece {character : Char} {pieces : List Piece} {text : List Char}
    (simple : IsSimple character) (alternate : Piece.Alternate pieces)
    (joined : pieces.flatMap Piece.text = text)
    (noTrailing : (character == ' ' && text.head?.any isLineEnd) = false)
    (noLeading : (isLineEnd character && text.head?.any (· == ' ')) = false) :
    Piece.Alternate (consPiece character pieces) ∧
      (consPiece character pieces).flatMap Piece.text = character :: text := by
  subst joined
  rcases pieceKind_spec simple with ⟨rfl, kind⟩ | ⟨kept, lineEnd, kind⟩ | ⟨solid, kind⟩
  · rcases pieces with _ | ⟨count | characters | characters, rest⟩ <;>
      simp only [consPiece, kind]
    · simp [Piece.Alternate, Piece.IsFilled, Piece.text]
    · exact ⟨⟨Nat.succ_pos count, alternate.2⟩, by simp [Piece.text, List.replicate_succ]⟩
    · obtain ⟨⟨filled, breaks⟩, -⟩ := alternate
      obtain ⟨first, others, rfl⟩ := List.exists_cons_of_ne_nil filled
      simp [Piece.text, keptBreaks_isLineEnd first (breaks first (.head _))] at noTrailing
    · exact ⟨⟨Nat.one_pos, by simp [Piece.isWord], alternate⟩, by simp [Piece.text]⟩
  · rcases pieces with _ | ⟨count | characters | characters, rest⟩ <;>
      simp only [consPiece, kind]
    · simp [kept, Piece.Alternate, Piece.IsFilled, Piece.text]
    · obtain ⟨more, rfl⟩ := Nat.exists_eq_succ_of_ne_zero (Nat.pos_iff_ne_zero.mp alternate.1)
      simp [Piece.text, List.replicate_succ, lineEnd] at noLeading
    · exact ⟨⟨⟨by simp, List.forall_mem_cons.mpr ⟨kept, alternate.1.2⟩⟩, alternate.2⟩,
        by simp [Piece.text]⟩
    · exact ⟨⟨⟨by simp, by simpa using kept⟩, by simp [Piece.isWord], alternate⟩,
        by simp [Piece.text]⟩
  · rcases pieces with _ | ⟨count | characters | characters, rest⟩ <;>
      simp only [consPiece, kind]
    · simp [solid, Piece.Alternate, Piece.IsFilled, Piece.text]
    · exact ⟨⟨⟨by simp, by simpa using solid⟩, by simp [Piece.isWord], alternate⟩,
        by simp [Piece.text]⟩
    · exact ⟨⟨⟨by simp, by simpa using solid⟩, by simp [Piece.isWord], alternate⟩,
        by simp [Piece.text]⟩
    · exact ⟨⟨⟨by simp, List.forall_mem_cons.mpr ⟨solid, alternate.1.2⟩⟩, alternate.2⟩,
        by simp [Piece.text]⟩

theorem alternate_pieces {text : List Char} (simple : ∀ character ∈ text, IsSimple character)
    (noTrailing : hasNeighbours (· == ' ') isLineEnd text = false)
    (noLeading : hasNeighbours isLineEnd (· == ' ') text = false) :
    Piece.Alternate (pieces text) ∧ (pieces text).flatMap Piece.text = text := by
  induction text with
  | nil => exact ⟨trivial, rfl⟩
  | cons character text ih =>
      rw [hasNeighbours_cons, Bool.or_eq_false_iff] at noTrailing noLeading
      obtain ⟨alternate, joined⟩ := ih (fun other member => simple other (.tail _ member))
        noTrailing.2 noLeading.2
      exact alternate_consPiece (simple character (.head _)) alternate joined noTrailing.1
        noLeading.1

/-- The line breaks that are written count as those that they stand for. -/
theorem writtenBreaks_eq {characters : List Char} (filled : characters ≠ [])
    (kept : ∀ character ∈ characters, character ∈ keptBreaks) :
    ∃ first more, writtenBreaks characters = first :: more ∧
      (∀ character ∈ first :: more, character ∈ keptBreaks) ∧
      foldedBreaks first more = characters := by
  obtain ⟨first, others, rfl⟩ := List.exists_cons_of_ne_nil filled
  by_cases isFeed : first = '\n'
  · subst isFeed
    refine ⟨'\n', '\n' :: others, rfl, ?_, rfl⟩
    exact List.forall_mem_cons.mpr ⟨kept '\n' (.head _), kept⟩
  · refine ⟨first, others, ?_, kept, if_pos isFeed⟩
    rw [writtenBreaks]
    simpa using isFeed

theorem quotedText_doubledQuotes {behind word text : List Char} {content : List Nat}
    (solid : ∀ character ∈ word, isSeparator character = false)
    (goesOn : QuotedText '\'' behind text content) :
    QuotedText '\'' behind (doubledQuotes word ++ text) (codePoints word ++ content) := by
  induction word with
  | nil => exact goesOn
  | cons character word ih =>
      have others := ih fun other member => solid other (.tail _ member)
      have quote_toNat : character.toNat = 0x27 ↔ character = '\'' :=
        ⟨fun same => Char.toNat_inj.mp same, fun same => same ▸ rfl⟩
      rw [doubledQuotes, List.flatMap_cons, List.append_assoc, codePoints, List.map_cons]
      split
      next isQuote =>
        obtain rfl := quote_toNat.mp isQuote
        exact .doubled rfl others
      next apart =>
        exact .character (solid character (.head _)) (fun same => apart (quote_toNat.mpr same))
          (fun _ => rfl) others

/-- A text between single quotes begins solid where its first piece is a word. -/
theorem singleQuotedFrom_beginsSolid {pieces : List Piece} (alternate : Piece.Alternate pieces)
    (begins : ∀ next ∈ pieces.head?, next.isWord = true) (indent : Nat) (first : Bool)
    (column : Nat) (behind : List Char) :
    BeginsSolid (singleQuotedFrom indent first column pieces ++ '\'' :: behind) := by
  rcases pieces with _ | ⟨count | characters | characters, rest⟩
  · exact beginsSolid_cons (by decide)
  · exact absurd (begins _ rfl) (by simp [Piece.isWord])
  · exact absurd (begins _ rfl) (by simp [Piece.isWord])
  · obtain ⟨⟨filled, solid⟩, -⟩ := alternate
    obtain ⟨character, others, rfl⟩ := List.exists_cons_of_ne_nil filled
    have noSeparator := solid character (.head _)
    rw [singleQuotedFrom, doubledQuotes, List.flatMap_cons]
    split <;> exact beginsSolid_cons noSeparator

theorem quotedText_singleQuotedFrom {indent : Nat} (indented : 0 < indent) {pieces : List Piece}
    (alternate : Piece.Alternate pieces) {behind : List Char}
    (ends : behind.head? ≠ some '\'') (first : Bool) (column : Nat) :
    QuotedText '\'' behind (singleQuotedFrom indent first column pieces ++ '\'' :: behind)
      (codePoints (pieces.flatMap Piece.text)) := by
  obtain ⟨margin, rfl⟩ := Nat.exists_eq_succ_of_ne_zero (Nat.pos_iff_ne_zero.mp indented)
  induction pieces generalizing first column with
  | nil => exact .close fun _ => ends
  | cons piece rest ih =>
      obtain ⟨filled, apart, others⟩ := alternate
      have goesOn := ih others
      rw [List.flatMap_cons, codePoints, List.map_append]
      cases piece with
      | spaces count =>
          have solid := singleQuotedFrom_beginsSolid others (fun next isNext => by
            simpa [Piece.isWord] using apart next isNext) (margin + 1)
          rw [singleQuotedFrom]
          split
          next folded =>
            obtain ⟨rfl, -⟩ := folded
            have kept : ∀ character ∈ ['\n'], character ∈ keptBreaks := by decide
            simpa [brokenLine, Piece.text, codePoints, foldedBreaks] using
              QuotedText.breaks margin kept (solid false (margin + 1) behind)
                (goesOn false (margin + 1))
          next =>
            obtain ⟨more, rfl⟩ := Nat.exists_eq_succ_of_ne_zero (Nat.pos_iff_ne_zero.mp filled)
            simpa [Piece.text, codePoints] using
              QuotedText.spaces more (solid false _ behind) (goesOn false _)
      | breaks characters =>
          have solid := singleQuotedFrom_beginsSolid others (fun next isNext => by
            simpa [Piece.isWord] using apart next isNext) (margin + 1)
          obtain ⟨firstBreak, more, written, kept, counts⟩ := writtenBreaks_eq filled.1 filled.2
          have broken := QuotedText.breaks margin kept (solid false (margin + 1) behind)
            (goesOn false (margin + 1))
          rw [singleQuotedFrom, written]
          rw [counts] at broken
          simpa [Piece.text, codePoints] using broken
      | word characters =>
          rw [singleQuotedFrom, List.append_assoc]
          exact quotedText_doubledQuotes filled.2 (goesOn false _)

end YamlScalarText

end RubySyntax
