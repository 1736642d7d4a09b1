import RubySyntax.Proofs.YamlScalarReading
import RubySyntax.YamlToken
import RubySyntax.YamlWriter

/-!
# Reading the tokens of a written YAML document

The tokens are read on demand, and a key is only known at its colon.  What is read
of a document is described by the list of the tokens that the scan still yields:
an entry yields its key when its line is reached, and the blocks that end there
are closed in front of it.
-/

namespace RubySyntax

namespace YamlScan

open YamlCharacter

/-! ### The tokens of a scan -/

/-- A scan yields some tokens up to the end of its text. -/
inductive Yields : YamlScan → List YamlToken → Prop where
  | done {scan ahead : YamlScan} (looked : scan.lookAhead = .ok ahead)
      (known : ahead.isNextKnown = true) (nothing : ahead.pending = []) : Yields scan []
  | token {scan ahead : YamlScan} {token : YamlToken} {pending tokens : List YamlToken}
      (looked : scan.lookAhead = .ok ahead) (known : ahead.isNextKnown = true)
      (pending_eq : ahead.pending = token :: pending) (behind : Yields ahead.take tokens) :
      Yields scan (token :: tokens)

/-- A scan whose next token is known has been looked ahead. -/
theorem lookAhead_known {scan : YamlScan} (known : scan.isNextKnown = true) :
    scan.lookAhead = .ok scan :=
  if_pos known

theorem Yields.of_lookAhead {scan ahead : YamlScan} {tokens : List YamlToken}
    (looked : scan.lookAhead = .ok ahead) (known : ahead.isNextKnown = true)
    (yields : Yields ahead tokens) : Yields scan tokens := by
  cases yields with
  | done lookedOn knownOn nothing =>
      rw [lookAhead_known known] at lookedOn
      cases lookedOn
      exact .done looked known nothing
  | token lookedOn knownOn pending_eq behind =>
      rw [lookAhead_known known] at lookedOn
      cases lookedOn
      exact .token looked known pending_eq behind

/-- The scan behind a number of tokens that have been read. -/
def behindPending (scan : YamlScan) : YamlScan :=
  { scan with pending := [], taken := scan.taken + scan.pending.length }

/-- Tokens that have been read are taken one after the other where none of them may be a key. -/
theorem Yields.of_pending {scan : YamlScan} {tokens : List YamlToken}
    (settled : scan.candidates = []) (yields : Yields scan.behindPending tokens) :
    Yields scan (scan.pending ++ tokens) := by
  cases pending_eq : scan.pending with
  | nil =>
      have same : scan.behindPending = scan := by
        rw [behindPending, pending_eq]
        cases scan
        simp_all
      exact same ▸ yields
  | cons token pending =>
      have known : scan.isNextKnown = true := by simp [isNextKnown, settled, pending_eq]
      have behind_eq : scan.take.behindPending = scan.behindPending := by
        simp only [take, behindPending, pending_eq, List.drop_one, List.tail_cons,
          List.length_cons, Nat.add_assoc, Nat.add_comm 1]
      have taken_pending : scan.take.pending = pending := by simp [take, pending_eq]
      have goesOn : Yields scan.take (scan.take.pending ++ tokens) :=
        Yields.of_pending settled (behind_eq ▸ yields)
      rw [taken_pending] at goesOn
      exact .token (lookAhead_known known) known pending_eq goesOn
termination_by scan.pending.length
decreasing_by simp [take, pending_eq]

/-! ### Reading on -/

/-- Reading on from one scan ends at another one, whose next token is known. -/
def Settles (scan ahead : YamlScan) : Prop :=
  ahead.isNextKnown = true ∧ ∀ bound, lookAheadWithin (bound + 1) scan = .ok ahead

theorem settles_known {scan : YamlScan} (fresh : scan.dropStale = .ok scan)
    (known : scan.isNextKnown = true) : Settles scan scan := by
  refine ⟨known, fun bound => ?_⟩
  rw [lookAheadWithin, fresh]
  exact if_pos known

/-- One more token is read where the next one is not known. -/
theorem settles_fetch {scan ahead : YamlScan} (fresh : scan.dropStale = .ok scan)
    (unknown : scan.isNextKnown = false) (fetched : scan.fetch = .ok ahead)
    (freshAhead : ahead.dropStale = .ok ahead) (known : ahead.isNextKnown = true) :
    Settles scan ahead := by
  refine ⟨known, fun bound => ?_⟩
  rw [lookAheadWithin, fresh]
  simp only [bind, Except.bind, unknown, Bool.false_eq_true, if_false, fetched]
  cases bound with
  | zero => rfl
  | succ bound => exact (settles_known freshAhead known).2 bound

theorem dropStale_settled {scan : YamlScan} (settled : scan.candidates = []) :
    scan.dropStale = .ok scan := by
  rw [dropStale, settled]
  cases scan
  simp_all

/-- A scan whose next token is not known yields what is yielded behind the token that it reads. -/
theorem Yields.of_fetch {scan next ahead : YamlScan} {tokens : List YamlToken}
    (fresh : scan.dropStale = .ok scan) (unknown : scan.isNextKnown = false)
    (fetched : scan.fetch = .ok next) (settles : Settles next ahead)
    (yields : Yields ahead tokens) : Yields scan tokens := by
  refine .of_lookAhead ?_ settles.1 yields
  rw [lookAhead, unknown, lookAheadWithin, fresh]
  simp only [bind, Except.bind, unknown, Bool.false_eq_true, if_false, fetched]
  exact settles.2 _

/-! ### Between tokens -/

/-- A scan outside brackets that has read nothing ahead. -/
def between (cursor : YamlCursor) (indent : Int) (outer : List Int) (allowsKey : Bool)
    (taken : Nat) : YamlScan where
  cursor := cursor
  depth := 0
  indent := indent
  outerIndents := outer
  allowsKey := allowsKey
  candidates := []
  pending := []
  taken := taken
  isDone := false

def holding (tokens : List YamlToken) (scan : YamlScan) : YamlScan :=
  { scan with pending := tokens }

/-- A text that begins with neither a blank nor a line break, a comment or a byte order mark. -/
structure BeginsToken (text : List Char) : Prop where
  solid : BeginsSolid text
  noComment : text.head? ≠ some '#'
  noMark : text.head? ≠ some byteOrderMark

theorem beginsToken_nil : BeginsToken [] :=
  ⟨by simp [BeginsSolid], by simp, by simp⟩

theorem beginsToken_cons {character : Char} (ordinary : IsOrdinary character)
    (noComment : character ≠ '#') (text : List Char) : BeginsToken (character :: text) :=
  ⟨beginsSolid_cons ordinary.1, by simpa using noComment, by simpa using ordinary.2⟩

variable {indent : Int} {outer : List Int} {allowsKey : Bool} {taken : Nat}

theorem yields_holding {cursor : YamlCursor} {pending tokens : List YamlToken}
    (yields : ∀ taken, Yields (between cursor indent outer allowsKey taken) tokens) :
    Yields ((between cursor indent outer allowsKey taken).holding pending) (pending ++ tokens) :=
  .of_pending rfl (yields _)

theorem isNextKnown_holding {cursor : YamlCursor} {pending : List YamlToken}
    (filled : pending ≠ []) :
    ((between cursor indent outer allowsKey taken).holding pending).isNextKnown = true := by
  simp [isNextKnown, holding, between, filled]

/-- What has been read is taken before the scan goes on. -/
theorem Yields.of_holding {scan : YamlScan} {cursor : YamlCursor} {pending tokens : List YamlToken}
    (fresh : scan.dropStale = .ok scan) (unknown : scan.isNextKnown = false)
    (filled : pending ≠ [])
    (fetched : scan.fetch = .ok ((between cursor indent outer allowsKey taken).holding pending))
    (yields : ∀ taken, Yields (between cursor indent outer allowsKey taken) tokens) :
    Yields scan (pending ++ tokens) :=
  .of_fetch fresh unknown fetched
    (settles_known (dropStale_settled rfl) (isNextKnown_holding filled)) (yields_holding yields)

theorem skipLines_spaces (bound : Nat) {scan : YamlScan} {index line column count : Nat}
    {text : List Char}
    (cursor_eq : scan.cursor = ⟨index, line, column, List.replicate count ' ' ++ text⟩)
    (begins : BeginsToken text) :
    skipLines (bound + 1) scan = scan.moveTo ⟨index + count, line, column + count, text⟩ := by
  have noSpace : text.head? ≠ some ' ' := fun isSpace =>
    absurd (begins.solid ' ' isSpace) (by decide)
  have spaces := YamlCursor.takeWhile_spaces index line column count noSpace
  have noComment : YamlCursor.isAt ⟨index + count, line, column + count, text⟩ '#' = false := by
    rw [YamlCursor.isAt, beq_eq_false_iff_ne]
    exact begins.noComment
  have noBreak : YamlCursor.takeBreak? ⟨index + count, line, column + count, text⟩ = none :=
    YamlCursor.takeBreak?_eq_none begins.solid
  rw [skipLines]
  simp only [cursor_eq, YamlCursor.skipSpaces, YamlCursor.skipWhile, spaces,
    YamlCursor.skipComment, noComment, Bool.false_eq_true, if_false, noBreak]

/-- A line break and the margin behind it are skipped, and a key may follow. -/
theorem skipLines_lineBreak (bound : Nat) {scan : YamlScan} {index line column margin : Nat}
    {text : List Char}
    (cursor_eq : scan.cursor = ⟨index, line, column, '\n' :: (List.replicate margin ' ' ++ text)⟩)
    (outside : scan.depth = 0) (begins : BeginsToken text) :
    skipLines (bound + 2) scan =
      (scan.moveTo ⟨index + 1 + margin, line + 1, margin, text⟩).allowKey true := by
  have broken : YamlCursor.takeBreak?
      ⟨index, line, column, '\n' :: (List.replicate margin ' ' ++ text)⟩ =
        some ('\n', ⟨index + 1, line + 1, 0, List.replicate margin ' ' ++ text⟩) :=
    YamlCursor.takeBreak?_eq_some rfl (by decide)
  have noSpaces : (YamlCursor.mk index line column
      ('\n' :: (List.replicate margin ' ' ++ text))).skipSpaces.skipComment =
        ⟨index, line, column, '\n' :: (List.replicate margin ' ' ++ text)⟩ := rfl
  have allowed : (scan.allowsKey || !scan.isInsideBrackets) = true := by
    simp [isInsideBrackets, outside]
  let next :=
    (scan.moveTo ⟨index + 1, line + 1, 0, List.replicate margin ' ' ++ text⟩).allowKey true
  have skipped : skipLines (bound + 1) next = _ := skipLines_spaces bound rfl begins
  rw [Nat.zero_add] at skipped
  rw [skipLines, cursor_eq, noSpaces, broken]
  dsimp only
  rw [allowed, skipped]
  rfl

theorem skipToToken_spaces {scan : YamlScan} {index line column count : Nat} {text : List Char}
    (cursor_eq : scan.cursor = ⟨index, line, column, List.replicate count ' ' ++ text⟩)
    (begins : BeginsToken text) :
    scan.skipToToken = scan.moveTo ⟨index + count, line, column + count, text⟩ := by
  have noMark : scan.cursor.isAt byteOrderMark = false := by
    rw [cursor_eq, YamlCursor.isAt, beq_eq_false_iff_ne]
    cases count with
    | zero => exact begins.noMark
    | succ count => exact fun same => absurd (Option.some.inj same) (by decide)
  rw [skipToToken, noMark, Bool.and_false]
  exact skipLines_spaces _ cursor_eq begins

theorem skipToToken_lineBreak {scan : YamlScan} {index line column margin : Nat} {text : List Char}
    (cursor_eq : scan.cursor = ⟨index, line, column, '\n' :: (List.replicate margin ' ' ++ text)⟩)
    (outside : scan.depth = 0) (begins : BeginsToken text) :
    scan.skipToToken =
      (scan.moveTo ⟨index + 1 + margin, line + 1, margin, text⟩).allowKey true := by
  have noMark : scan.cursor.isAt byteOrderMark = false := by
    rw [cursor_eq, YamlCursor.isAt, beq_eq_false_iff_ne]
    exact fun same => absurd (Option.some.inj same) (by decide)
  rw [skipToToken, noMark, Bool.and_false, if_neg Bool.false_ne_true, cursor_eq]
  exact skipLines_lineBreak _ cursor_eq outside begins

/-- A scan on the way to the start of a token. -/
def Approaches (scan : YamlScan) (stack : List Int) (column : Nat) (text : List Char) : Prop :=
  ∃ cursor indent outer allowsKey taken index line,
    scan = between cursor indent outer allowsKey taken ∧ indent :: outer = stack ∧
      scan.skipToToken = between ⟨index, line, column, text⟩ indent outer true taken

theorem approaches_spaces (index line column count : Nat) {text : List Char}
    (begins : BeginsToken text) :
    Approaches (between ⟨index, line, column, List.replicate count ' ' ++ text⟩ indent outer true
      taken) (indent :: outer) (column + count) text :=
  ⟨_, _, _, _, _, _, _, rfl, rfl, skipToToken_spaces rfl begins⟩

theorem approaches_lineBreak (index line column margin : Nat) {text : List Char}
    (begins : BeginsToken text) :
    Approaches (between ⟨index, line, column, '\n' :: (List.replicate margin ' ' ++ text)⟩ indent
      outer allowsKey taken) (indent :: outer) margin text :=
  ⟨_, _, _, _, _, _, _, rfl, rfl, skipToToken_lineBreak rfl rfl begins⟩

/-! ### The start of a line -/

theorem closeBlocksIn_eq {column : Int} {above outer : List Int} {indent : Int}
    (deeper : ∀ other ∈ above, column < other) (within : indent ≤ column)
    {scan : YamlScan} (stack_eq : scan.indent :: scan.outerIndents = above ++ indent :: outer) :
    closeBlocksIn column scan.outerIndents scan =
      { scan with
        pending := scan.pending ++ List.replicate above.length .blockEnd
        indent := indent
        outerIndents := outer } := by
  induction above generalizing scan with
  | nil =>
      obtain ⟨indent_eq, outer_eq⟩ := List.cons.inj stack_eq
      have unchanged : closeBlocksIn column scan.outerIndents scan = scan := by
        unfold closeBlocksIn
        exact if_pos (indent_eq ▸ within)
      rw [unchanged]
      cases scan
      simp_all
  | cons other above ih =>
      obtain ⟨indent_eq, outer_eq⟩ := List.cons.inj stack_eq
      have further : ¬ scan.indent ≤ column := by
        rw [indent_eq]
        exact Int.not_le.mpr (deeper other (.head _))
      obtain ⟨next, others, split_eq⟩ :=
        List.exists_cons_of_ne_nil (List.append_ne_nil_of_right_ne_nil above
          (List.cons_ne_nil indent outer))
      let outside : YamlScan :=
        { scan.push .blockEnd with indent := next, outerIndents := others }
      have closed := ih (fun deep member => deeper deep (.tail _ member))
        (show outside.indent :: outside.outerIndents = above ++ indent :: outer from
          split_eq.symm)
      have popped : closeBlocksIn column scan.outerIndents scan =
          closeBlocksIn column others outside := by
        rw [show scan.outerIndents = next :: others from outer_eq.trans split_eq]
        exact (closeBlocksIn.eq_def _ _ _).trans (if_neg further)
      rw [popped]
      refine closed.trans ?_
      simp [outside, push, List.replicate_succ]

/-- A scan in front of a token, in front of which some blocks have just been closed. -/
def closing (cursor : YamlCursor) (indent : Int) (outer : List Int) (taken count : Nat) :
    YamlScan :=
  (between cursor indent outer true taken).holding (List.replicate count .blockEnd)

/-- The start of a token is reached, and the blocks that end in front of it are closed. -/
theorem fetch_approaches {scan : YamlScan} {above outer : List Int} {indent : Int} {column : Nat}
    {text : List Char} (approaches : Approaches scan (above ++ indent :: outer) column text)
    (deeper : ∀ other ∈ above, (column : Int) < other) (within : indent ≤ column) :
    scan.candidates = [] ∧ scan.isNextKnown = false ∧ ∃ index line taken,
      scan.fetch =
        let next := closing ⟨index, line, column, text⟩ indent outer taken above.length
        match text.head? with
        | some character => next.fetchFrom character
        | none => next.finish := by
  obtain ⟨cursor, inner, others, allowsKey, taken, index, line, rfl, stack_eq, skipped⟩ :=
    approaches
  refine ⟨rfl, rfl, index, line, taken, ?_⟩
  have closed : closeBlocks column (between ⟨index, line, column, text⟩ inner others true taken) =
      closing ⟨index, line, column, text⟩ indent outer taken above.length :=
    closeBlocksIn_eq deeper within stack_eq
  rw [fetch, skipped, dropStale_settled rfl]
  simp only [bind, Except.bind]
  rw [show (between ⟨index, line, column, text⟩ inner others true taken).cursor.column = column
    from rfl, closed]
  rfl

/-! ### Scalars without quotes -/

theorem beginsInside_cons {character : Char} (noHyphen : character ≠ '-')
    (noPoint : character ≠ '.') (text : List Char) : BeginsInside (character :: text) := by
  constructor
  · simp [List.isPrefixOf, noHyphen.symm]
  · simp [List.isPrefixOf, noPoint.symm]

/-- No marker stands where the text begins with none. -/
theorem noMarker_of_beginsInside {cursor : YamlCursor}
    (inside : cursor.column = 0 → BeginsInside cursor.rest) :
    ∀ marker ∈ ["---", "..."], (cursor.column == 0 && cursor.atDocumentMarker marker) = false := by
  intro marker member
  rw [Bool.and_eq_false_iff, beq_eq_false_iff_ne]
  by_cases atStart : cursor.column = 0
  · obtain ⟨noHyphens, noPoints⟩ := inside atStart
    right
    rw [YamlCursor.atDocumentMarker]
    simp only [List.mem_cons, List.not_mem_nil, or_false] at member
    rcases member with rfl | rfl
    · rw [noHyphens, Bool.false_and]
    · rw [noPoints, Bool.false_and]
  · exact .inl atStart

/-- What is no leading indicator starts a plain scalar, a sign only in front of more of it. -/
theorem startsPlain_eq {scan : YamlScan} {character : Char}
    (noBrackets : scan.isInsideBrackets = false) (noBlank : isSeparator character = false)
    (noLeading : character ∉ YamlScalarText.leadingIndicators)
    (alone : character ∈ ['-', '?', ':'] → atSeparator scan.cursor.behind = false) :
    scan.startsPlain character = true := by
  by_cases member : character ∈ ['-', '?', ':']
  · have noSeparator := alone member
    rw [startsPlain, noSeparator, noBrackets]
    simp only [List.mem_cons, List.not_mem_nil, or_false] at member
    rcases member with rfl | rfl | rfl <;> decide
  · have noIndicator : indicators.contains character = false := by
      rw [← Bool.not_eq_true, List.contains_iff_mem]
      intro listed
      have kinds : ∀ indicator ∈ indicators,
          indicator ∈ ['-', '?', ':'] ∨ indicator ∈ YamlScalarText.leadingIndicators := by
        decide
      exact (kinds character listed).elim member noLeading
    rw [startsPlain, noBlank, noIndicator]
    rfl

theorem fetchFrom_plain {scan : YamlScan} {character : Char} {behind : List Char}
    (rest_eq : scan.cursor.rest = character :: behind) (outside : scan.depth = 0)
    (inside : scan.cursor.column = 0 → BeginsInside (character :: behind))
    (noBlank : isSeparator character = false)
    (noLeading : character ∉ YamlScalarText.leadingIndicators)
    (alone : character ∈ ['-', '?', ':'] → atSeparator behind = false) :
    scan.fetchFrom character = scan.fetchPlain := by
  have behind_eq : scan.cursor.behind = behind := by rw [YamlCursor.behind, rest_eq]; rfl
  have noBrackets : scan.isInsideBrackets = false := by simp [isInsideBrackets, outside]
  have noMarker := noMarker_of_beginsInside (rest_eq ▸ inside)
  have apart : ∀ leading ∈ YamlScalarText.leadingIndicators, (character == leading) = false := by
    intro leading member
    rw [beq_eq_false_iff_ne]
    rintro rfl
    exact noLeading member
  have apartCode : ∀ leading ∈ YamlScalarText.leadingIndicators,
      (character.toNat == leading.toNat) = false := by
    intro leading member
    rw [beq_eq_false_iff_ne]
    intro same
    exact noLeading (Char.toNat_inj.mp same ▸ member)
  have noQuote : (character.toNat == 0x27) = false ∧ (character.toNat == 0x22) = false ∧
      (character.toNat == 0x7B) = false ∧ (character.toNat == 0x7D) = false :=
    ⟨apartCode '\'' (by decide), apartCode '"' (by decide), apartCode '\x7b' (by decide),
      apartCode '\x7d' (by decide)⟩
  have notAlone : ∀ sign ∈ ['-', '?', ':'],
      (character == sign && atSeparator scan.cursor.behind) = false := by
    intro sign member
    rw [Bool.and_eq_false_iff, beq_eq_false_iff_ne, behind_eq]
    by_cases same : character = sign
    · exact .inr (alone (same ▸ member))
    · exact .inl same
  have starts := startsPlain_eq noBrackets noBlank noLeading (behind_eq ▸ alone)
  rw [fetchFrom]
  simp only [noMarker _ (.head _), noMarker _ (.tail _ (.head _)), noBrackets, noQuote,
    apart '%' (by decide), apart '[' (by decide), apart ']' (by decide), apart ',' (by decide),
    apart '*' (by decide), apart '&' (by decide), apart '!' (by decide), apart '|' (by decide),
    apart '>' (by decide), notAlone _ (.head _), notAlone _ (.tail _ (.head _)),
    notAlone _ (.tail _ (.tail _ (.head _))), starts, Bool.false_and, Bool.false_or,
    Bool.false_eq_true, if_false, if_true]

/-! ### Lines with a key -/

/-- A key of an entry: a short text of lower-case letters that needs no quotes. -/
structure IsKey (key : List Char) : Prop where
  filled : key ≠ []
  letters : ∀ letter ∈ key, letter.isLower = true
  short : key.length ≤ 1024
  isText : PlainScalar.kindOf key = .text

theorem IsKey.isAlphanum {key : List Char} (isKey : IsKey key) {letter : Char}
    (member : letter ∈ key) : letter.isAlphanum = true := by
  show (letter.isUpper || letter.isLower || letter.isDigit) = true
  rw [isKey.letters letter member, Bool.or_true, Bool.true_or]

theorem IsKey.letter_spec {key : List Char} (isKey : IsKey key) {letter : Char}
    (member : letter ∈ key) : IsOrdinary letter ∧ letter ∉ YamlScalarText.leadingIndicators ∧
      letter ∉ ['-', '?', ':'] ∧ letter ≠ '.' :=
  YamlScalarText.alphanumeric_spec (isKey.isAlphanum member)

theorem IsKey.begins {key : List Char} (isKey : IsKey key) (text : List Char) :
    BeginsToken (key ++ text) := by
  obtain ⟨letter, others, rfl⟩ := List.exists_cons_of_ne_nil isKey.filled
  obtain ⟨ordinary, noLeading, -⟩ := isKey.letter_spec (.head _)
  refine beginsToken_cons ordinary ?_ _
  rintro rfl
  exact noLeading (by decide)

theorem IsKey.inside {key : List Char} (isKey : IsKey key) (text : List Char) :
    BeginsInside (key ++ text) := by
  obtain ⟨letter, others, rfl⟩ := List.exists_cons_of_ne_nil isKey.filled
  obtain ⟨-, -, noSign, noPoint⟩ := isKey.letter_spec (.head _)
  refine beginsInside_cons ?_ noPoint _
  rintro rfl
  exact noSign (by decide)

/-- A scan behind a key, of which only the colon behind it will tell that it is one. -/
def behindKey (index line column : Nat) (key rest : List Char) (indent : Int) (outer : List Int)
    (taken count : Nat) : YamlScan where
  cursor := ⟨index + key.length, line, column + key.length, ':' :: rest⟩
  depth := 0
  indent := indent
  outerIndents := outer
  allowsKey := false
  candidates := [(0, ⟨taken + count, indent == column, index, line, column⟩)]
  pending := List.replicate count .blockEnd ++ [.scalar (YamlFlowScalar.codePoints key) true]
  taken := taken
  isDone := false

section BehindKey

variable {index line column : Nat} {key rest : List Char} {count : Nat}

theorem dropStale_behindKey (short : key.length ≤ 1024) :
    (behindKey index line column key rest indent outer taken count).dropStale =
      .ok (behindKey index line column key rest indent outer taken count) := by
  have near : ¬ index + 1024 < index + key.length := by omega
  simp [dropStale, isStale, behindKey, near]

theorem isNextKnown_behindKey :
    (behindKey index line column key rest indent outer taken count).isNextKnown =
      decide (0 < count) := by
  cases count <;> simp [isNextKnown, behindKey, List.replicate_succ]

theorem take_behindKey :
    (behindKey index line column key rest indent outer taken (count + 1)).take =
      behindKey index line column key rest indent outer (taken + 1) count := by
  simp only [take, behindKey, List.replicate_succ, List.cons_append, List.drop_one, List.tail_cons]
  rw [Nat.add_assoc, Nat.add_comm 1]

/-- The tokens in front of a key are taken before its colon is looked for. -/
theorem yields_behindKey {tokens : List YamlToken}
    (reads : ∀ taken, Yields (behindKey index line column key rest indent outer taken 0) tokens) :
    Yields (behindKey index line column key rest indent outer taken count)
      (List.replicate count .blockEnd ++ tokens) := by
  induction count generalizing taken with
  | zero => exact reads taken
  | succ count ih =>
      have known : (behindKey index line column key rest indent outer taken
        (count + 1)).isNextKnown = true := isNextKnown_behindKey
      refine .token (lookAhead_known known) known rfl ?_
      rw [take_behindKey]
      exact ih

/-- The tokens of a key, in front of which a block may start. -/
def keyTokens (opens : Bool) (key : List Char) : List YamlToken :=
  (if opens then [.blockMappingStart, .key] else [.key]) ++
    [.scalar (YamlFlowScalar.codePoints key) true, .value]

theorem fetchFrom_colon (scan : YamlScan) {behind : List Char}
    (rest_eq : scan.cursor.rest = ':' :: behind) (ends : atSeparator behind = true) :
    scan.fetchFrom ':' = scan.fetchColon := by
  have behind_eq : scan.cursor.behind = behind := by rw [YamlCursor.behind, rest_eq]; rfl
  obtain ⟨noHyphens, noPoints⟩ := Bool.or_eq_false_iff.mp
    (YamlCursor.atDocumentBoundary_eq_false (by simp [rest_eq]) :
      scan.cursor.atDocumentBoundary = false)
  rw [fetchFrom]
  simp [noHyphens, noPoints, behind_eq, ends]

theorem closeBlocks_within {scan : YamlScan} {column : Nat} (within : scan.indent ≤ column) :
    scan.closeBlocks column = scan := by
  have unchanged : closeBlocksIn column scan.outerIndents scan = scan :=
    (closeBlocksIn.eq_def _ _ _).trans (if_pos within)
  rw [closeBlocks, unchanged, ite_self]

theorem fetch_behindKey (short : key.length ≤ 1024) (ends : atSeparator rest = true)
    (inside : indent ≤ column) :
    (behindKey index line column key rest indent outer taken 0).fetch =
      .ok ((between ⟨index + key.length + 1, line, column + key.length + 1, rest⟩ column
        (if indent < column then indent :: outer else outer) false taken).holding
          (keyTokens (decide (indent < column)) key)) := by
  have skipped : (behindKey index line column key rest indent outer taken 0).skipToToken =
      behindKey index line column key rest indent outer taken 0 :=
    @skipToToken_spaces _ _ _ _ 0 _ rfl
      (beginsToken_cons ⟨by decide, by decide⟩ (by decide) rest)
  have unclosed : (behindKey index line column key rest indent outer taken 0).closeBlocks
      ((behindKey index line column key rest indent outer taken 0).cursor.column) =
        behindKey index line column key rest indent outer taken 0 :=
    closeBlocks_within (by simp only [behindKey]; omega)
  have colon := fetchFrom_colon (behindKey index line column key rest indent outer taken 0) rfl ends
  have within : isBreak ':' = false ∧ ':' ≠ byteOrderMark := by decide
  have stepped := YamlCursor.step_column (index + key.length) line (column + key.length) within rest
  rw [fetch, skipped, dropStale_behindKey short]
  simp only [bind, Except.bind, unclosed]
  refine colon.trans ?_
  by_cases opens : indent < column
  · simp [fetchColon, behindKey, between, isInsideBrackets, insertAt, push, forward, holding, opens,
      keyTokens, YamlCursor.forward, stepped, pure, Except.pure]
  · have same : indent = column := by omega
    simp [fetchColon, behindKey, between, isInsideBrackets, insertAt, push, forward, holding,
      keyTokens, YamlCursor.forward, stepped, same, pure, Except.pure]

/-- A key is read up to its colon. -/
theorem fetchPlain_closing (isKey : IsKey key) (ends : atSeparator rest = true) :
    (closing ⟨index, line, column, key ++ ':' :: rest⟩ indent outer taken count).fetchPlain =
      .ok (behindKey index line column key rest indent outer taken count) := by
  have ordinary : ∀ character ∈ key, IsOrdinary character ∧ character ≠ ':' ∧ character ≠ '#' :=
    by
      intro character member
      obtain ⟨isOrdinary, noLeading, noSign, -⟩ := isKey.letter_spec member
      refine ⟨isOrdinary, ?_, ?_⟩
      · rintro rfl
        exact noSign (by decide)
      · rintro rfl
        exact noLeading (by decide)
  have colonEnds : YamlFlowScalar.isColonEnd false rest = true := by
    simpa [YamlFlowScalar.isColonEnd, atSeparator] using ends
  have read := YamlScalarText.plain_key isKey.filled ordinary colonEnds
    (indent + 1).toNat index line column
  simp [fetchPlain, addCandidate, dropCandidate, closing, holding, between, behindKey,
    isInsideBrackets, read, push, moveTo, allowKey, bind, Except.bind, pure, Except.pure,
    YamlFlowScalar.codePoints]

/-- A line with a key yields the ends of the blocks above it, the start of a block of its own
if it is indented further, and its key. -/
theorem yields_key {scan : YamlScan} {above : List Int} {tokens : List YamlToken}
    (approaches : Approaches scan (above ++ indent :: outer) column (key ++ ':' :: rest))
    (deeper : ∀ other ∈ above, (column : Int) < other) (within : indent ≤ column)
    (isKey : IsKey key) (ends : atSeparator rest = true)
    (reads : ∀ index line taken,
      Yields (between ⟨index, line, column + key.length + 1, rest⟩ column
        (if indent < column then indent :: outer else outer) false taken) tokens) :
    Yields scan (List.replicate above.length .blockEnd ++
      (keyTokens (decide (indent < column)) key ++ tokens)) := by
  obtain ⟨settled, unknown, index, line, taken, fetched⟩ :=
    fetch_approaches approaches deeper within
  obtain ⟨letter, others, key_eq⟩ := List.exists_cons_of_ne_nil isKey.filled
  obtain ⟨isOrdinary, noLeading, noSign, -⟩ : _ :=
    isKey.letter_spec (key_eq ▸ List.mem_cons_self : letter ∈ key)
  have inside := isKey.inside (':' :: rest)
  have fetchedKey : scan.fetch =
      .ok (behindKey index line column key rest indent outer taken above.length) := by
    rw [fetched, ← fetchPlain_closing isKey ends]
    rw [key_eq] at inside ⊢
    exact fetchFrom_plain rfl rfl (fun _ => inside) isOrdinary.1 noLeading
      fun member => absurd member noSign
  have freshKey (taken count : Nat) :
      (behindKey index line column key rest indent outer taken count).dropStale = .ok _ :=
    dropStale_behindKey isKey.short
  have behindColon (taken : Nat) :
      (behindKey index line column key rest indent outer taken 0).fetch = .ok _ :=
    fetch_behindKey isKey.short ends within
  have filled : keyTokens (decide (indent < column)) key ≠ [] := by simp [keyTokens]
  have fromColon (taken : Nat) := Yields.of_holding (freshKey taken 0) isNextKnown_behindKey filled
    (behindColon taken) (reads _ _)
  have fresh := dropStale_settled settled
  cases count_eq : above.length with
  | zero =>
      rw [count_eq] at fetchedKey
      have settles := settles_fetch (freshKey taken 0) isNextKnown_behindKey (behindColon taken)
        (dropStale_settled rfl) (isNextKnown_holding filled)
      exact .of_fetch fresh unknown fetchedKey settles (yields_holding (reads _ _))
  | succ count =>
      rw [count_eq] at fetchedKey
      exact .of_fetch fresh unknown fetchedKey
        (settles_known (freshKey taken _) isNextKnown_behindKey) (yields_behindKey fromColon)

end BehindKey

/-! ### Lines with a dash, and the end of the text -/

theorem fetchFrom_dash (scan : YamlScan) {behind : List Char}
    (rest_eq : scan.cursor.rest = '-' :: ' ' :: behind) :
    scan.fetchFrom '-' = scan.fetchDash := by
  have noMarker : ∀ marker ∈ ["---", "..."], scan.cursor.atDocumentMarker marker = false := by
    intro marker member
    rw [YamlCursor.atDocumentMarker, rest_eq]
    simp only [List.mem_cons, List.not_mem_nil, or_false] at member
    rcases member with rfl | rfl <;> rfl
  have alone : atSeparator scan.cursor.behind = true := by
    rw [YamlCursor.behind, rest_eq]
    rfl
  rw [fetchFrom]
  simp [noMarker, alone]

/-- A line with a dash yields the ends of the blocks above it and the start of an item. -/
theorem yields_dash {scan : YamlScan} {above : List Int} {column : Nat} {rest : List Char}
    {tokens : List YamlToken}
    (approaches : Approaches scan (above ++ (column : Int) :: outer) column ('-' :: ' ' :: rest))
    (deeper : ∀ other ∈ above, (column : Int) < other)
    (reads : ∀ index line taken,
      Yields (between ⟨index, line, column + 1, ' ' :: rest⟩ column outer true taken) tokens) :
    Yields scan (List.replicate above.length .blockEnd ++ .blockEntry :: tokens) := by
  obtain ⟨settled, unknown, index, line, taken, fetched⟩ :=
    fetch_approaches approaches deeper (Int.le_refl _)
  have dash := fetchFrom_dash
    (closing ⟨index, line, column, '-' :: ' ' :: rest⟩ column outer taken above.length) rfl
  have within : isBreak '-' = false ∧ '-' ≠ byteOrderMark := by decide
  have stepped := YamlCursor.step_column index line column within (' ' :: rest)
  have fetchedDash : scan.fetch = .ok ((between ⟨index + 1, line, column + 1, ' ' :: rest⟩ column
      outer true taken).holding (List.replicate above.length .blockEnd ++ [.blockEntry])) := by
    refine fetched.trans (dash.trans ?_)
    simp [fetchDash, closing, holding, between, isInsideBrackets, openBlock, dropCandidate, push,
      allowKey, forward, YamlCursor.forward, stepped, bind, Except.bind, pure, Except.pure]
  have yields := Yields.of_holding (dropStale_settled settled) unknown (by simp) fetchedDash
    (reads _ _)
  rwa [List.append_assoc] at yields

theorem yields_end {scan : YamlScan} {above : List Int}
    (approaches : Approaches scan (above ++ [0, -1]) 0 []) (deeper : ∀ other ∈ above, 0 < other) :
    Yields scan (List.replicate above.length .blockEnd ++ [.blockEnd]) := by
  obtain ⟨settled, unknown, index, line, taken, fetched⟩ :=
    fetch_approaches approaches deeper (Int.le_refl 0)
  let ended : YamlScan :=
    { between ⟨index, line, 0, []⟩ (-1) [] false taken with
      pending := List.replicate above.length .blockEnd ++ [.blockEnd], isDone := true }
  have fetchedEnd : scan.fetch = .ok ended := by
    refine fetched.trans ?_
    simp [finish, ended, closing, holding, between, closeBlocks, closeBlocksIn, isInsideBrackets,
      dropCandidate, push, bind, Except.bind, pure, Except.pure]
  have known : ended.isNextKnown = true := rfl
  have nothing : Yields ended.behindPending [] := .done (lookAhead_known rfl) rfl rfl
  have yields : Yields ended (ended.pending ++ []) := .of_pending rfl nothing
  rw [List.append_nil] at yields
  exact .of_fetch (dropStale_settled settled) unknown fetchedEnd
    (settles_known (dropStale_settled rfl) known) yields

/-! ### What follows an entry -/

/-- The text behind an entry goes on with some tokens, whatever blocks are open in the entry. -/
structure Continues (indent : Nat) (outer : List Int) (margin : Nat) (text : List Char)
    (tokens : List YamlToken) : Prop where
  within : margin ≤ indent
  begins : BeginsToken text
  inside : margin = 0 → BeginsInside text
  reads : ∀ {scan : YamlScan} {above : List Int}, (∀ other ∈ above, (indent : Int) < other) →
    Approaches scan (above ++ (indent : Int) :: outer) margin text →
    Yields scan (List.replicate above.length .blockEnd ++ tokens)

namespace Continues

variable {inner indent margin : Nat} {text rest : List Char} {tokens : List YamlToken}

/-- Where no blocks are open in the entry, the text goes on with the tokens. -/
theorem here (continues : Continues indent outer margin text tokens) {scan : YamlScan}
    (approaches : Approaches scan ((indent : Int) :: outer) margin text) : Yields scan tokens :=
  have nothing : ∀ other ∈ ([] : List Int), (indent : Int) < other := by simp
  continues.reads nothing approaches

/-- What follows a record also follows its last entry, behind the end of the record. -/
theorem nest (continues : Continues indent outer margin text tokens) (deeper : indent < inner) :
    Continues inner (indent :: outer) margin text (.blockEnd :: tokens) where
  within := Nat.le_of_lt (Nat.lt_of_le_of_lt continues.within deeper)
  begins := continues.begins
  inside := continues.inside
  reads := by
    intro scan above above_deeper approaches
    have closed : ∀ other ∈ above ++ [(inner : Int)], (indent : Int) < other := by
      simp only [List.mem_append, List.mem_singleton]
      rintro other (member | rfl)
      · have := above_deeper other member
        omega
      · omega
    rw [List.append_cons] at approaches
    have yields := continues.reads closed approaches
    rwa [List.length_append, List.length_singleton, List.replicate_succ', List.append_assoc]
      at yields

/-- A further entry follows at the indentation of the record. -/
theorem of_key {key : List Char} (isKey : IsKey key) (ends : atSeparator rest = true)
    (reads : ∀ index line taken,
      Yields (between ⟨index, line, indent + key.length + 1, rest⟩ indent outer false taken)
        tokens) :
    Continues indent outer indent (key ++ ':' :: rest) (keyTokens false key ++ tokens) where
  within := Nat.le_refl indent
  begins := isKey.begins _
  inside := fun _ => isKey.inside _
  reads := by
    intro scan above deeper approaches
    have goesOn (index line taken : Nat) : Yields (between
        ⟨index, line, indent + key.length + 1, rest⟩ indent
          (if (indent : Int) < indent then (indent : Int) :: outer else outer) false taken)
            tokens := by
      rw [if_neg (Int.lt_irrefl _)]
      exact reads index line taken
    have yields := yields_key approaches deeper (Int.le_refl _) isKey ends goesOn
    rwa [decide_eq_false (Int.lt_irrefl _)] at yields

/-- An item of a list follows at the indentation of the record that holds the list. -/
theorem of_dash (reads : ∀ index line taken,
      Yields (between ⟨index, line, indent + 1, ' ' :: rest⟩ indent outer true taken) tokens) :
    Continues indent outer indent ('-' :: ' ' :: rest) (.blockEntry :: tokens) where
  within := Nat.le_refl indent
  begins := beginsToken_cons ⟨by decide, by decide⟩ (by decide) _
  inside := fun _ => ⟨rfl, rfl⟩
  reads := fun deeper approaches => yields_dash approaches deeper reads

theorem of_end : Continues 0 [-1] 0 [] [.blockEnd] where
  within := Nat.le_refl 0
  begins := beginsToken_nil
  inside := fun _ => ⟨rfl, rfl⟩
  reads := fun deeper approaches => yields_end approaches deeper

end Continues

end YamlScan

end RubySyntax
