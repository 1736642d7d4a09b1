import RubySyntax.Proofs.SeamComments

/-!
# Scanners that stay on a line

Behind its last token a line goes on with nothing, with its line ending, or with a line
comment.  The scanners of tokens do not look past any of these: they answer what they answer
for the line alone.
-/

namespace RubySyntax

/-- What a line may go on with behind its last token. -/
def lineEndCharacters : List Char :=
  ['\n', '\r', ' ', '\t', '#']

/-- Blanks, a line comment behind them, and the line feed that ends it. -/
def commented (blanks words rest : List Char) : List Char :=
  blanks ++ '#' :: (words ++ '\n' :: rest)

/-- What stands behind the last token of a line: nothing, the line ending, or a line comment
without slashes, one of which could end a regular expression. -/
inductive EndsLine : List Char → Prop
  | nothing : EndsLine []
  | feed (rest : List Char) : EndsLine ('\n' :: rest)
  | returnFeed (rest : List Char) : EndsLine ('\r' :: '\n' :: rest)
  | comment {blanks words : List Char} (blank : ∀ character ∈ blanks, character ∈ [' ', '\t'])
      (unslashed : '/' ∉ words) (rest : List Char) : EndsLine (commented blanks words rest)

namespace EndsLine

variable {behind : List Char}

theorem head_mem (ends : EndsLine behind) :
    ∀ character ∈ behind.head?, character ∈ lineEndCharacters := by
  cases ends with
  | nothing => simp
  | feed rest | returnFeed rest => simp [lineEndCharacters]
  | @comment blanks words blank _ rest =>
      cases blanks with
      | nil => simp [commented, lineEndCharacters]
      | cons character blanks =>
          have known := blank character List.mem_cons_self
          simp only [List.mem_cons, List.not_mem_nil, or_false] at known
          rcases known with rfl | rfl <;> simp [commented, lineEndCharacters]

theorem isBreak (ends : EndsLine behind) : IsBreak behind := by
  have separates : ∀ character ∈ lineEndCharacters, character ∈ breakCharacters := by decide
  cases behind with
  | nil => exact .ends
  | cons character rest => exact .mark (separates _ (ends.head_mem character rfl)) rest

/-- No slash stands on the line behind its last token. -/
theorem unslashed (ends : EndsLine behind) : '/' ∉ Lexeme.firstLine behind := by
  cases ends with
  | nothing | feed _ | returnFeed _ => simp [Lexeme.firstLine]
  | @comment blanks words blank unslashed rest =>
      have line : Lexeme.firstLine (commented blanks words rest) <+: blanks ++ '#' :: words := by
        rw [Lexeme.firstLine, commented, ← List.cons_append, ← List.append_assoc,
          List.takeWhile_append]
        split
        · simp
        · exact List.takeWhile_prefix _
      intro inside
      rcases List.mem_append.mp (line.subset inside) with member | member
      · exact absurd (blank _ member) (by decide)
      · exact unslashed (by simpa using member)

end EndsLine

theorem countWhile_append_of_head {test : Char → Bool} {behind : List Char}
    (stops : ∀ character ∈ behind.head?, test character = false) (word : List Char) :
    countWhile test (word ++ behind) = countWhile test word := by
  induction word with
  | nil =>
      cases behind with
      | nil => rfl
      | cons character behind => simp [countWhile, stops character rfl]
  | cons character word ih => rw [List.cons_append, countWhile_cons, countWhile_cons, ih]

namespace Lexeme

/-- A scanner that does not look past the last token of a line. -/
structure StaysOnLine (scanner : Scanner) : Prop where
  stops : ∀ {behind}, EndsLine behind → StopsAt behind scanner
  within : ∀ {text length}, scanner text = some length → length ≤ text.length

theorem staysOnLine_of_stopsAtBreaks {scanner : Scanner} (stops : StopsAtBreaks scanner)
    (within : ∀ {text length}, scanner text = some length → length ≤ text.length) :
    StaysOnLine scanner :=
  ⟨fun ends => stops ends.isBreak, within⟩

theorem identifier_staysOnLine : StaysOnLine identifier :=
  staysOnLine_of_stopsAtBreaks identifier_stopsAtBreaks fun scanned =>
    (identifier_cleanPrefix scanned).within

theorem instanceVariable_staysOnLine : StaysOnLine instanceVariable :=
  staysOnLine_of_stopsAtBreaks instanceVariable_stopsAtBreaks fun scanned =>
    (instanceVariable_cleanPrefix scanned).within

theorem number_staysOnLine : StaysOnLine number :=
  staysOnLine_of_stopsAtBreaks number_stopsAtBreaks number_readsOperand.within

theorem label_staysOnLine : StaysOnLine label :=
  staysOnLine_of_stopsAtBreaks label_stopsAtBreaks label_within

theorem keepsBracketOpen_of_endsLine {behind : List Char} (ends : EndsLine behind)
    (word : List Char) : KeepsBracketOpen word behind := by
  intro _ closing
  exact absurd (ends.head_mem _ closing) (by decide)

theorem methodName_staysOnLine : StaysOnLine methodName where
  stops ends word := methodName_append_break ends.isBreak (keepsBracketOpen_of_endsLine ends word)
  within scanned := (methodName_cleanPrefix scanned).within

theorem globalVariable_append_end {behind : List Char} (ends : EndsLine behind)
    (word : List Char) : globalVariable (word ++ behind) = globalVariable word := by
  have unnamed : ∀ character ∈ lineEndCharacters,
      isWordCharacter character = false ∧ character ∉ globalPunctuation := by decide +kernel
  by_cases sign : word = ['$']
  · subst sign
    cases behind with
    | nil => rfl
    | cons character behind =>
        have known := unnamed character (ends.head_mem character rfl)
        simp [globalVariable, countWhile, startsWithChar, known]
  · exact globalVariable_append_break ends.isBreak sign

theorem globalVariable_staysOnLine : StaysOnLine globalVariable where
  stops := globalVariable_append_end
  within scanned := (globalVariable_cleanPrefix scanned).within

theorem symbol_staysOnLine : StaysOnLine symbol where
  stops {behind} ends word := by
    cases word with
    | nil =>
        have marks : ∀ character ∈ lineEndCharacters, character ≠ ':' := by decide
        cases behind with
        | nil => rfl
        | cons character behind => simp [symbol, marks character (ends.head_mem character rfl)]
    | cons first word =>
        by_cases colon : first = ':'
        · subst colon
          simp only [List.cons_append, symbol, globalVariable_append_end ends word,
            instanceVariable_stopsAtBreaks ends.isBreak word,
            methodName_staysOnLine.stops ends word]
        · simp [symbol, colon]
  within scanned := (symbol_cleanPrefix scanned).within

theorem regexp_staysOnLine : StaysOnLine regexp where
  stops ends _ := regexp_append ends.isBreak (Or.inl ends.unslashed)
  within := regexp_readsOperand.within

theorem spelling_staysOnLine {word : String} (solid : IsSolid word.toList) :
    StaysOnLine (spelling word) :=
  staysOnLine_of_stopsAtBreaks (spelling_stopsAtBreaks solid) spelling_within

theorem oneOf_staysOnLine {spellings : List String} (nonempty : spellings ≠ [])
    (solid : ∀ word ∈ spellings, IsSolid word.toList) : StaysOnLine (oneOf spellings) :=
  staysOnLine_of_stopsAtBreaks (oneOf_stopsAtBreaks solid) (oneOf_within nonempty)

/-- A symbol that no line ends with, and what may not follow it. -/
abbrev IsInLine (symbol : String) : Prop :=
  ∀ character ∈ symbol.toList, character ∉ lineEndCharacters

theorem punctuation_staysOnLine {symbol excluded : String} (inner : IsInLine symbol)
    (innerToo : IsInLine excluded) : StaysOnLine (punctuation symbol excluded) where
  stops ends := punctuation_stopsAt fun character member =>
    ⟨fun inside => inner character inside (ends.head_mem character member),
      fun inside => innerToo character inside (ends.head_mem character member)⟩
  within := punctuation_within

/-- Blanks are skipped at the end of a line up to its line ending or its comment. -/
theorem endsLine_drop_blanks {behind : List Char} (ends : EndsLine behind) :
    EndsLine (behind.drop (countWhile (fun character => character == ' ' || character == '\t')
      behind)) := by
  cases ends with
  | nothing => exact .nothing
  | feed rest => exact .feed rest
  | returnFeed rest => exact .returnFeed rest
  | @comment blanks words blank unslashed rest =>
      have passes : ∀ character ∈ blanks, (character == ' ' || character == '\t') = true := by
        simpa using blank
      have all : countWhile (fun character => character == ' ' || character == '\t')
          (commented blanks words rest) = blanks.length := by
        rw [commented, countWhile_append_of_passes passes]
        rfl
      have left : EndsLine (commented [] words rest) := .comment (by simp) unslashed rest
      rw [all, commented, List.drop_left]
      exact left

theorem parameterStart_append_end {behind : List Char} (ends : EndsLine behind)
    (word : List Char) : parameterStart (word ++ behind) = parameterStart word := by
  generalize test_eq : (fun character => character == ' ' || character == '\t') = test
  generalize starts_eq : (fun character =>
    character == '*' || character == '&' || isNameStart character) = starts
  have none : startsWithChar starts (behind.drop (countWhile test behind)) = false := by
    have rejects : ∀ character ∈ lineEndCharacters, starts character = false := by
      subst starts_eq
      decide
    have ends := endsLine_drop_blanks ends
    rw [test_eq] at ends
    cases shown : behind.drop (countWhile test behind) with
    | nil => rfl
    | cons character rest =>
        exact rejects character (ends.head_mem character (by simp [shown]))
  have within := countWhile_le test word
  simp only [parameterStart, test_eq, starts_eq]
  by_cases ended : word.drop (countWhile test word) = []
  · have all : countWhile test word = word.length := by
      rw [List.drop_eq_nil_iff] at ended
      omega
    rw [countWhile_append_of_all all, List.drop_length_add_append, none, ended]
    simp [startsWithChar]
  · rw [countWhile_append_of_drop ended, List.drop_append_of_le_length within]
    cases shown : word.drop (countWhile test word) with
    | nil => exact absurd shown ended
    | cons character rest => rfl

theorem parameterStart_staysOnLine : StaysOnLine parameterStart where
  stops := parameterStart_append_end
  within scanned := by
    simp only [parameterStart] at scanned
    split at scanned
    · cases scanned
      exact countWhile_le _ _
    · cases scanned

end Lexeme

end RubySyntax
