import RubySyntax.Proofs.PhraseReading
import RubySyntax.Proofs.SeamRuns

/-!
# Tokens across a seam

A token that a form has to hold is looked for where the source goes on, and is found
or missed alike in the longer text.  A token that may be missing is not found in what
follows a source either.
-/

namespace RubySyntax

theorem Trails.head_ne {ending : Ending} {tail : List Char} (trails : Trails ending tail)
    {mark : Char} (solid : Lexeme.isGap mark = false) (open_ : mark ∉ ending.closers) :
    tail.head? ≠ some mark := by
  have differs : ∀ {character : Char}, Lexeme.isGap character = true → character ≠ mark := by
    rintro character spacing rfl
    exact absurd (spacing.symm.trans solid) (by decide)
  cases trails with
  | ends => simp
  | feed rest => simpa using differs (by decide)
  | closer member rest =>
      rintro same
      obtain rfl := Option.some.inj same
      exact open_ member
  | gap spacing trails => simpa using differs spacing

namespace Lexeme

/-- A single character is looked for at the head of a text only. -/
theorem punctuation_append_of_filled {symbol : String} (single : symbol.toList.length = 1)
    {rest : List Char} (filled : rest ≠ []) (tail : List Char) :
    punctuation symbol "" (rest ++ tail) = punctuation symbol "" rest := by
  obtain ⟨mark, symbol_eq⟩ := List.length_eq_one_iff.mp single
  obtain ⟨character, rest, rfl⟩ := List.exists_cons_of_ne_nil filled
  have nothing : ∀ text, startsWithChar ([] : List Char).contains text = false := by
    intro text
    cases text <;> simp [startsWithChar]
  simp [punctuation, symbol_eq, List.isPrefixOf, nothing]

end Lexeme

/-! ### Kinds of tokens -/

def neededWords : List String :=
  ["def", "class", "module", "alias", "end"]

/-- The symbols that a form has to hold, with the characters that may not follow. -/
def neededSymbols : List (String × String) :=
  [("|", ""), ("=", "=~>"), ("<", "<="), ("<<", ""), (":", ":")]

/-- The brackets that a form has to hold behind its parts. -/
def closingBrackets : List String :=
  [")", "]", "\x7d"]

/-- The symbols that may stand behind a complete operand. -/
def followingSymbols : List (String × String) :=
  [("(", ""), ("[", ""), ("\x7b", ""), ("&.", ""), (".", "."), (".", ""), ("::", ""), ("?", "")]

/-- The names of the other tokens that a form has to hold. -/
def variedTerminals : List String :=
  ["identifier", "global variable", "instance variable", "symbol", "number", "regexp",
    "method name", "label", "splat", "unary operator"]

namespace Ending

theorem neededWords_needed (ending : Ending) : ∀ word ∈ neededWords,
    IsSolid word.toList ∧ quoted word ∉ ending.following := by
  cases ending <;> decide

theorem neededSymbols_needed (ending : Ending) : ∀ entry ∈ neededSymbols,
    (IsSolid entry.1.toList ∧ IsSolid entry.2.toList) ∧ quoted entry.1 ∉ ending.following := by
  cases ending <;> decide

theorem closingBrackets_needed (ending : Ending) : ∀ bracket ∈ closingBrackets,
    bracket.toList.length = 1 ∧ quoted bracket ∉ ending.following := by
  cases ending <;> decide

theorem variedTerminals_needed (ending : Ending) :
    ∀ name ∈ variedTerminals, name ∉ ending.following := by
  cases ending <;> decide

theorem comma_following {ending : Ending} (member : quoted "," ∈ ending.following) :
    ending = statement := by
  cases ending with
  | statement => rfl
  | argument => exact absurd member (by decide)

end Ending

theorem followingSymbols_solid : ∀ entry ∈ followingSymbols,
    (IsSolid entry.1.toList ∧ IsSolid entry.2.toList) ∧
      Lexeme.punctuation entry.1 entry.2 [] = none := by
  decide

theorem Trails.punctuation_comma {tail : List Char} (trails : Trails .statement tail) :
    Lexeme.punctuation "," "" tail = none := by
  have apart : ∀ character ∈ tail.head?, character ∉ ",".toList ∧ character ∉ "".toList := by
    intro character head
    refine ⟨fun member => ?_, by simp⟩
    obtain rfl : character = ',' := by simpa using member
    exact trails.head_ne (by decide) (by decide) head
  exact (Lexeme.punctuation_stopsAt apart []).trans (by decide)

namespace Seam

variable (seam : Seam) {reach : Reach} {rest : List Char}

/-- A closing bracket is looked for where the source goes on. -/
theorem scansBracket {bracket : String} (member : bracket ∈ closingBrackets)
    (admits : seam.ending.Admits (quoted bracket) rest) :
    Matcher.ScansOn seam.tail reach (Lexeme.punctuation bracket "") rest := by
  obtain ⟨single, needed⟩ := seam.ending.closingBrackets_needed _ member
  exact .ofEq (Lexeme.punctuation_append_of_filled single (admits.continues needed).ne_nil _)
    Lexeme.punctuation_within

/-- A comma is looked for where the source goes on, or where no comma follows it. -/
theorem scansComma (admits : seam.ending.Admits (quoted ",") rest) :
    Matcher.ScansOn seam.tail reach (Lexeme.punctuation "," "") rest := by
  refine .ofEq ?_ Lexeme.punctuation_within
  rcases admits.complete with continues | ⟨rfl, member⟩
  · exact Lexeme.punctuation_append_of_filled (by decide) continues.ne_nil _
  · have trails := seam.trails
    rw [Ending.comma_following member] at trails
    exact trails.punctuation_comma.trans (by decide)

theorem keepsBracketOpen {terminal : String} (admits : seam.ending.Admits terminal rest) :
    Lexeme.KeepsBracketOpen rest seam.tail ∧
      ∀ name, rest = ':' :: name → Lexeme.KeepsBracketOpen name seam.tail := by
  have finished := admits.finished
  have trails := seam.trails
  cases ending_eq : seam.ending with
  | statement =>
      rw [ending_eq] at trails
      have open_ : seam.tail.head? ≠ some ']' := trails.head_ne (by decide) (by decide)
      exact ⟨fun _ => open_, fun _ _ _ => open_⟩
  | argument =>
      rw [ending_eq] at finished
      simp only [Ending.grows, beq_self_eq_true, Bool.true_and, Bool.or_eq_false_iff] at finished
      refine ⟨?_, ?_⟩
      · rintro rfl
        exact absurd finished.2.1 (by decide)
      · rintro name rfl rfl
        exact absurd finished.2.1 (by decide)

theorem ne_dollar {terminal : String} (admits : seam.ending.Admits terminal rest) :
    rest ≠ ['$'] ∧ rest ≠ [':', '$'] := by
  have finished := (Bool.or_eq_false_iff.mp admits.finished).1
  refine ⟨?_, ?_⟩ <;>
  · rintro rfl
    exact absurd finished (by decide)

theorem scansMethodName (admits : seam.ending.Admits Terminal.methodName.name rest) :
    Matcher.ScansOn seam.tail reach Lexeme.methodName rest :=
  .ofEq (Lexeme.methodName_append_break seam.trails.isBreak (seam.keepsBracketOpen admits).1)
    Lexeme.methodName_readsOperand.within

theorem scansSymbol (admits : seam.ending.Admits Terminal.symbol.name rest) :
    Matcher.ScansOn seam.tail reach Lexeme.symbol rest :=
  .ofEq (Lexeme.symbol_append_break seam.trails.isBreak (seam.ne_dollar admits).2
    (seam.keepsBracketOpen admits).2) Lexeme.symbol_readsOperand.within

theorem scansGlobalVariable (admits : seam.ending.Admits Terminal.globalVariable.name rest) :
    Matcher.ScansOn seam.tail reach Lexeme.globalVariable rest :=
  .ofEq (Lexeme.globalVariable_append_break seam.trails.isBreak (seam.ne_dollar admits).1)
    Lexeme.globalVariable_readsOperand.within

theorem scansRegexp (admits : seam.ending.Admits Terminal.regexp.name rest) :
    Matcher.ScansOn seam.tail reach Lexeme.regexp rest := by
  refine .ofEq (Lexeme.regexp_append seam.trails.isBreak ?_) Lexeme.regexp_readsOperand.within
  cases ending_eq : seam.ending with
  | statement => exact Or.inl (seam.line ending_eq)
  | argument =>
      have finished := admits.finished
      rw [ending_eq] at finished
      simp only [Ending.grows, beq_self_eq_true, Bool.true_and, Bool.or_eq_false_iff] at finished
      exact Or.inr finished.2.2

theorem scansSeparator : Matcher.ScansOn seam.tail .inside Lexeme.separator rest where
  rejects scanned continues :=
    Lexeme.separator_append_of_none (Continues.ne_nil continues) scanned seam.tail
  within scanned := (Lexeme.separator_eq_some scanned).1
  reads scanned continues := Lexeme.separator_append_of_continues scanned continues

end Seam

namespace Matcher

variable {seam : Seam} {reach : Reach}

theorem Persists.punctuation {symbol excluded : String}
    (member : (symbol, excluded) ∈ followingSymbols) :
    Persists seam reach (punctuation symbol excluded) (punctuation symbol excluded) :=
  .terminal fun rest _ => .ofStops
    (Lexeme.punctuation_stopsAtBreaks (followingSymbols_solid _ member).1 seam.trails.isBreak)
    Lexeme.punctuation_within rest

theorem Persists.commaToken : Persists seam reach (Matcher.punctuation ",") (Matcher.punctuation ",") :=
  .terminal fun _ admits => seam.scansComma admits

theorem Persists.separator :
    Persists seam .inside (Matcher.terminal .separator) (Matcher.terminal .separator) :=
  .terminal fun _ _ => seam.scansSeparator

namespace Anchored

theorem token {kind : Terminal} (stops : Lexeme.StopsAtBreaks kind.scanner)
    (within : ∀ {text length}, kind.scanner text = some length → length ≤ text.length)
    (needed : kind.name ∉ seam.ending.following) :
    Anchored seam reach (Matcher.terminal kind) (Matcher.terminal kind) :=
  .terminal (fun rest _ => .ofStops (stops seam.trails.isBreak) within rest) needed

theorem punctuation {symbol excluded : String}
    (member : (symbol, excluded) ∈ neededSymbols) :
    Anchored seam reach (punctuation symbol excluded) (Matcher.punctuation symbol excluded) :=
  have ⟨solid, needed⟩ := seam.ending.neededSymbols_needed _ member
  token (Lexeme.punctuation_stopsAtBreaks solid) Lexeme.punctuation_within needed

theorem bracket {symbol : String} (member : symbol ∈ closingBrackets) :
    Anchored seam reach (Matcher.punctuation symbol) (Matcher.punctuation symbol) :=
  .terminal (fun _ admits => seam.scansBracket member admits)
    (seam.ending.closingBrackets_needed _ member).2

theorem keyword {word : String} (member : word ∈ neededWords) :
    Anchored seam reach (keyword word) (Matcher.keyword word) :=
  have ⟨solid, needed⟩ := seam.ending.neededWords_needed _ member
  token (Lexeme.spelling_stopsAtBreaks solid) Lexeme.spelling_within needed

theorem oneOf {spellings : List String} {name : String} (present : spellings ≠ [])
    (solid : ∀ word ∈ spellings, IsSolid word.toList) (member : name ∈ variedTerminals) :
    Anchored seam reach (Matcher.terminal (.oneOf spellings name))
      (Matcher.terminal (.oneOf spellings name)) :=
  token (Lexeme.oneOf_stopsAtBreaks solid) (Lexeme.oneOf_within present)
    (seam.ending.variedTerminals_needed _ member)

theorem identifier :
    Anchored seam reach (Matcher.terminal .identifier) (Matcher.terminal .identifier) :=
  token Lexeme.identifier_stopsAtBreaks Lexeme.identifier_readsOperand.within
    (seam.ending.variedTerminals_needed _ (by decide))

theorem instanceVariable :
    Anchored seam reach (Matcher.terminal .instanceVariable) (Matcher.terminal .instanceVariable) :=
  token Lexeme.instanceVariable_stopsAtBreaks Lexeme.instanceVariable_readsOperand.within
    (seam.ending.variedTerminals_needed _ (by decide))

theorem number : Anchored seam reach (Matcher.terminal .number) (Matcher.terminal .number) :=
  token Lexeme.number_stopsAtBreaks Lexeme.number_readsOperand.within
    (seam.ending.variedTerminals_needed _ (by decide))

theorem label : Anchored seam reach (Matcher.terminal .label) (Matcher.terminal .label) :=
  token Lexeme.label_stopsAtBreaks Lexeme.label_within
    (seam.ending.variedTerminals_needed _ (by decide))

theorem methodName :
    Anchored seam reach (Matcher.terminal .methodName) (Matcher.terminal .methodName) :=
  .terminal (fun _ admits => seam.scansMethodName admits)
    (seam.ending.variedTerminals_needed _ (by decide))

theorem globalVariable :
    Anchored seam reach (Matcher.terminal .globalVariable) (Matcher.terminal .globalVariable) :=
  .terminal (fun _ admits => seam.scansGlobalVariable admits)
    (seam.ending.variedTerminals_needed _ (by decide))

theorem symbol : Anchored seam reach (Matcher.terminal .symbol) (Matcher.terminal .symbol) :=
  .terminal (fun _ admits => seam.scansSymbol admits)
    (seam.ending.variedTerminals_needed _ (by decide))

theorem regexp : Anchored seam reach (Matcher.terminal .regexp) (Matcher.terminal .regexp) :=
  .terminal (fun _ admits => seam.scansRegexp admits)
    (seam.ending.variedTerminals_needed _ (by decide))

end Anchored

/-! ### Tokens that may be missing -/

theorem Persists.followingOnSameLine {kind : Terminal} (stops : Lexeme.StopsAtBreaks kind.scanner)
    (within : ∀ {text length}, kind.scanner text = some length → length ≤ text.length)
    (missing : kind.scanner [] = none) :
    Persists seam .whole (Matcher.onSameLine (Matcher.terminal kind))
      (Matcher.onSameLine (Matcher.terminal kind)) := by
  refine .onSameLine (fun rest _ => .ofStops (stops seam.trails.isBreak) within rest) missing
    fun _ => ?_
  exact (stops (Lexeme.horizontalLength_trails seam.trails).isBreak []).trans missing

theorem Persists.commaOnSameLine :
    Persists seam .whole Matcher.commaOnSameLine Matcher.commaOnSameLine := by
  refine .onSameLine (fun _ admits => seam.scansComma admits) (by decide) fun member => ?_
  have trails := Lexeme.horizontalLength_trails seam.trails
  rw [Ending.comma_following member] at trails
  exact trails.punctuation_comma

end Matcher

end RubySyntax
