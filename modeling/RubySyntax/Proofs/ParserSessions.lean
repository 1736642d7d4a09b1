import RubySyntax.CommandLine
import RubySyntax.Proofs.PrintedTrees
import RubySyntax.Proofs.ProgramLayout

/-!
# Sessions

One parser reads many sources, and what it noted about the failures in one of them is
still there when it is given the next.  None of it gets into an answer: each source is
answered as by a parser that has read nothing yet, whether the sources before it had a
tree, had none or broke off the run.  An interactive session answers each line in the
same way, up to the line that ends it.
-/

namespace RubySyntax

namespace Parser

/-- A parser answers by its tables alone, whatever it noted. -/
theorem parseText_eq_parse (parser : Parser) (text : List Char) :
    (parser.parseText text).1 = parse parser.tables text := by
  unfold parseText parse parseAfter
  cases Matcher.program parser.tables (Cursor.ofText text) <;> rfl

@[simp]
theorem tables_parseText (parser : Parser) (text : List Char) :
    (parser.parseText text).2.tables = parser.tables := by
  unfold parseText
  cases Matcher.program parser.tables (Cursor.ofText text) <;> rfl

@[simp]
theorem tables_parseSource (parser : Parser) (source : Source) :
    (parser.parseSource source).2.tables = parser.tables := by
  unfold parseSource
  cases source.text with
  | error fault => rfl
  | ok text => exact parser.tables_parseText text

/-- Two parsers with the same tables give the same answer to a source. -/
theorem parseSource_congr {parser other : Parser} (same : parser.tables = other.tables)
    (source : Source) : (parser.parseSource source).1 = (other.parseSource source).1 := by
  unfold parseSource
  cases source.text with
  | error fault => rfl
  | ok text => simp only [parseText_eq_parse, same]

/-- Every answer of a session is that of a parser that has read nothing yet. -/
theorem session_eq_map (parser : Parser) (sources : List Source) :
    parser.session sources =
      sources.map fun source => (({ tables := parser.tables } : Parser).parseSource source).1 := by
  induction sources generalizing parser with
  | nil => rfl
  | cons source sources ih =>
      show (parser.parseSource source).1 :: (parser.parseSource source).2.session sources = _
      have fresh : (parser.parseSource source).1 =
          (({ tables := parser.tables } : Parser).parseSource source).1 :=
        @parseSource_congr parser { tables := parser.tables } rfl source
      rw [ih, tables_parseSource, List.map_cons, fresh]

end Parser

namespace CommandLine

variable (options : CommandOptions) (isDebugging : Bool)

/-- The answer of a parser that has read nothing yet. -/
def freshAnswer (source : List Char) : SessionEvent :=
  .ofResult options isDebugging (({ tables := .standard } : Parser).parseText source).1

/-- The lines of an input without the blanks at their ends. -/
def strippedLines (input : List Char) : List (List Char) :=
  (linesWithFeeds (unifyLineBreaks input)).map trimBlanks

/-- The lines in front of the one that ends the session. -/
def linesBeforeExit (stripped : List (List Char)) : List (List Char) :=
  stripped.takeWhile (· != exitWord.toList)

/-- What is written behind the last prompt of a session. -/
def lastEvents (stripped : List (List Char)) : List SessionEvent :=
  if exitWord.toList ∈ stripped then [] else [.farewell]

@[simp]
theorem linesBeforeExit_exit (others : List (List Char)) :
    linesBeforeExit (exitWord.toList :: others) = [] := by
  simp [linesBeforeExit]

@[simp]
theorem linesBeforeExit_cons {line : List Char} (goesOn : line ≠ exitWord.toList)
    (others : List (List Char)) :
    linesBeforeExit (line :: others) = line :: linesBeforeExit others := by
  simp [linesBeforeExit, goesOn]

@[simp]
theorem lastEvents_exit (others : List (List Char)) :
    lastEvents (exitWord.toList :: others) = [] := by
  simp [lastEvents]

@[simp]
theorem lastEvents_cons {line : List Char} (goesOn : line ≠ exitWord.toList)
    (others : List (List Char)) : lastEvents (line :: others) = lastEvents others := by
  simp [lastEvents, goesOn.symm]

/-! ### The answers -/

/-- A tree that was parsed can be printed, as each of its comments holds a text. -/
theorem print_of_parse {source : List Char} {tree : Node}
    (parsed : parse .standard source = .ok tree) (printing : options.format = none) :
    tree.print (printStyle options) 0 = .ok (render options tree) := by
  have shows : ∀ part ∈ tree.nodes, TreePrinter.Shows (printStyle options) part := by
    intro part member _ comment commentMem
    obtain ⟨_, _, isComment⟩ :=
      ((parse_laid parsed).commentsLaid member).isComment comment commentMem
    obtain ⟨body, children_eq, -⟩ := isComment.children_eq
    simp [children_eq]
  rw [render, printing, Node.print_eq_printed shows]

/-- A tree goes to the normal output and a failure to the output for errors. -/
theorem freshAnswer_transcript (source : List Char) :
    (∃ tree, parse .standard source = .ok tree ∧
        (options.format = none → tree.print (printStyle options) 0 = .ok (render options tree)) ∧
        (freshAnswer options isDebugging source).transcript =
          .say (render options tree ++ "\n")) ∨
      ∃ failure, parse .standard source = .error failure ∧
        (freshAnswer options isDebugging source).transcript =
          .complain (failureText isDebugging failure) := by
  rw [freshAnswer, Parser.parseText_eq_parse]
  cases parsed : parse .standard source with
  | ok tree => exact Or.inl ⟨tree, rfl, print_of_parse options parsed, rfl⟩
  | error failure => exact Or.inr ⟨failure, rfl, rfl⟩

theorem freshAnswer_isAnswer (source : List Char) :
    freshAnswer options isDebugging source ≠ .prompt ∧
      freshAnswer options isDebugging source ≠ .farewell := by
  unfold freshAnswer SessionEvent.ofResult
  split <;> simp

/-- A line is blank, or ends the session, or is a source that is answered. -/
theorem lineReply?_cases {parser : Parser} (standard : parser.tables = .standard)
    (line : List Char) :
    (trimBlanks line = [] ∧ lineReply? options isDebugging parser line = some ([], parser)) ∨
      (trimBlanks line = exitWord.toList ∧ lineReply? options isDebugging parser line = none) ∨
      (trimBlanks line ≠ [] ∧ trimBlanks line ≠ exitWord.toList ∧
        ∃ next : Parser, next.tables = .standard ∧ lineReply? options isDebugging parser line =
          some ([freshAnswer options isDebugging (trimBlanks line)], next)) := by
  unfold lineReply?
  by_cases blank : trimBlanks line = []
  · simp [blank]
  by_cases ends : trimBlanks line = exitWord.toList
  · have present : exitWord.toList ≠ [] := by decide
    simp [ends, present]
  · refine Or.inr (Or.inr ⟨blank, ends, (parser.parseText (trimBlanks line)).2, ?_, ?_⟩)
    · rw [Parser.tables_parseText, standard]
    · simp [blank, ends, freshAnswer, Parser.parseText_eq_parse, standard]

/-! ### Whole sessions -/

/-- A prompt stands in front of every line, and each line up to the last one is answered as by a
parser that has read nothing yet. -/
theorem sessionEvents_eq {parser : Parser} (standard : parser.tables = .standard)
    (lines : List (List Char)) :
    sessionEvents options isDebugging parser lines =
      (linesBeforeExit (lines.map trimBlanks)).flatMap (fun source =>
        .prompt :: if source.isEmpty then [] else [freshAnswer options isDebugging source]) ++
      .prompt :: lastEvents (lines.map trimBlanks) := by
  induction lines generalizing parser with
  | nil => rfl
  | cons line lines ih =>
      have present : [] ≠ exitWord.toList := by decide
      rw [List.map_cons]
      rcases lineReply?_cases options isDebugging standard line with
        ⟨blank, reply⟩ | ⟨ends, reply⟩ | ⟨filled, goesOn, next, standardToo, reply⟩
      · simp [sessionEvents, reply, ih standard, blank, present]
      · simp [sessionEvents, reply, ends]
      · simp [sessionEvents, reply, ih standardToo, goesOn, filled]

/-- Prompts aside, a session consists of the answers to the lines that are not blank. -/
theorem filter_sessionEvents {parser : Parser} (standard : parser.tables = .standard)
    (lines : List (List Char)) :
    (sessionEvents options isDebugging parser lines).filter (· != .prompt) =
      ((linesBeforeExit (lines.map trimBlanks)).filter (!·.isEmpty)).map
          (freshAnswer options isDebugging) ++
        lastEvents (lines.map trimBlanks) := by
  have last : (lastEvents (lines.map trimBlanks)).filter (· != .prompt) =
      lastEvents (lines.map trimBlanks) := by
    unfold lastEvents
    split <;> rfl
  rw [sessionEvents_eq options isDebugging standard, List.filter_append,
    List.filter_cons_of_neg (by simp), last]
  congr 1
  induction linesBeforeExit (lines.map trimBlanks) with
  | nil => rfl
  | cons source sources ih =>
      have answered := (freshAnswer_isAnswer options isDebugging source).1
      rw [List.flatMap_cons, List.filter_append, ih, List.filter_cons_of_neg (by simp)]
      cases blank : source.isEmpty <;> simp [blank, answered]

theorem farewell_mem_sessionEvents {parser : Parser} (standard : parser.tables = .standard)
    (lines : List (List Char)) :
    .farewell ∈ sessionEvents options isDebugging parser lines ↔
      exitWord.toList ∉ lines.map trimBlanks := by
  have apart : (.farewell : SessionEvent) ≠ .prompt := by decide
  have unanswered : ∀ sources : List (List Char),
      .farewell ∉ sources.map (freshAnswer options isDebugging) := by
    intro sources member
    obtain ⟨source, -, answer_eq⟩ := List.mem_map.mp member
    exact (freshAnswer_isAnswer options isDebugging source).2 answer_eq
  have kept : .farewell ∈ sessionEvents options isDebugging parser lines ↔
      .farewell ∈ (sessionEvents options isDebugging parser lines).filter (· != .prompt) := by
    simp [apart]
  rw [kept, filter_sessionEvents options isDebugging standard, List.mem_append,
    or_iff_right (unanswered _), lastEvents]
  split <;> simp_all

theorem eventsTranscript_eq (events : List SessionEvent) :
    eventsTranscript events =
      { output := String.join (events.map (·.transcript.output))
        errors := String.join (events.map (·.transcript.errors)) } := by
  induction events with
  | nil => rfl
  | cons event events ih =>
      rw [eventsTranscript, List.foldr_cons, ← eventsTranscript, ih]
      simp only [List.map_cons, String.join_cons]
      rfl

theorem say_append (text : String) (written : Transcript) :
    Transcript.say text ++ written =
      { output := text ++ written.output, errors := written.errors } := by
  show Transcript.mk (text ++ written.output) ("" ++ written.errors) = _
  rw [String.empty_append]

/-- Without a file the program runs a session, which writes its events behind the banner. -/
theorem run_of_noFile (directory : Directory) {arguments : List String}
    (noFile : filePath? (splitArguments arguments).2 = none) (input : List Char) :
    run directory isDebugging arguments input =
      { exitCode := 0
        transcript := .say banner ++ eventsTranscript
          (sessionEvents (splitArguments arguments).1 isDebugging { tables := .standard }
            (linesWithFeeds (unifyLineBreaks input))) } := by
  unfold run
  simp only [noFile]
  rfl

end CommandLine

open CommandLine in
/-- One parser answers every source as a new one would, whatever the tables are, whatever it
noted before and whatever a run that broke off left noted.  So an interactive session writes,
behind its banner and apart from its prompts, the answers of new parsers to the lines that are not
blank, up to the line that ends it, each tree to the normal output and each failure to the output
for errors; and it takes leave exactly if no line ends it. -/
theorem sessions_do_not_leak :
    (∀ (parser : Parser) (sources : List Source), parser.session sources =
      sources.map fun source => (({ tables := parser.tables } : Parser).parseSource source).1) ∧
    ∀ (directory : Directory) (isDebugging : Bool) (arguments : List String) (input : List Char),
      filePath? (splitArguments arguments).2 = none →
        let options := (splitArguments arguments).1
        let events := sessionEvents options isDebugging { tables := .standard }
          (linesWithFeeds (unifyLineBreaks input))
        run directory isDebugging arguments input =
            { exitCode := 0
              transcript :=
                { output := banner ++ String.join (events.map (·.transcript.output))
                  errors := String.join (events.map (·.transcript.errors)) } } ∧
          events.filter (· != .prompt) =
            ((linesBeforeExit (strippedLines input)).filter (!·.isEmpty)).map
              (freshAnswer options isDebugging) ++ lastEvents (strippedLines input) ∧
          (∀ source, (∃ tree, parse .standard source = .ok tree ∧
              (options.format = none →
                tree.print (printStyle options) 0 = .ok (render options tree)) ∧
              (freshAnswer options isDebugging source).transcript =
                .say (render options tree ++ "\n")) ∨
            ∃ failure, parse .standard source = .error failure ∧
              (freshAnswer options isDebugging source).transcript =
                .complain (failureText isDebugging failure)) ∧
          (.farewell ∈ events ↔ exitWord.toList ∉ strippedLines input) := by
  refine ⟨Parser.session_eq_map, fun directory isDebugging arguments input noFile => ?_⟩
  intro options events
  have answers := @filter_sessionEvents options isDebugging { tables := .standard } rfl
    (linesWithFeeds (unifyLineBreaks input))
  have farewell := @farewell_mem_sessionEvents options isDebugging { tables := .standard } rfl
    (linesWithFeeds (unifyLineBreaks input))
  refine ⟨?_, answers, freshAnswer_transcript options isDebugging, farewell⟩
  rw [run_of_noFile isDebugging directory noFile, eventsTranscript_eq, say_append]

open CommandLine in
/-- A word that begins with a sign names no file, and the line behind the last one is not read. -/
theorem sessions_do_not_leak_exit :
    filePath? (splitArguments ["--json", "-x"]).2 = none ∧
      (sessionEvents (splitArguments ["--json", "-x"]).1 false { tables := .standard }
          (linesWithFeeds (unifyLineBreaks "a +\n\n exit\nb".toList))).filter (· != .prompt) =
        [freshAnswer (splitArguments ["--json", "-x"]).1 false "a +".toList] := by
  have noFile : filePath? (splitArguments ["--json", "-x"]).2 = none := by decide
  have answers := (sessions_do_not_leak.2 ⟨[], [], false⟩ false ["--json", "-x"]
    "a +\n\n exit\nb".toList noFile).2.1
  have lines : (linesBeforeExit (strippedLines "a +\n\n exit\nb".toList)).filter (!·.isEmpty) =
      ["a +".toList] := by decide
  have last : lastEvents (strippedLines "a +\n\n exit\nb".toList) = [] := by decide
  rw [lines, last] at answers
  exact ⟨noFile, answers⟩

end RubySyntax
