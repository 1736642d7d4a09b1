import RubySyntax.ExpressionGrammar
import RubySyntax.ParseError
import RubySyntax.PositionResolution
import RubySyntax.SourceText

/-!
# Parsing

Parsing reads a whole program and resolves the position of every node.  A parser
keeps what it noted about failures from one text to the next, and forgets it
before it reads another one.
-/

namespace RubySyntax

/-- Why a text has no tree. -/
inductive ParseFailure where
  /-- The text does not match the grammar.  The end of the input was last looked for at the
  given offset. -/
  | mismatch (error : ParseError) (endOffset : Nat)
  /-- A reduction needs the level of an operator that its table lacks. -/
  | missingOperator (key : String)
  /-- The grammar nests deeper, or repeats a part more often, than the text is long. -/
  | nestedTooDeep

namespace ParseFailure

def ofFault : Fault → ParseFailure
  | .missingOperator key => missingOperator key
  | .exhausted => nestedTooDeep

/-- The failure of a run with the given trace, by a parser that noted an earlier failure.  The
end of the text is what a run looks for last. -/
def ofTrace (text : List Char) (noted : Option FurthestFailure) (trace : List Attempt) :
    ParseFailure :=
  let furthest := trace.foldl FurthestFailure.record (FurthestFailure.reset noted)
  let endOffset := (trace.getLast?.map Attempt.offset).getD 0
  mismatch (ParseError.ofFailure text (FurthestFailure.reported furthest endOffset)) endOffset

end ParseFailure

/-- The tree of a program, its positions resolved, by a parser that noted an earlier failure. -/
def parseAfter (tables : OperatorTables) (noted : Option FurthestFailure) (text : List Char) :
    Except ParseFailure Node :=
  match Matcher.program tables (Cursor.ofText text) with
  | .matched tree _ _ => .ok (tree.resolve (PositionTable.ofText text))
  | .failed trace => .error (.ofTrace text noted trace)
  | .aborted fault => .error (.ofFault fault)

section

variable {tables : OperatorTables} {noted : Option FurthestFailure} {text : List Char}
  {trace : List Attempt}

theorem parseAfter_of_matched {tree : Node} {next : Cursor}
    (run : Matcher.program tables (Cursor.ofText text) = .matched tree next trace) :
    parseAfter tables noted text = .ok (tree.resolve (PositionTable.ofText text)) := by
  unfold parseAfter
  rw [run]

theorem parseAfter_of_failed
    (run : Matcher.program tables (Cursor.ofText text) = .failed trace) :
    parseAfter tables noted text = .error (.ofTrace text noted trace) := by
  unfold parseAfter
  rw [run]

end

/-- The tree of a program, its positions resolved. -/
def parse (tables : OperatorTables) (text : List Char) : Except ParseFailure Node :=
  parseAfter tables none text

/-! ### Parsers -/

/-- A parser between two texts. -/
structure Parser where
  tables : OperatorTables
  /-- What was noted in the latest run. -/
  noted : Option FurthestFailure := none
  /-- What is noted when the run over a text breaks off.  The outcome of such a run does not
  tell, so it is left open. -/
  notedOnFault : List Char → Option FurthestFailure := fun _ => none

/-- Why a source has no tree. -/
inductive SourceFailure where
  | unread (fault : SourceFault)
  | unparsed (failure : ParseFailure)

namespace Parser

def noting (parser : Parser) (trace : List Attempt) : Parser :=
  { parser with noted := trace.foldl FurthestFailure.record (FurthestFailure.reset parser.noted) }

/-- The parser after a run over a text that broke off. -/
def brokenOff (parser : Parser) (text : List Char) : Parser :=
  { parser with noted := parser.notedOnFault text }

/-- The tree of a program, and the parser afterwards. -/
def parseText (parser : Parser) (text : List Char) : Except ParseFailure Node × Parser :=
  match Matcher.program parser.tables (Cursor.ofText text) with
  | .matched tree _ trace =>
    (.ok (tree.resolve (PositionTable.ofText text)), parser.noting trace)
  | .failed trace => (.error (.ofTrace text parser.noted trace), parser.noting trace)
  | .aborted fault => (.error (.ofFault fault), parser.brokenOff text)

/-- The tree of a source, and the parser afterwards.  A source without a text leaves the parser
as it was. -/
def parseSource (parser : Parser) (source : Source) : Except SourceFailure Node × Parser :=
  match source.text with
  | .error fault => (.error (.unread fault), parser)
  | .ok text =>
    let (result, next) := parser.parseText text
    (result.mapError .unparsed, next)

/-- The trees or failures of several sources, given to one parser in order. -/
def session (parser : Parser) : List Source → List (Except SourceFailure Node)
  | [] => []
  | source :: sources =>
    let (result, next) := parser.parseSource source
    result :: next.session sources

end Parser

/-- The outcome of reading an expression at the start of a text. -/
def matchExpression (tables : OperatorTables) (mode : Mode) (text : List Char) : Outcome Node :=
  Matcher.rule tables (.expression mode) (Cursor.ofText text)

end RubySyntax
