import RubySyntax.BlankCharacters
import RubySyntax.Parse
import RubySyntax.SourceFile
import RubySyntax.TreeFormat
import RubySyntax.TreePrinter

/-!
# The command line

The program parses a file that is given as an argument, or else reads lines in a
session.  A tree is printed, or written in the format that a flag asks for.  One
parser reads all lines of a session.
-/

namespace RubySyntax

/-- What the flags ask for. -/
structure CommandOptions where
  format : Option TreeFormat := none
  showPositions : Bool := false
deriving DecidableEq, Repr

/-- What the program writes to its two outputs. -/
structure Transcript where
  output : String := ""
  errors : String := ""
deriving DecidableEq, Repr

/-- What a run of the program leaves behind. -/
structure RunReport where
  exitCode : Nat
  transcript : Transcript
  /-- The fault that ended the run without a message. -/
  raised : Option FileFault := none
deriving DecidableEq, Repr

namespace Transcript

/-- What is written by one part of a run and then by another. -/
def append (first second : Transcript) : Transcript where
  output := first.output ++ second.output
  errors := first.errors ++ second.errors

instance : Append Transcript := ⟨append⟩

def say (text : String) : Transcript :=
  { output := text }

def complain (text : String) : Transcript :=
  { errors := text }

end Transcript

namespace CommandLine

/-- The options and the other arguments; the last flag for a format counts. -/
def splitArguments (arguments : List String) : CommandOptions × List String :=
  arguments.foldl
    (fun (options, rest) argument =>
      if argument = "--json" then ({ options with format := some .json }, rest)
      else if argument = "--yaml" then ({ options with format := some .yaml }, rest)
      else if argument = "--positions" then ({ options with showPositions := true }, rest)
      else (options, rest ++ [argument]))
    ({}, [])

/-- The file that the arguments name, if the first one that is no flag does not look like one. -/
def filePath? (arguments : List String) : Option String :=
  arguments.head?.filter fun argument => argument.toList.head? != some '-'

def dropFinalFeeds (text : String) : String :=
  String.ofList ((text.toList.reverse.dropWhile (· == '\n')).reverse)

def printStyle (options : CommandOptions) : PrintStyle :=
  { PrintStyle.standard with showPositions := options.showPositions, showComments := true }

def render (options : CommandOptions) (tree : Node) : String :=
  match options.format with
  -- A parsed tree has no position that would have to be refused.
  | some format => dropFinalFeeds (tree.document format true)
  | none =>
    match tree.print (printStyle options) 0 with
    | .ok text => text
    | .error .commentWithoutText => ""

/-- The line about a failed parse that is written for debugging. -/
def debugLine (error : ParseError) (endOffset : Nat) : String :=
  "[DBG] parse failed offset " ++ toString error.offset ++ " pyparsing loc " ++
    toString endOffset ++ " expected " ++ (Value.list (error.expected.map .text)).display ++ "\n"

/-- What is written about a text without a tree. -/
def failureText (isDebugging : Bool) : ParseFailure → String
  | .mismatch error endOffset =>
    (if isDebugging then debugLine error endOffset else "") ++ error.format ++ "\n"
  | .missingOperator key => "Error: " ++ quoted key ++ "\n"
  | .nestedTooDeep => "Error: maximum recursion depth exceeded\n"

/-! ### Files -/

def runFile (options : CommandOptions) (isDebugging : Bool) (path : String)
    (source : Except FileFault (List Char)) : RunReport :=
  match source with
  | .ok source =>
    match parse .standard source with
    | .ok tree => { exitCode := 0, transcript := .say (render options tree ++ "\n") }
    | .error failure =>
      { exitCode := 1, transcript := .complain (failureText isDebugging failure) }
  | .error .missing =>
    { exitCode := 1, transcript := .complain ("Error: file not found: " ++ path ++ "\n") }
  | .error fault => { exitCode := 1, transcript := {}, raised := some fault }

/-! ### Sessions -/

def programName : String :=
  "rbparse"

def debugVariable : String :=
  programName.toUpper ++ "_DEBUG"

def banner : String :=
  programName ++ " REPL v0.1\nType 'exit' or press Ctrl+D to quit.\n"

def prompt : String :=
  ">> "

/-- What is written where the input ends. -/
def farewell : String :=
  "\nExiting.\n"

def exitWord : String :=
  "exit"

/-- What is written at one moment of a session. -/
inductive SessionEvent where
  | prompt
  /-- The text of a tree. -/
  | tree (text : String)
  /-- What is said about a line without a tree. -/
  | failure (text : String)
  | farewell
deriving DecidableEq, Repr

namespace SessionEvent

def transcript : SessionEvent → Transcript
  | prompt => .say CommandLine.prompt
  | tree text => .say (text ++ "\n")
  | failure text => .complain text
  | farewell => .say CommandLine.farewell

/-- The answer to a line with the given tree or failure. -/
def ofResult (options : CommandOptions) (isDebugging : Bool) :
    Except ParseFailure Node → SessionEvent
  | .ok node => tree (render options node)
  | .error reason => failure (failureText isDebugging reason)

end SessionEvent

/-- The answers to a line and the parser afterwards, none if the line ends the session. -/
def lineReply? (options : CommandOptions) (isDebugging : Bool) (parser : Parser)
    (line : List Char) : Option (List SessionEvent × Parser) :=
  let source := trimBlanks line
  if source.isEmpty then some ([], parser)
  else if source = exitWord.toList then none
  else
    let (result, next) := parser.parseText source
    some ([.ofResult options isDebugging result], next)

def sessionEvents (options : CommandOptions) (isDebugging : Bool) (parser : Parser) :
    List (List Char) → List SessionEvent
  | [] => [.prompt, .farewell]
  | line :: lines =>
    match lineReply? options isDebugging parser line with
    | none => [.prompt]
    | some (answers, next) =>
      .prompt :: (answers ++ sessionEvents options isDebugging next lines)

def eventsTranscript (events : List SessionEvent) : Transcript :=
  events.foldr (fun event written => event.transcript ++ written) {}

def runSession (options : CommandOptions) (isDebugging : Bool) (input : List Char) : RunReport :=
  { exitCode := 0
    transcript := .say banner ++
      eventsTranscript (sessionEvents options isDebugging { tables := .standard }
        (linesWithFeeds (unifyLineBreaks input))) }

/-! ### The whole program -/

def run (directory : Directory) (isDebugging : Bool) (arguments : List String)
    (input : List Char) : RunReport :=
  let (options, rest) := splitArguments arguments
  match filePath? rest with
  | some path => runFile options isDebugging path (directory.read path)
  | none => runSession options isDebugging input

end CommandLine

end RubySyntax
