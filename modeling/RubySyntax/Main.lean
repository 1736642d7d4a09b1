import RubySyntax.CommandLine

/-!
# The program

The program reads its arguments, the file that they name or the lines of a
session, and writes what the command line answers.
-/

namespace RubySyntax

namespace Program

/-- Writes a transcript to the two outputs. -/
def write (transcript : Transcript) : IO Unit := do
  let output ← IO.getStdout
  output.putStr transcript.output
  output.flush
  let errors ← IO.getStderr
  errors.putStr transcript.errors
  errors.flush

/-- The text of the file under a path, or the fault that it has. -/
def readSource (path : String) : IO (Except FileFault (List Char)) := do
  let path := normalizedPath path
  try
    let bytes ← IO.FS.readBinFile path
    return sourceOfBytes (bytes.toList.map UInt8.toNat)
  catch
    | .noFileOrDirectory .. => return .error .missing
    | _ => return .error .isDirectory

/-- Reads and answers lines until the session ends. -/
partial def converse (options : CommandOptions) (isDebugging : Bool) (parser : Parser)
    (lines : List (List Char)) : IO Unit := do
  write (.say CommandLine.prompt)
  let lines ←
    if lines.isEmpty then
      pure (linesWithFeeds (unifyLineBreaks (← (← IO.getStdin).getLine).toList))
    else pure lines
  match lines with
  | [] => write (.say CommandLine.farewell)
  | line :: rest =>
    match CommandLine.lineReply? options isDebugging parser line with
    | some (answers, next) =>
      write (CommandLine.eventsTranscript answers)
      converse options isDebugging next rest
    | none => return

/-- Parses the file that the arguments name, or reads lines in a session. -/
def run (arguments : List String) : IO UInt32 := do
  let isDebugging := ((← IO.getEnv CommandLine.debugVariable).getD "") != ""
  let (options, rest) := CommandLine.splitArguments arguments
  match CommandLine.filePath? rest with
  | some path =>
    let report := CommandLine.runFile options isDebugging path (← readSource path)
    write report.transcript
    return report.exitCode.toUInt32
  | none =>
    write (.say CommandLine.banner)
    converse options isDebugging { tables := .standard } []
    return 0

end Program

end RubySyntax

def main (arguments : List String) : IO UInt32 :=
  RubySyntax.Program.run arguments
