/-
**Running commands.**

Assembling a file writes its image to a file or prints it; assembling a directory does so for every
source file in it, next to the source.  The print command shows the words of a snippet, and the
interactive command does so for every line that it reads.

Main definitions:

* `ThumbAssembler.assembleFile`, `ThumbAssembler.assembleDirectory` — assembling files;
* `ThumbAssembler.describeSnippet` — the words of a snippet, or the diagnostic;
* `ThumbAssembler.answerLines` — the interactive command on the lines that it reads;
* `ThumbAssembler.Ending` — how a run of the program ends;
* `ThumbAssembler.run` — a run of the program.
-/

import ThumbAssembler.CommandLine.Request
import ThumbAssembler.CommandLine.Workspace
import ThumbAssembler.Journal.Narration

set_option autoImplicit false

namespace ThumbAssembler

/-! ### Exit codes and records -/

/-- All went well. -/
def exitOk : Int := 0

/-- A source was rejected. -/
def exitRejected : Int := 1

/-- The command line or a file was at fault. -/
def exitUsage : Int := 2

/-- The logger of the command line. -/
def commandLogger : Text := partLogger "cli"

/-- The ending of source files. -/
def sourceSuffix : Text := ".s".toList

/-- The ending of image files. -/
def imageSuffix : Text := ".bin".toList

/-- The record of a command that starts. -/
def commandRecord (c : Command) : Record :=
  ⟨Level.debug, commandLogger, "Command: ".toList ++ c.word⟩

/-- The record of an image that was written. -/
def writtenRecord (words : List Int) (source image : Path) : Record :=
  ⟨Level.info, commandLogger,
    "Assembled ".toList ++ decimal words.length ++ " word(s): ".toList ++ source.render ++
      " -> ".toList ++ image.render⟩

/-- The record of a directory without source files. -/
def emptyDirectoryRecord (folder : Path) : Record :=
  ⟨Level.warning, commandLogger,
    "No ".toList ++ sourceSuffix ++ " files in ".toList ++ folder.render⟩

/-- The report on a source, with its records made. -/
def assembleLogged (target : Target) (width : RowWidth) (source : Text) : Action Report := do
  Action.logAll (narration Thumb.instructionSet target source)
  Action.compute (report Thumb.instructionSet target width source)

/-! ### Files -/

/-- The text of a source file. -/
def decodeSource (bytes : List UInt8) : Action Text :=
  match Utf8.decode bytes with
  | .ok t => return t.normalizeBreaks
  | .error d => throw (.decoding d)

/-- The target of a choice, which must name one. -/
def chosenTarget : TargetChoice → Action Target
  | some t => return t
  | none => throw (.valueless .target)

/-- Assembles the bytes of one source file. -/
def assembleFile (c : AssembleCommand) (width : RowWidth) (source : Path) (bytes : List UInt8)
    (image : Option Path) : Action Int := do
  let text ← decodeSource bytes
  match ← assembleLogged (← chosenTarget c.target) width text with
  | .failure d =>
      Action.printError (d.format (some source.render))
      return exitRejected
  | .success output program words =>
      if c.listing then Action.printLine (← Action.compute (listing program words))
      match image with
      | some path =>
          Action.change fun d => d.write path (Utf8.encode output)
          Action.log (writtenRecord words source path)
      | none => if !c.listing then Action.printLine output
      return exitOk

/-- The order of texts by their code points. -/
def Text.precedes : Text → Text → Bool
  | [], _ => true
  | _ :: _, [] => false
  | a :: s, b :: t => a.toNat < b.toNat || (a.toNat = b.toNat && Text.precedes s t)

/-- The source files of a directory, in the order of their names. -/
def sourceFiles (d : Disk) (folder : Path) : Except FileFailure (List Path) := do
  let names := (d.names (← d.locate folder)).mergeSort Text.precedes
  (names.map folder.child).filterM fun p =>
    if p.suffix = sourceSuffix then do return (← d.file? p).isSome else return false

/-- Assembles source files one after the other; the last failure decides the exit code. -/
def assembleFiles (c : AssembleCommand) (width : RowWidth) (status : Int) :
    List Path → Action Int
  | [] => return status
  | source :: rest => do
      let bytes ← Action.ask fun d => d.file? source
      let code ← assembleFile c width source (bytes.getD []) (some (source.withSuffix imageSuffix))
      assembleFiles c width (if code = exitOk then status else code) rest

/-- Assembles every source file of a directory. -/
def assembleDirectory (c : AssembleCommand) (width : RowWidth) (folder : Path) : Action Int := do
  match ← Action.ask fun d => sourceFiles d folder with
  | [] =>
      Action.log (emptyDirectoryRecord folder)
      return exitOk
  | sources => assembleFiles c width exitOk sources

/-- The output path that was asked for; an empty one counts as none. -/
def AssembleCommand.outputPath (c : AssembleCommand) : Option Path :=
  match c.output with
  | some path => if path.isEmpty then none else some (Path.ofText path)
  | none => none

/-- Assembles a path: a file, or every source file of a directory. -/
def assemblePath (c : AssembleCommand) (width : RowWidth) : Action Int := do
  let path := Path.ofText c.input
  if ← Action.ask fun d => d.isDirectory path then
    if c.outputPath.isSome then
      Action.printError "Error: -o cannot be used with a directory input".toList
      return exitUsage
    else assembleDirectory c width path
  else
    match ← Action.ask fun d => d.file? path with
    | some bytes => assembleFile c width path bytes c.outputPath
    | none =>
        Action.printError ("Error: File not found: ".toList ++ path.render)
        return exitUsage

/-- The assemble command; a row width must be positive. -/
def runAssemble (c : AssembleCommand) : Action Int :=
  match c.rowWidth with
  | .valueless => throw (.valueless .rowWidth)
  | .absent => assemblePath c none
  | .given n =>
      if n < 1 then do
        Action.printError "Error: --per-line must be at least 1".toList
        return exitUsage
      else assemblePath c (some n)

/-! ### Snippets -/

/-- The word of an instruction in hexadecimal and binary, and the instruction. -/
def snippetRow (pair : Instruction × Int) : Except Fault Text := do
  return wordText pair.2 ++ "  ".toList ++ wordBinary pair.2 ++ "  ".toList ++ (← pair.1.printed)

/-- One row for every instruction of a snippet, or the diagnostic; and whether it was accepted. -/
def describeSnippet (target : TargetChoice) (snippet : Text) : Action (Bool × Text) := do
  match ← assembleLogged (← chosenTarget target) none snippet with
  | .failure d => return (false, d.format (some "<snippet>".toList))
  | .success _ program words =>
      let rows ← Action.compute ((program.instructions.zip words).mapM snippetRow)
      return (true, Text.joined "\n".toList rows)

/-- The print command. -/
def runPrint (target : TargetChoice) (snippet : Text) : Action Int := do
  match ← describeSnippet target snippet with
  | (false, text) =>
      Action.printError text
      return exitRejected
  | (true, text) =>
      if !text.isEmpty then Action.printLine text
      return exitOk

/-! ### The interactive command -/

/-- The word that ends the interactive command. -/
def exitWord : Text := "exit".toList

/-- The name of a chosen target, or a pair of brackets. -/
def TargetChoice.title : TargetChoice → Text
  | some t => t.name
  | none => "[]".toList

/-- The greeting of the interactive command. -/
def greeting (target : TargetChoice) : Text :=
  versionText ++ " (".toList ++ TargetChoice.title target ++ "); type ".toList ++
    Text.inQuotes exitWord ++ " to quit".toList

/-- What stands in front of every line that is read. -/
def prompt : Text := "> ".toList

/-- Answers one line, and says whether to go on. -/
def answerLine (target : TargetChoice) (line : Text) : Action Bool := do
  if line.trim.lower = exitWord then return false
  else if line.trim.isEmpty then return true
  else
    let (_, text) ← describeSnippet target line
    if !text.isEmpty then Action.printLine text
    return true

/-- Answers lines up to the exit word; at the end of the input it prints an empty line. -/
def answerLines (target : TargetChoice) : List Text → Action Unit
  | [] => do
      Action.printText prompt
      Action.printLine []
  | line :: rest => do
      Action.printText prompt
      if ← answerLine target line then answerLines target rest

/-- The lines of an input, each ended by a line feed; the last may lack it. -/
def inputLines (input : Text) : List Text :=
  let lines := splitAtChar '\n' input
  if lines.getLast? = some [] then lines.dropLast else lines

/-- The interactive command on a whole input. -/
def runRepl (target : TargetChoice) (input : Text) : Action Int := do
  Action.printLine (greeting target)
  answerLines target (inputLines input)
  return exitOk

/-! ### The program -/

/-- Runs a command. -/
def runCommand (input : Text) : Command → Action Int
  | .assemble c => runAssemble c
  | .print snippet target => runPrint target snippet
  | .repl target => runRepl target input

/-- An action in which an error of the file system is reported and ends the program. -/
def reportingFileErrors (action : Action Int) : Action Int :=
  tryCatch action fun
    | .file .nullInPath => throw (.file .nullInPath)
    | .file f => do
        Action.printError ("I/O error: ".toList ++ f.message)
        return exitUsage
    | stop => throw stop

/-- The log file that a request asks for. -/
def Request.logPath (r : Request) : Action (Option Text) :=
  match r.logFile with
  | .absent => return none
  | .valueless => throw (.valueless .logFile)
  | .given path => return some path

/-- Sets up logging as a request says, and logs its command. -/
def startLogging (r : Request) (c : Command) : Action Unit := do
  setUpLogging
    { name := libraryLogger
      consoleLevel := Level.ofVerbosity r.verbosity
      logFile := ← r.logPath }
  Action.log (commandRecord c)

/-- Runs the command of a request with its logging set up. -/
def runRequest (r : Request) (c : Command) (input : Text) : Action Int := do
  startLogging r c
  reportingFileErrors (runCommand input c)

/-- How a run of the program ends: with an exit code, early by an option or a mistake, or by a stop
that nothing handles. -/
inductive Ending where
  | exit (code : Int)
  | halted (code : Int)
  | stopped (s : Stop)
  deriving DecidableEq, Repr

/-- A run of the program with the given arguments and input. -/
def run (args : List Text) (input : Text) (w : Workspace) : Ending × Workspace :=
  match parseRequest args with
  | .error h =>
      (.halted h.code,
        { w with output := w.output ++ h.output, errors := w.errors ++ h.complaint })
  | .ok r =>
      match r.command with
      | none => (.exit exitUsage, { w with output := w.output ++ Manual.program.help })
      | some c =>
          match (runRequest r c input).run.run w with
          | (.ok code, w) => (.exit code, w)
          | (.error s, w) => (.stopped s, w)

end ThumbAssembler
