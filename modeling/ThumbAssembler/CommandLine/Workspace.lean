/-
**The surroundings of a command.**

A command runs in a workspace: a disk, the loggers, and what has been printed so far.  Actions
change the workspace and may stop for a reason; what they changed before they stopped remains.

Main definitions:

* `ThumbAssembler.Workspace` — a workspace;
* `ThumbAssembler.Stop` — why an action stops;
* `ThumbAssembler.Action` — a change of the workspace that may stop;
* `ThumbAssembler.Workspace.log` — a workspace after a record was made;
* `ThumbAssembler.LogSetup`, `ThumbAssembler.setUpLogging` — settings of a logger.
-/

import ThumbAssembler.Fault
import ThumbAssembler.Journal.Logger

set_option autoImplicit false

namespace ThumbAssembler

/-- A disk, the loggers, the records on the console panel, and what was printed. -/
structure Workspace where
  disk : Disk
  journal : Journal := {}
  panel : List Record := []
  output : Text := []
  errors : Text := []
  deriving DecidableEq, Repr

/-- The options whose values are needed once they are given. -/
inductive NeededValue where
  | logFile | target | rowWidth
  deriving DecidableEq, Repr

/-- The wording of a missing value. -/
def NeededValue.message : NeededValue → Text
  | logFile => "expected str, bytes or os.PathLike object, not list".toList
  | target => "unhashable type: 'list'".toList
  | rowWidth => "'<' not supported between instances of 'list' and 'int'".toList

/-- Why an action stops. -/
inductive Stop where
  | file (f : FileFailure)
  | decoding (d : Utf8.Defect)
  | fault (f : Fault)
  /-- An option was given without the value that is now needed. -/
  | valueless (v : NeededValue)
  deriving DecidableEq, Repr

/-- The wording of a stop. -/
def Stop.message : Stop → Text
  | file f => f.message
  | decoding d => d.message
  | fault f => f.message
  | valueless v => v.message

/-- A change of the workspace that may stop; a stop keeps what was changed before it. -/
abbrev Action := ExceptT Stop (StateM Workspace)

namespace Workspace

/-- The workspace after a record went to one place. -/
def deliver (r : Record) (w : Workspace) : Journal.Delivery → Workspace
  | .to .panel => { w with panel := w.panel ++ [r] }
  | .to .stream => { w with errors := w.errors ++ r.streamLine }
  | .to (.file l) => { w with disk := w.disk.append l (Utf8.encode r.fileLine) }
  | .lastResort => { w with errors := w.errors ++ r.message ++ ['\n'] }

/-- The workspace after a record was made. -/
def log (w : Workspace) (r : Record) : Workspace :=
  let journal := w.journal.after r
  (journal.deliveries r).foldl (deliver r) { w with journal := journal }

end Workspace

namespace Action

/-- Makes a record. -/
def log (r : Record) : Action Unit := modify fun w => w.log r

/-- Makes records, in order. -/
def logAll (rs : List Record) : Action Unit := modify fun w => rs.foldl Workspace.log w

/-- Prints a line. -/
def printLine (t : Text) : Action Unit :=
  modify fun w => { w with output := w.output ++ t ++ ['\n'] }

/-- Prints a text without a line feed. -/
def printText (t : Text) : Action Unit := modify fun w => { w with output := w.output ++ t }

/-- Prints a line on the error stream. -/
def printError (t : Text) : Action Unit :=
  modify fun w => { w with errors := w.errors ++ t ++ ['\n'] }

/-- The value of a question about the disk. -/
def ask {α : Type} (question : Disk → Except FileFailure α) : Action α := do
  match question (← get).disk with
  | .ok a => return a
  | .error f => throw (.file f)

/-- Changes the disk. -/
def change (f : Disk → Except FileFailure Disk) : Action Unit := do
  let disk ← ask f
  modify fun w => { w with disk := disk }

/-- The value of a computation that may meet a fault. -/
def compute {α : Type} : Except Fault α → Action α
  | .ok a => return a
  | .error f => throw (.fault f)

end Action

/-! ### Setting up loggers -/

/-- The settings of a logger: its level, the level of its console handler, its log file and the sort
of its console handler. -/
structure LogSetup where
  name : Text
  level : Int := Level.debug
  consoleLevel : Int := Level.warning
  logFile : Option Text := none
  panel : Bool := true

/-- The record at the end of a set-up. -/
def LogSetup.record (s : LogSetup) : Record :=
  ⟨Level.debug, Journal.shownName (Journal.key s.name),
    "Logger initialized: ".toList ++ s.name ++ " (console ".toList ++ Level.name s.consoleLevel ++
      ", file ".toList ++
      (match s.logFile with
        | none => "none".toList
        | some path => if path.isEmpty then "none".toList else path) ++
      ")".toList⟩

/-- Opens a log file, which is made if it is missing, along with the directories above it. -/
def openLogFile (path : Text) : Action Handler := do
  Action.change fun d => d.ensureDirectory (Path.ofText path).parent
  let full := (← get).disk.absolute (Path.ofText path)
  let location ← Action.ask fun d => d.locate full
  Action.change fun d => d.updateAt location full.render id
  return ⟨.file location, Level.debug⟩

/-- The handlers of a set-up: the log file first, then the console. -/
def LogSetup.handlers (s : LogSetup) : Action (List Handler) := do
  let console : Handler := ⟨if s.panel then .panel else .stream, s.consoleLevel⟩
  match s.logFile with
  | none => return [console]
  | some path => return [← openLogFile path, console]

/-- Gives a logger the handlers of a set-up in place of those it had.  The logger passes nothing on;
a log file that cannot be opened leaves it without handlers. -/
def setUpLogging (s : LogSetup) : Action Unit := do
  modify fun w => { w with journal := w.journal.configure s.name s.level [] }
  let handlers ← s.handlers
  modify fun w => { w with journal := w.journal.configure s.name s.level handlers }
  Action.log s.record

end ThumbAssembler
