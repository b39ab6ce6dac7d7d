/-
**What a command line asks for.**

The program's options come first, then a command with options and an argument of its own.  Help and
the version end the program at once, in the order in which they are met; so does a mistake.
Arguments that nobody wants are reported last.  An option may be given without the value that it
takes; that comes to light when the value is used.

Main definitions:

* `ThumbAssembler.Setting` — the value of an option, which may be absent or missing;
* `ThumbAssembler.Command` — what to do;
* `ThumbAssembler.Request` — how much to log, and what to do;
* `ThumbAssembler.Halt` — an early end: what is printed, and the exit code;
* `ThumbAssembler.parseRequest` — the request that a list of arguments makes.
-/

import ThumbAssembler.CommandLine.Count
import ThumbAssembler.CommandLine.Usage

set_option autoImplicit false

namespace ThumbAssembler

/-- The value of an option: the option is absent, it was given without its value, or with it. -/
inductive Setting (α : Type) where
  | absent
  | valueless
  | given (value : α)
  deriving DecidableEq, Repr

/-- The setting that an option leads to. -/
def Setting.ofValue {α : Type} : Option α → Setting α
  | some value => .given value
  | none => .valueless

/-- The choice of a target; nothing if it was asked for without naming one. -/
abbrev TargetChoice := Option Target

/-- What to assemble and where the result goes. -/
structure AssembleCommand where
  input : Text
  output : Option Text := none
  target : TargetChoice := some Target.standard
  rowWidth : Setting Int := .absent
  listing : Bool := false

/-- What to do. -/
inductive Command where
  | assemble (c : AssembleCommand)
  | print (snippet : Text) (target : TargetChoice)
  | repl (target : TargetChoice)

/-- The word that selects a command. -/
def Command.word : Command → Text
  | assemble _ => Manual.assemble.word
  | print _ _ => Manual.print.word
  | repl _ => Manual.repl.word

/-- How much to log, and what to do. -/
structure Request where
  verbosity : Int := 0
  logFile : Setting Text := .absent
  command : Option Command := none

/-- An early end of the program: what it prints, and its exit code. -/
structure Halt where
  output : Text := []
  complaint : Text := []
  code : Int
  deriving DecidableEq, Repr

namespace Halt

/-- Help was asked for. -/
def help (m : Manual) : Halt := { output := m.help, code := 0 }

/-- The version was asked for. -/
def version : Halt := { output := versionText ++ ['\n'], code := 0 }

/-- A mistake was made. -/
def mistaken (m : Manual) (mistake : Mistake) : Halt :=
  { complaint := m.complaint mistake, code := 2 }

end Halt

/-! ### Options of the commands -/

/-- The options of the commands. -/
inductive CommandOption where
  | help | output | target | perLine | listing
  deriving DecidableEq, Repr

/-- The option that selects a target. -/
def targetSwitch : Switch CommandOption := ⟨.target, ["--target".toList], true⟩

/-- The options of a command. -/
def Manual.switches : Manual → List (Switch CommandOption)
  | .assemble =>
      [⟨.help, ["-h".toList, "--help".toList], false⟩,
       ⟨.output, ["-o".toList, "--output".toList], true⟩,
       targetSwitch,
       ⟨.perLine, ["--per-line".toList], true⟩,
       ⟨.listing, ["--listing".toList], false⟩]
  | _ => [⟨.help, ["-h".toList, "--help".toList], false⟩, targetSwitch]

/-- The argument that a command requires. -/
def Manual.argument : Manual → Option Text
  | .assemble => some "input".toList
  | .print => some "instruction".toList
  | _ => none

/-- What the options of a command have said so far. -/
structure Settings where
  argument : Option Text := none
  output : Option Text := none
  target : TargetChoice := some Target.standard
  rowWidth : Setting Int := .absent
  listing : Bool := false

/-- The target that a value names. -/
def readTarget (m : Manual) (value : Text) : Except Halt Target :=
  match Target.ofName? value with
  | some t => .ok t
  | none => .error (.mistaken m (.invalidChoice targetSwitch.title value Target.names))

/-- The row width that a value denotes. -/
def readRowWidth (m : Manual) (value : Text) : Except Halt Int :=
  match integer? value with
  | some n => .ok n
  | none => .error (.mistaken m (.invalidInteger "--per-line".toList value))

/-- The settings after an option of a command, with its value if there is one. -/
def Settings.takeOption (s : Settings) (m : Manual) (value : Option Text) :
    CommandOption → Except Halt Settings
  | .help => .error (.help m)
  | .output => .ok { s with output := value }
  | .listing => .ok { s with listing := true }
  | .target => do return { s with target := ← value.mapM (readTarget m) }
  | .perLine => do
      return { s with rowWidth := Setting.ofValue (← value.mapM (readRowWidth m)) }

/-- The settings after something was met on the command line. -/
def Settings.take (m : Manual) (s : Settings) : Met CommandOption → Except Halt Settings
  | .option purpose value => s.takeOption m value purpose
  | .positional arguments => .ok { s with argument := (arguments.erase endMark).head? }

/-- The mistake at the end of reading: one that was met, or a missing argument. -/
def endMistake? (required : Option Text) (present : Bool) : Option Mistake → Option Mistake
  | some mistake => some mistake
  | none =>
      match required, present with
      | some name, false => some (.argumentsMissing [name])
      | _, _ => none

/-- The command with the given settings. -/
def Settings.command (s : Settings) : Manual → Option Command
  | .assemble => some (.assemble ⟨s.argument.getD [], s.output, s.target, s.rowWidth, s.listing⟩)
  | .print => some (.print (s.argument.getD []) s.target)
  | .repl => some (.repl s.target)
  | .program => none

/-- The command that arguments after its word describe, and the arguments that it does not want. -/
def parseCommand (m : Manual) (args : List Text) :
    Except Halt (Option Command × List Text) := do
  let expected := if m.argument.isSome then Positional.single else .nothing
  let found := readArguments m.switches expected args
  let settings ← found.met.foldlM (Settings.take m) {}
  match endMistake? m.argument settings.argument.isSome found.mistake with
  | some mistake => .error (.mistaken m mistake)
  | none => return (settings.command m, found.extras)

/-! ### Options of the program -/

/-- The options of the program as a whole. -/
inductive ProgramOption where
  | help | version | verbose | logFile
  deriving DecidableEq, Repr

/-- The options of the program, with their names. -/
def programSwitches : List (Switch ProgramOption) :=
  [⟨.help, ["-h".toList, "--help".toList], false⟩,
   ⟨.version, ["--version".toList], false⟩,
   ⟨.verbose, ["-v".toList, "--verbose".toList], false⟩,
   ⟨.logFile, ["--log-file".toList], true⟩]

/-- The request so far, and the arguments that a command did not want. -/
structure Draft where
  request : Request := {}
  extras : List Text := []

/-- The draft after the word of a command and the arguments that follow it. -/
def Draft.takeCommand (d : Draft) (arguments : List Text) : Except Halt Draft :=
  let chosen := arguments.head?.getD []
  match Manual.commands.find? fun m => m.word = chosen with
  | none =>
      .error (.mistaken .program
        (.invalidChoice "command".toList chosen (Manual.commands.map Manual.word)))
  | some m => do
      let (command, extras) ← parseCommand m arguments.tail
      return { request := { d.request with command := command }, extras := extras }

/-- The draft after something was met on the command line. -/
def Draft.take (d : Draft) : Met ProgramOption → Except Halt Draft
  | .option .help _ => .error (.help .program)
  | .option .version _ => .error .version
  | .option .verbose _ =>
      .ok { d with request := { d.request with verbosity := d.request.verbosity + 1 } }
  | .option .logFile value =>
      .ok { d with request := { d.request with logFile := Setting.ofValue value } }
  | .positional arguments => d.takeCommand arguments

/-- The request that a list of arguments makes. -/
def parseRequest (args : List Text) : Except Halt Request := do
  let found := readArguments programSwitches .remainder args
  let draft ← found.met.foldlM Draft.take {}
  match found.mistake with
  | some mistake => .error (.mistaken .program mistake)
  | none =>
      let extras := found.extras ++ draft.extras
      if extras.isEmpty then return draft.request
      else .error (.mistaken .program (.unrecognized extras))

end ThumbAssembler
