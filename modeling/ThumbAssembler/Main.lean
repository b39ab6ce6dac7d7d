/-
**The program.**

The program takes a snapshot of the files that its arguments name, runs the command on it, prints
what the command printed and writes the files that it changed.  The interactive command does so line
by line.

Main definitions:

* `ThumbAssembler.snapshot` — the part of the disk that a request can touch;
* `ThumbAssembler.settle` — what a workspace printed and changed is carried out;
* `main` — the program.
-/

import ThumbAssembler.CommandLine.Run

set_option autoImplicit false

namespace ThumbAssembler

/-! ### Reading the disk -/

/-- A location as an absolute path. -/
def locationText (l : Location) : String := String.ofList ('/' :: Text.joined "/".toList l)

/-- The node at a location; the bytes of a file are read. -/
def observe (home : Location) (l : Location) : IO (Option Node) := do
  let path := (← IO.currentDir) / (if l = home then "." else locationText l)
  if !(← path.pathExists) then return none
  match (← path.metadata).type with
  | .dir => return some .directory
  | .file =>
      try return some (.file (← IO.FS.readBinFile path).toList)
      catch _ => return some (.deviceAt l)
  | _ => return some (.deviceAt l)

/-- The disk with what is found at a location. -/
def observeInto (d : Disk) (l : Location) : IO Disk := do
  match ← observe d.home l with
  | some n => return d.put l n
  | none => return d

/-- The locations that a path passes through. -/
def locationsOf (d : Disk) (p : Path) : List Location :=
  (p.parts.foldl
    (fun passed part => passed ++ [Disk.step (passed.getLast?.getD []) part])
    [if p.isAbsolute then [] else d.home])

/-- The disk with what is found along a path. -/
def observePath (d : Disk) (p : Path) : IO Disk :=
  (locationsOf d p ++ locationsOf d (d.absolute p)).foldlM observeInto d

/-- The disk with what is found in the directory that a path leads to. -/
def observeChildren (d : Disk) (p : Path) : IO Disk := do
  match d.locate p with
  | .error _ => return d
  | .ok l =>
      let path := (← IO.currentDir) / locationText l
      if ← path.isDir then
        (← path.readDir).toList.foldlM
          (fun d entry => observeInto d (l ++ [entry.fileName.toList])) d
      else return d

/-- The paths that a request names. -/
def Request.paths (r : Request) : List Path :=
  ((match r.logFile with
    | .given path => [path]
    | _ => []) ++
    match r.command with
    | some (.assemble c) => c.input :: c.output.toList
    | _ => []).map Path.ofText

/-- The part of the disk that a request can touch. -/
def snapshot (r : Request) : IO Disk := do
  let home := (Path.ofText (← IO.currentDir).toString.toList).parts
  let above := (List.range (home.length + 1)).map fun n => (home.take n, Node.directory)
  let d ← r.paths.foldlM observePath { nodes := above.drop 1, home := home }
  match r.command with
  | some (.assemble c) => observeChildren d (Path.ofText c.input)
  | _ => return d

/-! ### Carrying out changes -/

/-- Writes the nodes that differ from those before. -/
def commit (before : Disk) (after : Disk) : IO Unit := do
  for (l, n) in after.nodes do
    if before.node? l ≠ some n then
      match n with
      | .file bytes => IO.FS.writeBinFile (locationText l) ⟨bytes.toArray⟩
      | .directory => IO.FS.createDirAll (locationText l)
      | _ => pure ()

/-- Carries out what a workspace printed and changed, and clears what was printed. -/
def settle (before : Disk) (w : Workspace) : IO Workspace := do
  let stdout ← IO.getStdout
  stdout.putStr (String.ofList w.output)
  stdout.flush
  for r in w.panel do
    IO.eprint (String.ofList r.streamLine)
  IO.eprint (String.ofList w.errors)
  commit before w.disk
  return { w with output := [], errors := [], panel := [] }

/-- The exit code of an ending; a stop that nothing handles is reported. -/
def finish : Ending → IO UInt32
  | .exit code => return code.toNat.toUInt32
  | .halted code => return code.toNat.toUInt32
  | .stopped s => do
      IO.eprintln (String.ofList s.message)
      return 1

/-! ### The interactive command -/

/-- Carries out an action; a stop ends the program. -/
def perform {α : Type} (w : Workspace) (action : Action α) : IO (Except UInt32 α × Workspace) := do
  match action.run.run w with
  | (.ok a, after) => return (.ok a, ← settle w.disk after)
  | (.error s, after) =>
      let after ← settle w.disk after
      return (.error (← finish (.stopped s)), after)

/-- Reads and answers lines until the exit word or the end of the input. -/
partial def converse (target : TargetChoice) (w : Workspace) : IO UInt32 := do
  let (_, w) ← perform w (Action.printText prompt)
  let line ← (← IO.getStdin).getLine
  if line.isEmpty then
    let _ ← perform w (Action.printLine [])
    return 0
  else
    match ← perform w (answerLine target (dropFinalLineFeed line.toList)) with
    | (.ok true, w) => converse target w
    | (.ok false, _) => return 0
    | (.error code, _) => return code

/-- The interactive command, line by line. -/
def interact (r : Request) (target : TargetChoice) (w : Workspace) : IO UInt32 := do
  match ← perform w (do startLogging r (.repl target); Action.printLine (greeting target)) with
  | (.ok _, w) => converse target w
  | (.error code, _) => return code

end ThumbAssembler

open ThumbAssembler in
/-- The program. -/
def main (args : List String) : IO UInt32 := do
  let arguments := args.map String.toList
  match parseRequest arguments with
  | .ok r =>
      let w : Workspace := { disk := ← snapshot r }
      match r.command with
      | some (.repl target) => interact r target w
      | _ =>
          let (ending, after) := run arguments [] w
          let _ ← settle w.disk after
          finish ending
  | .error _ =>
      let w : Workspace := { disk := { nodes := [], home := [] } }
      let (ending, after) := run arguments [] w
      let _ ← settle w.disk after
      finish ending
