/-
**Files and directories.**

A disk maps locations, which are lists of names from the top, to nodes: files with their bytes,
directories, and devices that keep nothing.  There are no links: a location holds one node, and no
two locations hold the same one.  A path is followed part by part from the working directory or from
the top; every part but the last must lead to a directory.

Main definitions:

* `ThumbAssembler.Node`, `ThumbAssembler.Disk` — nodes and disks;
* `ThumbAssembler.FileError` — why a path cannot be followed or used;
* `ThumbAssembler.Disk.locate` — the location that a path leads to;
* `ThumbAssembler.Disk.write`, `ThumbAssembler.Disk.makeDirectory`,
  `ThumbAssembler.Disk.ensureDirectory`, `ThumbAssembler.Disk.append` — changes.

Main results:

* `ThumbAssembler.Disk.node?_put_of_ne` — putting a node leaves every other location as it was.
-/

import ThumbAssembler.Assoc
import ThumbAssembler.Disk.Path
import ThumbAssembler.Text.Utf8

set_option autoImplicit false

namespace ThumbAssembler

/-- What a location can hold; links are left out. -/
inductive Node where
  | file (bytes : List UInt8)
  | directory
  /-- A device: neither a file nor a directory, and what is written to it is lost. -/
  | device
  /-- A device that has no room for anything. -/
  | fullDevice
  deriving DecidableEq, Repr

/-- The names that lead from the top to a node. -/
abbrev Location := List Text

/-- The device at a location: the one named `full` takes nothing, any other takes all. -/
def Node.deviceAt (l : Location) : Node :=
  if l = ["dev".toList, "full".toList] then .fullDevice else .device

/-- The nodes of a disk, and the location of the working directory. -/
structure Disk where
  nodes : List (Location × Node)
  home : Location
  deriving DecidableEq, Repr

/-- Why a path cannot be followed or used. -/
inductive FileError where
  | notFound | alreadyThere | notDirectory | isDirectory | nameTooLong
  deriving DecidableEq, Repr

/-- The number of an error. -/
def FileError.number : FileError → Int
  | notFound => 2
  | alreadyThere => 17
  | notDirectory => 20
  | isDirectory => 21
  | nameTooLong => 36

/-- The wording of an error. -/
def FileError.describe : FileError → Text
  | notFound => "No such file or directory".toList
  | alreadyThere => "File exists".toList
  | notDirectory => "Not a directory".toList
  | isDirectory => "Is a directory".toList
  | nameTooLong => "File name too long".toList

/-- An operation on a path failed: by an error of the file system, for want of room, or because a
path cannot hold the character NUL. -/
inductive FileFailure where
  | failed (error : FileError) (path : Text)
  | noSpace
  | nullInPath
  deriving DecidableEq, Repr

/-- The wording of a failure. -/
def FileFailure.message : FileFailure → Text
  | failed error path =>
      "[Errno ".toList ++ decimal error.number ++ "] ".toList ++ error.describe ++ ": ".toList ++
        Text.quoted path
  | noSpace => "[Errno 28] No space left on device".toList
  | nullInPath => "embedded null byte".toList

/-- The most bytes in the name of a node. -/
def maxNameBytes : Nat := 255

/-- The least number of bytes that no path may have. -/
def pathByteLimit : Nat := 4096

namespace Disk

/-- The node at a location; the top is a directory. -/
def node? (d : Disk) (l : Location) : Option Node :=
  if l.isEmpty then some .directory else Assoc.get? l d.nodes

/-- The disk with a node at a location. -/
def put (d : Disk) (l : Location) (n : Node) : Disk := { d with nodes := Assoc.put l n d.nodes }

/-- The location that a part leads to. -/
def step (l : Location) (part : Text) : Location :=
  if part = parentPart then l.dropLast else l ++ [part]

/-- The location that parts lead to; every location on the way must be a directory. -/
def walk (d : Disk) : Location → List Text → Except FileError Location
  | l, [] => .ok l
  | l, part :: rest =>
      match d.node? l with
      | none => .error .notFound
      | some .directory =>
          if maxNameBytes < (Utf8.encode part).length then .error .nameTooLong
          else d.walk (step l part) rest
      | some _ => .error .notDirectory

/-- The location that a path leads to; nothing need be there. -/
def locate (d : Disk) (p : Path) : Except FileFailure Location :=
  if p.render.contains '\x00' then .error .nullInPath
  else if pathByteLimit ≤ (Utf8.encode p.render).length then
    .error (.failed .nameTooLong p.render)
  else
    match d.walk (if p.isAbsolute then [] else d.home) p.parts with
    | .ok l => .ok l
    | .error e => .error (.failed e p.render)

/-- The node that a path leads to, if any; only an overlong name is a failure. -/
def nodeAt? (d : Disk) (p : Path) : Except FileFailure (Option Node) :=
  match d.locate p with
  | .ok l => .ok (d.node? l)
  | .error (.failed .nameTooLong path) => .error (.failed .nameTooLong path)
  | .error _ => .ok none

/-- The path leads to a directory. -/
def isDirectory (d : Disk) (p : Path) : Except FileFailure Bool := do
  return (← d.nodeAt? p) = some .directory

/-- The bytes of the file that a path leads to, if it leads to one. -/
def file? (d : Disk) (p : Path) : Except FileFailure (Option (List UInt8)) := do
  match ← d.nodeAt? p with
  | some (.file bytes) => return some bytes
  | _ => return none

/-- The names in the directory at a location. -/
def names (d : Disk) (l : Location) : List Text :=
  d.nodes.filterMap fun n =>
    if n.1.dropLast = l then n.1.getLast? else none

/-- The disk after a file has been opened at a location, with new bytes made of the old ones. -/
def updateAt (d : Disk) (l : Location) (path : Text) (update : List UInt8 → List UInt8) :
    Except FileFailure Disk :=
  match d.node? l with
  | some .directory => .error (.failed .isDirectory path)
  | some .device => .ok d
  | some .fullDevice => .ok d
  | some (.file bytes) => .ok (d.put l (.file (update bytes)))
  | none => .ok (d.put l (.file (update [])))

/-- The disk with a file that holds exactly the given bytes. -/
def write (d : Disk) (p : Path) (bytes : List UInt8) : Except FileFailure Disk := do
  let l ← d.locate p
  if d.node? l = some .fullDevice ∧ bytes ≠ [] then .error .noSpace
  else d.updateAt l p.render fun _ => bytes

/-- The disk with bytes at the end of the file at a location; other nodes stay as they are. -/
def append (d : Disk) (l : Location) (bytes : List UInt8) : Disk :=
  match d.node? l with
  | some (.file old) => d.put l (.file (old ++ bytes))
  | _ => d

/-- The disk with one more directory. -/
def makeDirectory (d : Disk) (p : Path) : Except FileFailure Disk := do
  let l ← d.locate p
  match d.node? l with
  | some _ => .error (.failed .alreadyThere p.render)
  | none => return d.put l .directory

/-- The disk with one more directory, unless it is there already. -/
def makeDirectoryIfMissing (d : Disk) (p : Path) : Except FileFailure Disk :=
  match d.makeDirectory p with
  | .ok d => .ok d
  | .error e =>
      match d.isDirectory p with
      | .ok true => .ok d
      | _ => .error e

/-- The disk with a directory and all directories above it, for the parts of a path in reverse. -/
def ensureFrom (root : Text) : List Text → Disk → Except FileFailure Disk
  | [], d => d.makeDirectoryIfMissing ⟨root, []⟩
  | part :: above, d =>
      let p : Path := ⟨root, (part :: above).reverse⟩
      match d.makeDirectory p with
      | .error (.failed .notFound _) => do (← ensureFrom root above d).makeDirectoryIfMissing p
      | _ => d.makeDirectoryIfMissing p

/-- The disk with a directory and all directories above it. -/
def ensureDirectory (d : Disk) (p : Path) : Except FileFailure Disk :=
  ensureFrom p.root p.parts.reverse d

/-- The parts of a path from the top, where double dots have been cancelled by the part before
them. -/
def absoluteParts (d : Disk) (p : Path) : List Text :=
  let start := if p.isAbsolute then [] else d.home
  p.parts.foldl (fun parts part => if part = parentPart then parts.dropLast else parts ++ [part])
    start

/-- A path from the top. -/
def absolute (d : Disk) (p : Path) : Path :=
  ⟨if p.root = "//".toList then "//".toList else "/".toList, d.absoluteParts p⟩

theorem node?_put_of_ne {d : Disk} {l l' : Location} (h : l ≠ l') (n : Node) :
    (d.put l n).node? l' = d.node? l' := by
  unfold node? put
  split
  · rfl
  · exact Assoc.get?_put_of_ne h n d.nodes

end Disk

end ThumbAssembler
