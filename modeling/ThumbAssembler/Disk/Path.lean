/-
**Paths.**

A path is a root (nothing for a relative path) and a list of parts.  Empty parts and single dots
vanish when a path is read; double dots stay.  The path without root and parts is the working
directory itself and is written as a dot.

Main definitions:

* `ThumbAssembler.Path` — a path;
* `ThumbAssembler.Path.ofText`, `ThumbAssembler.Path.render` — reading and writing paths;
* `ThumbAssembler.Path.parent`, `ThumbAssembler.Path.child` — up and down;
* `ThumbAssembler.Path.suffix`, `ThumbAssembler.Path.withSuffix` — the ending of the last part.
-/

import ThumbAssembler.Text.Basic

set_option autoImplicit false

namespace ThumbAssembler

/-- A root and a list of parts. -/
structure Path where
  root : Text
  parts : List Text
  deriving DecidableEq, Repr

/-- Cuts a text at every occurrence of a character. -/
def splitAtChar (mark : Char) : Text → List Text
  | [] => [[]]
  | c :: rest =>
      match splitAtChar mark rest with
      | [] => [[c]]
      | part :: parts => if c = mark then [] :: part :: parts else (c :: part) :: parts

/-- The part of a path that stands for the directory above. -/
def parentPart : Text := "..".toList

namespace Path

/-- The root of a path: exactly two slashes are kept, and any other number counts as one. -/
def rootOf (t : Text) : Text :=
  match (t.takeWhile (· = '/')).length with
  | 0 => []
  | 2 => "//".toList
  | _ => "/".toList

/-- The path that a text denotes. -/
def ofText (t : Text) : Path where
  root := rootOf t
  parts := (splitAtChar '/' t).filter fun part => part ≠ [] ∧ part ≠ ".".toList

/-- A path as text. -/
def render (p : Path) : Text :=
  if p.root.isEmpty ∧ p.parts.isEmpty then ".".toList
  else p.root ++ Text.joined "/".toList p.parts

/-- The path does not start at the working directory. -/
def isAbsolute (p : Path) : Bool := !p.root.isEmpty

/-- The path without its last part. -/
def parent (p : Path) : Path := { p with parts := p.parts.dropLast }

/-- The path with one more part. -/
def child (p : Path) (name : Text) : Path := { p with parts := p.parts ++ [name] }

/-- The last part; empty if there is none. -/
def name (p : Path) : Text := p.parts.getLast?.getD []

end Path

/-- A file name before and from its last full stop; a full stop at either end separates nothing. -/
def splitSuffix (name : Text) : Text × Text :=
  let ending := (name.reverse.takeWhile (· ≠ '.')).reverse
  let stem := name.take (name.length - ending.length - 1)
  if stem ≠ [] ∧ ending ≠ [] ∧ ending.length < name.length then (stem, '.' :: ending)
  else (name, [])

namespace Path

/-- The ending of the last part, with its full stop. -/
def suffix (p : Path) : Text := (splitSuffix p.name).2

/-- The path with another ending of its last part. -/
def withSuffix (p : Path) (ending : Text) : Path :=
  { p with parts := p.parts.dropLast ++ [(splitSuffix p.name).1 ++ ending] }

end Path

end ThumbAssembler
