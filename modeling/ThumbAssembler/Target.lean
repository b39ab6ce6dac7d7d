/-
**Targets.**

A target fixes what depends on the processor that an image is loaded into: by how many words the
processor reads ahead of a branch, and how the image is laid out.

Main definitions:

* `ThumbAssembler.Target` — a target;
* `ThumbAssembler.Target.all` — the targets that have a name;
* `ThumbAssembler.Target.ofName?` — the target of a name.
-/

import ThumbAssembler.Image

set_option autoImplicit false

namespace ThumbAssembler

/-- A target: the words between a branch and the base of its offset, and the image layout. -/
structure Target where
  name : Text
  description : Text
  bias : Int
  header : Text := rawHeader
  rowWidth : RowWidth := none
  deriving DecidableEq, Repr

namespace Target

/-- The processor whose memory is loaded from the image. -/
def parm : Target where
  name := "parm".toList
  description := "PARM processor (Logisim-evolution), PC reads branch address + 3".toList
  bias := 3

/-- The architectural Thumb processor. -/
def armv6m : Target where
  name := "armv6m".toList
  description := "Architectural Thumb (ARMv6-M), PC reads branch address + 4 bytes".toList
  bias := 2

/-- The targets that have a name; the first is the default. -/
def all : List Target := [parm, armv6m]

/-- The target that is used when none is named. -/
def standard : Target := parm

/-- The names of the targets, in order. -/
def names : List Text := all.map Target.name

/-- The target of a name. -/
def ofName? (name : Text) : Option Target := all.find? fun t => t.name = name

/-- The wording of a name that no target has. -/
def unknownMessage (name : Text) : Text :=
  "Unknown target ".toList ++ Text.inQuotes name ++ " (known: ".toList ++
    Text.joined ", ".toList names ++ ")".toList

end Target

end ThumbAssembler
