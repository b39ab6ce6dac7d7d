/-
**Condition codes.**

A conditional branch carries one of fifteen conditions in four bits.  A condition is written by a
name of two letters in either case; two of them have a second name.

Main definitions:

* `ThumbAssembler.Condition` — the conditions;
* `ThumbAssembler.Condition.code` — the four bits of a condition;
* `ThumbAssembler.Condition.ofName?` — the condition that a name denotes.

Main results:

* `ThumbAssembler.Condition.code_lt` — no condition has the code fifteen.
-/

import ThumbAssembler.Text.Case

set_option autoImplicit false

namespace ThumbAssembler

/-- The conditions of a conditional branch, in the order of their codes. -/
inductive Condition where
  | eq | ne | cs | cc | mi | pl | vs | vc | hi | ls | ge | lt | gt | le | al
  deriving DecidableEq, Repr

namespace Condition

/-- All conditions, in the order of their codes. -/
def all : List Condition := [eq, ne, cs, cc, mi, pl, vs, vc, hi, ls, ge, lt, gt, le, al]

/-- The four bits of a condition. -/
def code : Condition → Int
  | eq => 0x0
  | ne => 0x1
  | cs => 0x2
  | cc => 0x3
  | mi => 0x4
  | pl => 0x5
  | vs => 0x6
  | vc => 0x7
  | hi => 0x8
  | ls => 0x9
  | ge => 0xA
  | lt => 0xB
  | gt => 0xC
  | le => 0xD
  | al => 0xE

/-- The name of a condition, in capitals. -/
def name : Condition → Text
  | eq => "EQ".toList
  | ne => "NE".toList
  | cs => "CS".toList
  | cc => "CC".toList
  | mi => "MI".toList
  | pl => "PL".toList
  | vs => "VS".toList
  | vc => "VC".toList
  | hi => "HI".toList
  | ls => "LS".toList
  | ge => "GE".toList
  | lt => "LT".toList
  | gt => "GT".toList
  | le => "LE".toList
  | al => "AL".toList

/-- The second names: unsigned "higher or same" and "lower". -/
def aliases : List (Text × Condition) := [("HS".toList, cs), ("LO".toList, cc)]

/-- The condition that a name in capitals denotes. -/
def ofCapitals? (t : Text) : Option Condition :=
  match all.find? fun c => c.name = t with
  | some c => some c
  | none => aliases.lookup t

/-- The condition that a name denotes, in either letter case. -/
def ofName? (t : Text) : Option Condition := ofCapitals? t.upper

theorem code_lt (c : Condition) : 0 ≤ c.code ∧ c.code < 15 := by
  cases c <;> decide

end Condition

end ThumbAssembler
