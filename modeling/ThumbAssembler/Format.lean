/-
**Instruction formats.**

A format lays out the sixteen bits of an instruction: constant opcode bits on top, fields below
them, and one slot per operand that says which shape the operand has and which field it feeds.  An
instruction set lists the formats of every mnemonic, and one further format is shared by all
conditional branches, whose mnemonics are `b` followed by a condition.

Main definitions:

* `ThumbAssembler.Slot`, `ThumbAssembler.Format` — operand slots and formats;
* `ThumbAssembler.InstructionSet` — the formats of every mnemonic;
* `ThumbAssembler.InstructionSet.lookup` — the candidate formats of a mnemonic and its condition;
* `ThumbAssembler.InstructionSet.register` — an instruction set with one more format;
* `ThumbAssembler.InstructionSet.isReserved` — the names that cannot be labels.
-/

import ThumbAssembler.Assoc
import ThumbAssembler.Condition
import ThumbAssembler.Fault

set_option autoImplicit false

namespace ThumbAssembler

/-- The bits of a word. -/
def wordBits : Int := 16

/-- The registers `r0` to `r7` can be named. -/
def registerCount : Int := 8

/-- The index names a register. -/
def isRegisterIndex (index : Int) : Bool := 0 ≤ index && index < registerCount

/-- One position of an operand list: the shape, the field that the operand feeds, the value it must
have, and the field whose register it must repeat. -/
structure Slot where
  kind : OperandKind
  field : Option Text := none
  fixed : Option Int := none
  tie : Option Text := none
  deriving DecidableEq, Repr

/-- The layout of an instruction word and the operands that fill it. -/
structure Format where
  name : Text
  mnemonic : Text
  opcode : Int
  opcodeWidth : Int
  fields : List Field
  slots : List Slot
  usage : Text
  branch : Bool := false
  conditional : Bool := false
  deriving DecidableEq, Repr

namespace Format

/-- The lowest opcode bit. -/
def opcodeOffset (f : Format) : Int := wordBits - f.opcodeWidth

/-- The shapes of the operands. -/
def signature (f : Format) : List OperandKind := f.slots.map Slot.kind

/-- The field of a name; of several, the last. -/
def field? (f : Format) (name : Text) : Option Field :=
  f.fields.reverse.find? fun field => field.name = name

/-- The field of a name, which must be there. -/
def field (f : Format) (name : Text) : Except Fault Field :=
  match f.field? name with
  | some field => .ok field
  | none => .error (.missingField name)

/-- The first field that reaches into the opcode bits. -/
def overlap? (f : Format) : Option Field :=
  f.fields.find? fun field => field.offset + field.width > f.opcodeOffset

end Format

/-- A field of a new format overlaps its opcode. -/
structure Overlap where
  mnemonic : Text
  format : Text
  field : Text
  deriving DecidableEq, Repr

/-- The wording of an overlap. -/
def Overlap.message (o : Overlap) : Text :=
  o.mnemonic ++ "/".toList ++ o.format ++ ": field ".toList ++ o.field ++
    " overlaps opcode".toList

/-- The formats of every mnemonic, in the order in which they are tried, and the format of the
conditional branches. -/
structure InstructionSet where
  formats : List (Text × List Format)
  conditionalBranch : Format
  deriving DecidableEq, Repr

/-- The formats among which the operands choose, and the condition in the mnemonic. -/
structure Candidates where
  formats : List Format
  condition : Option Condition
  deriving DecidableEq, Repr

namespace InstructionSet

/-- The instruction set with `f` as the last format of its mnemonic. -/
def add (isa : InstructionSet) (f : Format) : InstructionSet :=
  { isa with
    formats := Assoc.put f.mnemonic ((Assoc.get? f.mnemonic isa.formats).getD [] ++ [f])
      isa.formats }

/-- The instruction set with one more format, none of whose fields may overlap the opcode. -/
def register (isa : InstructionSet) (f : Format) : Except Overlap InstructionSet :=
  match f.overlap? with
  | some field => .error ⟨f.mnemonic, f.name, field.name⟩
  | none => .ok (isa.add f)

/-- The condition of a conditional branch's mnemonic in small letters. -/
def branchCondition? : Text → Option Condition
  | 'b' :: rest => Condition.ofName? rest
  | _ => none

/-- The candidates for a mnemonic, in either letter case.  An entry of the table wins over a
condition, so that `bics` is no branch. -/
def lookup (isa : InstructionSet) (mnemonic : Text) : Option Candidates :=
  match Assoc.get? mnemonic.lower isa.formats with
  | some formats => some ⟨formats, none⟩
  | none => (branchCondition? mnemonic.lower).map fun c => ⟨[isa.conditionalBranch], some c⟩

end InstructionSet

/-! ### Reserved names -/

/-- The digits of a register name: what follows an `r` in either case, if only digits do. -/
def registerDigits? : Text → Option Text
  | c :: digits =>
      if (c = 'r' ∨ c = 'R') ∧ digits ≠ [] ∧ digits.all Char.isDigit then some digits else none
  | [] => none

/-- The text without one line feed at its end. -/
def dropFinalLineFeed (t : Text) : Text :=
  if t.getLast? = some '\n' then t.dropLast else t

/-- The registers that have names of their own. -/
def specialRegisters : List Text := ["sp".toList, "lr".toList, "pc".toList]

/-- A register name; one line feed may follow a numbered one. -/
def isRegisterName (name : Text) : Bool :=
  (registerDigits? (dropFinalLineFeed name)).isSome || specialRegisters.contains name.lower

/-- Registers and mnemonics are reserved: they cannot be labels. -/
def InstructionSet.isReserved (isa : InstructionSet) (name : Text) : Bool :=
  isRegisterName name || (isa.lookup name).isSome

end ThumbAssembler
