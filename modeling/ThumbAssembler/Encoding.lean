/-
**Words of instructions.**

The word of an instruction is its opcode with every operand packed into the field that its slot
feeds, and the condition packed into the field `cond` of a conditional format.  Operands and slots
are paired from the left.

Main definitions:

* `ThumbAssembler.Instruction.encode` — the word of an instruction;
* `ThumbAssembler.Program.encode` — the words of a program;
* `ThumbAssembler.Format.decode` — the opcode and the fields of a word.
-/

import ThumbAssembler.Bits
import ThumbAssembler.Program

set_option autoImplicit false

namespace ThumbAssembler

namespace Instruction

/-- The number that an operand puts into a field; a label has none before it is resolved. -/
def fieldValue (i : Instruction) (field : Text) (o : Operand) : Except Fault (Field × Int) :=
  if o.isLabel then reject (.unresolvedLabel o.render) (i.place o)
  else do
    let f ← i.format.field field
    match o.value? with
    | some value => return (f, value)
    | none => .error (.valueless o.kind)

/-- What does not fit, in the words of the format. -/
def subject (i : Instruction) (field : Text) : Subject :=
  if i.format.branch then .branchOffset else .fieldValue field

/-- The bits of an operand that feeds a field, which must hold it. -/
def packOperand (i : Instruction) (field : Text) (o : Operand) : Except Fault Int := do
  let (f, value) ← i.fieldValue field o
  if ← liftField (f.fits value) then liftField (f.pack value)
  else if isPrintable value then
    let span ← liftField f.span
    reject (.outOfRange i.mnemonic (i.subject field) value span) (i.place o)
  else .error .numberTooLong

/-- The word with the operands of the remaining slots. -/
def encodeSlots (i : Instruction) (word : Int) : List (Slot × Operand) → Except Fault Int
  | [] => .ok word
  | (slot, o) :: rest =>
      match slot.field with
      | none => i.encodeSlots word rest
      | some field => do i.encodeSlots (Bits.or word (← i.packOperand field o)) rest

/-- The opcode bits of a format. -/
def opcodeBits (f : Format) : Except Fault Int :=
  liftField (Field.shiftLeft f.opcode f.opcodeOffset)

/-- The bits of the condition; none in a format that is not conditional. -/
def conditionBits (i : Instruction) : Except Fault Int :=
  if i.format.conditional then do
    let f ← i.format.field "cond".toList
    match i.condition with
    | some c => liftField (f.pack c.code)
    | none => .error .conditionless
  else .ok 0

/-- The word of an instruction. -/
def encode (i : Instruction) : Except Fault Int := do
  let word := Bits.or (← opcodeBits i.format) (← i.conditionBits)
  i.encodeSlots word (i.format.slots.zip i.operands)

end Instruction

/-- The words of a program, in order. -/
def Program.encode (p : Program) : Except Fault (List Int) := p.instructions.mapM Instruction.encode

/-- The value of every field of a word, after the opcode; a repeated name keeps its first place and
its last value. -/
def Format.decode (f : Format) (word : Int) : Except Field.Defect (List (Text × Int)) := do
  let opcode ← Field.shiftRight word f.opcodeOffset
  f.fields.foldlM
    (fun values field => do return Assoc.put field.name (← field.extract word) values)
    [("opcode".toList, opcode)]

end ThumbAssembler
