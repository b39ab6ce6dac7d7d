/-
**The Thumb subset.**

The instructions of the processor, by family.  Bit fifteen is on the left:

    shift by immediate       000 op   imm5  rm  rd      lsls lsrs asrs
    add, subtract register   000110 op  rm  rn  rd      adds subs
    add, subtract imm3       000111 op imm3 rn  rd      adds subs
    immediate of eight bits  001 op   rd    imm8        movs cmp adds subs
    data processing          010000 op4     rm  rdn     ands and fifteen more
    load and store at sp     1001 L   rt    imm8        str ldr
    adjust sp                10110000 S     imm7        add sub
    conditional branch       1101 cond      imm8        b with a condition
    branch                   11100          imm11       b

Main definitions:

* `ThumbAssembler.Thumb.formats` — all formats, in the order in which they are tried;
* `ThumbAssembler.Thumb.conditionalBranch` — the format of the conditional branches;
* `ThumbAssembler.Thumb.instructionSet` — the instruction set.
-/

import ThumbAssembler.Format

set_option autoImplicit false

namespace ThumbAssembler

namespace Thumb

/-- A register operand that feeds a field. -/
def reg (field : String) : Slot := { kind := .register, field := some field.toList }

/-- A number that feeds a field. -/
def imm (field : String) : Slot := { kind := .immediate, field := some field.toList }

/-- An unsigned field of the given width at the given bit. -/
def bits (name : String) (width offset : Int) : Field :=
  { name := name.toList, width := width, offset := offset }

/-- Shift by an immediate. -/
def shiftImmediate (mnemonic : String) (opcode : Int) : Format where
  name := "shift-imm".toList
  mnemonic := mnemonic.toList
  opcode := opcode
  opcodeWidth := 5
  fields := [bits "imm5" 5 6, bits "rm" 3 3, bits "rd" 3 0]
  slots := [reg "rd", reg "rm", imm "imm5"]
  usage := mnemonic.toList ++ " rd, rm, #imm5".toList

/-- Add or subtract a register. -/
def addSubRegister (mnemonic : String) (opcode : Int) : Format where
  name := "add-sub-reg".toList
  mnemonic := mnemonic.toList
  opcode := opcode
  opcodeWidth := 7
  fields := [bits "rm" 3 6, bits "rn" 3 3, bits "rd" 3 0]
  slots := [reg "rd", reg "rn", reg "rm"]
  usage := mnemonic.toList ++ " rd, rn, rm".toList

/-- Add or subtract an immediate of three bits. -/
def addSubImmediate (mnemonic : String) (opcode : Int) : Format where
  name := "add-sub-imm3".toList
  mnemonic := mnemonic.toList
  opcode := opcode
  opcodeWidth := 7
  fields := [bits "imm3" 3 6, bits "rn" 3 3, bits "rd" 3 0]
  slots := [reg "rd", reg "rn", imm "imm3"]
  usage := mnemonic.toList ++ " rd, rn, #imm3".toList

/-- An operation on a register and an immediate of eight bits. -/
def wideImmediate (mnemonic : String) (opcode : Int) : Format where
  name := "imm8".toList
  mnemonic := mnemonic.toList
  opcode := opcode
  opcodeWidth := 5
  fields := [bits "rd" 3 8, bits "imm8" 8 0]
  slots := [reg "rd", imm "imm8"]
  usage := mnemonic.toList ++ " rd, #imm8".toList

/-- The operations on two registers, by their four opcode bits. -/
def dataProcessing : List (Text × Int) :=
  [("ands".toList, 0x0), ("eors".toList, 0x1), ("lsls".toList, 0x2), ("lsrs".toList, 0x3),
   ("asrs".toList, 0x4), ("adcs".toList, 0x5), ("sbcs".toList, 0x6), ("rors".toList, 0x7),
   ("tst".toList, 0x8), ("rsbs".toList, 0x9), ("cmp".toList, 0xA), ("cmn".toList, 0xB),
   ("orrs".toList, 0xC), ("muls".toList, 0xD), ("bics".toList, 0xE), ("mvns".toList, 0xF)]

/-- The ten opcode bits of a data processing instruction. -/
def dataProcessingOpcode (operation : Int) : Int := 0x10 * 0x10 + operation

/-- A data processing instruction whose destination is also its first source. -/
def twoRegisters (mnemonic : Text) (operation : Int) : Format where
  name := "data-proc".toList
  mnemonic := mnemonic
  opcode := dataProcessingOpcode operation
  opcodeWidth := 10
  fields := [bits "rm" 3 3, bits "rdn" 3 0]
  slots := [reg "rdn", reg "rm"]
  usage := mnemonic ++ " rdn, rm".toList

/-- Reverse subtraction, which only ever subtracts from zero. -/
def negate (operation : Int) : Format where
  name := "data-proc".toList
  mnemonic := "rsbs".toList
  opcode := dataProcessingOpcode operation
  opcodeWidth := 10
  fields := [bits "rn" 3 3, bits "rd" 3 0]
  slots := [reg "rd", reg "rn", { kind := .immediate, fixed := some 0 }]
  usage := "rsbs rd, rn, #0".toList

/-- Multiplication with the destination repeated as the last operand. -/
def multiplyRepeated (operation : Int) : Format where
  name := "data-proc".toList
  mnemonic := "muls".toList
  opcode := dataProcessingOpcode operation
  opcodeWidth := 10
  fields := [bits "rn" 3 3, bits "rdm" 3 0]
  slots := [reg "rdm", reg "rn", { kind := .register, tie := some "rdm".toList }]
  usage := "muls rdm, rn, rdm".toList

/-- Multiplication with the destination written once. -/
def multiply (operation : Int) : Format :=
  { multiplyRepeated operation with
    slots := [reg "rdm", reg "rn"]
    usage := "muls rdm, rn".toList }

/-- The formats of one data processing instruction. -/
def dataProcessingFormats (mnemonic : Text) (operation : Int) : List Format :=
  if mnemonic = "rsbs".toList then [negate operation]
  else if mnemonic = "muls".toList then [multiplyRepeated operation, multiply operation]
  else [twoRegisters mnemonic operation]

/-- Load or store at a number of bytes above the stack pointer, stored in words of four bytes. -/
def stackAccess (mnemonic : String) (opcode : Int) : Format where
  name := "sp-load-store".toList
  mnemonic := mnemonic.toList
  opcode := opcode
  opcodeWidth := 5
  fields := [bits "rt" 3 8, { bits "imm8" 8 0 with scale := 4 }]
  slots := [reg "rt", { kind := .stackOffset, field := some "imm8".toList }]
  usage := mnemonic.toList ++ " rt, [sp, #imm]".toList

/-- Move the stack pointer by a number of bytes, stored in words of four bytes. -/
def stackAdjust (mnemonic : String) (opcode : Int) : Format where
  name := "sp-adjust".toList
  mnemonic := mnemonic.toList
  opcode := opcode
  opcodeWidth := 9
  fields := [{ bits "imm7" 7 0 with scale := 4 }]
  slots := [{ kind := .stackPointer }, imm "imm7"]
  usage := mnemonic.toList ++ " sp, #imm".toList

/-- A label operand that feeds the offset of a branch. -/
def labelSlot : Slot := { kind := .label, field := some "offset".toList }

/-- The unconditional branch. -/
def branch : Format where
  name := "branch".toList
  mnemonic := "b".toList
  opcode := 0x1C
  opcodeWidth := 5
  fields := [{ bits "offset" 11 0 with signed := true }]
  slots := [labelSlot]
  usage := "b label".toList
  branch := true

/-- The format of the conditional branches; the condition comes from the mnemonic. -/
def conditionalBranch : Format where
  name := "cond-branch".toList
  mnemonic := "b<cond>".toList
  opcode := 0xD
  opcodeWidth := 4
  fields := [bits "cond" 4 8, { bits "offset" 8 0 with signed := true }]
  slots := [labelSlot]
  usage := "b<cond> label".toList
  branch := true
  conditional := true

/-- All formats but that of the conditional branches, in the order in which they are tried. -/
def formats : List Format :=
  [shiftImmediate "lsls" 0x0, shiftImmediate "lsrs" 0x1, shiftImmediate "asrs" 0x2,
   addSubRegister "adds" 0xC, addSubImmediate "adds" 0xE,
   addSubRegister "subs" 0xD, addSubImmediate "subs" 0xF,
   wideImmediate "movs" 0x4, wideImmediate "cmp" 0x5,
   wideImmediate "adds" 0x6, wideImmediate "subs" 0x7] ++
  dataProcessing.flatMap (fun p => dataProcessingFormats p.1 p.2) ++
  [stackAccess "str" 0x12, stackAccess "ldr" 0x13,
   stackAdjust "add" 0x160, stackAdjust "sub" 0x161,
   branch]

/-- The instruction set of the processor. -/
def instructionSet : InstructionSet :=
  formats.foldl InstructionSet.add { formats := [], conditionalBranch := conditionalBranch }

end Thumb

end ThumbAssembler
