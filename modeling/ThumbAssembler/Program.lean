/-
**Programs.**

A program is a list of entries in source order: label definitions, which take no space, and
instructions, each of which is one word.  The address of an entry is the number of instructions
before it.

Main definitions:

* `ThumbAssembler.Label`, `ThumbAssembler.Instruction`, `ThumbAssembler.Entry` — entries;
* `ThumbAssembler.Program` — a list of entries;
* `ThumbAssembler.Program.addressed` — the entries with their addresses;
* `ThumbAssembler.Instruction.render`, `ThumbAssembler.Entry.render` — the canonical spelling.

Main results:

* `ThumbAssembler.Program.addressedFrom_append` — addresses are counts of preceding instructions;
* `ThumbAssembler.Program.map_snd_addressed` — addressing keeps the entries.
-/

import ThumbAssembler.Format

set_option autoImplicit false

namespace ThumbAssembler

/-- A label definition, where it stands and the text of its line. -/
structure Label where
  name : Text
  line : Int := 0
  column : Int := 0
  text : Text := []
  deriving DecidableEq, Repr

/-- An instruction, its format and operands, where it stands and the text of its line. -/
structure Instruction where
  mnemonic : Text
  format : Format
  operands : List Operand
  condition : Option Condition := none
  line : Int := 0
  column : Int := 0
  text : Text := []
  deriving DecidableEq, Repr

/-- An entry of a program. -/
inductive Entry where
  | label (l : Label)
  | instruction (i : Instruction)
  deriving DecidableEq, Repr

/-- A program is the list of its entries, in source order.  Entries are values that are never
shared: a change of an entry in one program is seen in no other, nor elsewhere in the same one. -/
abbrev Program := List Entry

namespace Label

/-- The place of a label definition. -/
def place (l : Label) : Place := ⟨l.line, l.column, l.name, l.text⟩

/-- A label definition as source text. -/
def render (l : Label) : Text := l.name ++ ":".toList

end Label

namespace Instruction

/-- The place of an operand. -/
def place (i : Instruction) (o : Operand) : Place := ⟨i.line, o.column, o.text, i.text⟩

/-- No operand is a reference to a label. -/
def isResolved (i : Instruction) : Bool := i.operands.all fun o => !o.isLabel

/-- The operands as source text. -/
def renderOperands (i : Instruction) : Text :=
  Text.joined ", ".toList (i.operands.map Operand.render)

/-- An instruction as source text. -/
def render (i : Instruction) : Text :=
  if i.renderOperands.isEmpty then i.mnemonic else i.mnemonic ++ " ".toList ++ i.renderOperands

/-- The numbers that the source text of an instruction prints. -/
def numbers (i : Instruction) : List Int := i.operands.filterMap Operand.value?

/-- An instruction as source text, if its numbers can be printed. -/
def printed (i : Instruction) : Except Fault Text := printing i.numbers i.render

end Instruction

namespace Entry

/-- The number of words that an entry takes. -/
def size : Entry → Nat
  | label _ => 0
  | instruction _ => 1

/-- The label of a label definition. -/
def label? : Entry → Option Label
  | label l => some l
  | instruction _ => none

/-- The instruction of an instruction entry. -/
def instruction? : Entry → Option Instruction
  | label _ => none
  | instruction i => some i

/-- An entry as source text. -/
def render : Entry → Text
  | label l => l.render
  | instruction i => i.render

/-- An entry as source text, if its numbers can be printed. -/
def printed : Entry → Except Fault Text
  | label l => .ok l.render
  | instruction i => i.printed

end Entry

namespace Program

/-- The instructions of a program. -/
def instructions (p : Program) : List Instruction := p.filterMap Entry.instruction?

/-- The label definitions of a program. -/
def labels (p : Program) : List Label := p.filterMap Entry.label?

/-- The number of words of a program. -/
def size (p : Program) : Nat := p.instructions.length

/-- The entries with their addresses, the first at `address`. -/
def addressedFrom : Nat → List Entry → List (Nat × Entry)
  | _, [] => []
  | address, e :: rest => (address, e) :: addressedFrom (address + e.size) rest

/-- The entries with their addresses. -/
def addressed (p : Program) : List (Nat × Entry) := addressedFrom 0 p

theorem size_cons (e : Entry) (p : Program) : size (e :: p) = e.size + size p := by
  cases e <;> simp [size, instructions, List.filterMap_cons, Entry.size, Entry.instruction?,
    Nat.add_comm]

theorem size_append (p q : Program) : size (p ++ q) = size p + size q := by
  rw [size, instructions, List.filterMap_append, List.length_append]
  rfl

/-- **An address is the number of instructions before the entry.** -/
theorem addressedFrom_append (address : Nat) (p q : Program) :
    addressedFrom address (p ++ q) =
      addressedFrom address p ++ addressedFrom (address + size p) q := by
  induction p generalizing address with
  | nil => simp [addressedFrom, size, instructions]
  | cons e p ih => simp [addressedFrom, ih, size_cons, Nat.add_assoc]

theorem map_snd_addressedFrom (address : Nat) (p : Program) :
    (addressedFrom address p).map Prod.snd = p := by
  induction p generalizing address with
  | nil => rfl
  | cons e p ih => simp [addressedFrom, ih]

@[simp] theorem map_snd_addressed (p : Program) : p.addressed.map Prod.snd = p :=
  map_snd_addressedFrom 0 p

/-- The program with the operand at `index` of instruction number `position` replaced; both must
exist. -/
def replaceOperand (o : Operand) : Nat → Nat → Program → Option Program
  | _, _, [] => none
  | position, index, .label l :: rest =>
      (replaceOperand o position index rest).map (.label l :: ·)
  | 0, index, .instruction i :: rest =>
      if index < i.operands.length then
        some (.instruction { i with operands := i.operands.set index o } :: rest)
      else none
  | position + 1, index, .instruction i :: rest =>
      (replaceOperand o position index rest).map (.instruction i :: ·)

end Program

end ThumbAssembler
