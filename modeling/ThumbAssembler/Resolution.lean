/-
**Label resolution.**

Two passes replace label references by branch offsets.  The first pass binds every label to the
address of the instruction after it.  The second pass replaces a reference at address `a` to a label
at address `t` by the number `t - (a + bias)`, where the bias is the number of words by which the
processor reads ahead of a branch.  An offset that the branch cannot hold is a fault, never wrapped.
The second pass works from the start and keeps what it has replaced before a fault.

Main definitions:

* `ThumbAssembler.collect` — the first pass;
* `ThumbAssembler.branchOffset` — the offset that replaces one reference;
* `ThumbAssembler.link` — the second pass: the program as far as it is linked, and the fault;
* `ThumbAssembler.resolve` — both passes.
-/

import ThumbAssembler.SymbolTable

set_option autoImplicit false

namespace ThumbAssembler

/-! ### The first pass -/

/-- The table after one more entry at an address. -/
def collectEntry (table : SymbolTable) (addressed : Nat × Entry) : Except Fault SymbolTable :=
  match addressed with
  | (_, .instruction _) => .ok table
  | (address, .label l) =>
      match table.definition? l.name with
      | some first => reject (.duplicateLabel l.name first.line) l.place
      | none =>
          let (table, answer) := table.define l address
          answer.map fun _ => table

/-- The addresses of all labels of a program; none may be defined twice. -/
def collect (p : Program) : Except Fault SymbolTable :=
  p.addressed.foldlM collectEntry SymbolTable.empty

/-! ### The second pass -/

/-- The offset that replaces a reference to a label in the instruction at an address. -/
def branchOffset (bias : Int) (table : SymbolTable) (address : Nat) (i : Instruction)
    (o : Operand) (name : Text) : Except Fault Int :=
  match table.address? name with
  | none => reject (.undefinedLabel name) (i.place o)
  | some target => do
      let offset := target - (address + bias)
      let field ← i.format.field "offset".toList
      if ← liftField (field.fits offset) then return offset
      else if isPrintable offset then
        let span ← liftField field.span
        reject (.branchOutOfRange i.mnemonic name offset span) (i.place o)
      else .error .numberTooLong

/-- The operands with label references replaced from the left up to the first fault. -/
def linkOperands (bias : Int) (table : SymbolTable) (address : Nat) (i : Instruction) :
    List Operand → List Operand × Option Fault
  | [] => ([], none)
  | o :: rest =>
      match o.content with
      | .label name =>
          match branchOffset bias table address i o name with
          | .error e => (o :: rest, some e)
          | .ok offset =>
              let (rest, fault) := linkOperands bias table address i rest
              ({ o with content := .immediate offset } :: rest, fault)
      | _ =>
          let (rest, fault) := linkOperands bias table address i rest
          (o :: rest, fault)

/-- A program as far as the second pass came, and the fault that stopped it. -/
structure Linking where
  program : Program
  fault : Option Fault
  deriving DecidableEq, Repr

/-- The entries from an address on, with label references replaced up to the first fault. -/
def linkFrom (bias : Int) (table : SymbolTable) : Nat → List Entry → Linking
  | _, [] => ⟨[], none⟩
  | address, .label l :: rest =>
      let r := linkFrom bias table address rest
      ⟨.label l :: r.program, r.fault⟩
  | address, .instruction i :: rest =>
      match linkOperands bias table address i i.operands with
      | (os, some e) => ⟨.instruction { i with operands := os } :: rest, some e⟩
      | (os, none) =>
          let r := linkFrom bias table (address + 1) rest
          ⟨.instruction { i with operands := os } :: r.program, r.fault⟩

/-- The second pass with the addresses of a symbol table. -/
def link (bias : Int) (table : SymbolTable) (p : Program) : Linking :=
  linkFrom bias table 0 p

/-! ### Both passes -/

/-- The program as far as resolution came, and its symbol table or the fault that stopped it. -/
structure Resolution where
  program : Program
  symbols : Except Fault SymbolTable

/-- Both passes; the symbol table of a resolved program is frozen. -/
def resolve (bias : Int) (p : Program) : Resolution :=
  match collect p with
  | .error e => ⟨p, .error e⟩
  | .ok table =>
      let r := link bias table.freeze p
      match r.fault with
      | some e => ⟨r.program, .error e⟩
      | none => ⟨r.program, .ok table.freeze⟩

end ThumbAssembler
