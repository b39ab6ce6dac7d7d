/-
**The words of a program do not depend on where it was read.**

Entries carry the line, the column and the text that they were read from.  Messages show these
places, and nothing else uses them: a program without its places has the same words, or none.

Main definitions:

* `ThumbAssembler.Entry.bare`, `ThumbAssembler.Program.bare` — an entry and a program without
  places and spellings.

Main results:

* `ThumbAssembler.Program.corresponds_bare` — a program and its bare form differ in their places
  only;
* `ThumbAssembler.Program.Corresponds.bare_eq` — programs that differ in their places only have the
  same bare form;
* `ThumbAssembler.Program.toOption_assembled_bare` — **a program and its bare form have the same
  words**.
-/

import Mathlib
import ThumbAssembler.Proofs.Correspondence

set_option autoImplicit false

namespace ThumbAssembler

/-! ### Entries without places -/

/-- The operand without its column and spelling. -/
def Operand.bare (o : Operand) : Operand := { content := o.content }

/-- The label definition without its place. -/
def Label.bare (l : Label) : Label := { name := l.name }

/-- The instruction without its place and the spelling of its operands. -/
def Instruction.bare (i : Instruction) : Instruction :=
  { mnemonic := i.mnemonic
    format := i.format
    operands := i.operands.map Operand.bare
    condition := i.condition }

/-- The entry without places and spellings. -/
def Entry.bare : Entry → Entry
  | label l => .label l.bare
  | instruction i => .instruction i.bare

/-- The program without places and spellings. -/
def Program.bare (p : Program) : Program := p.map Entry.bare

theorem Instruction.corresponds_bare (i : Instruction) : i.Corresponds .any i.bare where
  mnemonic := rfl
  format := rfl
  condition := rfl
  operands := List.forall₂_map_right_iff.2 (List.forall₂_same.2 fun _ _ => ⟨rfl, trivial⟩)
  line := trivial
  text := trivial

theorem Program.corresponds_bare (p : Program) : p.Corresponds .any p.bare := by
  refine List.forall₂_map_right_iff.2 (List.forall₂_same.2 fun e _ => ?_)
  cases e with
  | label l => exact .label ⟨rfl, trivial, trivial, trivial⟩
  | instruction i => exact .instruction i.corresponds_bare

section Corresponds

variable {m : Correspondence}

theorem map_bare_eq_of_corresponds {os os' : List Operand}
    (h : List.Forall₂ (Operand.Corresponds m) os os') :
    os'.map Operand.bare = os.map Operand.bare := by
  induction h with
  | nil => rfl
  | cons ho _ ih => rw [List.map_cons, List.map_cons, ih, Operand.bare, Operand.bare, ho.content]

/-- Programs that differ in their places only have the same bare form. -/
theorem Program.Corresponds.bare_eq {p p' : Program} (h : p.Corresponds m p') :
    p'.bare = p.bare := by
  induction h with
  | nil => rfl
  | cons he _ ih =>
      refine congrArg₂ List.cons ?_ ih
      cases he with
      | label hl => rw [Entry.bare, Entry.bare, Label.bare, Label.bare, hl.name]
      | instruction hi =>
          rw [Entry.bare, Entry.bare, Instruction.bare, Instruction.bare,
            map_bare_eq_of_corresponds hi.operands, hi.mnemonic, hi.format, hi.condition]

end Corresponds

/-! ### Words of programs -/

/-- **A program and its bare form have the same words.** -/
theorem Program.toOption_assembled_bare (bias : Int) (p : Program) :
    (assembled bias p.bare).toOption = (assembled bias p).toOption :=
  (assembled_together bias p.corresponds_bare).toOption_eq

/-- A source has the words of the program that it spells. -/
theorem toOption_assemble (isa : InstructionSet) (bias : Int) (source : Text) :
    (assemble isa bias source).toOption.map Assembly.words =
      (parse isa source).toOption.bind fun p => (p.assembled bias).toOption := by
  calc (assemble isa bias source).toOption.map Assembly.words
      = (do return (← assemble isa bias source).words : Except Fault (List Int)).toOption := by
        cases assemble isa bias source <;> rfl
    _ = (do (← parse isa source).assembled bias).toOption := by rw [words_assemble]
    _ = (parse isa source).toOption.bind fun p => (p.assembled bias).toOption := by
        cases parse isa source <;> rfl

end ThumbAssembler
