/-
**Formats that the assembler can rely on.**

The parser chooses formats, the second pass asks them for an offset field, and the encoder asks the
operands for numbers; none of them checks that the table provides what they ask for.  This module
says what a table has to provide, and that the table of the processor does.

Main definitions:

* `ThumbAssembler.Format.Sound` — a well-formed format whose slots ask only for what an operand of
  their shape has, and whose label operands are branch offsets;
* `ThumbAssembler.InstructionSet.Sound` — all formats are sound, the conditional branch is the only
  conditional one, and no mnemonic looks like a directive.

Main results:

* `ThumbAssembler.InstructionSet.Sound.lookup` — the candidates of every mnemonic are sound;
* `ThumbAssembler.InstructionSet.Sound.head?_ne_stop` — a mnemonic starts with no full stop;
* `ThumbAssembler.Thumb.instructionSet_sound` — **the instruction set of the processor is sound**.
-/

import Mathlib
import ThumbAssembler.Proofs.EncodingRoundTrip
import ThumbAssembler.Thumb

set_option autoImplicit false

namespace ThumbAssembler

/-! ### Sound formats -/

/-- An operand of this shape has a number as soon as it is read. -/
def OperandKind.isNumeric : OperandKind → Bool
  | .register | .immediate | .stackOffset => true
  | .label | .stackPointer => false

/-- The offset field of a branch: signed words. -/
def Field.IsOffset (g : Field) : Prop := g.name = "offset".toList ∧ g.signed = true ∧ g.scale = 1

instance (g : Field) : Decidable g.IsOffset :=
  inferInstanceAs (Decidable (g.name = "offset".toList ∧ g.signed = true ∧ g.scale = 1))

/-- What the assembler relies on in a format. -/
structure Format.Sound (f : Format) : Prop extends f.WellFormed where
  /-- An operand that feeds a field is a number or becomes one. -/
  fed_numeric : ∀ s ∈ f.slots, s.field ≠ none → s.kind.isNumeric = true ∨ s.kind = .label
  /-- An operand with a fixed value or a tie is a number. -/
  checked_numeric : ∀ s ∈ f.slots, s.fixed ≠ none ∨ s.tie ≠ none → s.kind.isNumeric = true
  /-- A fixed value can be printed. -/
  fixed_printable : ∀ s ∈ f.slots, ∀ n ∈ s.fixed, isPrintable n = true
  /-- The bounds of a field can be printed. -/
  bounds_printable : ∀ g ∈ f.fields, g.bounds.numbers.all isPrintable = true
  /-- A label operand is the only operand, and feeds the offset of a branch. -/
  label_slot : ∀ s ∈ f.slots, s.kind = .label →
    f.slots = [s] ∧ s.field = some "offset".toList ∧ f.branch = true ∧ ∃ g ∈ f.fields, g.IsOffset

instance (f : Format) : Decidable f.Sound :=
  decidable_of_iff
    (f.WellFormed ∧
      (∀ s ∈ f.slots, s.field ≠ none → s.kind.isNumeric = true ∨ s.kind = .label) ∧
      (∀ s ∈ f.slots, s.fixed ≠ none ∨ s.tie ≠ none → s.kind.isNumeric = true) ∧
      (∀ s ∈ f.slots, ∀ n ∈ s.fixed, isPrintable n = true) ∧
      (∀ g ∈ f.fields, g.bounds.numbers.all isPrintable = true) ∧
      ∀ s ∈ f.slots, s.kind = .label →
        f.slots = [s] ∧ s.field = some "offset".toList ∧ f.branch = true ∧
          ∃ g ∈ f.fields, g.IsOffset)
    ⟨fun ⟨h, h₁, h₂, h₃, h₄, h₅⟩ => ⟨h, h₁, h₂, h₃, h₄, h₅⟩,
      fun h => ⟨h.toWellFormed, h.fed_numeric, h.checked_numeric, h.fixed_printable,
        h.bounds_printable, h.label_slot⟩⟩

/-- What the assembler relies on in an instruction set. -/
structure InstructionSet.Sound (isa : InstructionSet) : Prop where
  formats : ∀ entry ∈ isa.formats, ∀ f ∈ entry.2, f.Sound ∧ f.conditional = false
  conditionalBranch : isa.conditionalBranch.Sound ∧ isa.conditionalBranch.conditional = true
  /-- A line that starts with a full stop is a directive. -/
  mnemonics : ∀ entry ∈ isa.formats, entry.1.head? ≠ some '.'

namespace InstructionSet

/-- The candidates of a mnemonic are sound, and conditional exactly when it names a condition. -/
theorem Sound.lookup {isa : InstructionSet} (h : isa.Sound) {mnemonic : Text}
    {candidates : Candidates} (hl : isa.lookup mnemonic = some candidates) :
    ∀ f ∈ candidates.formats, f.Sound ∧ f.conditional = candidates.condition.isSome := by
  unfold InstructionSet.lookup at hl
  split at hl
  · rename_i formats hformats
    obtain rfl := Option.some_inj.1 hl
    intro f hf
    exact h.formats _ (Assoc.mem_of_get?_eq_some hformats) f hf
  · obtain ⟨c, -, rfl⟩ := Option.map_eq_some_iff.1 hl
    intro f hf
    rw [List.mem_singleton.1 hf]
    exact h.conditionalBranch

/-- A mnemonic that has candidates starts with no full stop. -/
theorem Sound.head?_ne_stop {isa : InstructionSet} (h : isa.Sound) {mnemonic : Text}
    {candidates : Candidates} (hl : isa.lookup mnemonic = some candidates) :
    mnemonic.lower.head? ≠ some '.' := by
  unfold InstructionSet.lookup at hl
  split at hl
  · rename_i formats hformats
    exact h.mnemonics _ (Assoc.mem_of_get?_eq_some hformats)
  · obtain ⟨c, hc, -⟩ := Option.map_eq_some_iff.1 hl
    unfold branchCondition? at hc
    split at hc
    · rename_i rest hrest
      rw [hrest, List.head?_cons]
      decide
    · cases hc

/-- A format that can be added to a sound instruction set. -/
structure Addable (f : Format) : Prop where
  sound : f.Sound
  unconditional : f.conditional = false
  mnemonic : f.mnemonic.head? ≠ some '.'

instance (f : Format) : Decidable (Addable f) :=
  decidable_of_iff (f.Sound ∧ f.conditional = false ∧ f.mnemonic.head? ≠ some '.')
    ⟨fun ⟨h, h₁, h₂⟩ => ⟨h, h₁, h₂⟩, fun h => ⟨h.sound, h.unconditional, h.mnemonic⟩⟩

/-- Adding a sound format to a sound instruction set leaves it sound. -/
theorem Sound.add {isa : InstructionSet} (h : isa.Sound) {f : Format} (hf : Addable f) :
    (isa.add f).Sound := by
  refine ⟨?_, h.conditionalBranch, ?_⟩
  · intro entry hentry g hg
    rcases Assoc.mem_put hentry with rfl | hentry
    · rcases List.mem_append.1 hg with hg | hg
      · cases hold : Assoc.get? f.mnemonic isa.formats with
        | none => simp [hold] at hg
        | some formats =>
            rw [hold, Option.getD_some] at hg
            exact h.formats _ (Assoc.mem_of_get?_eq_some hold) g hg
      · rw [List.mem_singleton.1 hg]
        exact ⟨hf.sound, hf.unconditional⟩
    · exact h.formats entry hentry g hg
  · intro entry hentry
    rcases Assoc.mem_put hentry with rfl | hentry
    · exact hf.mnemonic
    · exact h.mnemonics entry hentry

theorem Sound.foldl_add {isa : InstructionSet} (h : isa.Sound) {formats : List Format}
    (hformats : ∀ f ∈ formats, Addable f) : (formats.foldl InstructionSet.add isa).Sound := by
  induction formats generalizing isa with
  | nil => exact h
  | cons f formats ih =>
      obtain ⟨hf, hformats⟩ := List.forall_mem_cons.1 hformats
      exact ih (h.add hf) hformats

end InstructionSet

/-! ### The instruction set of the processor -/

namespace Thumb

theorem formats_addable : ∀ f ∈ formats, InstructionSet.Addable f := by decide +kernel

theorem conditionalBranch_sound :
    conditionalBranch.Sound ∧ conditionalBranch.conditional = true := by decide +kernel

/-- **The instruction set of the processor is sound.** -/
theorem instructionSet_sound : instructionSet.Sound :=
  InstructionSet.Sound.foldl_add ⟨by simp, conditionalBranch_sound, by simp⟩ formats_addable

end Thumb

end ThumbAssembler
