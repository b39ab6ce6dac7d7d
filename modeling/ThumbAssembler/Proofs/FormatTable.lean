/-
**The table of formats.**

A word belongs to a format by its opcode, and the format says what each of its bits means.  This
module says when a table leaves nothing open in either direction: every bit below an opcode belongs
to a field that an operand or the condition fills, every operand is given by the word, and every
format can be chosen by a mnemonic and the shapes of its operands.

Main definitions:

* `ThumbAssembler.InstructionSet.allFormats` — the formats of a table;
* `ThumbAssembler.Format.Covered` — every bit below the opcode belongs to a field;
* `ThumbAssembler.Slot.Regular`, `ThumbAssembler.Format.Regular` — slots and formats in which word
  and operands determine each other;
* `ThumbAssembler.InstructionSet.Regular` — a table that can be searched in both directions;
* `ThumbAssembler.Format.Comparable` — the opcode of one of two formats begins with the other's.

Main results:

* `ThumbAssembler.Format.eq_of_read_eq` — **a word is determined by its opcode and its fields**;
* `ThumbAssembler.Format.comparable_of_opcode_eq` — formats that share a word have comparable
  opcodes;
* `ThumbAssembler.InstructionSet.Regular.lookup_entry`,
  `ThumbAssembler.InstructionSet.Regular.lookup_condition`,
  `ThumbAssembler.InstructionSet.Regular.find?` — a mnemonic and the shapes of operands choose the
  format;
* `ThumbAssembler.Thumb.instructionSet_regular` — **the table of the processor is regular**;
* `ThumbAssembler.Thumb.eq_or_multiply_of_comparable` — **its opcodes begin with one another only in
  the two forms of multiplication**.
-/

import Mathlib
import ThumbAssembler.Proofs.CharacterClasses
import ThumbAssembler.Proofs.SoundFormats

set_option autoImplicit false

namespace ThumbAssembler

/-! ### Words and fields -/

namespace Format

variable {f g : Format}

/-- Every bit below the opcode belongs to a field. -/
def Covered (f : Format) : Prop :=
  ∀ n < f.opcodeOffset.toNat, ∃ g ∈ f.fields,
    g.offset.toNat ≤ n ∧ n < g.offset.toNat + g.width.toNat

instance (f : Format) : Decidable f.Covered :=
  inferInstanceAs (Decidable (∀ n < f.opcodeOffset.toNat, ∃ g ∈ f.fields,
    g.offset.toNat ≤ n ∧ n < g.offset.toNat + g.width.toNat))

/-- **A word is determined by its opcode and its fields.** -/
theorem eq_of_read_eq (h : f.Covered) {w w' : Int}
    (hopcode : w / Bits.weight f.opcodeOffset.toNat = w' / Bits.weight f.opcodeOffset.toNat)
    (hread : ∀ g ∈ f.fields, g.read w = g.read w') : w = w' := by
  refine Bits.eq_of_bit_eq fun n => ?_
  rcases Nat.lt_or_ge n f.opcodeOffset.toNat with hn | hn
  · -- a bit below the opcode is one of the bits of a field
    obtain ⟨g, hg, hlow, hhigh⟩ := h n hn
    have hbit := congrArg (fun x => Bits.bit x (n - g.offset.toNat)) (hread g hg)
    have hinside : n - g.offset.toNat < g.width.toNat := by omega
    have hplace : g.offset.toNat + (n - g.offset.toNat) = n := by omega
    simpa only [Field.read, Bits.bit_window, hinside, decide_true, Bool.true_and, hplace] using hbit
  · have hbit := congrArg (fun x => Bits.bit x (n - f.opcodeOffset.toNat)) hopcode
    have hplace : f.opcodeOffset.toNat + (n - f.opcodeOffset.toNat) = n := by omega
    simpa only [Bits.bit_div, hplace] using hbit

/-- The opcode of one format begins with that of the other. -/
def Comparable (f g : Format) : Prop :=
  f.opcode / Bits.weight (f.opcodeWidth.toNat - g.opcodeWidth.toNat) =
    g.opcode / Bits.weight (g.opcodeWidth.toNat - f.opcodeWidth.toNat)

instance (f g : Format) : Decidable (f.Comparable g) :=
  inferInstanceAs (Decidable (_ = _))

/-- Formats that share a word have comparable opcodes. -/
theorem comparable_of_opcode_eq (hf : f.WellFormed) (hg : g.WellFormed) {w : Int}
    (hfw : w / Bits.weight f.opcodeOffset.toNat = f.opcode)
    (hgw : w / Bits.weight g.opcodeOffset.toNat = g.opcode) : f.Comparable g := by
  have hf' := opcodeWidth_add_offset hf
  have hg' := opcodeWidth_add_offset hg
  -- cutting either opcode to the shorter width leaves the highest bits of the word
  have hsum : f.opcodeOffset.toNat + (f.opcodeWidth.toNat - g.opcodeWidth.toNat) =
      g.opcodeOffset.toNat + (g.opcodeWidth.toNat - f.opcodeWidth.toNat) := by omega
  unfold Comparable
  rw [← hfw, ← hgw, Int.ediv_ediv_of_nonneg (Bits.weight_pos _).le,
    Int.ediv_ediv_of_nonneg (Bits.weight_pos _).le, ← Bits.weight_add, ← Bits.weight_add, hsum]

end Format

/-! ### Slots -/

/-- A slot whose operand is given by the word: it feeds a field, its value is fixed, it repeats a
register, or it is the stack pointer. -/
inductive Slot.Regular : Slot → Prop
  | fed {kind : OperandKind} {name : Text} (h : kind ≠ .stackPointer) :
      Regular { kind := kind, field := some name }
  | fixed {n : Int} : Regular { kind := .immediate, fixed := some n }
  | tied {name : Text} : Regular { kind := .register, tie := some name }
  | bare : Regular { kind := .stackPointer }

theorem Slot.regular_iff {s : Slot} :
    s.Regular ↔
      s.field ≠ none ∧ s.fixed = none ∧ s.tie = none ∧ s.kind ≠ .stackPointer ∨
      s.field = none ∧ s.fixed ≠ none ∧ s.tie = none ∧ s.kind = .immediate ∨
      s.field = none ∧ s.fixed = none ∧ s.tie ≠ none ∧ s.kind = .register ∨
      s.field = none ∧ s.fixed = none ∧ s.tie = none ∧ s.kind = .stackPointer := by
  constructor
  · intro h
    cases h with
    | fed hkind => simpa using hkind
    | fixed => simp
    | tied => simp
    | bare => simp
  · obtain ⟨kind, field, fixed, tie⟩ := s
    rintro (⟨hfield, rfl, rfl, hkind⟩ | ⟨rfl, hfixed, rfl, rfl⟩ | ⟨rfl, rfl, htie, rfl⟩ |
      ⟨rfl, rfl, rfl, rfl⟩)
    · obtain ⟨name, rfl⟩ := Option.ne_none_iff_exists'.1 hfield
      exact .fed hkind
    · obtain ⟨n, rfl⟩ := Option.ne_none_iff_exists'.1 hfixed
      exact .fixed
    · obtain ⟨name, rfl⟩ := Option.ne_none_iff_exists'.1 htie
      exact .tied
    · exact .bare

instance (s : Slot) : Decidable s.Regular := decidable_of_iff _ s.regular_iff.symm

/-- The fields that have got a register, after one more slot. -/
def Slot.registersAfter (names : List Text) (s : Slot) : List Text :=
  match s.field, s.kind with
  | some name, .register => name :: names
  | _, _ => names

/-- Every slot that repeats a register comes after one that puts a register into the field. -/
def TiesPlaced (names : List Text) : List Slot → Prop
  | [] => True
  | s :: rest => (∀ name ∈ s.tie, name ∈ names) ∧ TiesPlaced (s.registersAfter names) rest

instance decidableTiesPlaced : (names : List Text) → (slots : List Slot) →
    Decidable (TiesPlaced names slots)
  | _, [] => isTrue trivial
  | names, s :: rest =>
      have := decidableTiesPlaced (s.registersAfter names) rest
      inferInstanceAs (Decidable (_ ∧ _))

/-- A field for the index of a register. -/
def Field.IsRegister (g : Field) : Prop := g.signed = false ∧ g.scale = 1 ∧ g.width = 3

instance (g : Field) : Decidable g.IsRegister :=
  inferInstanceAs (Decidable (g.signed = false ∧ g.scale = 1 ∧ g.width = 3))

/-- A format in which word and operands determine each other. -/
structure Format.Regular (f : Format) : Prop where
  covered : f.Covered
  /-- Every field is filled by an operand or by the condition. -/
  filled : ∀ g ∈ f.fields, g.name ∈ f.fedNames ∨ f.conditional = true ∧ g.name = "cond".toList
  slots : ∀ s ∈ f.slots, s.Regular
  ties : TiesPlaced [] f.slots
  /-- The field that a register goes to has room for the registers only. -/
  registers : ∀ s ∈ f.slots, s.kind = .register → ∀ name, s.field = some name ∨ s.tie = some name →
    ∀ g ∈ f.fields, g.name = name → g.IsRegister
  /-- A branch takes a label. -/
  branch : f.branch = true → ∃ s ∈ f.slots, s.kind = .label

instance (f : Format) : Decidable f.Regular :=
  decidable_of_iff
    (f.Covered ∧
      (∀ g ∈ f.fields, g.name ∈ f.fedNames ∨ f.conditional = true ∧ g.name = "cond".toList) ∧
      (∀ s ∈ f.slots, s.Regular) ∧ TiesPlaced [] f.slots ∧
      (∀ s ∈ f.slots, s.kind = .register → ∀ g ∈ f.fields,
        s.field = some g.name ∨ s.tie = some g.name → g.IsRegister) ∧
      (f.branch = true → ∃ s ∈ f.slots, s.kind = .label))
    ⟨fun ⟨h₁, h₂, h₃, h₄, h₅, h₆⟩ =>
        ⟨h₁, h₂, h₃, h₄, fun s hs hk _ hname g hg h => h₅ s hs hk g hg (h ▸ hname), h₆⟩,
      fun h => ⟨h.covered, h.filled, h.slots, h.ties,
        fun s hs hk g hg hname => h.registers s hs hk g.name hname g hg rfl, h.branch⟩⟩

/-! ### Tables -/

/-- Among formats of different shapes, the first of given shapes is the only one. -/
theorem Format.find?_signature {formats : List Format}
    (h : (formats.map Format.signature).Nodup) {f : Format} {kinds : List OperandKind} :
    (formats.find? fun g => g.signature = kinds) = some f ↔ f ∈ formats ∧ f.signature = kinds := by
  constructor
  · intro hfind
    exact ⟨List.mem_of_find?_eq_some hfind, by simpa using List.find?_some hfind⟩
  · rintro ⟨hf, hkinds⟩
    cases hfind : formats.find? fun g => g.signature = kinds with
    | none =>
        have hnot := List.find?_eq_none.1 hfind f hf
        simp [hkinds] at hnot
    | some g =>
        have hg : g.signature = kinds := by simpa using List.find?_some hfind
        rw [List.inj_on_of_nodup_map h (List.mem_of_find?_eq_some hfind) hf
          (hg.trans hkinds.symm)]

-- characters are finitely many, and deciding "for all" by going through them must not be tried
instance decidableIsIdentifier : (t : Text) → Decidable (IsIdentifier t)
  | [] => instDecidableFalse
  | c :: rest =>
      decidable_of_iff ((isIdentifierStart c && rest.all isIdentifierPart) = true)
        (by simp only [IsIdentifier, Bool.and_eq_true, List.all_eq_true])

theorem Condition.mem_all (c : Condition) : c ∈ Condition.all := by
  cases c <;> decide

/-- The mnemonic of the branch on a condition, in small letters. -/
def Condition.mnemonic (c : Condition) : Text := 'b' :: c.name.lower

namespace InstructionSet

/-- The formats of a table, with that of the conditional branches. -/
def allFormats (isa : InstructionSet) : List Format :=
  isa.formats.flatMap Prod.snd ++ [isa.conditionalBranch]

/-- A table that can be searched in both directions. -/
structure Regular (isa : InstructionSet) : Prop where
  formats : ∀ f ∈ isa.allFormats, f.Regular
  names_nodup : (isa.formats.map Prod.fst).Nodup
  /-- Mnemonics are identifiers in small letters. -/
  names : ∀ entry ∈ isa.formats, IsIdentifier entry.1 ∧ entry.1.lower = entry.1
  keyed : ∀ entry ∈ isa.formats, ∀ f ∈ entry.2, f.mnemonic = entry.1
  /-- The shapes of the operands choose among the formats of a mnemonic. -/
  signatures_nodup : ∀ entry ∈ isa.formats, (entry.2.map Format.signature).Nodup
  /-- No conditional branch is hidden by an entry of the table. -/
  conditions : ∀ c ∈ Condition.all, Assoc.get? c.mnemonic isa.formats = none

variable {isa : InstructionSet}

theorem mem_allFormats {f : Format} :
    f ∈ isa.allFormats ↔ (∃ entry ∈ isa.formats, f ∈ entry.2) ∨ f = isa.conditionalBranch := by
  rw [allFormats, List.mem_append, List.mem_flatMap, List.mem_singleton]

theorem Sound.allFormats (h : isa.Sound) {f : Format} (hf : f ∈ isa.allFormats) : f.Sound := by
  rcases mem_allFormats.1 hf with ⟨entry, hentry, hf⟩ | rfl
  · exact (h.formats entry hentry f hf).1
  · exact h.conditionalBranch.1

/-- The candidates of a mnemonic are formats of the table. -/
theorem mem_allFormats_of_lookup {mnemonic : Text} {candidates : Candidates}
    (h : isa.lookup mnemonic = some candidates) {f : Format} (hf : f ∈ candidates.formats) :
    f ∈ isa.allFormats := by
  unfold lookup at h
  split at h
  · rename_i formats hformats
    obtain rfl := Option.some_inj.1 h
    exact mem_allFormats.2 (Or.inl ⟨_, Assoc.mem_of_get?_eq_some hformats, hf⟩)
  · obtain ⟨c, -, rfl⟩ := Option.map_eq_some_iff.1 h
    exact mem_allFormats.2 (Or.inr (List.mem_singleton.1 hf))

/-- The mnemonic of an entry of the table finds the formats of the entry. -/
theorem Regular.lookup_entry (h : isa.Regular) {entry : Text × List Format}
    (hentry : entry ∈ isa.formats) : isa.lookup entry.1 = some ⟨entry.2, none⟩ := by
  have hget : Assoc.get? entry.1 isa.formats = some entry.2 :=
    (Assoc.get?_eq_some_iff h.names_nodup _ _).2 hentry
  simp only [lookup, (h.names entry hentry).2, hget]

/-- The mnemonic of a conditional branch finds its format and its condition. -/
theorem Regular.lookup_condition (h : isa.Regular) (c : Condition) :
    isa.lookup c.mnemonic = some ⟨[isa.conditionalBranch], some c⟩ := by
  have hlower : c.mnemonic.lower = c.mnemonic := by cases c <;> decide
  have hcondition : branchCondition? c.mnemonic = some c := by cases c <;> decide
  simp only [lookup, hlower, h.conditions c c.mem_all, hcondition, Option.map_some]

/-- The shapes of its operands choose a format among those of its mnemonic. -/
theorem Regular.find? (h : isa.Regular) {entry : Text × List Format}
    (hentry : entry ∈ isa.formats) {f : Format} (hf : f ∈ entry.2) :
    (entry.2.find? fun g => g.signature = f.signature) = some f :=
  (Format.find?_signature (h.signatures_nodup entry hentry)).2 ⟨hf, rfl⟩

end InstructionSet

namespace Thumb

theorem formats_regular : ∀ f ∈ conditionalBranch :: formats, f.Regular := by decide +kernel

theorem mem_formats_of_mem_allFormats :
    ∀ f ∈ instructionSet.allFormats, f ∈ conditionalBranch :: formats := by decide +kernel

/-- **The table of the processor is regular.** -/
theorem instructionSet_regular : instructionSet.Regular where
  formats := fun f hf => formats_regular f (mem_formats_of_mem_allFormats f hf)
  names_nodup := by decide +kernel
  names := by decide +kernel
  keyed := by decide +kernel
  signatures_nodup := by decide +kernel
  conditions := by decide +kernel

/-- **The opcodes of the table begin with one another only in the two forms of multiplication.** -/
theorem eq_or_multiply_of_comparable : ∀ f ∈ instructionSet.allFormats,
    ∀ g ∈ instructionSet.allFormats, f.Comparable g →
      f = g ∨ f = multiplyRepeated 0xD ∧ g = multiply 0xD ∨
        f = multiply 0xD ∧ g = multiplyRepeated 0xD := by
  decide +kernel

end Thumb

end ThumbAssembler
