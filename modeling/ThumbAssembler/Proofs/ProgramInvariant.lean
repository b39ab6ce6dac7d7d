/-
**The invariant of parsed programs.**

The passes after the parser ask nothing of a program again: that operands fill the slots of a format
of their mnemonic, that registers exist, that fixed and tied operands are what the format says, that
labels stand only in branches, and that every entry points into its line.  This module says what the
parser promises of every program that it gives, and proves that it does.

Main definitions:

* `ThumbAssembler.Instruction.WellRead` — what the parser promises of an instruction;
* `ThumbAssembler.Program.WellRead` — what the parser promises of a program.

Main results:

* `ThumbAssembler.SlotsAgree.tied_before` — a tied operand repeats a register of an earlier slot;
* `ThumbAssembler.Instruction.wellRead` — **an instruction that was read is as promised**;
* `ThumbAssembler.parse_wellRead` — **every program that is read is as promised**.
-/

import Mathlib
import ThumbAssembler.Proofs.ReadingOrder
import ThumbAssembler.Proofs.ResolvedInstruction

set_option autoImplicit false

namespace ThumbAssembler

/-! ### Tied operands -/

theorem get?_placeRegister_cases {placed : List (Text × Int)} {s : Slot} {o : Operand}
    {field : Text} {v : Int}
    (h : Assoc.get? field (SourceLine.placeRegister placed s o) = some v) :
    Assoc.get? field placed = some v ∨
      s.field = some field ∧ s.kind = .register ∧ o.value? = some v := by
  unfold SourceLine.placeRegister at h
  split at h
  · rename_i name n hname hkind hn
    by_cases heq : name = field
    · subst heq
      rw [Assoc.get?_put_self] at h
      exact Or.inr ⟨hname, hkind, hn.trans h⟩
    · rw [Assoc.get?_put_of_ne heq] at h
      exact Or.inl h
  · exact Or.inl h

/-- A tied operand repeats a register that was placed before or comes from an earlier slot. -/
theorem SlotsAgree.tied_before {placed : List (Text × Int)} {before after : List (Slot × Operand)}
    {s : Slot} {o : Operand} (h : SlotsAgree placed (before ++ (s, o) :: after)) {field : Text}
    (htie : s.tie = some field) :
    ∃ v, o.value? = some v ∧ (Assoc.get? field placed = some v ∨
      ∃ q ∈ before, q.1.field = some field ∧ q.1.kind = .register ∧ q.2.value? = some v) := by
  induction before generalizing placed with
  | nil =>
      obtain ⟨v, hv, hplaced⟩ := h.2.1 field htie
      exact ⟨v, hv, Or.inl hplaced⟩
  | cons q before ih =>
      obtain ⟨v, hv, hplaced | ⟨q', hq', hfrom⟩⟩ := ih h.2.2
      · -- the slot before either placed the register or left those before it
        refine ⟨v, hv, (get?_placeRegister_cases hplaced).imp id fun hfrom => ?_⟩
        exact ⟨q, List.mem_cons_self, hfrom⟩
      · exact ⟨v, hv, Or.inr ⟨q', List.mem_cons_of_mem q hq', hfrom⟩⟩

theorem Operand.content_of_register {o : Operand} {v : Int} (hkind : o.kind = .register)
    (hv : o.value? = some v) : o.content = .register v :=
  OperandKind.content_of_value (k := .register) hkind hv

theorem isRegisterIndex_iff {index : Int} :
    isRegisterIndex index = true ↔ 0 ≤ index ∧ index ≤ 7 := by
  have hcount : registerCount = 8 := rfl
  rw [isRegisterIndex, hcount, Bool.and_eq_true, decide_eq_true_eq, decide_eq_true_eq]
  omega

/-! ### Instructions -/

/-- What the parser promises of an instruction. -/
structure Instruction.WellRead (isa : InstructionSet) (i : Instruction) : Prop where
  /-- The format is one that the mnemonic offers, and the condition is the one that it names. -/
  lookup : ∃ candidates, isa.lookup i.mnemonic = some candidates ∧
    i.format ∈ candidates.formats ∧ i.condition = candidates.condition
  conditional : i.condition.isSome = i.format.conditional
  signature : i.format.signature = i.operands.map Operand.kind
  length_eq : i.operands.length = i.format.slots.length
  registers : ∀ o ∈ i.operands, ∀ index, o.content = .register index → 0 ≤ index ∧ index ≤ 7
  fixed : ∀ q ∈ i.format.slots.zip i.operands, ∀ n ∈ q.1.fixed, q.2.value? = some n
  /-- A tied operand is the register that an earlier slot places in the field. -/
  tied : ∀ before s o after, i.format.slots.zip i.operands = before ++ (s, o) :: after →
    ∀ field ∈ s.tie, ∃ index, o.content = .register index ∧
      ∃ q ∈ before, q.1.field = some field ∧ q.2.content = .register index
  /-- A label is an operand of a branch only, and its name is an identifier but no register. -/
  labels : ∀ o ∈ i.operands, ∀ name, o.content = .label name →
    i.format.branch = true ∧ (∃ g ∈ i.format.fields, g.name = "offset".toList) ∧
      IsIdentifier name ∧ registerDigits? name = none ∧ name.lower ∉ specialRegisters
  /-- The mnemonic is what the line shows at the column, in letters of either case. -/
  mnemonic : (i.text.slice (i.column - 1).toNat
    ((i.column - 1).toNat + i.mnemonic.length)).lower = i.mnemonic
  /-- An operand stands after the mnemonic, and its text is what the line shows at its column. -/
  operands : ∀ o ∈ i.operands, i.column < o.column ∧ o.text ≠ [] ∧
    i.text.slice (o.column - 1).toNat ((o.column - 1).toNat + o.text.length) = o.text

namespace Instruction

variable {isa : InstructionSet} {i : Instruction}

theorem Formed.branch_of_label (h : i.Formed) {o : Operand} (ho : o ∈ i.operands) {name : Text}
    (hname : o.content = .label name) :
    i.format.branch = true ∧ ∃ g ∈ i.format.fields, g.name = "offset".toList := by
  obtain ⟨slot, hslot, hlabel⟩ := h.exists_label_slot ho hname
  obtain ⟨-, -, hbranch, g, hg, hoffset⟩ := h.sound.label_slot slot hslot hlabel
  exact ⟨hbranch, g, hg, hoffset.1⟩

theorem ReadFrom.tied_before {ts : List Token} (h : i.ReadFrom isa ts) (hformed : i.Formed)
    (hregular : i.format.Regular) {before after : List (Slot × Operand)} {s : Slot} {o : Operand}
    (hsplit : i.format.slots.zip i.operands = before ++ (s, o) :: after) {field : Text}
    (htie : s.tie = some field) :
    ∃ index, o.content = .register index ∧
      ∃ q ∈ before, q.1.field = some field ∧ q.2.content = .register index := by
  have hslots := h.slots
  rw [hsplit] at hslots
  have hkind {q : Slot × Operand} (hq : q ∈ before ++ (s, o) :: after) : q.1.kind = q.2.kind :=
    Format.kind_of_mem_zip hformed.signature (hsplit ▸ hq)
  have hmem : (s, o) ∈ before ++ (s, o) :: after := by simp
  have hs : s.kind = .register := by
    cases hregular.slots s (List.of_mem_zip (hsplit ▸ hmem)).1 with
    | tied => rfl
    | _ => cases htie
  obtain ⟨v, hv, hplaced | ⟨q, hq, hfield, hregister, hv'⟩⟩ := hslots.tied_before htie
  · cases hplaced
  · refine ⟨v, Operand.content_of_register ((hkind hmem).symm.trans hs) hv, q, hq, hfield, ?_⟩
    have hkind' := hkind (List.mem_append_left _ hq)
    exact Operand.content_of_register (hkind'.symm.trans hregister) hv'

/-- **An instruction that was read is as promised.** -/
theorem wellRead (hisa : isa.Sound) (hregular : isa.Regular) {code shown : Text} {number : Int}
    (hread : i.ReadIn isa code) (hstands : i.StandsIn number shown) (horder : i.InOrder) :
    i.WellRead isa := by
  obtain ⟨ts, hts, hfrom⟩ := hread
  have hformed := hfrom.formed hisa
  obtain ⟨candidates, hlookup, hcondition, hfind⟩ := hfrom.format
  have hcandidate := List.mem_of_find?_eq_some hfind
  have hformat := hregular.formats _ (InstructionSet.mem_allFormats_of_lookup hlookup hcandidate)
  obtain ⟨name, hne, hname, hmnemonic⟩ := horder.mnemonic
  exact {
    lookup := ⟨candidates, hlookup, hcandidate, hcondition⟩
    conditional := hformed.condition.symm
    signature := hformed.signature
    length_eq := hformed.length_eq
    registers := by
      intro o ho index hcontent
      have hdrawn := hfrom.operands o ho
      rw [Operand.DrawnFrom, hcontent] at hdrawn
      exact isRegisterIndex_iff.1 hdrawn
    fixed := hfrom.slots.fixed
    tied := fun before s o after hsplit field htie =>
      hfrom.tied_before hformed hformat hsplit htie
    labels := by
      intro o ho name hcontent
      have hdrawn := hfrom.operands o ho
      rw [Operand.DrawnFrom, hcontent] at hdrawn
      obtain ⟨⟨t, ht, hkind, rfl⟩, hregister⟩ := hdrawn
      have hspelled := hts t ht
      rw [Token.SpelledIn, hkind] at hspelled
      obtain ⟨hbranch, hoffset⟩ := hformed.branch_of_label ho hcontent
      exact ⟨hbranch, hoffset, hspelled.1, hregister⟩
    mnemonic := by
      rw [hmnemonic, Text.length_lower, hname.slice_eq]
    operands := by
      intro o ho
      obtain ⟨hcolumn, htext⟩ := horder.operands.of_mem ho
      refine ⟨?_, htext, ?_⟩
      · have hpos := List.length_pos_of_ne_nil hne
        rw [hmnemonic, Text.length_lower] at hcolumn
        omega
      · rw [hstands.text]
        exact (hstands.operands o ho).slice_eq }

end Instruction

/-! ### Programs -/

/-- What the parser promises of the program that it reads from a source. -/
structure Program.WellRead (isa : InstructionSet) (source : Text) (p : Program) : Prop where
  /-- The entries are in the order of their lines and columns. -/
  ordered : p.Pairwise Entry.Precedes
  /-- The text of an entry is its line, with tabs expanded and without trailing blanks. -/
  texts : ∀ e ∈ p, ∃ (k : Nat) (raw : Text), source.lines[k]? = some raw ∧ e.line = k + 1 ∧
    e.text = raw.expandTabs.trimEnd
  /-- A label that is defined can be one, and its name is what the line shows at its column. -/
  labels : ∀ l, .label l ∈ p → IsIdentifier l.name ∧ isa.isReserved l.name = false ∧
    l.text.slice (l.column - 1).toNat ((l.column - 1).toNat + l.name.length) = l.name
  instructions : ∀ i, .instruction i ∈ p → i.WellRead isa

namespace Entry

variable {number : Int} {shown : Text} {e : Entry}

theorem StandsIn.line_eq (h : e.StandsIn number shown) : e.line = number := by
  cases e with
  | label l => exact Label.StandsIn.line h
  | instruction i => exact Instruction.StandsIn.line h

theorem StandsIn.text_eq (h : e.StandsIn number shown) : e.text = shown := by
  cases e with
  | label l => exact Label.StandsIn.text h
  | instruction i => exact Instruction.StandsIn.text h

end Entry

/-- **Every program that is read is as promised.** -/
theorem parse_wellRead {source : Text} {p : Program}
    (h : parse Thumb.instructionSet source = .ok p) :
    Program.WellRead Thumb.instructionSet source p where
  ordered := parse_ordered Thumb.instructionSet_sound h
  texts := by
    intro e he
    obtain ⟨⟨raw, number⟩, hq, hstands⟩ := parse_standsIn Thumb.instructionSet_unbroken h he
    obtain ⟨hle, hraw⟩ := List.mk_mem_zipIdx_iff_le_and_getElem?_sub.1 hq
    refine ⟨number - 1, raw, hraw, ?_, hstands.text_eq⟩
    rw [hstands.line_eq]
    simp only
    omega
  labels := by
    intro l hl
    obtain ⟨q, -, hread⟩ := parse_readIn Thumb.instructionSet_sound h hl
    obtain ⟨q', -, hstands⟩ := parse_standsIn Thumb.instructionSet_unbroken h hl
    have hstands : l.StandsIn q'.2 q'.1.shown := hstands
    refine ⟨Label.ReadIn.identifier hread, Label.ReadIn.unreserved hread, ?_⟩
    rw [hstands.text]
    exact hstands.name.slice_eq
  instructions := by
    intro i hi
    obtain ⟨q, -, hread, -⟩ := parse_readIn Thumb.instructionSet_sound h hi
    obtain ⟨q', -, hstands⟩ := parse_standsIn Thumb.instructionSet_unbroken h hi
    exact Instruction.wellRead Thumb.instructionSet_sound Thumb.instructionSet_regular hread
      hstands (parse_inOrder h hi)

/-- Two labels on one line, a tied and a fixed operand, an offset in brackets, tabs and a comment:
a source of six entries, which are as promised. -/
theorem parse_wellRead_six_entries :
    ∃ p, parse Thumb.instructionSet
        "x: y:muls r1, r2, r1\n\trsbs\tr3, r4, #0 @ -\nstr r0, [sp, #4]\nbne x ".toList = .ok p ∧
      p.length = 6 ∧
      Program.WellRead Thumb.instructionSet
        "x: y:muls r1, r2, r1\n\trsbs\tr3, r4, #0 @ -\nstr r0, [sp, #4]\nbne x ".toList p := by
  have heval : (parse Thumb.instructionSet
      "x: y:muls r1, r2, r1\n\trsbs\tr3, r4, #0 @ -\nstr r0, [sp, #4]\nbne x ".toList).toOption.any
        (fun p => p.length = 6) = true := by decide +kernel
  obtain ⟨p, hp, hlength⟩ := exists_ok_of_any heval
  exact ⟨p, hp, of_decide_eq_true hlength, parse_wellRead hp⟩

end ThumbAssembler
