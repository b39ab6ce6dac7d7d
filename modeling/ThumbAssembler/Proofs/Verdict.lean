/-
**When a source is assembled, and what is reported when it is not.**

A source is assembled exactly when all its lines can be read, its labels are distinct, its branches
reach their labels, and its operands fit their fields.  The stages come in this order, and a source
is rejected for the first offence against the first requirement that it fails, whatever else is
wrong with it.

Main definitions:

* `ThumbAssembler.Reads` — the lines of a source spell a program;
* `ThumbAssembler.Program.BranchesReach` — the branches of a part of a program reach their labels;
* `ThumbAssembler.Program.OperandsFit` — the operands of a program fit their fields;
* `ThumbAssembler.Rejects` — a source is rejected for a given cause at a given place.

Main results:

* `ThumbAssembler.exists_assemble_eq_ok_iff` — **what it takes to be assembled**;
* `ThumbAssembler.rejects_of_assemble_eq_error`, `ThumbAssembler.assemble_eq_error_of_rejects` —
  **which fault is reported**;
* `ThumbAssembler.report_verdict` — these together, as a report.
-/

import Mathlib
import ThumbAssembler.Proofs.BranchTargets

set_option autoImplicit false

namespace ThumbAssembler

/-! ### The requirements -/

/-- Every line of the source can be read, and the lines together spell the program. -/
def Reads (isa : InstructionSet) (source : Text) (p : Program) : Prop :=
  ∃ ls, List.Forall₂ (fun q l => parseLine isa q.2 q.1 = .ok l) source.numbered ls ∧
    p = ls.flatMap ParsedLine.entries

/-- The distance is within the signed range of a field. -/
def Field.InReach (g : Field) (distance : Int) : Prop :=
  -2 ^ (g.width.toNat - 1) ≤ distance ∧ distance < 2 ^ (g.width.toNat - 1)

/-- The operands that feed fields fit them, except for labels. -/
def Instruction.OperandsFit (i : Instruction) : Prop :=
  ∀ q ∈ i.feeds, q.2.isLabel = false → i.Fits q

namespace Program

/-- The branch `i` at address `a` reaches a label: the label is defined, and the distance to it is
within the signed range of the branch's offset field. -/
def Reaches (bias : Int) (p : Program) (a : Nat) (i : Instruction) (name : Text) : Prop :=
  ∃ t g, p.Defines name t ∧ i.format.field? "offset".toList = some g ∧
    g.InReach (t - (a + bias))

/-- Every reference to a label in `part`, with which the program starts, reaches its label. -/
def BranchesReach (bias : Int) (p part : Program) : Prop :=
  ∀ a i o name, (a, .instruction i) ∈ part.addressed → o ∈ i.operands →
    o.content = .label name → p.Reaches bias a i name

/-- Every operand that feeds a field fits it, except for labels. -/
def OperandsFit (p : Program) : Prop := ∀ i, .instruction i ∈ p → i.OperandsFit

end Program

/-- The source is rejected: a requirement is not met although those before it are, and `r` is the
first offence against it. -/
inductive Rejects (isa : InstructionSet) (bias : Int) (source : Text) : Rejection → Prop
  /-- The earliest line that cannot be read has a fault of syntax. -/
  | unreadable {before after : List (Text × Nat)} {raw : Text} {number : Nat} {r : Rejection}
      (split : source.numbered = before ++ (raw, number) :: after)
      (earlier : ∀ q ∈ before, ∃ l, parseLine isa q.2 q.1 = .ok l)
      (fault : parseLine isa number raw = .error (.rejected r))
      (kind : r.cause.kind = .syntactic) (line : r.place.line = number) :
      Rejects isa bias source r
  /-- The earliest entry that repeats a label; the first definition is named. -/
  | duplicate {p before after : Program} {first l : Label} (reads : Reads isa source p)
      (repeats : p.Repeats before first l after) :
      Rejects isa bias source ⟨.duplicateLabel l.name first.line, l.place⟩
  /-- The earliest branch that does not reach its label refers to no label at all. -/
  | undefined {p before after : Program} {i : Instruction} {o : Operand} {name : Text}
      (reads : Reads isa source p) (distinct : p.labelNames.Nodup)
      (split : p = before ++ .instruction i :: after) (earlier : p.BranchesReach bias before)
      (branch : i.RefersTo o name) (undefined : name ∉ p.labelNames) :
      Rejects isa bias source ⟨.undefinedLabel name, i.place o⟩
  /-- The earliest branch that does not reach its label is too far from it. -/
  | tooFar {p before after : Program} {i : Instruction} {o : Operand} {name : Text} {t : Int}
      {g : Field} (reads : Reads isa source p) (distinct : p.labelNames.Nodup)
      (split : p = before ++ .instruction i :: after) (earlier : p.BranchesReach bias before)
      (branch : i.RefersTo o name) (defined : p.Defines name t)
      (field : i.format.field? "offset".toList = some g)
      (far : ¬ g.InReach (t - (before.size + bias))) :
      Rejects isa bias source
        ⟨.branchOutOfRange i.mnemonic name (t - (before.size + bias)) g.bounds, i.place o⟩
  /-- The first operand that does not fit, of the earliest instruction that has one. -/
  | misfit {p before after : Program} {i : Instruction} {q : Text × Operand} {g : Field} {v : Int}
      (reads : Reads isa source p) (distinct : p.labelNames.Nodup)
      (branches : p.BranchesReach bias p) (split : p = before ++ .instruction i :: after)
      (earlier : before.OperandsFit) (operand : i.FirstMisfit q g v) :
      Rejects isa bias source
        ⟨.outOfRange i.mnemonic (i.subject q.1) v g.bounds, i.place q.2⟩

/-! ### Linking -/

theorem Field.IsOffset.holds_iff {g : Field} (h : g.IsOffset) {v : Int} :
    g.Holds v ↔ g.InReach v := by
  obtain ⟨-, hsigned, hscale⟩ := h
  simp only [Holds, InReach, bounds, hsigned, hscale, if_true, Int.emod_one, mul_one, true_and,
    Bits.weight_eq_pow]
  rw [Int.le_sub_one_iff]

variable {bias : Int} {p : Program}

theorem Program.addressed_append_cons (before : Program) (e : Entry) (after : Program) :
    addressed (before ++ e :: after) =
      addressed before ++ (size before, e) :: addressedFrom (size before + e.size) after := by
  rw [addressed, addressedFrom_append, Nat.zero_add]
  rfl

/-- A part of the addressed entries is the addressed entries of a part. -/
theorem Program.eq_of_addressed_eq {xs ys : List (Nat × Entry)} {x : Nat × Entry}
    (h : p.addressed = xs ++ x :: ys) :
    ∃ before e after, p = before ++ e :: after ∧ xs = addressed before ∧ x = (size before, e) := by
  have hp : p = xs.map Prod.snd ++ x.2 :: ys.map Prod.snd := by
    rw [← map_snd_addressed p, h, List.map_append, List.map_cons]
  have hsplit := addressed_append_cons (xs.map Prod.snd) x.2 (ys.map Prod.snd)
  rw [← hp, h] at hsplit
  have hlength : xs.length = (addressed (xs.map Prod.snd)).length := by
    have hmap := congrArg List.length (map_snd_addressed (xs.map Prod.snd))
    rw [List.length_map, List.length_map] at hmap
    exact hmap.symm
  obtain ⟨hxs, hx⟩ := List.append_inj hsplit hlength
  exact ⟨_, _, _, hp, hxs, (List.cons.inj hx).1⟩

/-- A name has an address exactly when a label of that name is defined. -/
theorem address?_eq_none_iff (hnodup : p.labelNames.Nodup) {name : Text} :
    p.table.freeze.address? name = none ↔ name ∉ p.labelNames := by
  constructor
  · intro hnone hmem
    obtain ⟨l, hl, rfl⟩ := List.mem_map.1 hmem
    obtain ⟨e, he, hle⟩ := List.mem_filterMap.1 hl
    cases e with
    | instruction i => cases hle
    | label l' =>
        obtain rfl := Option.some_inj.1 hle
        obtain ⟨before, after, hsplit⟩ := List.append_of_mem he
        rw [(address?_table hnodup).2 ⟨before, l', after, hsplit, rfl, rfl⟩] at hnone
        cases hnone
  · intro hname
    cases haddress : p.table.freeze.address? name with
    | none => rfl
    | some t => exact absurd ((address?_table hnodup).1 haddress).mem_labelNames hname

/-- Linking a branch fails exactly when its label is not defined, or too far away. -/
theorem linkEntry_eq_error_iff (hnodup : p.labelNames.Nodup) {a : Nat} {i : Instruction}
    (hi : i.Formed) {e : Fault} :
    linkEntry bias p.table.freeze (a, .instruction i) = .error e ↔
      ∃ o name, i.RefersTo o name ∧
        (name ∉ p.labelNames ∧ e = .rejected ⟨.undefinedLabel name, i.place o⟩ ∨
          ∃ t g, p.Defines name t ∧ i.format.field? "offset".toList = some g ∧
            ¬ g.InReach (t - (a + bias)) ∧
            e = rejection (.branchOutOfRange i.mnemonic name (t - (a + bias)) g.bounds)
              (i.place o)) := by
  have hlink {o : Operand} {name : Text} (href : i.RefersTo o name) :
      linkEntry bias p.table.freeze (a, .instruction i) = .error e ↔
        branchOffset bias p.table.freeze a i o name = .error e := by
    rw [linkEntry_of_refersTo href]
    cases branchOffset bias p.table.freeze a i o name <;> simp
  constructor
  · intro h
    rcases hi.cases_label with hlabels | ⟨o, name, href⟩
    · rw [linkEntry_of_not_isLabel hlabels] at h
      cases h
    · obtain ⟨g, -, hoffset, hfield, hg, -⟩ := hi.offset_field href
      refine ⟨o, name, href, ?_⟩
      rw [hlink href, branchOffset_eq hg hfield] at h
      cases haddress : p.table.freeze.address? name with
      | none =>
          simp only [haddress] at h
          exact Or.inl ⟨(address?_eq_none_iff hnodup).1 haddress, (Except.error.inj h).symm⟩
      | some t =>
          simp only [haddress] at h
          split at h
          · cases h
          · rename_i hholds
            rw [hoffset.holds_iff] at hholds
            exact Or.inr ⟨t, g, (address?_table hnodup).1 haddress, hfield, hholds,
              (Except.error.inj h).symm⟩
  · rintro ⟨o, name, href, hcause⟩
    obtain ⟨g, -, hoffset, hfield, hg, -⟩ := hi.offset_field href
    rw [hlink href, branchOffset_eq hg hfield]
    rcases hcause with ⟨hname, he⟩ | ⟨t, g', hdefines, hfield', hfar, he⟩
    · simp only [(address?_eq_none_iff hnodup).2 hname, he]
    · obtain rfl : g' = g := Option.some_inj.1 (hfield'.symm.trans hfield)
      rw [← hoffset.holds_iff] at hfar
      simp only [(address?_table hnodup).2 hdefines, if_neg hfar, he]

/-- Linking an instruction succeeds exactly when its labels are within reach. -/
theorem exists_linkEntry_eq_ok_iff (hnodup : p.labelNames.Nodup) {a : Nat} {i : Instruction}
    (hi : i.Formed) :
    (∃ e, linkEntry bias p.table.freeze (a, .instruction i) = .ok e) ↔
      ∀ o name, o ∈ i.operands → o.content = .label name → p.Reaches bias a i name := by
  constructor
  · rintro ⟨e, he⟩ o name ho hname
    obtain ⟨href, -⟩ := hi.refersTo ho hname
    obtain ⟨g, -, hoffset, hfield, hg, -⟩ := hi.offset_field href
    rw [linkEntry_of_refersTo href] at he
    obtain ⟨offset, hbranch, -⟩ := bind_eq_ok_iff.1 he
    obtain ⟨t, hdefines, rfl, hholds⟩ := (branchOffset_eq_ok_iff hnodup hg hfield).1 hbranch
    exact ⟨t, g, hdefines, hfield, hoffset.holds_iff.1 hholds⟩
  · intro hreach
    cases hlink : linkEntry bias p.table.freeze (a, .instruction i) with
    | ok e => exact ⟨e, rfl⟩
    | error e =>
        obtain ⟨o, name, href, hcause⟩ := (linkEntry_eq_error_iff hnodup hi).1 hlink
        obtain ⟨t, g, hdefines, hfield, hnear⟩ := hreach o name href.mem href.content
        rcases hcause with ⟨hname, -⟩ | ⟨t', g', hdefines', hfield', hfar, -⟩
        · exact absurd hdefines.mem_labelNames hname
        · obtain rfl : g' = g := Option.some_inj.1 (hfield'.symm.trans hfield)
          have haddress := (address?_table hnodup).2 hdefines
          rw [(address?_table hnodup).2 hdefines'] at haddress
          obtain rfl := Option.some_inj.1 haddress
          exact absurd hnear hfar

/-- The entries of a part can be linked exactly when its branches reach their labels. -/
theorem forall_exists_linkEntry_iff (hnodup : p.labelNames.Nodup)
    (hformed : ∀ i, .instruction i ∈ p → i.Formed) {part : Program} (hpart : part ⊆ p) :
    (∀ x ∈ part.addressed, ∃ e, linkEntry bias p.table.freeze x = .ok e) ↔
      p.BranchesReach bias part := by
  have hmem {a : Nat} {i : Instruction} (h : (a, Entry.instruction i) ∈ part.addressed) :
      Entry.instruction i ∈ p := hpart (Program.mem_of_mem_addressed h)
  constructor
  · intro h a i o name hai ho hname
    exact (exists_linkEntry_eq_ok_iff hnodup (hformed i (hmem hai))).1 (h _ hai) o name ho hname
  · rintro h ⟨a, e⟩ hae
    cases e with
    | label l => exact ⟨_, rfl⟩
    | instruction i =>
        refine (exists_linkEntry_eq_ok_iff hnodup (hformed i (hmem hae))).2 ?_
        exact fun o name ho hname => h a i o name hae ho hname

/-- **The second pass stops at the earliest branch that does not reach its label.** -/
theorem walk_eq_error_iff (hnodup : p.labelNames.Nodup)
    (hformed : ∀ i, .instruction i ∈ p → i.Formed) {e : Fault} :
    p.addressed.mapM (linkEntry bias p.table.freeze) = .error e ↔
      ∃ before i after, p = before ++ .instruction i :: after ∧ p.BranchesReach bias before ∧
        linkEntry bias p.table.freeze (Program.size before, .instruction i) = .error e := by
  have hbefore {before after : Program} {i : Instruction}
      (hp : p = before ++ .instruction i :: after) : before ⊆ p := by
    rw [hp]
    exact List.subset_append_left _ _
  rw [mapM_eq_error_iff]
  constructor
  · rintro ⟨xs, x, ys, hsplit, hxs, hx⟩
    -- where the walk stops is an entry of the program, and not a label
    obtain ⟨before, entry, after, hp, rfl, rfl⟩ := Program.eq_of_addressed_eq hsplit
    cases entry with
    | label l => cases hx
    | instruction i =>
        exact ⟨before, i, after, hp,
          (forall_exists_linkEntry_iff hnodup hformed (hbefore hp)).1 hxs, hx⟩
  · rintro ⟨before, i, after, hp, hreach, hi⟩
    have hsplit := Program.addressed_append_cons before (.instruction i) after
    rw [← hp] at hsplit
    exact ⟨_, _, _, hsplit,
      (forall_exists_linkEntry_iff hnodup hformed (hbefore hp)).2 hreach, hi⟩

/-! ### Encoding -/

namespace Instruction

variable {i i' : Instruction} {table : SymbolTable} {a : Nat}

/-- What linking makes of an instruction that can be linked: nothing if it has no label, and else a
branch with an offset that its field can hold. -/
theorem Formed.linkEntry_cases (hi : i.Formed)
    (hlink : linkEntry bias table (a, .instruction i) = .ok (.instruction i')) :
    (∀ o ∈ i.operands, o.isLabel = false) ∧ i' = i ∨
      ∃ o name offset g, i.RefersTo o name ∧ i' = i.linked o offset ∧
        i.format.field? "offset".toList = some g ∧ g.Holds offset := by
  rcases hi.cases_label with hlabels | ⟨o, name, href⟩
  · rw [linkEntry_of_not_isLabel hlabels] at hlink
    exact Or.inl ⟨hlabels, (Entry.instruction.inj (Except.ok.inj hlink)).symm⟩
  · obtain ⟨g, -, -, hfield, hg, -⟩ := hi.offset_field href
    rw [linkEntry_of_refersTo href] at hlink
    obtain ⟨offset, hoffset, hlink⟩ := bind_eq_ok_iff.1 hlink
    have hi' := (Entry.instruction.inj (Except.ok.inj hlink)).symm
    obtain ⟨t, -, -, hholds⟩ := (branchOffset_eq_ok_iff_address hg hfield).1 hoffset
    exact Or.inr ⟨o, name, offset, g, href, hi', hfield, hholds⟩

/-- The only operand of a branch to a label feeds its offset field. -/
theorem Formed.feeds_of_refersTo (hi : i.Formed) {o : Operand} {name : Text}
    (href : i.RefersTo o name) : i.feeds = [("offset".toList, o)] := by
  obtain ⟨g, -, -, -, -, slot, hslots, hslot⟩ := hi.offset_field href
  simp [feeds, feeding, hslots, hslot, href.operands]

theorem RefersTo.isLabel {o : Operand} {name : Text} (h : i.RefersTo o name) :
    o.isLabel = true := by
  simp [Operand.isLabel, Operand.kind, h.content, Operand.Content.kind]

/-- A linked branch has a word. -/
theorem Formed.exists_encode_linked (hi : i.Formed) {o : Operand} {name : Text}
    (href : i.RefersTo o name) {g : Field} {offset : Int}
    (hfield : i.format.field? "offset".toList = some g) (hholds : g.Holds offset) :
    ∃ w, (i.linked o offset).encode = .ok w := by
  obtain ⟨hcomplete, hfeeds⟩ := hi.linked_complete href offset
  refine (exists_encode_eq_ok_iff (i := i.linked o offset) hi.sound.toWellFormed hcomplete).2 ?_
  intro q hq
  rw [hfeeds, List.mem_singleton] at hq
  exact ⟨g, offset, by rw [hq]; exact hfield, by rw [hq]; rfl, hholds⟩

/-- **A linked instruction has a word exactly when its operands fit.** -/
theorem Formed.exists_encode_iff (hi : i.Formed)
    (hlink : linkEntry bias table (a, .instruction i) = .ok (.instruction i')) :
    (∃ w, i'.encode = .ok w) ↔ i.OperandsFit := by
  rcases hi.linkEntry_cases hlink with
    ⟨hlabels, rfl⟩ | ⟨o, name, offset, g, href, rfl, hfield, hholds⟩
  · rw [exists_encode_eq_ok_iff hi.sound.toWellFormed (hi.complete hlabels)]
    constructor
    · exact fun h q hq _ => h q hq
    · exact fun h q hq => h q hq (hlabels q.2 (mem_operands_of_mem_feeds hq))
  · refine iff_of_true (hi.exists_encode_linked href hfield hholds) ?_
    intro q hq hlabel
    rw [hi.feeds_of_refersTo href, List.mem_singleton] at hq
    rw [hq, href.isLabel] at hlabel
    cases hlabel

/-- **A linked instruction is reported for the first operand that does not fit.** -/
theorem Formed.encode_eq_error_iff (hi : i.Formed)
    (hlink : linkEntry bias table (a, .instruction i) = .ok (.instruction i')) {e : Fault} :
    i'.encode = .error e ↔
      ∃ q g v, i.FirstMisfit q g v ∧
        e = rejection (.outOfRange i.mnemonic (i.subject q.1) v g.bounds) (i.place q.2) := by
  rcases hi.linkEntry_cases hlink with
    ⟨hlabels, rfl⟩ | ⟨o, name, offset, g, href, rfl, hfield, hholds⟩
  · exact Instruction.encode_eq_error_iff hi.sound.toWellFormed (hi.complete hlabels)
  · constructor
    · intro h
      obtain ⟨w, hw⟩ := hi.exists_encode_linked href hfield hholds
      rw [hw] at h
      cases h
    · -- the only operand is a label, which has no number
      rintro ⟨q, g', v, hmisfit, -⟩
      have hq := hmisfit.mem_feeds
      have hvalue := hmisfit.value
      rw [hi.feeds_of_refersTo href, List.mem_singleton] at hq
      rw [hq, Operand.value?, href.content] at hvalue
      cases hvalue

end Instruction

theorem Program.operandsFit_cons_label {l : Label} {p : Program} :
    OperandsFit (.label l :: p) ↔ OperandsFit p := by
  simp [OperandsFit]

theorem Program.operandsFit_cons_instruction {i : Instruction} {p : Program} :
    OperandsFit (.instruction i :: p) ↔ i.OperandsFit ∧ OperandsFit p := by
  simp [OperandsFit]

/-- **Encoding stops at the earliest instruction with an operand that does not fit.** -/
theorem encode_linked_eq_error_iff {table : SymbolTable} {address : Nat} {q : Program}
    (hformed : ∀ i, .instruction i ∈ p → i.Formed)
    (hq : List.Forall₂ (fun x e => linkEntry bias table x = .ok e)
      (Program.addressedFrom address p) q) {e : Fault} :
    Program.encode q = .error e ↔
      ∃ before i after r g v, p = before ++ .instruction i :: after ∧
        Program.OperandsFit before ∧ i.FirstMisfit r g v ∧
        e = rejection (.outOfRange i.mnemonic (i.subject r.1) v g.bounds) (i.place r.2) := by
  induction p generalizing address q with
  | nil =>
      obtain rfl := List.forall₂_nil_left_iff.1 hq
      constructor
      · intro h
        cases h
      · rintro ⟨before, i, after, r, g, v, hsplit, -⟩
        simp at hsplit
  | cons entry p ih =>
      obtain ⟨e', q', he', hq', rfl⟩ := List.forall₂_cons_left_iff.1 hq
      have hformed' (i : Instruction) (hi : .instruction i ∈ p) : i.Formed :=
        hformed i (List.mem_cons_of_mem _ hi)
      cases entry with
      | label l =>
          obtain rfl := Except.ok.inj he'
          rw [Program.encode_label, ih hformed' hq']
          constructor
          · rintro ⟨before, i, after, r, g, v, rfl, hbefore, h⟩
            exact ⟨.label l :: before, i, after, r, g, v, rfl,
              Program.operandsFit_cons_label.2 hbefore, h⟩
          · rintro ⟨before, i, after, r, g, v, hsplit, hbefore, h⟩
            cases before with
            | nil => simp at hsplit
            | cons entry before =>
                obtain ⟨rfl, rfl⟩ := List.cons.inj hsplit
                exact ⟨before, i, after, r, g, v, rfl,
                  Program.operandsFit_cons_label.1 hbefore, h⟩
      | instruction j =>
          have hj := hformed j List.mem_cons_self
          obtain ⟨os, -, hos⟩ := bind_eq_ok_iff.1 he'
          obtain rfl := Except.ok.inj hos
          have hword := hj.exists_encode_iff he'
          have hfault {e : Fault} := hj.encode_eq_error_iff he' (e := e)
          rw [Program.encode_instruction, bind_eq_error_iff, hfault]
          constructor
          · rintro (⟨r, g, v, hmisfit, he⟩ | ⟨w, hw, h⟩)
            · exact ⟨[], j, p, r, g, v, rfl, by simp [Program.OperandsFit], hmisfit, he⟩
            · rcases bind_eq_error_iff.1 h with h | ⟨ws, -, h⟩
              · obtain ⟨before, i, after, r, g, v, rfl, hbefore, h⟩ := (ih hformed' hq').1 h
                exact ⟨.instruction j :: before, i, after, r, g, v, rfl,
                  Program.operandsFit_cons_instruction.2 ⟨hword.1 ⟨w, hw⟩, hbefore⟩, h⟩
              · cases h
          · rintro ⟨before, i, after, r, g, v, hsplit, hbefore, hmisfit, he⟩
            cases before with
            | nil =>
                obtain ⟨hij, rfl⟩ := List.cons.inj hsplit
                obtain rfl := Entry.instruction.inj hij
                exact Or.inl ⟨r, g, v, hmisfit, he⟩
            | cons entry before =>
                obtain ⟨rfl, rfl⟩ := List.cons.inj hsplit
                obtain ⟨hjfit, hbefore⟩ := Program.operandsFit_cons_instruction.1 hbefore
                obtain ⟨w, hw⟩ := hword.2 hjfit
                have hrest := (ih hformed' hq').2
                  ⟨before, i, after, r, g, v, rfl, hbefore, hmisfit, he⟩
                exact Or.inr ⟨w, hw, by rw [hrest, error_bind]⟩

/-! ### The verdict -/

variable {isa : InstructionSet} {source : Text}

/-- **What it takes to be assembled.** -/
theorem exists_assemble_eq_ok_iff (hisa : isa.Sound) :
    (∃ a, assemble isa bias source = .ok a) ↔
      ∃ p, Reads isa source p ∧ p.labelNames.Nodup ∧ p.BranchesReach bias p ∧ p.OperandsFit := by
  constructor
  · rintro ⟨a, ha⟩
    obtain ⟨p, q, words, hp, hnodup, hq, hwords, -⟩ := assemble_eq_ok_iff.1 ha
    have hformed (i : Instruction) (hi : .instruction i ∈ p) : i.Formed :=
      Instruction.formed_of_parse hisa hp hi
    refine ⟨p, parse_eq_ok_iff.1 hp, hnodup, ?_, ?_⟩
    · rw [← forall_exists_linkEntry_iff hnodup hformed (List.Subset.refl p),
        ← exists_mapM_eq_ok_iff]
      exact ⟨q, mapM_eq_ok_iff.2 hq⟩
    · intro i hi
      obtain ⟨before, after, hsplit⟩ := List.append_of_mem hi
      obtain ⟨i', w, hlink, hw, -⟩ := (encode_linked hq hwords).2 _ i
        (Program.mem_addressed.2 ⟨before, after, hsplit, rfl⟩)
      exact ((hformed i hi).exists_encode_iff hlink).1 ⟨w, hw⟩
  · rintro ⟨p, hreads, hnodup, hreach, hfit⟩
    have hp := parse_eq_ok_iff.2 hreads
    have hformed (i : Instruction) (hi : .instruction i ∈ p) : i.Formed :=
      Instruction.formed_of_parse hisa hp hi
    rw [← forall_exists_linkEntry_iff hnodup hformed (List.Subset.refl p),
      ← exists_mapM_eq_ok_iff] at hreach
    obtain ⟨q, hq⟩ := hreach
    have hq := mapM_eq_ok_iff.1 hq
    cases hwords : Program.encode q with
    | ok words => exact ⟨_, assemble_eq_ok_iff.2 ⟨p, q, words, hp, hnodup, hq, hwords, rfl⟩⟩
    | error e =>
        obtain ⟨before, i, after, r, g, v, hsplit, -, hmisfit, -⟩ :=
          (encode_linked_eq_error_iff hformed hq).1 hwords
        have hi : .instruction i ∈ p := by
          rw [hsplit]
          simp
        obtain ⟨g', v', hfield', hvalue', hholds'⟩ := hfit i hi r hmisfit.mem_feeds
          (Instruction.isLabel_eq_false_of_value hmisfit.value)
        obtain rfl : g' = g := Option.some_inj.1 (hfield'.symm.trans hmisfit.field)
        obtain rfl : v' = v := Option.some_inj.1 (hvalue'.symm.trans hmisfit.value)
        exact absurd hholds' hmisfit.not_holds

/-- The report that a field cannot hold a number is a rejection, if the number can be printed. -/
theorem rejection_of_bounds {i : Instruction} (hi : i.Formed) {name : Text} {g : Field}
    (hfield : i.format.field? name = some g) {v : Int} (hv : isPrintable v = true) {cause : Cause}
    (hcause : cause.numbers = v :: g.bounds.numbers) (place : Place) :
    rejection cause place = .rejected ⟨cause, place⟩ := by
  have hwf := hi.sound.toWellFormed
  have hg : g ∈ i.format.fields := ((Format.field?_eq_some_iff hwf.names_nodup).1 hfield).1
  have hnumbers : cause.numbers.all isPrintable = true := by
    rw [hcause, List.all_cons, hv, hi.sound.bounds_printable g hg]
    rfl
  rw [rejection, if_pos hnumbers]

/-- The report that a branch is too far from its label is a rejection. -/
theorem rejection_tooFar {i : Instruction} (hi : i.Formed) (hp : parse isa source = .ok p)
    (hbias : bias.natAbs + source.length < printLimit) {before after : Program}
    (hsplit : p = before ++ .instruction i :: after) {name : Text} {t : Int}
    (hdefines : p.Defines name t) {g : Field}
    (hfield : i.format.field? "offset".toList = some g) (place : Place) :
    rejection (.branchOutOfRange i.mnemonic name (t - (before.size + bias)) g.bounds) place =
      .rejected ⟨.branchOutOfRange i.mnemonic name (t - (before.size + bias)) g.bounds, place⟩ := by
  have hsize := size_le_length_of_parse hp
  have hbefore : before.size ≤ p.size := by
    rw [hsplit, Program.size_append]
    omega
  obtain ⟨hlow, hhigh⟩ := hdefines.le_size
  -- both addresses lie within the program, which is no longer than its source
  have hprint : isPrintable (t - (before.size + bias)) = true := by
    rw [isPrintable_iff]
    omega
  exact rejection_of_bounds hi hfield hprint rfl place

/-- The report that an operand does not fit is a rejection. -/
theorem rejection_misfit (hisa : isa.Sound) (hp : parse isa source = .ok p)
    (hshort : ∀ raw ∈ source.lines, ¬ LongHexadecimal raw.code) {i : Instruction}
    (hi : .instruction i ∈ p) {q : Text × Operand} {g : Field} {v : Int}
    (hmisfit : i.FirstMisfit q g v) (place : Place) :
    rejection (.outOfRange i.mnemonic (i.subject q.1) v g.bounds) place =
      .rejected ⟨.outOfRange i.mnemonic (i.subject q.1) v g.bounds, place⟩ := by
  obtain ⟨⟨raw, number⟩, hraw, hread, -⟩ := parse_readIn hisa hp hi
  have hprint := hread.isPrintable_value (hshort raw (List.fst_mem_of_mem_zipIdx hraw))
    (Instruction.mem_operands_of_mem_feeds hmisfit.mem_feeds) hmisfit.value
  exact rejection_of_bounds (Instruction.formed_of_parse hisa hp hi) hmisfit.field hprint rfl place

/-- Assembling fails exactly when a stage fails after those before it have succeeded. -/
theorem assemble_eq_error_iff_stage {e : Fault} :
    assemble isa bias source = .error e ↔
      parse isa source = .error e ∨ ∃ p, parse isa source = .ok p ∧
        (collect p = .error e ∨ p.labelNames.Nodup ∧
          (p.addressed.mapM (linkEntry bias p.table.freeze) = .error e ∨
            ∃ q, p.addressed.mapM (linkEntry bias p.table.freeze) = .ok q ∧
              Program.encode q = .error e)) := by
  rw [assemble_eq, bind_eq_error_iff]
  refine or_congr_right (exists_congr fun p => and_congr_right fun _ => ?_)
  rw [bind_eq_error_iff]
  refine or_congr_right ⟨?_, ?_⟩
  · rintro ⟨table, htable, h⟩
    obtain ⟨hnodup, rfl⟩ := collect_eq_ok_iff.1 htable
    refine ⟨hnodup, (bind_eq_error_iff.1 h).imp id ?_⟩
    rintro ⟨q, hq, h⟩
    rcases bind_eq_error_iff.1 h with h | ⟨words, -, h⟩
    · exact ⟨q, hq, h⟩
    · cases h
  · rintro ⟨hnodup, h⟩
    refine ⟨p.table, collect_of_nodup hnodup, bind_eq_error_iff.2 (h.imp id ?_)⟩
    rintro ⟨q, hq, h⟩
    exact ⟨q, hq, by rw [h, error_bind]⟩

/-- A failing stage is a reason to reject the source. -/
theorem rejects_of_assemble_eq_error (hisa : isa.Sound)
    (hlimit : ∀ raw ∈ source.lines, raw.code.WithinDigitLimit)
    (hbias : bias.natAbs + source.length < printLimit) {e : Fault}
    (h : assemble isa bias source = .error e) :
    ∃ r, e = .rejected r ∧ Rejects isa bias source r := by
  rcases assemble_eq_error_iff_stage.1 h with h | ⟨p, hp, h | ⟨hnodup, h⟩⟩
  · -- reading: within the digit limit, only syntax stops the parser
    obtain ⟨before, raw, number, after, hsplit, hbefore, hline⟩ := parse_eq_error_iff.1 h
    have hmem : (raw, number) ∈ source.numbered := by
      rw [hsplit]
      simp
    obtain ⟨r, rfl, hkind, hplace⟩ :=
      ((parseLine_outcome hisa number raw).of_error hline).syntaxFault
      (hlimit raw (List.fst_mem_of_mem_zipIdx hmem))
    exact ⟨r, rfl, .unreadable hsplit hbefore hline hkind hplace⟩
  · -- the first pass
    obtain ⟨before, first, l, after, hrepeats, rfl⟩ := collect_eq_error_iff.1 h
    exact ⟨_, rfl, .duplicate (parse_eq_ok_iff.1 hp) hrepeats⟩
  · have hreads := parse_eq_ok_iff.1 hp
    have hformed (i : Instruction) (hi : .instruction i ∈ p) : i.Formed :=
      Instruction.formed_of_parse hisa hp hi
    rcases h with h | ⟨q, hq, h⟩
    · -- the second pass
      obtain ⟨before, i, after, hsplit, hbefore, hlink⟩ := (walk_eq_error_iff hnodup hformed).1 h
      have hi := hformed i (by rw [hsplit]; simp)
      obtain ⟨o, name, href, hcause⟩ := (linkEntry_eq_error_iff hnodup hi).1 hlink
      rcases hcause with ⟨hname, rfl⟩ | ⟨t, g, hdefines, hfield, hfar, he⟩
      · exact ⟨_, rfl, .undefined hreads hnodup hsplit hbefore href hname⟩
      · rw [rejection_tooFar hi hp hbias hsplit hdefines hfield] at he
        exact ⟨_, he, .tooFar hreads hnodup hsplit hbefore href hdefines hfield hfar⟩
    · -- encoding: the second pass has succeeded, so every branch reaches its label
      obtain ⟨before, i, after, r, g, v, hsplit, hbefore, hmisfit, he⟩ :=
        (encode_linked_eq_error_iff hformed (mapM_eq_ok_iff.1 hq)).1 h
      have hi : .instruction i ∈ p := by
        rw [hsplit]
        simp
      have hreach := (forall_exists_linkEntry_iff hnodup hformed (List.Subset.refl p)).1
        (exists_mapM_eq_ok_iff.1 ⟨q, hq⟩)
      rw [rejection_misfit hisa hp (fun raw hraw => (hlimit raw hraw).not_longHexadecimal) hi
        hmisfit] at he
      exact ⟨_, he, .misfit hreads hnodup hreach hsplit hbefore hmisfit⟩

/-- A reason to reject the source makes a stage fail. -/
theorem assemble_eq_error_of_rejects (hisa : isa.Sound)
    (hlimit : ∀ raw ∈ source.lines, raw.code.WithinDigitLimit)
    (hbias : bias.natAbs + source.length < printLimit) {r : Rejection}
    (h : Rejects isa bias source r) : assemble isa bias source = .error (.rejected r) := by
  rw [assemble_eq_error_iff_stage]
  cases h with
  | unreadable hsplit hbefore hline _ _ =>
      exact Or.inl (parse_eq_error_iff.2 ⟨_, _, _, _, hsplit, hbefore, hline⟩)
  | @duplicate p before after first l hreads hrepeats =>
      exact Or.inr ⟨p, parse_eq_ok_iff.2 hreads,
        Or.inl (collect_eq_error_iff.2 ⟨before, first, l, after, hrepeats, rfl⟩)⟩
  | @undefined p before after i o name hreads hnodup hsplit hbefore href hname =>
      have hp := parse_eq_ok_iff.2 hreads
      have hformed (j : Instruction) (hj : .instruction j ∈ p) : j.Formed :=
        Instruction.formed_of_parse hisa hp hj
      have hi := hformed i (by rw [hsplit]; simp)
      have hlink : linkEntry bias p.table.freeze (before.size, .instruction i) = .error _ :=
        (linkEntry_eq_error_iff hnodup hi).2 ⟨o, name, href, Or.inl ⟨hname, rfl⟩⟩
      have hwalk := (walk_eq_error_iff hnodup hformed).2 ⟨before, i, after, hsplit, hbefore, hlink⟩
      exact Or.inr ⟨p, hp, Or.inr ⟨hnodup, Or.inl hwalk⟩⟩
  | @tooFar p before after i o name t g hreads hnodup hsplit hbefore href hdefines hfield hfar =>
      have hp := parse_eq_ok_iff.2 hreads
      have hformed (j : Instruction) (hj : .instruction j ∈ p) : j.Formed :=
        Instruction.formed_of_parse hisa hp hj
      have hi := hformed i (by rw [hsplit]; simp)
      have hlink : linkEntry bias p.table.freeze (before.size, .instruction i) = .error _ :=
        (linkEntry_eq_error_iff hnodup hi).2 ⟨o, name, href, Or.inr ⟨t, g, hdefines, hfield,
          hfar, (rejection_tooFar hi hp hbias hsplit hdefines hfield (i.place o)).symm⟩⟩
      have hwalk := (walk_eq_error_iff hnodup hformed).2 ⟨before, i, after, hsplit, hbefore, hlink⟩
      exact Or.inr ⟨p, hp, Or.inr ⟨hnodup, Or.inl hwalk⟩⟩
  | @misfit p before after i q g v hreads hnodup hreach hsplit hbefore hmisfit =>
      have hp := parse_eq_ok_iff.2 hreads
      have hformed (j : Instruction) (hj : .instruction j ∈ p) : j.Formed :=
        Instruction.formed_of_parse hisa hp hj
      have hi : .instruction i ∈ p := by
        rw [hsplit]
        simp
      obtain ⟨linked, hlinked⟩ := exists_mapM_eq_ok_iff.2
        ((forall_exists_linkEntry_iff hnodup hformed (List.Subset.refl p)).2 hreach)
      have hencode := (encode_linked_eq_error_iff hformed (mapM_eq_ok_iff.1 hlinked)).2
        ⟨before, i, after, q, g, v, hsplit, hbefore, hmisfit,
          (rejection_misfit hisa hp (fun raw hraw => (hlimit raw hraw).not_longHexadecimal) hi
            hmisfit (i.place q.2)).symm⟩
      exact Or.inr ⟨p, hp, Or.inr ⟨hnodup, Or.inr ⟨linked, hlinked, hencode⟩⟩⟩

/-- **The verdict on a source.**  If its numerals keep within the digit limit and the distance of a
branch can be printed, there is always a report.  The source is assembled exactly when its lines can
be read, its labels are distinct, its branches reach their labels and its operands fit; otherwise it
has no image and no words, and the diagnostic is that of the first offence against the first of
these requirements that it fails. -/
theorem report_verdict {target : Target} {width : RowWidth} {source : Text}
    (hlimit : ∀ raw ∈ source.lines, raw.code.WithinDigitLimit)
    (hbias : target.bias.natAbs + source.length < printLimit) :
    ∃ r, report Thumb.instructionSet target width source = .ok r ∧
      (r.isOk = true ↔ ∃ p, Reads Thumb.instructionSet source p ∧ p.labelNames.Nodup ∧
        p.BranchesReach target.bias p ∧ p.OperandsFit) ∧
      (∀ d, r.diagnostic? = some d ↔
        ∃ rejection, Rejects Thumb.instructionSet target.bias source rejection ∧
          d = rejection.diagnostic) ∧
      (r.isOk = false → r.output = [] ∧ r.words = [] ∧ ∃ d, r.diagnostic? = some d) := by
  have hisa := Thumb.instructionSet_sound
  rw [← exists_assemble_eq_ok_iff hisa]
  unfold report
  cases hassemble : assemble Thumb.instructionSet target.bias source with
  | ok a =>
      refine ⟨_, rfl, iff_of_true rfl ⟨a, rfl⟩, ?_, ?_⟩
      · intro d
        refine iff_of_false (fun h => nomatch h) ?_
        rintro ⟨rejection, hrejects, -⟩
        rw [assemble_eq_error_of_rejects hisa hlimit hbias hrejects] at hassemble
        cases hassemble
      · intro h
        cases h
  | error e =>
      obtain ⟨rejection, rfl, hrejects⟩ :=
        rejects_of_assemble_eq_error hisa hlimit hbias hassemble
      refine ⟨_, rfl, iff_of_false (fun h => nomatch h) ?_, ?_, ?_⟩
      · rintro ⟨a, ha⟩
        cases ha
      · intro d
        constructor
        · intro h
          exact ⟨rejection, hrejects, (Option.some_inj.1 h).symm⟩
        · rintro ⟨rejection', hrejects', rfl⟩
          rw [assemble_eq_error_of_rejects hisa hlimit hbias hrejects'] at hassemble
          obtain rfl := Fault.rejected.inj (Except.error.inj hassemble)
          rfl
      · exact fun _ => ⟨rfl, rfl, _, rfl⟩

/-- An undefined label on the first line and an operand that does not fit on the second are not
reported when the third line cannot be read. -/
theorem report_verdict_unreadable_last_line :
    ∃ r d, report Thumb.instructionSet Target.parm none
        "b nowhere\nmovs r0, #300\nmovs r0 #1".toList = .ok r ∧
      r.isOk = false ∧ r.output = [] ∧ r.words = [] ∧ r.diagnostic? = some d ∧
      d.kind = .syntactic ∧ d.place.line = 3 ∧
      ∃ rejection, Rejects Thumb.instructionSet 3
        "b nowhere\nmovs r0, #300\nmovs r0 #1".toList rejection ∧ d = rejection.diagnostic := by
  have hshort : ∀ raw ∈ Text.lines "b nowhere\nmovs r0, #300\nmovs r0 #1".toList,
      2 * raw.code.length ≤ maxDigits := by decide +kernel
  obtain ⟨r, hr, -, hdiagnostic, hfailure⟩ :=
    @report_verdict Target.parm none _
      (fun raw hraw => Text.withinDigitLimit_of_length_le (hshort raw hraw)) (by decide +kernel)
  have heval : (report Thumb.instructionSet Target.parm none
      "b nowhere\nmovs r0, #300\nmovs r0 #1".toList).toOption.map
        (fun r => (r.isOk, r.diagnostic?.map fun d => (d.kind, d.place.line))) =
      some (false, some (.syntactic, 3)) := by decide +kernel
  rw [hr] at heval
  obtain ⟨hok, hd⟩ := Prod.mk.inj (Option.some_inj.1 heval)
  obtain ⟨houtput, hwords, d, hsome⟩ := hfailure hok
  rw [hsome] at hd
  obtain ⟨hkind, hline⟩ := Prod.mk.inj (Option.some_inj.1 hd)
  exact ⟨r, d, hr, hok, houtput, hwords, hsome, hkind, hline, (hdiagnostic d).1 hsome⟩

end ThumbAssembler
