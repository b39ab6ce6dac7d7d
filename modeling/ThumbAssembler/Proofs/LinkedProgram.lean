/-
**What linking replaces and what it keeps.**

The second pass replaces label references by numbers and touches nothing else: a linked program has
the same entries in the same order, with the same labels at the same addresses, and none of its
operands is a reference any more.

Main definitions:

* `ThumbAssembler.Operand.LinkedBy`, `ThumbAssembler.Entry.LinkedBy`,
  `ThumbAssembler.Program.LinkedBy` — an operand, an entry and a program before and after the second
  pass, with the offsets that it puts in.

Main results:

* `ThumbAssembler.linkEntry_eq_ok_iff` — **what the second pass makes of an entry**;
* `ThumbAssembler.Program.linkedBy_of_walk`, `ThumbAssembler.Program.linkedBy_of_resolve` — the
  second pass links a program entry by entry, and so does resolution;
* `ThumbAssembler.Program.LinkedBy.table_eq` — a linked program has the symbol table it was linked
  with;
* `ThumbAssembler.Program.LinkedBy.isResolved` — no operand of a linked program is a reference.
-/

import Mathlib
import ThumbAssembler.Proofs.LabelResolution

set_option autoImplicit false

namespace ThumbAssembler

/-! ### What the second pass replaces -/

section LinkedBy

variable (bias : Int) (table : SymbolTable)

/-- An operand of an instruction at an address, before and after the second pass.  A reference
becomes the distance to its label, which the offset field of the format can hold; column and text
stay.  Any other operand stays as it is. -/
inductive Operand.LinkedBy (address : Nat) (f : Format) : Operand → Operand → Prop
  | kept {o : Operand} (h : o.isLabel = false) : LinkedBy address f o o
  | replaced {name : Text} {target : Int} {g : Field} (htarget : table.address? name = some target)
      (hfield : f.field? "offset".toList = some g)
      (hfits : g.fits (target - (address + bias)) = .ok true) (column : Int) (text : Text) :
      LinkedBy address f ⟨.label name, column, text⟩
        ⟨.immediate (target - (address + bias)), column, text⟩

/-- An entry at an address, before and after the second pass. -/
inductive Entry.LinkedBy : Nat × Entry → Entry → Prop
  | label (address : Nat) (l : Label) : LinkedBy (address, .label l) (.label l)
  | instruction {address : Nat} {i : Instruction} {os : List Operand}
      (h : List.Forall₂ (Operand.LinkedBy bias table address i.format) i.operands os) :
      LinkedBy (address, .instruction i) (.instruction { i with operands := os })

/-- A program from an address on, before and after the second pass. -/
def Program.LinkedBy (address : Nat) (p q : Program) : Prop :=
  List.Forall₂ (Entry.LinkedBy bias table) (addressedFrom address p) q

end LinkedBy

section Pass

variable {bias : Int} {table : SymbolTable} {address : Nat}

theorem Format.field_eq_ok_iff {f : Format} {name : Text} {g : Field} :
    f.field name = .ok g ↔ f.field? name = some g := by
  unfold Format.field
  cases f.field? name <;> simp

theorem liftField_eq_ok_iff {α : Type} {x : Except Field.Defect α} {a : α} :
    liftField x = .ok a ↔ x = .ok a := by
  cases x <;> simp [liftField]

/-- There is an offset for a reference exactly when its label has an address and the offset field
can hold the distance. -/
theorem branchOffset_eq_ok_iff_fits {i : Instruction} {o : Operand} {name : Text} {offset : Int} :
    branchOffset bias table address i o name = .ok offset ↔
      ∃ target g, table.address? name = some target ∧
        i.format.field? "offset".toList = some g ∧
        g.fits (target - (address + bias)) = .ok true ∧ offset = target - (address + bias) := by
  unfold branchOffset
  constructor
  · intro h
    split at h
    · cases h
    · rename_i target htarget
      obtain ⟨g, hfield, h⟩ := bind_eq_ok_iff.1 h
      obtain ⟨fits, hfits, h⟩ := bind_eq_ok_iff.1 h
      split at h
      · rename_i hyes
        obtain rfl := Except.ok.inj h
        rw [hyes] at hfits
        exact ⟨target, g, htarget, Format.field_eq_ok_iff.1 hfield, liftField_eq_ok_iff.1 hfits,
          rfl⟩
      · split at h
        · obtain ⟨span, -, h⟩ := bind_eq_ok_iff.1 h
          cases h
        · cases h
  · rintro ⟨target, g, htarget, hfield, hfits, rfl⟩
    simp only [htarget, Format.field_eq_ok_iff.2 hfield, ok_bind, liftField_eq_ok_iff.2 hfits,
      if_true]
    rfl

/-- What the second pass makes of an operand. -/
theorem linkOperand_eq_ok_iff {i : Instruction} {o o' : Operand} :
    linkOperand bias table address i o = .ok o' ↔
      o.LinkedBy bias table address i.format o' := by
  constructor
  · intro h
    obtain ⟨content, column, text⟩ := o
    cases content with
    | label name =>
        obtain ⟨offset, hoffset, h⟩ := bind_eq_ok_iff.1 h
        obtain ⟨target, g, htarget, hfield, hfits, rfl⟩ := branchOffset_eq_ok_iff_fits.1 hoffset
        obtain rfl := Except.ok.inj h
        exact .replaced htarget hfield hfits column text
    | _ =>
        obtain rfl := Except.ok.inj h
        exact .kept rfl
  · intro h
    cases h with
    | kept h => exact linkOperand_of_not_isLabel h
    | @replaced name target g htarget hfield hfits column text =>
        have hoffset : branchOffset bias table address i ⟨.label name, column, text⟩ name =
            .ok (target - (address + bias)) :=
          branchOffset_eq_ok_iff_fits.2 ⟨target, g, htarget, hfield, hfits, rfl⟩
        simp only [linkOperand, hoffset, ok_bind]
        rfl

/-- **What the second pass makes of an entry.** -/
theorem linkEntry_eq_ok_iff {x : Nat × Entry} {e' : Entry} :
    linkEntry bias table x = .ok e' ↔ Entry.LinkedBy bias table x e' := by
  obtain ⟨a, e⟩ := x
  cases e with
  | label l =>
      constructor
      · intro h
        obtain rfl := Except.ok.inj h
        exact .label a l
      · intro h
        cases h with
        | label => rfl
  | instruction i =>
      constructor
      · intro h
        obtain ⟨os, hos, h⟩ := bind_eq_ok_iff.1 h
        obtain rfl := Except.ok.inj h
        exact .instruction ((mapM_eq_ok_iff.1 hos).imp fun _ _ => linkOperand_eq_ok_iff.1)
      · intro h
        cases h with
        | @instruction _ _ os h =>
            have hos := mapM_eq_ok_iff.2 (h.imp fun _ _ => (@linkOperand_eq_ok_iff _ _ a i _ _).2)
            rw [linkEntry, hos]
            rfl

/-- **The second pass links a program entry by entry.** -/
theorem Program.linkedBy_of_walk {p q : Program}
    (h : List.Forall₂ (fun x e => linkEntry bias table x = .ok e) (addressedFrom address p) q) :
    p.LinkedBy bias table address q :=
  h.imp fun _ _ => linkEntry_eq_ok_iff.1

/-- A program that is resolved has distinct labels, and the second pass links it with their
addresses. -/
theorem walk_of_resolve {p : Program} (h : (resolve bias p).symbols = .ok table) :
    p.labelNames.Nodup ∧ table = p.table.freeze ∧
      List.Forall₂ (fun x e => linkEntry bias table x = .ok e) p.addressed
        (resolve bias p).program := by
  unfold resolve at h ⊢
  cases hcollect : collect p with
  | error e =>
      rw [hcollect] at h
      cases h
  | ok collected =>
      obtain ⟨hnodup, rfl⟩ := collect_eq_ok_iff.1 hcollect
      have hlink := link_outcome bias p.table.freeze p
      simp only [hcollect] at h ⊢
      cases hwalk : p.addressed.mapM (linkEntry bias p.table.freeze) with
      | error e =>
          rw [hlink.of_error hwalk] at h
          cases h
      | ok q =>
          rw [hlink.of_ok hwalk] at h ⊢
          obtain rfl := Except.ok.inj h
          exact ⟨hnodup, rfl, mapM_eq_ok_iff.1 hwalk⟩

/-- A program that is resolved is linked. -/
theorem Program.linkedBy_of_resolve {p : Program} (h : (resolve bias p).symbols = .ok table) :
    p.LinkedBy bias table 0 (resolve bias p).program :=
  linkedBy_of_walk (walk_of_resolve h).2.2

/-! ### What linking keeps -/

theorem Operand.LinkedBy.isLabel {f : Format} {o o' : Operand}
    (h : o.LinkedBy bias table address f o') : o'.isLabel = false := by
  cases h with
  | kept h => exact h
  | replaced htarget hfield hfits column text => rfl

theorem Entry.LinkedBy.size_eq {x : Nat × Entry} {e' : Entry} (h : LinkedBy bias table x e') :
    e'.size = x.2.size := by
  cases h with
  | label address l => rfl
  | instruction h => rfl

theorem Entry.LinkedBy.label?_eq {x : Nat × Entry} {e' : Entry} (h : LinkedBy bias table x e') :
    e'.label? = x.2.label? := by
  cases h with
  | label address l => rfl
  | instruction h => rfl

namespace Program.LinkedBy

variable {p q : Program}

/-- Linking moves no label. -/
theorem symbols_eq (h : p.LinkedBy bias table address q) :
    (addressedFrom address q).filterMap symbolOf =
      (addressedFrom address p).filterMap symbolOf := by
  induction p generalizing address q with
  | nil =>
      obtain rfl := List.forall₂_nil_left_iff.1 h
      rfl
  | cons e p ih =>
      obtain ⟨e', q, he, hq, rfl⟩ := List.forall₂_cons_left_iff.1 h
      have hsize : e'.size = e.size := he.size_eq
      have hlabel : e'.label? = e.label? := he.label?_eq
      rw [addressedFrom, addressedFrom, List.filterMap_cons, List.filterMap_cons, symbolOf,
        symbolOf, hlabel, hsize, ih hq]

/-- Linking keeps the labels. -/
theorem labels_eq (h : p.LinkedBy bias table address q) : q.labels = p.labels := by
  have hlabels : p.labels = ((addressedFrom address p).map Prod.snd).filterMap Entry.label? := by
    rw [map_snd_addressedFrom, labels]
  rw [hlabels, labels]
  unfold LinkedBy at h
  generalize addressedFrom address p = entries at h
  induction h with
  | nil => rfl
  | cons he _ ih => rw [List.map_cons, List.filterMap_cons, List.filterMap_cons, he.label?_eq, ih]

theorem labelNames_eq (h : p.LinkedBy bias table address q) : q.labelNames = p.labelNames :=
  congrArg (List.map Label.name) h.labels_eq

/-- **A linked program has the symbol table that it was linked with.** -/
theorem table_eq (h : p.LinkedBy bias table 0 q) : q.table = p.table := by
  rw [Program.table, Program.table, addressed, addressed, h.symbols_eq, h.labels_eq]

/-- **No operand of a linked program is a reference.** -/
theorem isResolved (h : p.LinkedBy bias table address q) {i : Instruction}
    (hi : i ∈ q.instructions) : i.isResolved = true := by
  obtain ⟨e, he, hi⟩ := List.mem_filterMap.1 hi
  obtain ⟨x, -, hlinked⟩ := exists_left_of_forall₂ h he
  cases hlinked with
  | label address l => cases hi
  | instruction hos =>
      obtain rfl := Option.some_inj.1 hi
      refine List.all_eq_true.2 fun o ho => ?_
      obtain ⟨o₀, -, ho'⟩ := exists_left_of_forall₂ hos ho
      simp [ho'.isLabel]

end Program.LinkedBy

end Pass

end ThumbAssembler
