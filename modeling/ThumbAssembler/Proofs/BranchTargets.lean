/-
**Where branches land.**

A branch is linked to its label by an offset, the offset is packed into a field of the branch's
word, and the processor adds what it reads from that field to the address it has run ahead to.  This
module follows an offset through these stages: in every program that is assembled, each branch leads
to the instruction after the definition of its label, or to the end of the program.

Main definitions:

* `ThumbAssembler.Instruction.linked` — a branch with the offset in place of its label;
* `ThumbAssembler.LandsOn` — the word of a branch leads to the only definition of a label.

Main results:

* `ThumbAssembler.branchOffset_eq`, `ThumbAssembler.branchOffset_eq_ok_iff` — the offset of a
  branch, or why it has none;
* `ThumbAssembler.linkEntry_of_refersTo`, `ThumbAssembler.linkEntry_of_not_isLabel` — the second
  pass on an instruction;
* `ThumbAssembler.encode_linked` — the word at an address is that of the instruction there;
* `ThumbAssembler.branch_lands_on_label` — **every branch lands on its label**.
-/

import Mathlib
import ThumbAssembler.Proofs.LabelResolution
import ThumbAssembler.Proofs.ParsedProgram

set_option autoImplicit false

namespace ThumbAssembler

/-! ### The offset of a branch -/

theorem Instruction.Formed.offset_field {i : Instruction} (h : i.Formed) {o : Operand}
    {name : Text} (href : i.RefersTo o name) :
    ∃ g, g ∈ i.format.fields ∧ g.IsOffset ∧ i.format.field? "offset".toList = some g ∧
      g.InWord ∧ ∃ slot, i.format.slots = [slot] ∧ slot.field = some "offset".toList := by
  obtain ⟨-, slot, g, hslots, hslot, hg, hoffset⟩ := h.refersTo href.mem href.content
  have hwf := h.sound.toWellFormed
  exact ⟨g, hg, hoffset, (Format.field?_eq_some_iff hwf.names_nodup).2 ⟨hg, hoffset.1⟩,
    hwf.field_inWord hg, slot, hslots, hslot⟩

/-- **The offset of a branch, or why it has none**: its label is not defined, or too far away. -/
theorem branchOffset_eq {bias : Int} {table : SymbolTable} {address : Nat} {i : Instruction}
    {o : Operand} {name : Text} {g : Field} (hg : g.InWord)
    (hfield : i.format.field? "offset".toList = some g) :
    branchOffset bias table address i o name =
      match table.address? name with
      | none => .error (.rejected ⟨.undefinedLabel name, i.place o⟩)
      | some target =>
          if g.Holds (target - (address + bias)) then .ok (target - (address + bias))
          else .error (rejection
            (.branchOutOfRange i.mnemonic name (target - (address + bias)) g.bounds)
            (i.place o)) := by
  unfold branchOffset
  cases table.address? name with
  | none => rfl
  | some target =>
      have hfits := Field.fits_eq_decide hg.toWellFormed hg.countable (target - (address + bias))
      have hspan := Field.span_eq_ok hg.toWellFormed hg.countable
      simp only [Format.field_eq_ok hfield, ok_bind, hfits, liftField, hspan]
      by_cases hholds : g.Holds (target - (address + bias))
      · simp [hholds]
      · by_cases hprint : isPrintable (target - (address + bias)) = true
        · simp [hholds, hprint, reject]
        · simp [hholds, hprint, rejection, Cause.numbers]

/-- A branch has an offset exactly when its label has an address and the field can hold the
distance. -/
theorem branchOffset_eq_ok_iff_address {bias : Int} {table : SymbolTable} {address : Nat}
    {i : Instruction} {o : Operand} {name : Text} {g : Field} (hg : g.InWord)
    (hfield : i.format.field? "offset".toList = some g) {offset : Int} :
    branchOffset bias table address i o name = .ok offset ↔
      ∃ t, table.address? name = some t ∧ offset = t - (address + bias) ∧ g.Holds offset := by
  rw [branchOffset_eq hg hfield]
  constructor
  · intro h
    cases haddress : table.address? name with
    | none => simp [haddress] at h
    | some t =>
        simp only [haddress] at h
        split at h
        · rename_i hholds
          obtain rfl := Except.ok.inj h
          exact ⟨t, rfl, rfl, hholds⟩
        · cases h
  · rintro ⟨t, haddress, rfl, hholds⟩
    simp only [haddress, if_pos hholds]

/-- A branch has an offset exactly when its label is defined and the field can hold the distance. -/
theorem branchOffset_eq_ok_iff {bias : Int} {p : Program} (hnodup : p.labelNames.Nodup)
    {address : Nat} {i : Instruction} {o : Operand} {name : Text} {g : Field} (hg : g.InWord)
    (hfield : i.format.field? "offset".toList = some g) {offset : Int} :
    branchOffset bias p.table.freeze address i o name = .ok offset ↔
      ∃ t, p.Defines name t ∧ offset = t - (address + bias) ∧ g.Holds offset := by
  rw [branchOffset_eq_ok_iff_address hg hfield]
  exact exists_congr fun t => and_congr_left fun _ => address?_table hnodup

/-! ### Linked instructions -/

/-- A branch with the offset in place of its label. -/
def Instruction.linked (i : Instruction) (o : Operand) (offset : Int) : Instruction :=
  { i with operands := [{ o with content := .immediate offset }] }

/-- The second pass on a branch. -/
theorem linkEntry_of_refersTo {bias : Int} {table : SymbolTable} {address : Nat}
    {i : Instruction} {o : Operand} {name : Text} (h : i.RefersTo o name) :
    linkEntry bias table (address, .instruction i) = do
      let offset ← branchOffset bias table address i o name
      return .instruction (i.linked o offset) := by
  have hoperand : linkOperand bias table address i o = do
      return { o with content := .immediate (← branchOffset bias table address i o name) } := by
    rw [linkOperand, h.content]
  rw [linkEntry, h.operands, List.mapM_cons, List.mapM_nil, hoperand]
  cases branchOffset bias table address i o name <;> rfl

/-- A branch that was linked holds the distance to its label. -/
theorem Instruction.Formed.eq_linked {bias : Int} {table : SymbolTable} {address : Nat}
    {i i' : Instruction} (hi : i.Formed) {o : Operand} {name : Text} (href : i.RefersTo o name)
    (hlink : linkEntry bias table (address, .instruction i) = .ok (.instruction i')) :
    ∃ t, table.address? name = some t ∧ i' = i.linked o (t - (address + bias)) := by
  obtain ⟨g, -, -, hfield, hg, -⟩ := hi.offset_field href
  rw [linkEntry_of_refersTo href] at hlink
  obtain ⟨offset, hoffset, hlink⟩ := bind_eq_ok_iff.1 hlink
  obtain ⟨t, ht, rfl, -⟩ := (branchOffset_eq_ok_iff_address hg hfield).1 hoffset
  exact ⟨t, ht, (Entry.instruction.inj (Except.ok.inj hlink)).symm⟩

/-- The second pass leaves an instruction without labels as it is. -/
theorem linkEntry_of_not_isLabel {bias : Int} {table : SymbolTable} {address : Nat}
    {i : Instruction} (h : ∀ o ∈ i.operands, o.isLabel = false) :
    linkEntry bias table (address, .instruction i) = .ok (.instruction i) := by
  have hwalk : i.operands.mapM (linkOperand bias table address i) = .ok i.operands := by
    rw [mapM_eq_ok_iff, List.forall₂_same]
    exact fun o ho => linkOperand_of_not_isLabel (h o ho)
  rw [linkEntry, hwalk]
  rfl

/-- A linked branch can be encoded, and feeds the offset field only. -/
theorem Instruction.Formed.linked_complete {i : Instruction} (h : i.Formed) {o : Operand}
    {name : Text} (href : i.RefersTo o name) (offset : Int) :
    (i.linked o offset).Complete ∧
      (i.linked o offset).feeds =
        [("offset".toList, { o with content := .immediate offset })] := by
  obtain ⟨g, -, -, -, -, slot, hslots, hslot⟩ := h.offset_field href
  have hfeeds : (i.linked o offset).feeds =
      [("offset".toList, { o with content := .immediate offset })] := by
    simp [Instruction.feeds, feeding, linked, hslots, hslot]
  refine ⟨⟨?_, ?_, ?_⟩, hfeeds⟩
  · simp [linked, hslots]
  · intro p hp
    rw [hfeeds, List.mem_singleton] at hp
    exact ⟨offset, by rw [hp]; rfl⟩
  · intro hc
    have hcondition := h.condition
    rw [show i.format.conditional = true from hc, eq_comm, Option.isSome_iff_exists] at hcondition
    exact hcondition

/-! ### Words at addresses -/

theorem Program.encode_label (l : Label) (p : Program) :
    Program.encode (.label l :: p) = Program.encode p := rfl

theorem Program.encode_instruction (i : Instruction) (p : Program) :
    Program.encode (.instruction i :: p) = do
      let w ← i.encode
      let words ← Program.encode p
      return w :: words := by
  rw [Program.encode, Program.instructions, List.filterMap_cons, Entry.instruction?]
  exact List.mapM_cons

/-- **The word at an address is that of the linked instruction there.** -/
theorem encode_linked {bias : Int} {table : SymbolTable} {address : Nat} {p q : Program}
    {words : List Int}
    (hq : List.Forall₂ (fun x e => linkEntry bias table x = .ok e)
      (Program.addressedFrom address p) q)
    (hwords : Program.encode q = .ok words) :
    words.length = p.size ∧
      ∀ a i, (a, .instruction i) ∈ Program.addressedFrom address p →
        ∃ i' w, linkEntry bias table (a, .instruction i) = .ok (.instruction i') ∧
          i'.encode = .ok w ∧ address ≤ a ∧ words[a - address]? = some w := by
  induction p generalizing address q words with
  | nil =>
      obtain rfl := List.forall₂_nil_left_iff.1 hq
      obtain rfl := Except.ok.inj hwords
      exact ⟨rfl, by simp [Program.addressedFrom]⟩
  | cons entry p ih =>
      obtain ⟨e, q', he, hq', rfl⟩ := List.forall₂_cons_left_iff.1 hq
      cases entry with
      | label l =>
          obtain rfl := Except.ok.inj he
          obtain ⟨hlength, hat⟩ := ih hq' hwords
          refine ⟨by rw [hlength, Program.size_cons, Entry.size, Nat.zero_add], ?_⟩
          intro a i hmem
          rw [Program.addressedFrom, List.mem_cons] at hmem
          rcases hmem with heq | hmem
          · cases heq
          · exact hat a i hmem
      | instruction j =>
          have hentry := he
          obtain ⟨os, -, hos⟩ := bind_eq_ok_iff.1 he
          obtain rfl := Except.ok.inj hos
          rw [Program.encode_instruction] at hwords
          obtain ⟨w, hw, hwords⟩ := bind_eq_ok_iff.1 hwords
          obtain ⟨ws, hws, hwords⟩ := bind_eq_ok_iff.1 hwords
          obtain rfl := Except.ok.inj hwords
          obtain ⟨hlength, hat⟩ := ih hq' hws
          refine ⟨?_, ?_⟩
          · rw [List.length_cons, hlength, Program.size_cons, Entry.size, Nat.add_comm]
          · intro a i hmem
            rw [Program.addressedFrom, List.mem_cons] at hmem
            rcases hmem with heq | hmem
            · obtain ⟨rfl, hij⟩ := Prod.mk.inj heq
              obtain rfl := Entry.instruction.inj hij
              exact ⟨_, w, hentry, hw, le_rfl, by simp⟩
            · obtain ⟨i', w', hlink, hencode, hle, hget⟩ := hat a i hmem
              simp only [Entry.size] at hle hget
              have hsub : a - address = (a - (address + 1)) + 1 := by omega
              refine ⟨i', w', hlink, hencode, by omega, ?_⟩
              rw [hsub, List.getElem?_cons_succ]
              exact hget

/-! ### Branches of an assembled source -/

/-- Assembling succeeds exactly when every stage does. -/
theorem assemble_eq_ok_iff {isa : InstructionSet} {bias : Int} {source : Text} {a : Assembly} :
    assemble isa bias source = .ok a ↔
      ∃ p q words, parse isa source = .ok p ∧ p.labelNames.Nodup ∧
        List.Forall₂ (fun x e => linkEntry bias p.table.freeze x = .ok e) p.addressed q ∧
        Program.encode q = .ok words ∧ a = ⟨q, p.table.freeze, words⟩ := by
  rw [assemble_eq]
  constructor
  · intro h
    obtain ⟨p, hp, h⟩ := bind_eq_ok_iff.1 h
    obtain ⟨table, htable, h⟩ := bind_eq_ok_iff.1 h
    obtain ⟨hnodup, rfl⟩ := collect_eq_ok_iff.1 htable
    obtain ⟨q, hq, h⟩ := bind_eq_ok_iff.1 h
    obtain ⟨words, hwords, h⟩ := bind_eq_ok_iff.1 h
    exact ⟨p, q, words, hp, hnodup, mapM_eq_ok_iff.1 hq, hwords, (Except.ok.inj h).symm⟩
  · rintro ⟨p, q, words, hp, hnodup, hq, hwords, rfl⟩
    rw [hp, ok_bind, collect_of_nodup hnodup, ok_bind, mapM_eq_ok_iff.2 hq, ok_bind, hwords]
    rfl

theorem exists_assemble_of_report {isa : InstructionSet} {target : Target} {width : RowWidth}
    {source : Text} {r : Report} (h : report isa target width source = .ok r)
    (hok : r.isOk = true) : ∃ a, assemble isa target.bias source = .ok a ∧ a.words = r.words := by
  unfold report at h
  split at h
  · rename_i a ha
    obtain rfl := Except.ok.inj h
    exact ⟨a, ha, rfl⟩
  · obtain rfl := Except.ok.inj h
    cases hok
  · cases h

theorem Instruction.formed_of_parse {isa : InstructionSet} (hisa : isa.Sound) {source : Text}
    {p : Program} (hp : parse isa source = .ok p) {i : Instruction} (hi : .instruction i ∈ p) :
    i.Formed := by
  obtain ⟨q, -, ⟨ts, -, hread⟩, -⟩ := parse_readIn hisa hp hi
  exact hread.formed hisa

/-- The word of a linked branch holds the offset in its offset field. -/
theorem Instruction.Formed.decode_linked {i : Instruction} (h : i.Formed) {o : Operand}
    {name : Text} (href : i.RefersTo o name) {offset w : Int}
    (hw : (i.linked o offset).encode = .ok w) :
    ∃ values, i.format.decode w = .ok values ∧
      Assoc.get? "offset".toList values = some offset := by
  obtain ⟨hcomplete, hfeeds⟩ := h.linked_complete href offset
  obtain ⟨values, hdecode, hvalues⟩ :=
    decodesTo_of_encode (i := i.linked o offset) h.sound.toWellFormed hcomplete hw
  refine ⟨values, hdecode, ?_⟩
  rw [hvalues.operands ("offset".toList, { o with content := .immediate offset })
    (by rw [hfeeds]; exact List.mem_singleton_self _)]
  rfl

/-- The branch `i` at address `a` leads to the only definition of a label: the word at `a` holds the
offset from where the processor has read ahead to, and the place it leads to lies in the program or
at its end. -/
def LandsOn (bias : Int) (words : List Int) (p : Program) (a : Nat) (i : Instruction)
    (name : Text) : Prop :=
  p.labelNames.count name = 1 ∧
    ∃ before l after word values offset,
      p = before ++ .label l :: after ∧ l.name = name ∧
      words[a]? = some word ∧ i.format.decode word = .ok values ∧
      Assoc.get? "offset".toList values = some offset ∧
      (a : Int) + bias + offset = Program.size before ∧ Program.size before ≤ words.length

/-- **Every branch lands on its label.**  In a source that is assembled, a label is the only operand
of its instruction, and the word of that instruction leads to the only definition of the label. -/
theorem branch_lands_on_label {target : Target} {width : RowWidth} {source : Text} {r : Report}
    (h : report Thumb.instructionSet target width source = .ok r) (hok : r.isOk = true) :
    ∃ p, parse Thumb.instructionSet source = .ok p ∧ r.words.length = p.size ∧
      ∀ a i o name, (a, .instruction i) ∈ p.addressed → o ∈ i.operands →
        o.content = .label name →
        i.operands = [o] ∧ LandsOn target.bias r.words p a i name := by
  obtain ⟨assembly, hassemble, hwords⟩ := exists_assemble_of_report h hok
  obtain ⟨p, q, words, hp, hnodup, hq, hencode, rfl⟩ := assemble_eq_ok_iff.1 hassemble
  obtain rfl : words = r.words := hwords
  obtain ⟨hlength, hat⟩ := encode_linked hq hencode
  refine ⟨p, hp, hlength, ?_⟩
  intro a i o name hmem ho hname
  have hformed := Instruction.formed_of_parse Thumb.instructionSet_sound hp
    (Program.mem_of_mem_addressed hmem)
  obtain ⟨href, -⟩ := hformed.refersTo ho hname
  obtain ⟨g, -, -, hfield, hg, -⟩ := hformed.offset_field href
  obtain ⟨i', w, hlink, hw, -, hget⟩ := hat a i hmem
  -- linking succeeded, so the label has an address and the offset is the distance to it
  rw [linkEntry_of_refersTo href] at hlink
  obtain ⟨offset, hoffset, hlink⟩ := bind_eq_ok_iff.1 hlink
  obtain rfl := Entry.instruction.inj (Except.ok.inj hlink)
  obtain ⟨t, hdefines, hdistance, -⟩ := (branchOffset_eq_ok_iff hnodup hg hfield).1 hoffset
  obtain ⟨values, hdecode, hvalue⟩ := hformed.decode_linked href hw
  have hcount := List.count_eq_one_of_mem hnodup hdefines.mem_labelNames
  obtain ⟨-, hle⟩ := hdefines.le_size
  obtain ⟨before, l, after, hsplit, hl, rfl⟩ := hdefines
  exact ⟨href.operands, hcount, before, l, after, w, values, offset, hsplit, hl, hget, hdecode,
    hvalue, by omega, by omega⟩

/-- A branch forward to the end of the program, and a conditional one back to its start. -/
theorem branch_lands_on_label_loop :
    ∃ r p i j,
      report Thumb.instructionSet Target.parm none "top: b end\nbne top\nend:".toList = .ok r ∧
      r.isOk = true ∧
      parse Thumb.instructionSet "top: b end\nbne top\nend:".toList = .ok p ∧
      (0, .instruction i) ∈ p.addressed ∧ (1, .instruction j) ∈ p.addressed ∧
      LandsOn 3 r.words p 0 i "end".toList ∧ LandsOn 3 r.words p 1 j "top".toList := by
  obtain ⟨r, hr, hok⟩ : ∃ r,
      report Thumb.instructionSet Target.parm none "top: b end\nbne top\nend:".toList = .ok r ∧
        r.isOk = true := by
    have heval : (report Thumb.instructionSet Target.parm none
        "top: b end\nbne top\nend:".toList).toOption.any Report.isOk = true := by decide +kernel
    cases hr : report Thumb.instructionSet Target.parm none "top: b end\nbne top\nend:".toList with
    | error e =>
        rw [hr] at heval
        cases heval
    | ok r =>
        rw [hr] at heval
        exact ⟨r, rfl, heval⟩
  obtain ⟨p, hp, -, hlands⟩ := branch_lands_on_label hr hok
  have hbranch (a : Nat) (name : Text)
      (heval : (parse Thumb.instructionSet "top: b end\nbne top\nend:".toList).toOption.any
        (fun p => p.addressed.any fun x => x.1 = a && x.2.instruction?.any fun i =>
          i.operands.any fun o => o.content = .label name) = true) :
      ∃ i, (a, .instruction i) ∈ p.addressed ∧ LandsOn 3 r.words p a i name := by
    rw [hp] at heval
    obtain ⟨⟨a', e⟩, hmem, hx⟩ := List.any_eq_true.1 heval
    obtain ⟨ha, he⟩ := (Bool.and_eq_true _ _).mp hx
    obtain rfl : a' = a := of_decide_eq_true ha
    cases e with
    | label l => cases he
    | instruction i =>
        obtain ⟨o, ho, hname⟩ := List.any_eq_true.1 he
        exact ⟨i, hmem, (hlands a' i o name hmem ho (of_decide_eq_true hname)).2⟩
  obtain ⟨i, hi, hlands₀⟩ := hbranch 0 "end".toList (by decide +kernel)
  obtain ⟨j, hj, hlands₁⟩ := hbranch 1 "top".toList (by decide +kernel)
  exact ⟨r, p, i, j, hr, hok, hp, hi, hj, hlands₀, hlands₁⟩

end ThumbAssembler
