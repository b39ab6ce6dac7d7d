/-
**Which words can be assembled.**

A word can stand in an assembled program if it has the opcode of some format, a condition if the
format is conditional, and an offset that leads into the program or to its end if the format is a
branch.  These are all the words that can stand there: a disassembler writes a source for any list
of them.  It puts a label in front of every address, and prints every word as an instruction.

Main definitions:

* `ThumbAssembler.Format.Admits` — a word can stand at an address of a program;
* `ThumbAssembler.Format.disassembled` — the instruction of a word, with a label for its target;
* `ThumbAssembler.layoutFrom` — instructions with a label in front of each;
* `ThumbAssembler.InstructionSet.disassembly` — the program that a list of words is printed as.

Main results:

* `ThumbAssembler.admits_of_assemble` — the words of an assembled source can stand where they stand;
* `ThumbAssembler.assemble_disassembly` — the printed disassembly of words is assembled to them;
* `ThumbAssembler.exists_source_iff` — **the lists of words that sources are assembled to**.
-/

import Mathlib
import ThumbAssembler.Proofs.PrintedProgram
import ThumbAssembler.Proofs.ResolvedInstruction

set_option autoImplicit false

namespace ThumbAssembler

/-! ### Words of a format -/

namespace Format

variable {f : Format} {bias : Int} {length address : Nat} {w : Int}

/-- The word can stand at an address of a program: it has the opcode of the format, in a conditional
format a condition, and in a branch an offset that leads into the program or to its end. -/
def Admits (f : Format) (bias : Int) (length address : Nat) (word : Int) : Prop :=
  ∃ values, f.decode word = .ok values ∧ Assoc.get? "opcode".toList values = some f.opcode ∧
    (f.conditional = true → ∃ code ∈ Assoc.get? "cond".toList values, code ≤ 14) ∧
    (f.branch = true → ∃ offset ∈ Assoc.get? "offset".toList values,
      0 ≤ address + bias + offset ∧ address + bias + offset ≤ length)

instance decidableAdmits (f : Format) (bias : Int) (length address : Nat) (word : Int) :
    Decidable (f.Admits bias length address word) :=
  match h : f.decode word with
  | .ok values =>
      decidable_of_iff
        (Assoc.get? "opcode".toList values = some f.opcode ∧
          (f.conditional = true → ∃ code ∈ Assoc.get? "cond".toList values, code ≤ 14) ∧
          (f.branch = true → ∃ offset ∈ Assoc.get? "offset".toList values,
            0 ≤ address + bias + offset ∧ address + bias + offset ≤ length))
        ⟨fun hvalues => ⟨values, h, hvalues⟩, fun ⟨_, hdecode, hvalues⟩ => by
          rw [h, Except.ok.injEq] at hdecode
          exact hdecode ▸ hvalues⟩
  | .error _ => isFalse fun ⟨_, hdecode, _⟩ => by rw [h] at hdecode; cases hdecode

/-- What the decoding of a word gives under the name of a field. -/
theorem get?_of_decode (hf : f.WellFormed) {values : List (Text × Int)}
    (hdecode : f.decode w = .ok values) {name : Text} (hname : name ∈ f.fields.map Field.name) :
    Assoc.get? name values = some (f.valueAt w name) := by
  obtain ⟨g, hg, rfl⟩ := List.mem_map.1 hname
  rw [(get?_decode hf hdecode).2.2 g hg, valueAt_of_mem hf hg]

/-- A word that can stand at an address has the opcode of its format. -/
theorem Admits.opcode (hf : f.WellFormed) (h : f.Admits bias length address w) :
    w / Bits.weight f.opcodeOffset.toNat = f.opcode := by
  obtain ⟨values, hdecode, hopcode, -⟩ := h
  rw [(get?_decode hf hdecode).2.1] at hopcode
  exact Option.some_inj.1 hopcode

theorem Admits.code_le (hf : f.WellFormed) (h : f.Admits bias length address w)
    (hc : f.conditional = true) : f.valueAt w "cond".toList ≤ 14 := by
  obtain ⟨values, hdecode, -, hcondition, -⟩ := h
  obtain ⟨code, hcode, hle⟩ := hcondition hc
  obtain ⟨-, g, hg, hname, -⟩ := hf.condition hc
  rw [get?_of_decode hf hdecode (List.mem_map.2 ⟨g, hg, hname⟩)] at hcode
  obtain rfl := Option.some_inj.1 hcode
  exact hle

theorem Admits.target (hf : f.WellFormed) (h : f.Admits bias length address w)
    (hb : f.branch = true) (hoffset : "offset".toList ∈ f.fields.map Field.name) :
    0 ≤ address + bias + f.valueAt w "offset".toList ∧
      address + bias + f.valueAt w "offset".toList ≤ length := by
  obtain ⟨values, hdecode, -, -, hbranch⟩ := h
  obtain ⟨offset, hget, hrange⟩ := hbranch hb
  rw [get?_of_decode hf hdecode hoffset] at hget
  obtain rfl := Option.some_inj.1 hget
  exact hrange

end Format

/-! ### The words of an assembled source -/

/-- A branch that was read refers to a label. -/
theorem Instruction.Formed.exists_refersTo {i : Instruction} (hi : i.Formed)
    (hregular : i.format.Regular) (hb : i.format.branch = true) :
    ∃ o name, i.RefersTo o name := by
  obtain ⟨s, hs, hkind⟩ := hregular.branch hb
  rcases hi.cases_label with hlabels | href
  · have hsome : OperandKind.label ∈ i.operands.map Operand.kind := by
      rw [← hi.signature, ← hkind]
      exact List.mem_map_of_mem hs
    obtain ⟨o, ho, hlabel⟩ := List.mem_map.1 hsome
    have hnot := hlabels o ho
    simp [Operand.isLabel, hlabel] at hnot
  · exact href

/-- **The words of an assembled source can stand where they stand.** -/
theorem admits_of_assemble {isa : InstructionSet} (hisa : isa.Sound) (hregular : isa.Regular)
    {bias : Int} {source : Text} {a : Assembly} (h : assemble isa bias source = .ok a)
    {address : Nat} {w : Int} (hw : a.words[address]? = some w) :
    ∃ f ∈ isa.allFormats, f.Admits bias a.words.length address w := by
  obtain ⟨p, q, words, hp, hnodup, hq, hencode, rfl⟩ := assemble_eq_ok_iff.1 h
  simp only at hw ⊢
  obtain ⟨hlength, hat⟩ := encode_linked hq hencode
  obtain ⟨i, hi⟩ : ∃ i, p.instructions[address]? = some i := by
    have hlt := (List.getElem?_eq_some_iff.1 hw).1
    rw [hlength] at hlt
    exact ⟨_, List.getElem?_eq_getElem hlt⟩
  have hmem : (address, .instruction i) ∈ p.addressed := by
    have := Program.mem_addressedFrom_of_getElem? hi 0
    rwa [Nat.zero_add] at this
  have hentry := Program.mem_of_mem_addressed hmem
  obtain ⟨-, -, ⟨ts, -, hread⟩, -⟩ := parse_readIn hisa hp hentry
  obtain ⟨candidates, hlookup, -, hfind⟩ := hread.format
  have hf := isa.mem_allFormats_of_lookup hlookup (List.mem_of_find?_eq_some hfind)
  have hformed := hread.formed hisa
  have hwf := hformed.sound.toWellFormed
  obtain ⟨i', w', hlink, hw', -, hget⟩ := hat address i hmem
  obtain rfl : w' = w := Option.some_inj.1 (hget.symm.trans hw)
  obtain ⟨hresolved, -, hformat, -⟩ := hformed.resolved hread.slots hlink
  have hwf' : i'.format.WellFormed := hresolved.sound.toWellFormed
  obtain ⟨values, hdecode, hvalues⟩ := Instruction.decodesTo_of_encode hwf' hresolved.complete hw'
  rw [hformat] at hdecode
  refine ⟨i.format, hf, values, hdecode, by rw [← hformat]; exact hvalues.opcode, ?_, ?_⟩
  · intro hc
    obtain ⟨c, -, hcode⟩ := hvalues.condition (by rw [hformat]; exact hc)
    have hlt := c.code_lt
    exact ⟨c.code, hcode, by omega⟩
  · -- a branch was linked to a label, whose address lies in the program or at its end
    intro hb
    obtain ⟨o, name, href⟩ := hformed.exists_refersTo (hregular.formats _ hf) hb
    obtain ⟨t, ht, rfl⟩ := hformed.eq_linked href hlink
    obtain ⟨values', hdecode', hvalue⟩ := hformed.decode_linked href hw'
    obtain rfl : values' = values := Except.ok.inj (hdecode'.symm.trans hdecode)
    obtain ⟨hnonneg, hle⟩ := ((address?_table hnodup).1 ht).le_size
    exact ⟨_, hvalue, by omega, by omega⟩

/-! ### Labels for addresses -/

/-- The name of the label in front of an address. -/
def placeName (address : Nat) : Text := ".L".toList ++ decimal address

theorem placeName_eq (address : Nat) :
    placeName address = '.' :: 'L' :: Nat.toDigits 10 address := by
  rw [placeName, decimal, signedDigits, if_neg (by omega), Int.natAbs_natCast]
  rfl

theorem placeName_injective : Function.Injective placeName := by
  intro a b h
  rw [placeName_eq, placeName_eq] at h
  have hdigits := (List.cons.inj (List.cons.inj h).2).2
  rw [← digitsValue_toDigits a, hdigits, digitsValue_toDigits]

theorem isIdentifier_placeName (address : Nat) : IsIdentifier (placeName address) := by
  rw [placeName_eq]
  refine ⟨by decide, List.forall_mem_cons.2 ⟨by decide, fun c hc => ?_⟩⟩
  rw [isIdentifierPart, Nat.isDigit_of_mem_toDigits (by norm_num) le_rfl hc, Bool.or_true]

theorem canonical_placeName (address : Nat) :
    (Operand.Content.label (placeName address)).Canonical := by
  refine ⟨isIdentifier_placeName address, ?_, ?_⟩
  · rw [placeName_eq]
    simp [registerDigits?]
  · rw [placeName_eq]
    simp [specialRegisters, Text.lower]

theorem isReserved_placeName {isa : InstructionSet} (hisa : isa.Sound) (address : Nat) :
    isa.isReserved (placeName address) = false := by
  have hlookup : isa.lookup (placeName address) = none := by
    cases h : isa.lookup (placeName address) with
    | none => rfl
    | some candidates =>
        have hhead := hisa.head?_ne_stop h
        rw [placeName_eq] at hhead
        exact absurd rfl hhead
  exact (isa.isReserved_eq_false_iff (isIdentifier_placeName address)).2
    ⟨canonical_placeName address, hlookup⟩

/-! ### Layout -/

/-- The label in front of an address. -/
def placeLabel (address : Nat) : Entry := .label { name := placeName address }

/-- The instructions that words stand for from an address on, with a label in front of each and one
at the end. -/
def layoutFrom (instruction : Nat → Int → Instruction) : Nat → List Int → Program
  | address, [] => [placeLabel address]
  | address, w :: words =>
      placeLabel address :: .instruction (instruction address w) ::
        layoutFrom instruction (address + 1) words

section Layout

variable {instruction : Nat → Int → Instruction} {words : List Int}

theorem mem_layoutFrom {address : Nat} {e : Entry} (h : e ∈ layoutFrom instruction address words) :
    (∃ a, e = placeLabel a) ∨
      ∃ x ∈ words.zipIdx address, e = .instruction (instruction x.2 x.1) := by
  induction words generalizing address with
  | nil => exact Or.inl ⟨address, List.mem_singleton.1 h⟩
  | cons w words ih =>
      rw [List.zipIdx_cons]
      rcases List.mem_cons.1 h with rfl | h
      · exact Or.inl ⟨address, rfl⟩
      rcases List.mem_cons.1 h with rfl | h
      · exact Or.inr ⟨(w, address), List.mem_cons_self, rfl⟩
      rcases ih h with hlabel | ⟨x, hx, rfl⟩
      · exact Or.inl hlabel
      · exact Or.inr ⟨x, List.mem_cons_of_mem _ hx, rfl⟩

theorem labelNames_layoutFrom (address : Nat) :
    (layoutFrom instruction address words).labelNames =
      (List.range' address (words.length + 1)).map placeName := by
  induction words generalizing address with
  | nil => rfl
  | cons w words ih =>
      rw [List.length_cons, List.range'_succ, List.map_cons, ← ih (address + 1)]
      rfl

theorem nodup_layoutFrom (address : Nat) :
    (layoutFrom instruction address words).labelNames.Nodup := by
  rw [labelNames_layoutFrom]
  exact List.Nodup.map placeName_injective List.nodup_range'

/-- Every address from the first to the end has its label. -/
theorem placeLabel_mem_layoutFrom (address : Nat) {t : Nat} (ht : t ≤ words.length) :
    (address + t, placeLabel (address + t)) ∈
      Program.addressedFrom address (layoutFrom instruction address words) := by
  induction words generalizing address t with
  | nil =>
      obtain rfl : t = 0 := by simpa using ht
      exact List.mem_cons_self
  | cons w words ih =>
      cases t with
      | zero => exact List.mem_cons_self
      | succ t =>
          have hmem := ih (address + 1) (by simpa using ht)
          rw [Nat.add_assoc, Nat.add_comm 1 t] at hmem
          exact List.mem_cons_of_mem _ (List.mem_cons_of_mem _ hmem)

theorem defines_layoutFrom {t : Nat} (ht : t ≤ words.length) :
    (layoutFrom instruction 0 words).Defines (placeName t) t := by
  have hmem : (0 + t, placeLabel (0 + t)) ∈ (layoutFrom instruction 0 words).addressed :=
    placeLabel_mem_layoutFrom 0 ht
  rw [Nat.zero_add] at hmem
  obtain ⟨before, after, hsplit, rfl⟩ := Program.mem_addressed.1 hmem
  exact ⟨before, _, after, hsplit, rfl, rfl⟩

/-- Linking a layout is linking its instructions at their addresses. -/
theorem link_layoutFrom {bias : Int} {table : SymbolTable} {address : Nat}
    {instruction' : Nat → Int → Instruction}
    (h : ∀ x ∈ words.zipIdx address,
      linkEntry bias table (x.2, .instruction (instruction x.2 x.1)) =
        .ok (.instruction (instruction' x.2 x.1))) :
    List.Forall₂ (fun x e => linkEntry bias table x = .ok e)
      (Program.addressedFrom address (layoutFrom instruction address words))
      (layoutFrom instruction' address words) := by
  induction words generalizing address with
  | nil => exact .cons rfl .nil
  | cons w words ih =>
      rw [List.zipIdx_cons] at h
      obtain ⟨hw, hrest⟩ := List.forall_mem_cons.1 h
      exact .cons rfl (.cons hw (ih hrest))

theorem encode_layoutFrom {address : Nat}
    (h : ∀ x ∈ words.zipIdx address, (instruction x.2 x.1).encode = .ok x.1) :
    Program.encode (layoutFrom instruction address words) = .ok words := by
  induction words generalizing address with
  | nil => rfl
  | cons w words ih =>
      rw [List.zipIdx_cons] at h
      obtain ⟨hw, hrest⟩ := List.forall_mem_cons.1 h
      rw [layoutFrom, placeLabel, Program.encode_label, Program.encode_instruction, hw, ok_bind,
        ih hrest]
      rfl

end Layout

/-! ### Mnemonics of words -/

/-- Every code up to fourteen is that of a condition. -/
theorem Condition.exists_code_eq {n : Int} (h : 0 ≤ n) (h' : n ≤ 14) :
    ∃ c : Condition, c.code = n := by
  have hcodes : ∀ k < 15, ∃ c ∈ Condition.all, c.code = (k : Nat) := by decide
  obtain ⟨k, rfl⟩ := Int.eq_ofNat_of_zero_le h
  obtain ⟨c, -, hc⟩ := hcodes k (by omega)
  exact ⟨c, hc⟩

namespace Format

variable {f : Format} {bias : Int} {length address : Nat} {w : Int}

/-- The condition of a word in a conditional format. -/
def conditionIn (f : Format) (word : Int) : Option Condition :=
  if f.conditional then Condition.all.find? fun c => c.code = f.valueAt word "cond".toList else none

/-- The mnemonic of a word. -/
def mnemonicIn (f : Format) (word : Int) : Text :=
  match f.conditionIn word with
  | some c => c.mnemonic
  | none => f.mnemonic

/-- The label at the target of a branch. -/
def labelTo (bias : Int) (address : Nat) (offset : Int) : Operand.Content :=
  .label (placeName (address + bias + offset).toNat)

/-- The instruction of a word at an address, with a label for its target. -/
def disassembled (f : Format) (bias : Int) (address : Nat) (word : Int) : Instruction :=
  f.decoded (f.mnemonicIn word) (f.conditionIn word) (labelTo bias address) word

/-- The instruction of a word, with the offset to its target. -/
def resolvedWord (f : Format) (word : Int) : Instruction :=
  f.decoded (f.mnemonicIn word) (f.conditionIn word) .immediate word

/-- A word has a condition exactly in a conditional format. -/
theorem conditionIn_spec (hf : f.WellFormed)
    (hcode : f.conditional = true → f.valueAt w "cond".toList ≤ 14) :
    f.conditional = (f.conditionIn w).isSome ∧
      ∀ c ∈ f.conditionIn w, f.valueAt w "cond".toList = c.code := by
  unfold conditionIn
  cases hc : f.conditional with
  | false => simp
  | true =>
      obtain ⟨-, g, hg, hname, hwidth, hsigned, hscale⟩ := hf.condition hc
      have hlow : g.bounds.low = 0 := by simp [Field.bounds, hsigned]
      have hholds := holds_valueAt (w := w) hf hg
      rw [hname] at hholds
      have hnonneg := hholds.2.1
      rw [hlow] at hnonneg
      obtain ⟨c, hcode'⟩ := Condition.exists_code_eq hnonneg (hcode hc)
      simp only [if_true]
      cases hfind : Condition.all.find? fun c => c.code = f.valueAt w "cond".toList with
      | none =>
          have hnot := List.find?_eq_none.1 hfind c c.mem_all
          simp [hcode'] at hnot
      | some c' =>
          have hc' : c'.code = f.valueAt w "cond".toList := by simpa using List.find?_some hfind
          simp [hc']

end Format

/-- The mnemonic of a word finds its format. -/
theorem lookup_mnemonicIn {isa : InstructionSet} (hisa : isa.Sound) (hregular : isa.Regular)
    {f : Format} (hf : f ∈ isa.allFormats) {w : Int}
    (hcode : f.conditional = true → f.valueAt w "cond".toList ≤ 14) :
    IsIdentifier (f.mnemonicIn w) ∧ (f.mnemonicIn w).lower = f.mnemonicIn w ∧
      ∃ candidates, isa.lookup (f.mnemonicIn w) = some candidates ∧
        f.conditionIn w = candidates.condition ∧
        (candidates.formats.find? fun g => g.signature = f.signature) = some f := by
  have hwf := (hisa.allFormats hf).toWellFormed
  obtain ⟨hcondition, -⟩ := Format.conditionIn_spec hwf hcode
  rcases InstructionSet.mem_allFormats.1 hf with ⟨entry, hentry, hmem⟩ | rfl
  · have hnone : f.conditionIn w = none := by
      rw [(hisa.formats entry hentry f hmem).2] at hcondition
      exact Option.isSome_eq_false_iff.1 hcondition.symm |> Option.isNone_iff_eq_none.1
    have hmnemonic : f.mnemonicIn w = entry.1 := by
      rw [Format.mnemonicIn, hnone, hregular.keyed entry hentry f hmem]
    obtain ⟨hidentifier, hlower⟩ := hregular.names entry hentry
    rw [hmnemonic]
    exact ⟨hidentifier, hlower, _, hregular.lookup_entry hentry, hnone,
      hregular.find? hentry hmem⟩
  · rw [hisa.conditionalBranch.2, eq_comm, Option.isSome_iff_exists] at hcondition
    obtain ⟨c, hc⟩ := hcondition
    have hmnemonic : isa.conditionalBranch.mnemonicIn w = c.mnemonic := by
      rw [Format.mnemonicIn, hc]
    rw [hmnemonic]
    refine ⟨by cases c <;> decide, by cases c <;> decide, _, hregular.lookup_condition c, hc, ?_⟩
    simp

/-! ### The disassembly is assembled -/

namespace Format

variable {f : Format} {bias : Int} {length address : Nat} {w : Int}

theorem isRegisterIndex_valueAt (hf : f.WellFormed) {name : Text}
    (h : ∀ g ∈ f.fields, g.name = name → g.IsRegister) :
    isRegisterIndex (f.valueAt w name) = true := by
  cases hfield : f.field? name with
  | none =>
      rw [valueAt, hfield]
      rfl
  | some g =>
      obtain ⟨hg, rfl⟩ := (field?_eq_some_iff hf.names_nodup).1 hfield
      obtain ⟨hsigned, hscale, hwidth⟩ := h g hg rfl
      obtain ⟨-, hlow, hhigh⟩ := holds_valueAt (w := w) hf hg
      simp only [Field.bounds, hsigned, hscale, hwidth, Bool.false_eq_true, if_false] at hlow hhigh
      have hweight : Bits.weight (3 : Int).toNat = registerCount := rfl
      rw [hweight] at hhigh
      have hlt : f.valueAt w g.name < registerCount := by omega
      simp [isRegisterIndex, hlow, hlt]

/-- The operands that a word gives can be printed and read back. -/
theorem canonical_contentOf (hf : f.Sound) (hregular : f.Regular) {s : Slot} (hs : s ∈ f.slots)
    {branch : Int → Operand.Content} (hbranch : ∀ n, (branch n).Canonical) :
    (f.contentOf branch w s).Canonical := by
  have hprint : isPrintable (f.slotValue w s) = true := isPrintable_slotValue hf hs
  have hregisters := hregular.registers s hs
  unfold contentOf
  cases hregular.slots s hs with
  | @fed kind name hstack =>
      cases kind with
      | register => exact isRegisterIndex_valueAt hf.toWellFormed (hregisters rfl name (Or.inl rfl))
      | immediate => exact hprint
      | label => exact hbranch _
      | stackPointer => exact absurd rfl hstack
      | stackOffset => exact hprint
  | fixed => exact hprint
  | @tied name => exact isRegisterIndex_valueAt hf.toWellFormed (hregisters rfl name (Or.inr rfl))
  | bare => trivial

/-- The instruction of a word can be printed and read back. -/
theorem canonical_disassembled {isa : InstructionSet} (hisa : isa.Sound) (hregular : isa.Regular)
    (hf : f ∈ isa.allFormats) (h : f.Admits bias length address w) :
    (f.disassembled bias address w).Canonical isa := by
  have hsound := hisa.allFormats hf
  obtain ⟨hidentifier, hlower, candidates, hlookup, hcondition, hfind⟩ :=
    lookup_mnemonicIn hisa hregular hf (h.code_le hsound.toWellFormed)
  have hkinds : (f.disassembled bias address w).operands.map Operand.kind = f.signature := by
    simp only [disassembled, decoded, List.map_map, signature]
    exact List.map_congr_left fun s _ => OperandKind.kind_content (fun _ => rfl) _ _
  refine ⟨hidentifier, hlower, ⟨candidates, hlookup, hcondition, ?_⟩,
    slotsAgree_decoded hsound (hregular.formats f hf), ?_⟩
  · rw [hkinds]
    exact hfind
  · intro c hc
    obtain ⟨o, ho, rfl⟩ := List.mem_map.1 hc
    obtain ⟨s, hs, rfl⟩ := List.mem_map.1 ho
    exact canonical_contentOf hsound (hregular.formats f hf) hs fun n => canonical_placeName _

/-- Linking the instruction of a word gives the offset to its target, if all addresses have their
labels. -/
theorem link_disassembled (hf : f.Sound) (h : f.Admits bias length address w) {p : Program}
    (hnodup : p.labelNames.Nodup) (hdefines : ∀ t ≤ length, p.Defines (placeName t) t) :
    linkEntry bias p.table.freeze (address, .instruction (f.disassembled bias address w)) =
      .ok (.instruction (f.resolvedWord w)) := by
  have hwf := hf.toWellFormed
  by_cases hlabel : ∃ s ∈ f.slots, s.kind = .label
  · obtain ⟨s, hs, hkind⟩ := hlabel
    obtain ⟨hslots, hfield, hb, g, hg, hoffset⟩ := hf.label_slot s hs hkind
    have hoperands : (f.disassembled bias address w).operands =
        [{ content := labelTo bias address (f.valueAt w "offset".toList) }] := by
      simp [disassembled, decoded, hslots, contentOf, hkind, OperandKind.content,
        slotValue_of_field hfield]
    obtain ⟨hnonneg, hle⟩ := h.target hwf hb (List.mem_map.2 ⟨g, hg, hoffset.1⟩)
    have hholds := holds_valueAt (w := w) hwf hg
    rw [hoffset.1] at hholds
    have hfield? : f.field? "offset".toList = some g :=
      (field?_eq_some_iff hwf.names_nodup).2 ⟨hg, hoffset.1⟩
    have hdistance : branchOffset bias p.table.freeze address (f.disassembled bias address w)
        { content := labelTo bias address (f.valueAt w "offset".toList) }
        (placeName (address + bias + f.valueAt w "offset".toList).toNat) =
          .ok (f.valueAt w "offset".toList) :=
      (branchOffset_eq_ok_iff hnodup (hwf.field_inWord hg) hfield?).2
        ⟨_, hdefines _ (by omega), by omega, hholds⟩
    rw [linkEntry_of_refersTo ⟨hoperands, rfl⟩, hdistance]
    simp [disassembled, resolvedWord, Instruction.linked, decoded, hslots, contentOf, hkind,
      OperandKind.content, slotValue_of_field hfield]
  · -- without a label there is nothing to link
    have hcontent (s : Slot) (hs : s ∈ f.slots) :
        f.contentOf (labelTo bias address) w s = f.contentOf .immediate w s := by
      unfold contentOf
      cases hkind : s.kind with
      | label => exact absurd ⟨s, hs, hkind⟩ hlabel
      | _ => rfl
    have hsame : f.disassembled bias address w = f.resolvedWord w := by
      unfold disassembled resolvedWord decoded
      congr 1
      exact List.map_congr_left fun s hs => by rw [hcontent s hs]
    rw [hsame]
    refine linkEntry_of_not_isLabel fun o ho => ?_
    obtain ⟨s, hs, rfl⟩ := List.mem_map.1 ho
    have hkind : (f.contentOf .immediate w s).kind ≠ .label := by
      rw [contentOf, OperandKind.kind_content_immediate]
      cases hkind : s.kind <;> simp [OperandKind.resolved]
    exact decide_eq_false hkind

/-- The instruction of a word has this word. -/
theorem encode_resolvedWord (hf : f.Sound) (hregular : f.Regular)
    (h : f.Admits bias length address w) : (f.resolvedWord w).encode = .ok w := by
  obtain ⟨hcondition, hcode⟩ := conditionIn_spec hf.toWellFormed (h.code_le hf.toWellFormed)
  exact encode_decoded hf hregular hcondition (h.opcode hf.toWellFormed) hcode

end Format

namespace InstructionSet

/-- The first format in which a word can stand at an address; if there is none, that of the
conditional branches. -/
def formatAt (isa : InstructionSet) (bias : Int) (length address : Nat) (word : Int) : Format :=
  (isa.allFormats.find? fun f => f.Admits bias length address word).getD isa.conditionalBranch

/-- The instruction of a word at an address, with a label for its target. -/
def instructionAt (isa : InstructionSet) (bias : Int) (length address : Nat) (word : Int) :
    Instruction :=
  (isa.formatAt bias length address word).disassembled bias address word

/-- The instruction of a word at an address, with the offset to its target. -/
def resolvedAt (isa : InstructionSet) (bias : Int) (length address : Nat) (word : Int) :
    Instruction :=
  (isa.formatAt bias length address word).resolvedWord word

/-- The program that a list of words is printed as. -/
def disassembly (isa : InstructionSet) (bias : Int) (words : List Int) : Program :=
  layoutFrom (isa.instructionAt bias words.length) 0 words

theorem formatAt_spec {isa : InstructionSet} {bias : Int} {length address : Nat} {w : Int}
    (h : ∃ f ∈ isa.allFormats, f.Admits bias length address w) :
    isa.formatAt bias length address w ∈ isa.allFormats ∧
      (isa.formatAt bias length address w).Admits bias length address w := by
  obtain ⟨f, hf, hadmits⟩ := h
  unfold formatAt
  cases hfind : isa.allFormats.find? fun f => f.Admits bias length address w with
  | none =>
      have hnot := List.find?_eq_none.1 hfind f hf
      simp [hadmits] at hnot
  | some g =>
      have hg := List.find?_some hfind
      exact ⟨List.mem_of_find?_eq_some hfind, by simpa using hg⟩

end InstructionSet

/-- The words of a disassembly. -/
theorem assembled_disassembly {isa : InstructionSet} (hisa : isa.Sound) (hregular : isa.Regular)
    {bias : Int} {words : List Int}
    (h : ∀ x ∈ words.zipIdx, ∃ f ∈ isa.allFormats, f.Admits bias words.length x.2 x.1) :
    (isa.disassembly bias words).assembled bias = .ok words := by
  have hnodup : (isa.disassembly bias words).labelNames.Nodup := nodup_layoutFrom _
  have hlink (x : Int × Nat) (hx : x ∈ words.zipIdx) :
      linkEntry bias (isa.disassembly bias words).table.freeze
          (x.2, .instruction (isa.instructionAt bias words.length x.2 x.1)) =
        .ok (.instruction (isa.resolvedAt bias words.length x.2 x.1)) := by
    obtain ⟨hf, hadmits⟩ := InstructionSet.formatAt_spec (h x hx)
    exact Format.link_disassembled (hisa.allFormats hf) hadmits hnodup fun t ht =>
      defines_layoutFrom ht
  have hencode (x : Int × Nat) (hx : x ∈ words.zipIdx) :
      (isa.resolvedAt bias words.length x.2 x.1).encode = .ok x.1 := by
    obtain ⟨hf, hadmits⟩ := InstructionSet.formatAt_spec (h x hx)
    exact Format.encode_resolvedWord (hisa.allFormats hf) (hregular.formats _ hf) hadmits
  have hwalk : (isa.disassembly bias words).addressed.mapM
      (linkEntry bias (isa.disassembly bias words).table.freeze) =
        .ok (layoutFrom (isa.resolvedAt bias words.length) 0 words) :=
    mapM_eq_ok_iff.2 (link_layoutFrom hlink)
  rw [Program.assembled, collect_of_nodup hnodup, ok_bind, hwalk, ok_bind,
    encode_layoutFrom hencode]

/-- **The printed disassembly of words is assembled to them.** -/
theorem assemble_disassembly {isa : InstructionSet} (hisa : isa.Sound) (hregular : isa.Regular)
    {bias : Int} {words : List Int}
    (h : ∀ x ∈ words.zipIdx, ∃ f ∈ isa.allFormats, f.Admits bias words.length x.2 x.1) :
    ∃ a, assemble isa bias
        (Text.joined "\n".toList ((isa.disassembly bias words).map Entry.render)) = .ok a ∧
      a.words = words := by
  have hcanonical (e : Entry) (he : e ∈ isa.disassembly bias words) : e.Canonical isa := by
    rcases mem_layoutFrom he with ⟨t, rfl⟩ | ⟨x, hx, rfl⟩
    · exact ⟨isIdentifier_placeName t, isReserved_placeName hisa t⟩
    · obtain ⟨hf, hadmits⟩ := InstructionSet.formatAt_spec (h x hx)
      exact Format.canonical_disassembled hisa hregular hf hadmits
  obtain ⟨q, hq, hbare⟩ := parse_printed hisa hcanonical
  -- what is read back has the same words as the disassembly
  have hwords : (q.assembled bias).toOption = some words := by
    rw [← q.toOption_assembled_bare, hbare, Program.toOption_assembled_bare,
      assembled_disassembly hisa hregular h]
    rfl
  have hassemble := toOption_assemble isa bias
    (Text.joined "\n".toList ((isa.disassembly bias words).map Entry.render))
  rw [hq] at hassemble
  obtain ⟨a, ha, hsame⟩ := Option.map_eq_some_iff.1 (hassemble.trans hwords)
  exact ⟨a, toOption_eq_some_iff.1 ha, hsame⟩

/-- **The lists of words that sources are assembled to.**  They are those in which every word has
the opcode of a format, a condition if the format is conditional, and an offset that leads into the
program or to its end if the format is a branch. -/
theorem exists_source_iff (bias : Int) (words : List Int) :
    (∃ source a, assemble Thumb.instructionSet bias source = .ok a ∧ a.words = words) ↔
      ∀ address w, words[address]? = some w →
        ∃ f ∈ Thumb.instructionSet.allFormats, f.Admits bias words.length address w := by
  constructor
  · rintro ⟨source, a, ha, rfl⟩ address w hw
    exact admits_of_assemble Thumb.instructionSet_sound Thumb.instructionSet_regular ha hw
  · intro h
    obtain ⟨a, ha, hwords⟩ := assemble_disassembly Thumb.instructionSet_sound
      Thumb.instructionSet_regular fun x hx => h x.2 x.1 (List.mem_zipIdx_iff_getElem?.1 hx)
    exact ⟨_, a, ha, hwords⟩

end ThumbAssembler
