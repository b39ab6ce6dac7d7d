/-
**What the instruction parser yields.**

An instruction is read from a list of tokens.  This module says what is known of an instruction that
was read: its mnemonic is one of the tokens, its format is the first candidate with the shapes of
its operands, the fixed and tied slots agree with them, and every operand is drawn from the tokens.
When reading stops instead, it stops for a fault of syntax on its line, or for a register with too
many digits.

Main definitions:

* `ThumbAssembler.Operand.DrawnFrom` — an operand is one that a list of tokens can spell;
* `ThumbAssembler.SlotsAgree` — operands agree with the fixed values and ties of their slots;
* `ThumbAssembler.Instruction.ReadFrom` — an instruction is one that a list of tokens can spell;
* `ThumbAssembler.Instruction.Formed` — an instruction fits its format.

Main results:

* `ThumbAssembler.SourceLine.checkSlotsFrom_eq_ok_iff` — the check of the slots decides
  `ThumbAssembler.SlotsAgree`;
* `ThumbAssembler.SourceLine.instruction_outcome` — **what the instruction parser yields, and why it
  stops**.
-/

import Mathlib
import ThumbAssembler.Proofs.SoundFormats
import ThumbAssembler.Proofs.TokenText
import ThumbAssembler.Statement

set_option autoImplicit false

namespace ThumbAssembler

/-! ### Operands -/

/-- The operand is one that the tokens can spell. -/
def Operand.DrawnFrom (ts : List Token) (o : Operand) : Prop :=
  match o.content with
  | .register index => isRegisterIndex index = true
  | .immediate v => ∃ t ∈ ts, t.kind = .immediate v
  | .label name => (∃ t ∈ ts, t.kind = .identifier ∧ t.text = name) ∧
      registerDigits? name = none ∧ name.lower ∉ specialRegisters
  | .stackPointer => True
  | .stackOffset bytes => bytes = 0 ∨ ∃ t ∈ ts, t.kind = .immediate bytes

/-- A register among the tokens has a number with too many digits to be read. -/
def LongRegister (ts : List Token) (e : Fault) : Prop :=
  ∃ t ∈ ts, ∃ digits, t.kind = .identifier ∧ registerDigits? t.text = some digits ∧
    maxDigits < digits.length ∧ e = .numeralTooLong digits.length

theorem Operand.DrawnFrom.mono {ts ts' : List Token} {o : Operand} (h : o.DrawnFrom ts)
    (hts : ts ⊆ ts') : o.DrawnFrom ts' := by
  obtain ⟨content, column, text⟩ := o
  cases content with
  | register index => exact h
  | immediate v =>
      obtain ⟨t, ht, hkind⟩ := h
      exact ⟨t, hts ht, hkind⟩
  | label name =>
      obtain ⟨⟨t, ht, hkind⟩, hname⟩ := h
      exact ⟨⟨t, hts ht, hkind⟩, hname⟩
  | stackPointer => trivial
  | stackOffset bytes =>
      rcases h with h | ⟨t, ht, hkind⟩
      · exact Or.inl h
      · exact Or.inr ⟨t, hts ht, hkind⟩

theorem LongRegister.mono {ts ts' : List Token} {e : Fault} (h : LongRegister ts e)
    (hts : ts ⊆ ts') : LongRegister ts' e := by
  obtain ⟨t, ht, hlong⟩ := h
  exact ⟨t, hts ht, hlong⟩

namespace SourceLine

/-- The faults that stop the instruction parser on a line. -/
def Fails (line : SourceLine) (ts : List Token) (e : Fault) : Prop :=
  SyntaxFault line.number e ∨ LongRegister ts e

theorem Fails.mono {line : SourceLine} {ts ts' : List Token} {e : Fault} (h : line.Fails ts e)
    (hts : ts ⊆ ts') : line.Fails ts' e :=
  h.imp id fun h => h.mono hts

theorem unexpected_outcome {α : Type} (line : SourceLine) (what : Expectation)
    (ts ts' : List Token) (P : α → Prop) :
    Outcome P (line.Fails ts') (line.unexpected what ts) :=
  Or.inl (syntaxFault_rejection rfl rfl)

theorem identifierOperand_outcome (line : SourceLine) {t : Token} (ht : t.kind = .identifier) :
    Outcome (fun o => o.DrawnFrom [t]) (line.Fails [t]) (line.identifierOperand t) := by
  unfold identifierOperand
  split
  · rename_i digits hdigits
    split
    · rename_i hlong
      exact Or.inr ⟨t, by simp, digits, ht, hdigits, hlong, rfl⟩
    · split
      · rename_i hindex
        exact hindex
      · exact Or.inl (syntaxFault_rejection rfl rfl)
  · rename_i hdigits
    split
    · trivial
    · rename_i hsp
      split
      · exact Or.inl (syntaxFault_rejection rfl rfl)
      · rename_i hspecial
        refine ⟨⟨t, by simp, ht, rfl⟩, hdigits, ?_⟩
        rw [not_or] at hspecial
        simp only [specialRegisters, List.mem_cons, List.not_mem_nil, or_false, not_or]
        exact ⟨hsp, hspecial.2, hspecial.1⟩

/-- What the reading of an operand yields: an operand, and the tokens after it. -/
def OperandRead (ts : List Token) (r : Operand × List Token) : Prop :=
  r.1.DrawnFrom ts ∧ r.2 ⊆ ts

theorem closeBracket_outcome (line : SourceLine) (start : Token) {bytes : Int}
    {ts whole : List Token} (hbytes : bytes = 0 ∨ ∃ t ∈ whole, t.kind = .immediate bytes)
    (hts : ts ⊆ whole) :
    Outcome (OperandRead whole) (line.Fails whole) (line.closeBracket start bytes ts) := by
  unfold closeBracket
  split
  · exact ⟨hbytes, List.subset_of_cons_subset hts⟩
  · exact unexpected_outcome line _ _ _ _

theorem bracketOffset_outcome (line : SourceLine) (start : Token) {ts whole : List Token}
    (hts : ts ⊆ whole) :
    Outcome (OperandRead whole) (line.Fails whole) (line.bracketOffset start ts) := by
  unfold bracketOffset
  split
  · have hts := List.subset_of_cons_subset hts
    have hbytes := List.cons_subset.1 hts
    exact closeBracket_outcome line start (Or.inr ⟨_, hbytes.1, rfl⟩) hbytes.2
  · exact unexpected_outcome line _ _ _ _
  · exact closeBracket_outcome line start (Or.inl rfl) hts

theorem bracketOperand_outcome (line : SourceLine) (start : Token) {ts whole : List Token}
    (hts : ts ⊆ whole) :
    Outcome (OperandRead whole) (line.Fails whole) (line.bracketOperand start ts) := by
  unfold bracketOperand
  split
  · split
    · exact bracketOffset_outcome line start (List.subset_of_cons_subset hts)
    · exact Or.inl (syntaxFault_rejection rfl rfl)
  · exact unexpected_outcome line _ _ _ _

theorem operand_outcome (line : SourceLine) (ts : List Token) :
    Outcome (OperandRead ts) (line.Fails ts) (line.operand ts) := by
  unfold operand
  split
  · exact ⟨⟨_, List.mem_cons_self, rfl⟩, List.subset_cons_self _ _⟩
  · exact bracketOperand_outcome line _ (List.subset_cons_self _ _)
  · rename_i text column rest
    have hsub : [(⟨.identifier, text, column⟩ : Token)] ⊆ ⟨.identifier, text, column⟩ :: rest :=
      List.cons_subset_cons _ (List.nil_subset _)
    refine Outcome.bind (P := fun o => o.DrawnFrom [⟨.identifier, text, column⟩]) ?_ ?_
    · exact (identifierOperand_outcome line rfl).imp (fun _ h => h) fun _ h => h.mono hsub
    · exact fun o ho => ⟨ho.mono hsub, List.subset_cons_self _ _⟩
  · exact unexpected_outcome line _ _ _ _

/-- What the reading of operands yields: operands, and the tokens after them. -/
def OperandsRead (ts : List Token) (r : List Operand × List Token) : Prop :=
  (∀ o ∈ r.1, o.DrawnFrom ts) ∧ r.2 ⊆ ts

theorem operands_outcome (line : SourceLine) (ts : List Token) :
    Outcome (OperandsRead ts) (line.Fails ts) (line.operands ts) := by
  fun_induction line.operands ts with
  | case1 ts e he => exact (operand_outcome line ts).of_error he
  | case2 ts o text column rest ho ih =>
      obtain ⟨hdrawn, hrest⟩ := (operand_outcome line ts).of_ok ho
      have hsub : rest ⊆ ts := List.subset_of_cons_subset hrest
      refine Outcome.bind (ih.imp (fun _ h => h) fun _ h => h.mono hsub) ?_
      rintro ⟨os, rest'⟩ ⟨hos, hrest'⟩
      refine ⟨?_, List.Subset.trans hrest' hsub⟩
      intro o' ho'
      rcases List.mem_cons.1 ho' with rfl | ho'
      · exact hdrawn
      · exact (hos o' ho').mono hsub
  | case3 ts o rest hnot ho =>
      obtain ⟨hdrawn, hrest⟩ := (operand_outcome line ts).of_ok ho
      exact ⟨by simpa using hdrawn, hrest⟩

theorem operandList_outcome (line : SourceLine) (ts : List Token) :
    Outcome (OperandsRead ts) (line.Fails ts) (line.operandList ts) := by
  unfold operandList
  split
  · exact ⟨by simp, List.Subset.refl _⟩
  · exact operands_outcome line ts

end SourceLine

/-! ### Slots -/

/-- The operands agree with the fixed values of their slots, and with the registers that were placed
in the fields their slots are tied to. -/
def SlotsAgree (placed : List (Text × Int)) : List (Slot × Operand) → Prop
  | [] => True
  | (slot, o) :: rest =>
      (∀ required ∈ slot.fixed, o.value? = some required) ∧
      (∀ field ∈ slot.tie, ∃ v, o.value? = some v ∧ Assoc.get? field placed = some v) ∧
      SlotsAgree (SourceLine.placeRegister placed slot o) rest

theorem Operand.isNumeric_kind (o : Operand) : o.kind.isNumeric = o.value?.isSome := by
  obtain ⟨content, column, text⟩ := o
  cases content <;> rfl

/-- Operands of the shapes of a format have, one by one, the shapes of its slots. -/
theorem Format.kind_of_mem_zip {f : Format} {os : List Operand}
    (h : f.signature = os.map Operand.kind) {slot : Slot} {o : Operand}
    (hmem : (slot, o) ∈ f.slots.zip os) : slot.kind = o.kind := by
  obtain ⟨k, hk⟩ := List.mem_iff_getElem?.1 hmem
  rw [List.getElem?_zip_eq_some] at hk
  have hkinds := congrArg (fun kinds => kinds[k]?) h
  rw [Format.signature, List.getElem?_map, List.getElem?_map, hk.1, hk.2] at hkinds
  exact Option.some_inj.1 hkinds

namespace SourceLine

theorem checkFixed_eq_ok_iff {line : SourceLine} {mnemonic : Token} {slot : Slot} {o : Operand} :
    line.checkFixed mnemonic slot o = .ok () ↔
      ∀ required ∈ slot.fixed, o.value? = some required := by
  unfold checkFixed
  cases slot.fixed with
  | none => simp
  | some required =>
      cases hv : o.value? with
      | none => simp [numberOf, hv]
      | some v =>
          by_cases heq : v = required
          · simp [numberOf, hv, heq]
          · simp [numberOf, hv, heq, reject]

theorem checkTie_eq_ok_iff {line : SourceLine} {mnemonic : Token} {usage : Text}
    {placed : List (Text × Int)} {slot : Slot} {o : Operand} :
    line.checkTie mnemonic usage placed slot o = .ok () ↔
      ∀ field ∈ slot.tie, ∃ v, o.value? = some v ∧ Assoc.get? field placed = some v := by
  unfold checkTie
  cases slot.tie with
  | none => simp
  | some field =>
      cases hv : o.value? with
      | none => simp [numberOf, hv]
      | some v =>
          by_cases heq : some v = Assoc.get? field placed
          · simp [numberOf, hv, ← heq]
          · simp [numberOf, hv, heq, reject, eq_comm]

/-- **The check of the slots decides whether they agree with the operands.** -/
theorem checkSlotsFrom_eq_ok_iff {line : SourceLine} {mnemonic : Token} {usage : Text}
    {placed : List (Text × Int)} {pairs : List (Slot × Operand)} :
    line.checkSlotsFrom mnemonic usage placed pairs = .ok () ↔ SlotsAgree placed pairs := by
  induction pairs generalizing placed with
  | nil => simp [checkSlotsFrom, SlotsAgree]
  | cons pair rest ih =>
      obtain ⟨slot, o⟩ := pair
      rw [checkSlotsFrom, SlotsAgree, ← @checkFixed_eq_ok_iff line mnemonic,
        ← @checkTie_eq_ok_iff line mnemonic usage, ← ih]
      constructor
      · intro h
        obtain ⟨_, hfixed, h⟩ := bind_eq_ok_iff.1 h
        obtain ⟨_, htie, h⟩ := bind_eq_ok_iff.1 h
        exact ⟨hfixed, htie, h⟩
      · rintro ⟨hfixed, htie, h⟩
        rw [hfixed, ok_bind, htie, ok_bind, h]

theorem checkFixed_outcome (line : SourceLine) (mnemonic : Token) {slot : Slot} {o : Operand}
    (hvalue : slot.fixed ≠ none → o.value?.isSome = true)
    (hprint : ∀ n ∈ slot.fixed, isPrintable n = true) :
    Outcome (fun _ => True) (SyntaxFault line.number) (line.checkFixed mnemonic slot o) := by
  unfold checkFixed
  cases hfixed : slot.fixed with
  | none => trivial
  | some required =>
      obtain ⟨v, hv⟩ := Option.isSome_iff_exists.1 (hvalue (by simp [hfixed]))
      simp only [numberOf, hv, ok_bind]
      split
      · trivial
      · exact syntaxFault_rejection rfl (by simpa [Cause.numbers] using hprint required hfixed)

theorem checkTie_outcome (line : SourceLine) (mnemonic : Token) (usage : Text)
    (placed : List (Text × Int)) {slot : Slot} {o : Operand}
    (hvalue : slot.tie ≠ none → o.value?.isSome = true) :
    Outcome (fun _ => True) (SyntaxFault line.number)
      (line.checkTie mnemonic usage placed slot o) := by
  unfold checkTie
  cases htie : slot.tie with
  | none => trivial
  | some field =>
      obtain ⟨v, hv⟩ := Option.isSome_iff_exists.1 (hvalue (by simp [htie]))
      simp only [numberOf, hv, ok_bind]
      split
      · trivial
      · exact syntaxFault_rejection rfl rfl

theorem checkSlotsFrom_outcome (line : SourceLine) (mnemonic : Token) (usage : Text)
    (placed : List (Text × Int)) {pairs : List (Slot × Operand)}
    (hvalue : ∀ p ∈ pairs, p.1.fixed ≠ none ∨ p.1.tie ≠ none → p.2.value?.isSome = true)
    (hprint : ∀ p ∈ pairs, ∀ n ∈ p.1.fixed, isPrintable n = true) :
    Outcome (fun _ => True) (SyntaxFault line.number)
      (line.checkSlotsFrom mnemonic usage placed pairs) := by
  induction pairs generalizing placed with
  | nil => trivial
  | cons pair rest ih =>
      obtain ⟨slot, o⟩ := pair
      obtain ⟨hv, hvalue⟩ := List.forall_mem_cons.1 hvalue
      obtain ⟨hp, hprint⟩ := List.forall_mem_cons.1 hprint
      refine (checkFixed_outcome line mnemonic (fun h => hv (Or.inl h)) hp).bind fun _ _ => ?_
      refine (checkTie_outcome line mnemonic usage placed fun h => hv (Or.inr h)).bind fun _ _ => ?_
      exact ih _ hvalue hprint

end SourceLine

/-! ### Instructions -/

/-- The instruction is one that the tokens can spell. -/
structure Instruction.ReadFrom (isa : InstructionSet) (ts : List Token) (i : Instruction) :
    Prop where
  mnemonic : ∃ t ∈ ts, t.kind = .identifier ∧ i.mnemonic = t.text.lower
  format : ∃ candidates, isa.lookup i.mnemonic = some candidates ∧
    i.condition = candidates.condition ∧
    (candidates.formats.find? fun f => f.signature = i.operands.map Operand.kind) = some i.format
  slots : SlotsAgree [] (i.format.slots.zip i.operands)
  operands : ∀ o ∈ i.operands, o.DrawnFrom ts

namespace SourceLine

theorem buildInstruction_outcome {isa : InstructionSet} (hisa : isa.Sound) (line : SourceLine)
    {mnemonic : Token} {candidates : Candidates} {os : List Operand} {ts : List Token}
    (hmem : mnemonic ∈ ts) (hkind : mnemonic.kind = .identifier)
    (hlookup : isa.lookup mnemonic.text = some candidates) (hos : ∀ o ∈ os, o.DrawnFrom ts) :
    Outcome (fun i => i.ReadFrom isa ts ∧ i.line = (line.number : Int)) (line.Fails ts)
      (line.buildInstruction mnemonic candidates os) := by
  unfold buildInstruction chooseFormat
  cases hfind : candidates.formats.find? fun f => f.signature = os.map Operand.kind with
  | none => exact Or.inl (syntaxFault_rejection rfl rfl)
  | some f =>
      obtain ⟨hf, -⟩ := hisa.lookup hlookup f (List.mem_of_find?_eq_some hfind)
      have hsignature : f.signature = os.map Operand.kind :=
        by simpa using List.find?_some hfind
      have hvalue : ∀ p ∈ f.slots.zip os, p.1.fixed ≠ none ∨ p.1.tie ≠ none →
          p.2.value?.isSome = true := by
        intro p hp hchecked
        rw [← Operand.isNumeric_kind, ← Format.kind_of_mem_zip hsignature hp]
        exact hf.checked_numeric _ (List.of_mem_zip hp).1 hchecked
      have hslots := checkSlotsFrom_outcome line mnemonic f.usage [] hvalue
        fun p hp => hf.fixed_printable _ (List.of_mem_zip hp).1
      rw [ok_bind]
      cases hcheck : line.checkSlots mnemonic f os with
      | error e => exact Or.inl (hslots.of_error hcheck)
      | ok _ =>
          refine ⟨⟨⟨mnemonic, hmem, hkind, rfl⟩, ⟨candidates, ?_, rfl, hfind⟩,
            checkSlotsFrom_eq_ok_iff.1 hcheck, hos⟩, rfl⟩
          rw [← hlookup]
          simp only [InstructionSet.lookup, Text.lower_lower]

/-- **What the instruction parser yields, and why it stops.** -/
theorem instruction_outcome {isa : InstructionSet} (hisa : isa.Sound) (line : SourceLine)
    (ts : List Token) :
    Outcome (fun i => i.ReadFrom isa ts ∧ i.line = (line.number : Int)) (line.Fails ts)
      (line.instruction isa ts) := by
  unfold instruction
  split
  · rename_i text column rest
    simp only
    split
    · exact Or.inl (syntaxFault_rejection rfl rfl)
    · rename_i candidates hlookup
      have hrest : rest ⊆ (⟨.identifier, text, column⟩ :: rest : List Token) :=
        List.subset_cons_self _ _
      refine Outcome.bind
        ((operandList_outcome line rest).imp (fun _ h => h) fun _ h => h.mono hrest) ?_
      rintro ⟨os, rest'⟩ ⟨hos, -⟩
      simp only
      split
      · exact buildInstruction_outcome hisa line List.mem_cons_self rfl hlookup
          fun o ho => (hos o ho).mono hrest
      · exact unexpected_outcome line _ _ _ _
  · exact unexpected_outcome line _ _ _ _

end SourceLine

/-! ### Instructions and their formats -/

namespace Instruction

/-- The instruction has a sound format, operands of its shapes, and a condition exactly if the
format takes one. -/
structure Formed (i : Instruction) : Prop where
  sound : i.format.Sound
  signature : i.format.signature = i.operands.map Operand.kind
  condition : i.format.conditional = i.condition.isSome

theorem ReadFrom.formed {isa : InstructionSet} (hisa : isa.Sound) {ts : List Token}
    {i : Instruction} (h : i.ReadFrom isa ts) : i.Formed := by
  obtain ⟨candidates, hlookup, hcondition, hfind⟩ := h.format
  obtain ⟨hsound, hconditional⟩ := hisa.lookup hlookup _ (List.mem_of_find?_eq_some hfind)
  refine ⟨hsound, by simpa using List.find?_some hfind, ?_⟩
  rw [hconditional, hcondition]

variable {i : Instruction}

/-- There are as many operands as slots. -/
theorem Formed.length_eq (h : i.Formed) : i.operands.length = i.format.slots.length := by
  have hlength := congrArg List.length h.signature
  rw [Format.signature, List.length_map, List.length_map] at hlength
  exact hlength.symm

/-- The instruction is a branch to a label: its only operand names the label. -/
structure RefersTo (i : Instruction) (o : Operand) (name : Text) : Prop where
  operands : i.operands = [o]
  content : o.content = .label name

theorem RefersTo.mem {o : Operand} {name : Text} (h : i.RefersTo o name) : o ∈ i.operands := by
  rw [h.operands]
  exact List.mem_singleton_self o

/-- A label stands in a slot for labels. -/
theorem Formed.exists_label_slot (h : i.Formed) {o : Operand} (ho : o ∈ i.operands) {name : Text}
    (hname : o.content = .label name) : ∃ slot ∈ i.format.slots, slot.kind = .label := by
  have hkind : o.kind = .label := by rw [Operand.kind, hname, Operand.Content.kind]
  have hmem : OperandKind.label ∈ i.format.signature := by
    rw [h.signature, ← hkind]
    exact List.mem_map_of_mem ho
  exact List.mem_map.1 hmem

/-- A label is the only operand of its instruction, and feeds the offset field of a branch. -/
theorem Formed.refersTo (h : i.Formed) {o : Operand} (ho : o ∈ i.operands) {name : Text}
    (hname : o.content = .label name) :
    i.RefersTo o name ∧ ∃ slot g, i.format.slots = [slot] ∧ slot.field = some "offset".toList ∧
      g ∈ i.format.fields ∧ g.IsOffset := by
  obtain ⟨slot, hslot, hlabel⟩ := h.exists_label_slot ho hname
  obtain ⟨hslots, hfield, -, g, hg, hoffset⟩ := h.sound.label_slot slot hslot hlabel
  have hlength : i.operands.length = 1 := by rw [h.length_eq, hslots, List.length_singleton]
  obtain ⟨o', ho'⟩ := List.length_eq_one_iff.1 hlength
  rw [ho', List.mem_singleton] at ho
  subst ho
  exact ⟨⟨ho', hname⟩, slot, g, hslots, hfield, hg, hoffset⟩

/-- An instruction has either no label among its operands or nothing but a label. -/
theorem Formed.cases_label (h : i.Formed) :
    (∀ o ∈ i.operands, o.isLabel = false) ∨ ∃ o name, i.RefersTo o name := by
  by_cases hlabel : ∃ o ∈ i.operands, ∃ name, o.content = .label name
  · obtain ⟨o, ho, name, hname⟩ := hlabel
    exact Or.inr ⟨o, name, (h.refersTo ho hname).1⟩
  · refine Or.inl fun o ho => ?_
    cases hcontent : o.content with
    | label name => exact absurd ⟨o, ho, name, hcontent⟩ hlabel
    | _ => simp [Operand.isLabel, Operand.kind, hcontent, Operand.Content.kind]

/-- An instruction without labels can be encoded as it is. -/
theorem Formed.complete (h : i.Formed) (hlabels : ∀ o ∈ i.operands, o.isLabel = false) :
    i.Complete where
  length_eq := h.length_eq
  valued := by
    intro p hp
    obtain ⟨⟨slot, o⟩, hpair, hfeed⟩ := List.mem_filterMap.1 hp
    obtain ⟨name, hname, rfl⟩ := Option.map_eq_some_iff.1 hfeed
    obtain ⟨hslot, ho⟩ := List.of_mem_zip hpair
    have hkind := Format.kind_of_mem_zip h.signature hpair
    have hfed : slot.field ≠ none := Option.ne_none_iff_exists'.2 ⟨name, hname⟩
    rcases h.sound.fed_numeric slot hslot hfed with hnumeric | hlabel
    · rw [hkind, Operand.isNumeric_kind, Option.isSome_iff_exists] at hnumeric
      exact hnumeric
    · rw [hkind] at hlabel
      have hnot := hlabels o ho
      simp [Operand.isLabel, hlabel] at hnot
  condition := by
    intro hc
    rw [h.condition, Option.isSome_iff_exists] at hc
    exact hc

end Instruction

end ThumbAssembler
