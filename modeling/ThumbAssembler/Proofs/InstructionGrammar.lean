/-
**The grammar of instructions.**

An instruction is a mnemonic, operands with commas between them, and the end of the line:

    instruction ::= identifier [ operand { "," operand } ] end
    operand     ::= immediate | identifier | "[" identifier "]" | "[" identifier "," immediate "]"

Besides the shape of the token list there are rules of meaning: the mnemonic is known, an identifier
names a register that exists, the stack pointer or a label, the identifier in brackets is the stack
pointer, and the operands suit a format of the mnemonic.  Here the grammar is written down as
relations between tokens and what they spell, without regard to how tokens are read, and the parser
is proved to accept exactly what it derives.

Main definitions:

* `ThumbAssembler.DenotesOperand` — what an identifier denotes as an operand;
* `ThumbAssembler.SpellsOperand`, `ThumbAssembler.SpellsOperands`,
  `ThumbAssembler.SpellsInstruction` — what tokens spell;
* `ThumbAssembler.Format.Accepts` — operands that suit a format;
* `ThumbAssembler.InstructionSet.Unambiguous` — the shapes of operands choose one format at most;
* `ThumbAssembler.InstructionSet.Reorders` — the formats of every mnemonic in another order.

Main results:

* `ThumbAssembler.SourceLine.spells_of_operands`, `ThumbAssembler.SourceLine.operands_of_spells` —
  operands are read as the grammar says, and all of the grammar is read;
* `ThumbAssembler.Format.slotsAgree_iff_accepts` — the check of the slots decides
  `ThumbAssembler.Format.Accepts`;
* `ThumbAssembler.SourceLine.instruction_eq_ok_iff` — **the parser accepts exactly the grammar**;
* `ThumbAssembler.instruction_iff_grammar` — the same for every list of tokens and the instruction
  set of the processor, with why it stops otherwise.
-/

import Mathlib
import ThumbAssembler.Proofs.LineOutline
import ThumbAssembler.Proofs.ProgramInvariant

set_option autoImplicit false

namespace ThumbAssembler

/-! ### The grammar -/

/-- What an identifier denotes as an operand: one of the registers `r0` to `r7`, the stack pointer,
or a label, which may have any name but that of a register. -/
inductive DenotesOperand : Text → Operand.Content → Prop
  | register {name digits : Text} (hdigits : registerDigits? name = some digits)
      (hindex : digitsValue 10 digits ≤ 7) : DenotesOperand name (.register (digitsValue 10 digits))
  | stackPointer {name : Text} (hname : name.lower = "sp".toList) :
      DenotesOperand name .stackPointer
  | label {name : Text} (hdigits : registerDigits? name = none)
      (hspecial : name.lower ∉ specialRegisters) : DenotesOperand name (.label name)

/-- The tokens spell an operand, in a line with the given text. -/
inductive SpellsOperand (line : Text) : List Token → Operand → Prop
  | immediate (value : Int) (text : Text) (column : Nat) :
      SpellsOperand line [⟨.immediate value, text, column⟩] ⟨.immediate value, column, text⟩
  | identifier {text : Text} {content : Operand.Content} (h : DenotesOperand text content)
      (column : Nat) : SpellsOperand line [⟨.identifier, text, column⟩] ⟨content, column, text⟩
  | stackTop {base : Text} (h : base.lower = "sp".toList) (opening closing : Text)
      (first column last : Nat) :
      SpellsOperand line
        [⟨.openBracket, opening, first⟩, ⟨.identifier, base, column⟩,
          ⟨.closeBracket, closing, last⟩]
        ⟨.stackOffset 0, first, line.slice (first - 1) last⟩
  | stackOffset {base : Text} (h : base.lower = "sp".toList) (bytes : Int)
      (opening comma offset closing : Text) (first column column' column'' last : Nat) :
      SpellsOperand line
        [⟨.openBracket, opening, first⟩, ⟨.identifier, base, column⟩, ⟨.comma, comma, column'⟩,
          ⟨.immediate bytes, offset, column''⟩, ⟨.closeBracket, closing, last⟩]
        ⟨.stackOffset bytes, first, line.slice (first - 1) last⟩

/-- The tokens spell one or more operands with commas between them. -/
inductive SpellsOperands (line : Text) : List Token → List Operand → Prop
  | single {ts : List Token} {o : Operand} (h : SpellsOperand line ts o) :
      SpellsOperands line ts [o]
  | cons {ts rest : List Token} {o : Operand} {os : List Operand} (h : SpellsOperand line ts o)
      (comma : Text) (column : Nat) (hrest : SpellsOperands line rest os) :
      SpellsOperands line (ts ++ ⟨.comma, comma, column⟩ :: rest) (o :: os)

/-- The operands suit a format: they have the shapes of its slots, an operand whose slot fixes a
value has it, and an operand whose slot is tied to a field repeats the register that an earlier
operand puts into this field. -/
structure Format.Accepts (f : Format) (os : List Operand) : Prop where
  signature : f.signature = os.map Operand.kind
  fixed : ∀ q ∈ f.slots.zip os, ∀ n ∈ q.1.fixed, q.2.value? = some n
  tied : ∀ before s o after, f.slots.zip os = before ++ (s, o) :: after → ∀ field ∈ s.tie,
    ∃ q ∈ before, q.1.field = some field ∧ q.1.kind = .register ∧ q.2.value? = o.value?

/-- The tokens spell an instruction: a known mnemonic, operands that suit one of its formats, and
the end of the line. -/
inductive SpellsInstruction (isa : InstructionSet) (line : SourceLine) :
    List Token → Instruction → Prop
  | intro {mnemonic : Text} {candidates : Candidates} {f : Format} {ts : List Token}
      {os : List Operand} (hlookup : isa.lookup mnemonic = some candidates)
      (hoperands : ts = [] ∧ os = [] ∨ SpellsOperands line.text ts os)
      (hformat : f ∈ candidates.formats) (haccepts : f.Accepts os) (column stop : Nat)
      (text : Text) :
      SpellsInstruction isa line
        (⟨.identifier, mnemonic, column⟩ :: (ts ++ [⟨.endOfLine, text, stop⟩]))
        { mnemonic := mnemonic.lower
          format := f
          operands := os
          condition := candidates.condition
          line := line.number
          column := column
          text := line.text }

/-! ### Operands -/

namespace SourceLine

variable {line : SourceLine}

/-- An identifier that is read as an operand denotes it. -/
theorem denotes_of_identifierOperand {t : Token} {o : Operand}
    (h : line.identifierOperand t = .ok o) :
    DenotesOperand t.text o.content ∧ o = ⟨o.content, t.column, t.text⟩ := by
  unfold identifierOperand at h
  split at h
  · rename_i digits hdigits
    split at h
    · cases h
    · split at h
      · rename_i hindex
        obtain rfl := Except.ok.inj h
        have hle := (isRegisterIndex_iff.1 hindex).2
        exact ⟨.register hdigits (by omega), rfl⟩
      · cases h
  · rename_i hdigits
    split at h
    · rename_i hsp
      obtain rfl := Except.ok.inj h
      exact ⟨.stackPointer hsp, rfl⟩
    · rename_i hsp
      split at h
      · cases h
      · rename_i hother
        obtain rfl := Except.ok.inj h
        rw [not_or] at hother
        refine ⟨.label hdigits ?_, rfl⟩
        simp only [specialRegisters, List.mem_cons, List.not_mem_nil, or_false, not_or]
        exact ⟨hsp, hother.2, hother.1⟩

/-- An identifier is read as the operand that it denotes, if its number is not too long. -/
theorem identifierOperand_of_denotes (line : SourceLine) {text : Text}
    {content : Operand.Content} {column : Nat} (h : DenotesOperand text content)
    (hlegible : Token.Legible ⟨.identifier, text, column⟩) :
    line.identifierOperand ⟨.identifier, text, column⟩ = .ok ⟨content, column, text⟩ := by
  unfold identifierOperand
  cases h with
  | @register digits hdigits hindex =>
      have hshort : ¬ maxDigits < digits.length := Nat.not_lt.2 (hlegible rfl digits hdigits)
      have hregister : isRegisterIndex (digitsValue 10 digits) = true :=
        isRegisterIndex_iff.2 (by omega)
      simp only [hdigits, if_neg hshort, if_pos hregister]
  | stackPointer hname =>
      simp only [registerDigits?_of_lower_eq_sp hname, if_pos hname]
  | label hdigits hspecial =>
      simp only [specialRegisters, List.mem_cons, List.not_mem_nil, or_false, not_or] at hspecial
      obtain ⟨hsp, hlr, hpc⟩ := hspecial
      simp only [hdigits, if_neg hsp, hpc, hlr, or_self, if_false]

/-- An operand in brackets is read as the grammar says. -/
theorem spells_of_bracketOperand {start : Token} (hstart : start.kind = .openBracket)
    {ts rest : List Token} {o : Operand} (h : line.bracketOperand start ts = .ok (o, rest)) :
    ∃ read, ts = read ++ rest ∧ SpellsOperand line.text (start :: read) o := by
  obtain ⟨kind, opening, first⟩ := start
  obtain rfl : kind = .openBracket := hstart
  have hclose {bytes : Int} {us : List Token}
      (h : line.closeBracket ⟨.openBracket, opening, first⟩ bytes us = .ok (o, rest)) :
      ∃ closing last, us = ⟨.closeBracket, closing, last⟩ :: rest ∧
        o = ⟨.stackOffset bytes, first, line.text.slice (first - 1) last⟩ := by
    unfold closeBracket at h
    split at h
    · rename_i closing last rest'
      obtain ⟨rfl, rfl⟩ := Prod.mk.inj (Except.ok.inj h)
      exact ⟨closing, last, rfl, rfl⟩
    · cases h
  unfold bracketOperand at h
  split at h
  · rename_i base column us
    split at h
    · rename_i hbase
      unfold bracketOffset at h
      split at h
      · rename_i comma column' bytes offset column'' us
        obtain ⟨closing, last, rfl, rfl⟩ := hclose h
        exact ⟨_, rfl, .stackOffset hbase bytes opening comma offset closing first column column'
          column'' last⟩
      · cases h
      · obtain ⟨closing, last, rfl, rfl⟩ := hclose h
        exact ⟨_, rfl, .stackTop hbase opening closing first column last⟩
    · cases h
  · cases h

/-- **An operand that is read is spelled by the tokens that have been used up.** -/
theorem spells_of_operand {ts rest : List Token} {o : Operand}
    (h : line.operand ts = .ok (o, rest)) :
    ∃ read, ts = read ++ rest ∧ SpellsOperand line.text read o := by
  unfold operand at h
  split at h
  · rename_i value text column us
    obtain ⟨rfl, rfl⟩ := Prod.mk.inj (Except.ok.inj h)
    exact ⟨[_], rfl, .immediate value text column⟩
  · rename_i text column us
    obtain ⟨read, rfl, hread⟩ := spells_of_bracketOperand rfl h
    exact ⟨_ :: read, rfl, hread⟩
  · rename_i text column us
    obtain ⟨o', ho', h⟩ := bind_eq_ok_iff.1 h
    obtain ⟨rfl, rfl⟩ := Prod.mk.inj (Except.ok.inj h)
    obtain ⟨hdenotes, hplace⟩ := denotes_of_identifierOperand ho'
    rw [hplace]
    exact ⟨[_], rfl, .identifier hdenotes column⟩
  · cases h

/-- **Tokens that spell an operand are read as it**, whatever follows. -/
theorem operand_of_spells {read : List Token} {o : Operand}
    (h : SpellsOperand line.text read o) (hlegible : ∀ t ∈ read, t.Legible) (rest : List Token) :
    line.operand (read ++ rest) = .ok (o, rest) := by
  cases h with
  | immediate value text column => rfl
  | identifier hdenotes column =>
      have hoperand := line.identifierOperand_of_denotes hdenotes
        (hlegible _ (List.mem_singleton_self _))
      rw [List.singleton_append, operand, hoperand]
      rfl
  | stackTop hbase opening closing first column last =>
      simp only [List.cons_append, List.nil_append, operand, bracketOperand, if_pos hbase]
      rfl
  | stackOffset hbase bytes opening comma offset closing first column column' column'' last =>
      simp only [List.cons_append, List.nil_append, operand, bracketOperand, if_pos hbase]
      rfl

/-- **Operands that are read are spelled by the tokens that have been used up**, and no comma is
next. -/
theorem spells_of_operands {ts rest : List Token} {os : List Operand}
    (h : line.operands ts = .ok (os, rest)) :
    ∃ read, ts = read ++ rest ∧ SpellsOperands line.text read os ∧
      (nextToken rest).kind ≠ .comma := by
  fun_induction line.operands ts generalizing os rest with
  | case1 ts e he => cases h
  | case2 ts o comma column us ho ih =>
      obtain ⟨⟨os', rest'⟩, hos', h⟩ := bind_eq_ok_iff.1 h
      obtain ⟨rfl, rfl⟩ := Prod.mk.inj (Except.ok.inj h)
      obtain ⟨read, rfl, hread⟩ := spells_of_operand ho
      obtain ⟨read', rfl, hread', hnext⟩ := ih hos'
      exact ⟨read ++ ⟨.comma, comma, column⟩ :: read', by simp, .cons hread comma column hread',
        hnext⟩
  | case3 ts o us hnot ho =>
      obtain ⟨rfl, rfl⟩ := Prod.mk.inj (Except.ok.inj h)
      obtain ⟨read, rfl, hread⟩ := spells_of_operand ho
      refine ⟨read, rfl, .single hread, fun hcomma => ?_⟩
      cases us with
      | nil => cases hcomma
      | cons t us =>
          obtain ⟨kind, text, column⟩ := t
          obtain rfl : kind = .comma := hcomma
          exact hnot text column us rfl

/-- **Tokens that spell operands are read as them**, if no comma follows. -/
theorem operands_of_spells {read : List Token} {os : List Operand}
    (h : SpellsOperands line.text read os) (hlegible : ∀ t ∈ read, t.Legible) {rest : List Token}
    (hnext : (nextToken rest).kind ≠ .comma) :
    line.operands (read ++ rest) = .ok (os, rest) := by
  induction h with
  | single h =>
      refine operands_of_no_comma line (operand_of_spells h hlegible rest) ?_
      rintro text column rest' rfl
      exact hnext rfl
  | @cons ts us o os h comma column hrest ih =>
      obtain ⟨hts, hus⟩ := List.forall_mem_append.1 hlegible
      have hfirst := operand_of_spells h hts (⟨.comma, comma, column⟩ :: (us ++ rest))
      have hmore := ih fun t ht => hus t (List.mem_cons_of_mem _ ht)
      rw [List.append_assoc, List.cons_append, operands_of_comma line hfirst, hmore]
      rfl

end SourceLine

/-! ### Slots -/

theorem get?_placeRegister_of_ne {placed : List (Text × Int)} {s : Slot} {o : Operand}
    {field : Text} (h : s.field ≠ some field) :
    Assoc.get? field (SourceLine.placeRegister placed s o) = Assoc.get? field placed := by
  unfold SourceLine.placeRegister
  split
  · rename_i name v hname hkind hv
    refine Assoc.get?_put_of_ne ?_ v placed
    rintro rfl
    exact h hname
  · rfl

theorem get?_placeRegister_self {placed : List (Text × Int)} {s : Slot} {o : Operand}
    {field : Text} {v : Int} (hfield : s.field = some field) (hkind : s.kind = .register)
    (hv : o.value? = some v) :
    Assoc.get? field (SourceLine.placeRegister placed s o) = some v := by
  simp only [SourceLine.placeRegister, hfield, hkind, hv, Assoc.get?_put_self]

/-- Slots agree with operands of which each tied one repeats a register that came before.  The
slots `before` have placed their registers already; no field is filled twice. -/
theorem slotsAgree_of_tied {placed : List (Text × Int)} {before pairs : List (Slot × Operand)}
    (hnodup : ((before ++ pairs).filterMap fun q => q.1.field).Nodup)
    (hkinds : ∀ q ∈ before ++ pairs, q.1.kind = q.2.kind)
    (hplaced : ∀ q ∈ before, q.1.kind = .register → ∀ field ∈ q.1.field,
      Assoc.get? field placed = q.2.value?)
    (hfixed : ∀ q ∈ pairs, ∀ n ∈ q.1.fixed, q.2.value? = some n)
    (htied : ∀ middle s o after, pairs = middle ++ (s, o) :: after → ∀ field ∈ s.tie,
      ∃ q ∈ before ++ middle, q.1.field = some field ∧ q.1.kind = .register ∧
        q.2.value? = o.value?) :
    SlotsAgree placed pairs := by
  have hvalue {q : Slot × Operand} (hq : q ∈ before ++ pairs) (hregister : q.1.kind = .register) :
      ∃ v, q.2.value? = some v := by
    rw [← Option.isSome_iff_exists, ← Operand.isNumeric_kind, ← hkinds q hq, hregister]
    rfl
  induction pairs generalizing before placed with
  | nil => trivial
  | cons pair rest ih =>
      obtain ⟨s, o⟩ := pair
      obtain ⟨hfixed₀, hfixed⟩ := List.forall_mem_cons.1 hfixed
      refine ⟨hfixed₀, ?_, ?_⟩
      · intro field hfield
        obtain ⟨q, hq, hname, hregister, hsame⟩ := htied [] s o rest rfl field hfield
        rw [List.append_nil] at hq
        obtain ⟨v, hv⟩ := hvalue (List.mem_append_left _ hq) hregister
        exact ⟨v, hsame ▸ hv, (hplaced q hq hregister field hname).trans hv⟩
      · -- the pair joins those that have placed their registers
        have hsplit : before ++ [(s, o)] ++ rest = before ++ (s, o) :: rest := by simp
        refine @ih (SourceLine.placeRegister placed s o) (before ++ [(s, o)]) ?_ ?_ ?_ hfixed ?_ ?_
        · rwa [hsplit]
        · rwa [hsplit]
        · intro q hq hregister field hfield
          rcases List.mem_append.1 hq with hq | hq
          · have hne : s.field ≠ some field := by
              intro hs
              rw [List.filterMap_append, List.nodup_append] at hnodup
              refine hnodup.2.2 field (List.mem_filterMap.2 ⟨q, hq, hfield⟩) field ?_ rfl
              exact List.mem_filterMap.2 ⟨(s, o), List.mem_cons_self, hs⟩
            rw [get?_placeRegister_of_ne hne]
            exact hplaced q hq hregister field hfield
          · obtain rfl := List.mem_singleton.1 hq
            obtain ⟨v, hv⟩ := hvalue (q := (s, o)) (by simp) hregister
            rw [get?_placeRegister_self hfield hregister hv, hv]
        · intro middle s' o' after hrest field hfield
          have htie := htied ((s, o) :: middle) s' o' after (by rw [hrest]; rfl) field hfield
          rwa [List.append_assoc, List.singleton_append]
        · intro q hq
          rw [hsplit] at hq
          exact hvalue hq

/-- **The check of the slots decides whether the operands suit the format**, if the format fills no
field twice. -/
theorem Format.slotsAgree_iff_accepts {f : Format} (hf : f.fedNames.Nodup) {os : List Operand}
    (hsignature : f.signature = os.map Operand.kind) :
    SlotsAgree [] (f.slots.zip os) ↔ f.Accepts os := by
  constructor
  · intro h
    refine ⟨hsignature, h.fixed, ?_⟩
    intro before s o after hsplit field hfield
    rw [hsplit] at h
    obtain ⟨v, hv, hplaced | ⟨q, hq, hname, hregister, hq'⟩⟩ := h.tied_before hfield
    · cases hplaced
    · exact ⟨q, hq, hname, hregister, hq'.trans hv.symm⟩
  · intro h
    have hlength : f.slots.length = os.length := by
      have := congrArg List.length hsignature
      rwa [Format.signature, List.length_map, List.length_map] at this
    refine @slotsAgree_of_tied [] [] _ ?_ ?_ (by simp) h.fixed h.tied
    · have hfields : ((f.slots.zip os).filterMap fun q => q.1.field) = f.fedNames := by
        rw [Format.fedNames, ← List.map_fst_zip hlength.le, List.filterMap_map,
          List.map_fst_zip hlength.le]
        rfl
      rwa [List.nil_append, hfields]
    · intro q hq
      exact Format.kind_of_mem_zip hsignature hq

/-! ### Formats -/

namespace InstructionSet

/-- The shapes of operands choose one format of a mnemonic at most, and no format fills a field
twice. -/
structure Unambiguous (isa : InstructionSet) : Prop where
  signatures : ∀ mnemonic candidates, isa.lookup mnemonic = some candidates →
    (candidates.formats.map Format.signature).Nodup
  fields : ∀ mnemonic candidates, isa.lookup mnemonic = some candidates →
    ∀ f ∈ candidates.formats, f.fedNames.Nodup

variable {isa isa' : InstructionSet} {mnemonic : Text} {candidates : Candidates} {f g : Format}

theorem Regular.unambiguous (h : isa.Regular) (hsound : isa.Sound) : isa.Unambiguous where
  signatures := by
    intro mnemonic candidates hlookup
    unfold lookup at hlookup
    split at hlookup
    · rename_i formats hformats
      obtain rfl := Option.some_inj.1 hlookup
      exact h.signatures_nodup _ (Assoc.mem_of_get?_eq_some hformats)
    · obtain ⟨c, -, rfl⟩ := Option.map_eq_some_iff.1 hlookup
      exact List.nodup_singleton _
  fields := by
    intro mnemonic candidates hlookup f hf
    exact (hsound.lookup hlookup f hf).1.fed_nodup

/-- The format with given shapes is the only one. -/
theorem Unambiguous.eq_of_signature_eq (h : isa.Unambiguous)
    (hlookup : isa.lookup mnemonic = some candidates) (hf : f ∈ candidates.formats)
    (hg : g ∈ candidates.formats) (hsignature : f.signature = g.signature) : f = g :=
  List.inj_on_of_nodup_map (h.signatures mnemonic candidates hlookup) hf hg hsignature

/-- The same formats for every mnemonic, to be tried in another order. -/
def Reorders (isa' isa : InstructionSet) : Prop :=
  ∀ mnemonic, Option.Rel
    (fun c' c : Candidates => c'.formats.Perm c.formats ∧ c'.condition = c.condition)
    (isa'.lookup mnemonic) (isa.lookup mnemonic)

theorem Reorders.exists_lookup (h : isa'.Reorders isa)
    (hlookup : isa.lookup mnemonic = some candidates) :
    ∃ candidates', isa'.lookup mnemonic = some candidates' ∧
      candidates'.formats.Perm candidates.formats ∧
      candidates'.condition = candidates.condition := by
  have hrel := h mnemonic
  rw [hlookup] at hrel
  cases hlookup' : isa'.lookup mnemonic with
  | none =>
      rw [hlookup'] at hrel
      cases hrel
  | some candidates' =>
      rw [hlookup'] at hrel
      cases hrel with
      | some hsame => exact ⟨candidates', rfl, hsame⟩

theorem Reorders.symm (h : isa'.Reorders isa) : isa.Reorders isa' := by
  intro mnemonic
  have hrel := h mnemonic
  cases hlookup : isa.lookup mnemonic <;> cases hlookup' : isa'.lookup mnemonic <;>
    rw [hlookup, hlookup'] at hrel <;> cases hrel
  · exact .none
  · rename_i hsame
    exact .some ⟨hsame.1.symm, hsame.2.symm⟩

theorem Reorders.unambiguous (h : isa'.Reorders isa) (hisa : isa.Unambiguous) :
    isa'.Unambiguous where
  signatures := by
    intro mnemonic candidates' hlookup'
    obtain ⟨candidates, hlookup, hperm, -⟩ := h.symm.exists_lookup hlookup'
    exact (hperm.map Format.signature).nodup_iff.1 (hisa.signatures _ _ hlookup)
  fields := by
    intro mnemonic candidates' hlookup' f hf
    obtain ⟨candidates, hlookup, hperm, -⟩ := h.symm.exists_lookup hlookup'
    exact hisa.fields _ _ hlookup f (hperm.symm.subset hf)

end InstructionSet

/-- The grammar does not depend on the order of the formats. -/
theorem SpellsInstruction.of_reorders {isa isa' : InstructionSet} (h : isa'.Reorders isa)
    {line : SourceLine} {ts : List Token} {i : Instruction} (hi : SpellsInstruction isa line ts i) :
    SpellsInstruction isa' line ts i := by
  cases hi with
  | intro hlookup hoperands hformat haccepts column stop text =>
      obtain ⟨candidates', hlookup', hperm, hcondition⟩ := h.exists_lookup hlookup
      rw [← hcondition]
      exact .intro hlookup' hoperands (hperm.symm.subset hformat) haccepts column stop text

/-! ### Instructions -/

namespace SourceLine

variable {isa : InstructionSet} {line : SourceLine} {ts : List Token} {i : Instruction}

/-- The instruction that is built from operands has the format that they suit. -/
theorem buildInstruction_eq_ok_iff (hisa : isa.Unambiguous) {mnemonic : Token}
    {candidates : Candidates} (hlookup : isa.lookup mnemonic.text = some candidates)
    {os : List Operand} :
    line.buildInstruction mnemonic candidates os = .ok i ↔
      ∃ f ∈ candidates.formats, f.Accepts os ∧
        i = ⟨mnemonic.text.lower, f, os, candidates.condition, line.number, mnemonic.column,
          line.text⟩ := by
  constructor
  · intro h
    obtain ⟨f, hchoose, h⟩ := bind_eq_ok_iff.1 h
    obtain ⟨_, hcheck, h⟩ := bind_eq_ok_iff.1 h
    obtain rfl := Except.ok.inj h
    unfold chooseFormat at hchoose
    split at hchoose
    · rename_i f' hfind
      obtain rfl := Except.ok.inj hchoose
      obtain ⟨hf, hsignature⟩ :=
        (Format.find?_signature (hisa.signatures _ _ hlookup)).1 hfind
      have hagree := checkSlotsFrom_eq_ok_iff.1 hcheck
      have hfields := hisa.fields _ _ hlookup f' hf
      exact ⟨f', hf, (Format.slotsAgree_iff_accepts hfields hsignature).1 hagree, rfl⟩
    · cases hchoose
  · rintro ⟨f, hf, haccepts, rfl⟩
    have hfind := (Format.find?_signature (hisa.signatures _ _ hlookup)).2
      ⟨hf, haccepts.signature⟩
    have hfields := hisa.fields _ _ hlookup f hf
    have hagree := (Format.slotsAgree_iff_accepts hfields haccepts.signature).2 haccepts
    have hcheck : line.checkSlots mnemonic f os = .ok () := checkSlotsFrom_eq_ok_iff.2 hagree
    simp only [buildInstruction, chooseFormat, hfind, ok_bind, hcheck]
    rfl

/-- The operands of an instruction are spelled by the tokens that have been used up. -/
theorem spells_of_operandList {os : List Operand} {rest : List Token}
    (h : line.operandList ts = .ok (os, rest)) :
    ∃ read, ts = read ++ rest ∧ (read = [] ∧ os = [] ∨ SpellsOperands line.text read os) := by
  unfold operandList at h
  split at h
  · obtain ⟨rfl, rfl⟩ := Prod.mk.inj (Except.ok.inj h)
    exact ⟨[], rfl, Or.inl ⟨rfl, rfl⟩⟩
  · obtain ⟨read, hread, hspells, -⟩ := spells_of_operands h
    exact ⟨read, hread, Or.inr hspells⟩

/-- Tokens that spell the operands of an instruction are read as them, if the line ends there. -/
theorem operandList_of_spells {read rest : List Token} {os : List Operand}
    (h : read = [] ∧ os = [] ∨ SpellsOperands line.text read os)
    (hlegible : ∀ t ∈ read, t.Legible) (hend : (nextToken rest).kind = .endOfLine) :
    line.operandList (read ++ rest) = .ok (os, rest) := by
  unfold operandList
  rcases h with ⟨rfl, rfl⟩ | h
  · rw [List.nil_append, if_pos hend]
  · have hnext : (nextToken rest).kind ≠ .comma := by
      rw [hend]
      simp
    have hoperands := operands_of_spells h hlegible hnext
    rw [if_neg (operands_ne_endOfLine line hoperands), hoperands]

/-- **The parser accepts exactly the grammar.** -/
theorem instruction_eq_ok_iff (hisa : isa.Unambiguous) (hends : EndsLine ts)
    (hlegible : ∀ t ∈ ts, t.Legible) :
    line.instruction isa ts = .ok i ↔ SpellsInstruction isa line ts i := by
  constructor
  · intro h
    unfold instruction at h
    split at h
    · rename_i mnemonic column us
      simp only at h
      split at h
      · cases h
      · rename_i candidates hlookup
        obtain ⟨⟨os, rest⟩, hos, h⟩ := bind_eq_ok_iff.1 h
        simp only at h
        split at h
        · rename_i hend
          obtain ⟨f, hf, haccepts, rfl⟩ := (buildInstruction_eq_ok_iff hisa hlookup).1 h
          obtain ⟨read, rfl, hread⟩ := spells_of_operandList hos
          -- reading stays within the line, so nothing but its end is left
          have hstays := (line.operandList_staysWithin _ (hends.tail (by simp))).1.of_ok hos
          obtain ⟨⟨kind, text, stop⟩, rfl, hkind⟩ := hstays.eq_singleton hend
          obtain rfl : kind = .endOfLine := hkind
          exact .intro hlookup hread hf haccepts column stop text
        · cases h
    · cases h
  · intro h
    cases h with
    | @intro mnemonic candidates f us os hlookup hoperands hformat haccepts column stop text =>
        have hus (t : Token) (ht : t ∈ us) : t.Legible := by
          refine hlegible t (List.mem_cons_of_mem _ ?_)
          exact List.mem_append_left _ ht
        have hlist : line.operandList (us ++ [⟨.endOfLine, text, stop⟩]) =
            .ok (os, [⟨.endOfLine, text, stop⟩]) := operandList_of_spells hoperands hus rfl
        have hbuild : line.buildInstruction ⟨.identifier, mnemonic, column⟩ candidates os =
            .ok ⟨mnemonic.lower, f, os, candidates.condition, line.number, column, line.text⟩ :=
          (buildInstruction_eq_ok_iff hisa hlookup).2 ⟨f, hformat, haccepts, rfl⟩
        have hend : (nextToken [⟨.endOfLine, text, stop⟩]).kind = .endOfLine := rfl
        simp only [instruction, hlookup, hlist, ok_bind, if_pos hend, hbuild]

end SourceLine

/-- **The parser of instructions accepts exactly its grammar.**  Let a list of tokens come from the
scanner, with no register that has too many digits to be read.  The instruction that is read is the
one that the tokens spell.  Its format is the only one of the mnemonic with the shapes of the
operands, so that any other order of the formats gives the same.  Tokens that spell no instruction
are rejected for their syntax. -/
theorem instruction_iff_grammar {number : Int} {text : Text} {start : Nat} {ts : List Token}
    (htokens : tokenize number text start = .ok ts) (hlegible : ∀ t ∈ ts, t.Legible)
    (line : SourceLine) :
    (∀ i, line.instruction Thumb.instructionSet ts = .ok i ↔
        SpellsInstruction Thumb.instructionSet line ts i) ∧
      (∀ i, line.instruction Thumb.instructionSet ts = .ok i →
        ∃ candidates, Thumb.instructionSet.lookup i.mnemonic = some candidates ∧
          ∀ f, f ∈ candidates.formats ∧ f.signature = i.operands.map Operand.kind ↔
            f = i.format) ∧
      (∀ isa, isa.Reorders Thumb.instructionSet → ∀ i,
        line.instruction isa ts = .ok i ↔ line.instruction Thumb.instructionSet ts = .ok i) ∧
      ((∀ i, ¬ SpellsInstruction Thumb.instructionSet line ts i) →
        ∃ r, line.instruction Thumb.instructionSet ts = .error (.rejected r) ∧
          r.cause.kind = .syntactic) := by
  have hends := endsLine_of_tokenize htokens
  have hisa := Thumb.instructionSet_regular.unambiguous Thumb.instructionSet_sound
  have hiff (i : Instruction) : line.instruction Thumb.instructionSet ts = .ok i ↔
      SpellsInstruction Thumb.instructionSet line ts i :=
    SourceLine.instruction_eq_ok_iff hisa hends hlegible
  refine ⟨hiff, ?_, ?_, ?_⟩
  · intro i hi
    cases (hiff i).1 hi with
    | @intro mnemonic candidates f us os hlookup hoperands hformat haccepts column stop text =>
        have hlower : Thumb.instructionSet.lookup mnemonic.lower = some candidates := by
          rw [← hlookup]
          simp only [InstructionSet.lookup, Text.lower_lower]
        refine ⟨candidates, hlower, fun g => ⟨?_, ?_⟩⟩
        · rintro ⟨hg, hsignature⟩
          exact hisa.eq_of_signature_eq hlookup hg hformat
            (hsignature.trans haccepts.signature.symm)
        · rintro rfl
          exact ⟨hformat, haccepts.signature⟩
  · intro isa hreorders i
    rw [hiff, SourceLine.instruction_eq_ok_iff (hreorders.unambiguous hisa) hends hlegible]
    exact ⟨fun h => h.of_reorders hreorders.symm, fun h => h.of_reorders hreorders⟩
  · intro hnone
    have houtcome := SourceLine.instruction_outcome Thumb.instructionSet_sound line ts
    cases hread : line.instruction Thumb.instructionSet ts with
    | ok i => exact absurd ((hiff i).1 hread) (hnone i)
    | error e =>
        rcases houtcome.of_error hread with ⟨r, rfl, hkind, -⟩ | ⟨t, ht, digits, h⟩
        · exact ⟨r, rfl, hkind⟩
        · -- the only other fault is a register with too many digits
          obtain ⟨hidentifier, hdigits, hlong, -⟩ := h
          exact absurd (hlegible t ht hidentifier digits hdigits) (Nat.not_le.2 hlong)

/-- A tied operand, capitals and a leading zero are in the grammar; an offset in a register is
not. -/
theorem instruction_iff_grammar_tied :
    (∃ ts i, tokenize 1 "Muls R1, r2, r01 @ twice".toList 0 = .ok ts ∧ (∀ t ∈ ts, t.Legible) ∧
      i.operands.map Operand.content = [.register 1, .register 2, .register 1] ∧
      SpellsInstruction Thumb.instructionSet ⟨1, "Muls R1, r2, r01 @ twice".toList⟩ ts i) ∧
    ∃ ts, tokenize 1 "str r0, [sp, r1]".toList 0 = .ok ts ∧ (∀ t ∈ ts, t.Legible) ∧
      ∀ i, ¬ SpellsInstruction Thumb.instructionSet ⟨1, "str r0, [sp, r1]".toList⟩ ts i := by
  constructor
  · have heval : (tokenize 1 "Muls R1, r2, r01 @ twice".toList 0).toOption.any (fun ts =>
        (∀ t ∈ ts, t.Legible) &&
        (SourceLine.instruction Thumb.instructionSet ⟨1, "Muls R1, r2, r01 @ twice".toList⟩
          ts).toOption.any fun i =>
            i.operands.map Operand.content = [.register 1, .register 2, .register 1]) = true := by
      decide +kernel
    obtain ⟨ts, hts, heval⟩ := exists_ok_of_any heval
    obtain ⟨hlegible, hread⟩ := Bool.and_eq_true_iff.1 heval
    have hlegible := of_decide_eq_true hlegible
    obtain ⟨i, hi, hcontents⟩ := exists_ok_of_any hread
    exact ⟨ts, i, hts, hlegible, of_decide_eq_true hcontents,
      ((instruction_iff_grammar hts hlegible _).1 i).1 hi⟩
  · have heval : (tokenize 1 "str r0, [sp, r1]".toList 0).toOption.any (fun ts =>
        (∀ t ∈ ts, t.Legible) &&
        (SourceLine.instruction Thumb.instructionSet ⟨1, "str r0, [sp, r1]".toList⟩
          ts).toOption = none) = true := by
      decide +kernel
    obtain ⟨ts, hts, heval⟩ := exists_ok_of_any heval
    obtain ⟨hlegible, hread⟩ := Bool.and_eq_true_iff.1 heval
    have hlegible := of_decide_eq_true hlegible
    refine ⟨ts, hts, hlegible, fun i hi => ?_⟩
    have hok := ((instruction_iff_grammar hts hlegible _).1 i).2 hi
    have hnone := of_decide_eq_true hread
    rw [hok] at hnone
    cases hnone

end ThumbAssembler
