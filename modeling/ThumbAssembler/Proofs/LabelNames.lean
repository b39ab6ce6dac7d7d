/-
**Names of labels.**

Two parts of the assembler judge the name of a label.  The line that defines it may not use a
reserved name, and an instruction that refers to it must not take the name for a register.  The two
look at the name in different ways, and this module shows that they agree: the names that can be
defined are those that an operand can refer to, less the mnemonics.  So every label that can be
defined can be branched to, and the shortest loop at it is assembled.

Main definitions:

* `ThumbAssembler.InstructionSet.Definable` — a name can be defined;
* `ThumbAssembler.selfBranch` — the line of a branch to its own label.

Main results:

* `ThumbAssembler.SourceLine.identifierOperand_eq_label_iff` — which names an operand can refer to;
* `ThumbAssembler.InstructionSet.definable_iff` — a name can be defined exactly when it is free, and
  is rejected otherwise;
* `ThumbAssembler.parse_labelled` — an instruction behind a label is read back with its label;
* `ThumbAssembler.assemble_of_refersTo_self` — a branch to its own address is assembled;
* `ThumbAssembler.definable_iff_referable` — **the names that can be defined are those that can be
  referred to**.
-/

import Mathlib
import ThumbAssembler.Proofs.InertLines
import ThumbAssembler.Proofs.InstructionGrammar
import ThumbAssembler.Proofs.Verdict

set_option autoImplicit false

namespace ThumbAssembler

/-! ### Names in operands -/

/-- **An identifier refers to a label exactly when it reads back as one.** -/
theorem SourceLine.identifierOperand_eq_label_iff (line : SourceLine) {name : Text}
    (h : IsIdentifier name) {column : Nat} :
    line.identifierOperand ⟨.identifier, name, column⟩ = .ok ⟨.label name, column, name⟩ ↔
      (Operand.Content.label name).Canonical := by
  constructor
  · intro hoperand
    obtain ⟨hdenotes, -⟩ := denotes_of_identifierOperand hoperand
    cases hdenotes with
    | label hdigits hspecial => exact ⟨h, hdigits, hspecial⟩
  · rintro ⟨-, hdigits, hspecial⟩
    refine line.identifierOperand_of_denotes (.label hdigits hspecial) ?_
    intro _ digits hsome
    rw [hdigits] at hsome
    cases hsome

/-! ### Names in definitions -/

/-- A source of one line without trailing blanks. -/
theorem parse_of_spelling (isa : InstructionSet) {raw : Text} (h : Spelling raw) :
    parse isa raw = do return (← parseLine isa 1 raw).entries := by
  rw [parse, Text.lines_singleton (Text.isLineBreak_of_plain h.plain) h.ne_nil, parseLines]
  cases parseLine isa 1 raw with
  | error e => rfl
  | ok r => simp [parseLines]

/-- The line that only defines `name` is accepted, and defines it. -/
def InstructionSet.Definable (isa : InstructionSet) (name : Text) : Prop :=
  parse isa (name ++ ":".toList) = .ok [.label ⟨name, 1, 1, name ++ ":".toList⟩]

/-- **A name can be defined exactly when it is free**, and is rejected as reserved otherwise. -/
theorem InstructionSet.definable_iff (isa : InstructionSet) {name : Text} (h : IsIdentifier name) :
    (isa.Definable name ↔ isa.isReserved name = false) ∧
      (isa.Definable name ∨
        parse isa (name ++ ":".toList) =
          .error (.rejected ⟨.reservedLabel name, ⟨1, 1, name, name ++ ":".toList⟩⟩)) := by
  have hparse := parse_of_spelling isa (spelling_label (l := { name := name }) h)
  cases hreserved : isa.isReserved name with
  | false =>
      rw [parseLine_label 1 h hreserved] at hparse
      exact ⟨iff_of_true hparse rfl, Or.inl hparse⟩
  | true =>
      rw [parseLine_label_of_reserved 1 h hreserved] at hparse
      refine ⟨iff_of_false (fun hdefinable => ?_) (by simp), Or.inr hparse⟩
      cases hdefinable.symm.trans hparse

/-! ### Instructions behind labels -/

/-- **An instruction behind a label is read back with its label.** -/
theorem parse_labelled {isa : InstructionSet} (hisa : isa.Sound) {name : Text}
    (hname : IsIdentifier name) (hfree : isa.isReserved name = false) {i : Instruction}
    (h : i.Canonical isa) :
    ∃ l j, parse isa (name ++ ": ".toList ++ i.render) = .ok [.label l, .instruction j] ∧
      l.name = name ∧ j.bare = i.bare := by
  have hraw : name ++ ": ".toList ++ i.render = name ++ (':' :: ' ' :: i.render) := by simp
  have hspelling : Spelling (name ++ (':' :: ' ' :: i.render)) := by
    obtain ⟨c, rest, hhead, hc⟩ := (spelling_of_isIdentifier hname).head
    rw [← hraw]
    refine ⟨((spelling_of_isIdentifier hname).plain.append (by decide)).append h.spelling.plain,
      ⟨c, _, by rw [hhead]; rfl, hc⟩, endsOutside_append _ h.spelling.last h.spelling.ne_nil⟩
  have hpart : labelPart? (name ++ (':' :: ' ' :: i.render)) =
      some ⟨0, name, name.length + 1, ' ' :: i.render⟩ := by
    have hlength : (name ++ (':' :: ' ' :: i.render)).length - (' ' :: i.render).length =
        name.length + 1 := by
      simp only [List.length_append, List.length_cons]
      omega
    rw [labelPart?_of_colon hname (startsOutside_cons (by decide)) rfl, hlength]
  have htrim : Text.trimStart (' ' :: i.render) = i.render := h.trimStart_render
  have hnone : labelPart? (' ' :: i.render) = none := by
    rw [← Text.labelPart?_trimStart_eq_none_iff, htrim]
    exact h.labelPart?_render
  have hdrop : (name ++ (':' :: ' ' :: i.render)).drop (name.length + 1) = ' ' :: i.render := by
    simp
  obtain ⟨j, hj, hbare⟩ := statement_render hisa ⟨1, name ++ (':' :: ' ' :: i.render)⟩ h htrim
    (by rw [hdrop]; exact scans_separator rfl)
  refine ⟨⟨name, 1, 1, name ++ (':' :: ' ' :: i.render)⟩, j, ?_, rfl, hbare⟩
  rw [hraw, parse_of_spelling isa hspelling, parseLine_of_plain isa 1 hspelling.plain
    hspelling.last, labelsFrom_of_some _ _ hpart hfree, labelsFrom_of_none _ _ _ hnone]
  simp only [pure_eq_ok, ok_bind, Nat.zero_add, hj]
  rfl

/-- **A branch to its own address is assembled**, if its field can hold the way back from where the
processor has read ahead to. -/
theorem assemble_of_refersTo_self {isa : InstructionSet} (hisa : isa.Sound) {source : Text}
    {l : Label} {i : Instruction} (hp : parse isa source = .ok [.label l, .instruction i])
    {o : Operand} (href : i.RefersTo o l.name) {g : Field}
    (hfield : i.format.field? "offset".toList = some g) {bias : Int} (hholds : g.Holds (-bias)) :
    ∃ a w, assemble isa bias source = .ok a ∧ a.words = [w] ∧
      (i.linked o (-bias)).encode = .ok w := by
  have hi : i.Formed := Instruction.formed_of_parse hisa hp (by simp)
  obtain ⟨g', -, -, hfield', hg, -⟩ := hi.offset_field href
  obtain rfl := Option.some_inj.1 (hfield'.symm.trans hfield)
  obtain ⟨w, hw⟩ := hi.exists_encode_linked href hfield hholds
  have hnodup : (Program.labelNames [.label l, .instruction i]).Nodup :=
    List.nodup_singleton l.name
  have hdefines : Program.Defines [.label l, .instruction i] l.name 0 :=
    ⟨[], l, [.instruction i], rfl, rfl, rfl⟩
  have hoffset : branchOffset bias (Program.table [.label l, .instruction i]).freeze 0 i o l.name =
      .ok (-bias) :=
    (branchOffset_eq_ok_iff hnodup hg hfield).2 ⟨0, hdefines, by simp, hholds⟩
  refine ⟨_, w, assemble_eq_ok_iff.2 ⟨_, [.label l, .instruction (i.linked o (-bias))], [w], hp,
    hnodup, .cons rfl (.cons ?_ .nil), ?_, rfl⟩, rfl, hw⟩
  · rw [Entry.size, linkEntry_of_refersTo href, hoffset]
    rfl
  · rw [Program.encode_label, Program.encode_instruction, hw]
    rfl

/-! ### Branches to themselves -/

/-- The line of a branch to its own label. -/
def selfBranch (name : Text) : Text := name ++ ": b ".toList ++ name

namespace Thumb

/-- The branch to a label. -/
def branchTo (name : Text) : Instruction where
  mnemonic := "b".toList
  format := branch
  operands := [{ content := .label name }]

theorem canonical_branchTo {name : Text} (h : (Operand.Content.label name).Canonical) :
    (branchTo name).Canonical instructionSet where
  mnemonic := ⟨by decide, by simp⟩
  lower := rfl
  format := ⟨⟨[branch], none⟩, rfl, rfl, rfl⟩
  slots := ⟨by simp [labelSlot], by simp [labelSlot], trivial⟩
  operands := List.forall_mem_singleton.2 h

theorem render_branchTo {name : Text} (h : (Operand.Content.label name).Canonical) :
    (branchTo name).render = "b ".toList ++ name := by
  rw [(canonical_branchTo h).render_eq, branchTo, List.map_singleton, operandTail,
    renderList_singleton]
  rfl

/-- The branch has an offset of eleven bits with a sign. -/
theorem exists_offset_field :
    ∃ g, branch.field? "offset".toList = some g ∧ ∀ v, g.Holds v ↔ -1024 ≤ v ∧ v ≤ 1023 := by
  refine ⟨_, rfl, fun v => ?_⟩
  change v % 1 = 0 ∧ -1024 ≤ v ∧ v ≤ 1023 ↔ _
  omega

/-- The word of a branch reads as its opcode and its offset. -/
theorem decode_branch {i : Instruction} (hi : i.Formed) (hformat : i.format = branch) {o : Operand}
    {name : Text} (href : i.RefersTo o name) {offset w : Int}
    (hw : (i.linked o offset).encode = .ok w) :
    branch.decode w = .ok [("opcode".toList, 0x1C), ("offset".toList, offset)] := by
  have hwf := hi.sound.toWellFormed
  obtain ⟨hcomplete, hfeeds⟩ := hi.linked_complete href offset
  obtain ⟨values, hdecode, hvalues⟩ :=
    Instruction.decodesTo_of_encode (i := i.linked o offset) hwf hcomplete hw
  have hopcode := hvalues.opcode
  have hoffset := hvalues.operands ("offset".toList, { o with content := .immediate offset })
    (by rw [hfeeds]; exact List.mem_singleton_self _)
  simp only [Instruction.linked, hformat] at hwf hdecode hopcode
  rw [Format.decode_eq hwf] at hdecode ⊢
  obtain rfl := Except.ok.inj hdecode
  have hhigh : w / Bits.weight branch.opcodeOffset.toNat = 0x1C := Option.some_inj.1 hopcode
  have hlow : branch.fields.map (fun g => (g.name, g.meaning (g.read w))) =
      [("offset".toList, offset)] :=
    congrArg (fun v => [("offset".toList, v)]) (Option.some_inj.1 hoffset)
  rw [hhigh, hlow]

end Thumb

/-- A branch to its own label is assembled, to a word that leads back over what was read ahead. -/
theorem assemble_selfBranch {name : Text} (h : (Operand.Content.label name).Canonical)
    (hfree : Thumb.instructionSet.isReserved name = false) {bias : Int} (hlow : -1023 ≤ bias)
    (hhigh : bias ≤ 1024) :
    ∃ a w, assemble Thumb.instructionSet bias (selfBranch name) = .ok a ∧ a.words = [w] ∧
      Thumb.branch.decode w = .ok [("opcode".toList, 0x1C), ("offset".toList, -bias)] := by
  have hisa := Thumb.instructionSet_sound
  obtain ⟨l, j, hp, hl, hbare⟩ := parse_labelled hisa h.1 hfree (Thumb.canonical_branchTo h)
  have hsource : name ++ ": ".toList ++ (Thumb.branchTo name).render = selfBranch name := by
    rw [Thumb.render_branchTo h, selfBranch]
    simp
  rw [hsource] at hp
  have hformat : j.format = Thumb.branch := congrArg Instruction.format hbare
  obtain ⟨o, hoperands, ho⟩ := List.map_eq_singleton_iff.1 (congrArg Instruction.operands hbare)
  have href : j.RefersTo o l.name := by
    rw [hl]
    exact ⟨hoperands, congrArg Operand.content ho⟩
  obtain ⟨g, hfield, hholds⟩ := Thumb.exists_offset_field
  rw [← hformat] at hfield
  obtain ⟨a, w, ha, hwords, hw⟩ :=
    assemble_of_refersTo_self hisa hp href hfield ((hholds (-bias)).2 (by omega))
  exact ⟨a, w, ha, hwords,
    Thumb.decode_branch (Instruction.formed_of_parse hisa hp (by simp)) hformat href hw⟩

/-- **The names that can be defined are those that can be referred to**, less the mnemonics.  A line
that only defines a label is accepted exactly when an operand of that name refers to the label,
wherever it stands, and the name is no mnemonic; it is rejected as reserved otherwise.  So a label
that can be defined can be branched to: the branch to itself is one word, which leads back over what
the processor has read ahead, as far as the eleven bits of its offset reach. -/
theorem definable_iff_referable {name : Text} (h : IsIdentifier name) (line : SourceLine)
    (column : Nat) :
    (Thumb.instructionSet.Definable name ↔
      line.identifierOperand ⟨.identifier, name, column⟩ = .ok ⟨.label name, column, name⟩ ∧
        Thumb.instructionSet.lookup name = none) ∧
    (Thumb.instructionSet.Definable name ∨
      parse Thumb.instructionSet (name ++ ":".toList) =
        .error (.rejected ⟨.reservedLabel name, ⟨1, 1, name, name ++ ":".toList⟩⟩)) ∧
    (Thumb.instructionSet.Definable name → ∀ bias : Int, -1023 ≤ bias → bias ≤ 1024 →
      ∃ a w, assemble Thumb.instructionSet bias (selfBranch name) = .ok a ∧ a.words = [w] ∧
        Thumb.branch.decode w = .ok [("opcode".toList, 0x1C), ("offset".toList, -bias)]) := by
  obtain ⟨hdefinable, hrejected⟩ := Thumb.instructionSet.definable_iff h
  have hfree := Thumb.instructionSet.isReserved_eq_false_iff h
  refine ⟨?_, hrejected, ?_⟩
  · rw [hdefinable, hfree, line.identifierOperand_eq_label_iff h]
  · intro hname bias hlow hhigh
    have hunreserved := hdefinable.1 hname
    exact assemble_selfBranch (hfree.1 hunreserved).1 hunreserved hlow hhigh

/-- A name one character away from the stack pointer, with the largest bias that leaves it in reach,
and a name that is a branch on a condition in capitals. -/
theorem definable_iff_referable_near_reserved :
    (IsIdentifier ".sp".toList ∧ Thumb.instructionSet.Definable ".sp".toList ∧
      ∃ a w, assemble Thumb.instructionSet 1024 ".sp: b .sp".toList = .ok a ∧ a.words = [w] ∧
        Thumb.branch.decode w = .ok [("opcode".toList, 0x1C), ("offset".toList, -1024)]) ∧
    IsIdentifier "bHS".toList ∧ ¬ Thumb.instructionSet.Definable "bHS".toList := by
  have hname : IsIdentifier ".sp".toList := ⟨by decide, List.all_eq_true.1 (by decide)⟩
  have hmnemonic : IsIdentifier "bHS".toList := ⟨by decide, List.all_eq_true.1 (by decide)⟩
  obtain ⟨hiff, -, hbranch⟩ := definable_iff_referable hname ⟨1, "b .sp".toList⟩ 3
  obtain ⟨hiff', -, -⟩ := definable_iff_referable hmnemonic ⟨1, "b bHS".toList⟩ 3
  have hdefinable := hiff.2 ⟨by decide, by decide⟩
  refine ⟨⟨hname, hdefinable, hbranch hdefinable 1024 (by decide) (by decide)⟩, hmnemonic, ?_⟩
  intro hreserved
  have hlookup := (hiff'.1 hreserved).2
  revert hlookup
  decide

end ThumbAssembler
