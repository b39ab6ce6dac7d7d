/-
**Registering formats.**

Formats can be added to an instruction set; a format whose fields overlap its opcode is refused.  A
new format comes last under its mnemonic, so it is chosen only where no format was.  A new mnemonic
can take a source two things away: it hides a conditional branch of the same name, and it reserves
the name of a label.  Apart from these, a source that was assembled is assembled as before.

Main definitions:

* `ThumbAssembler.InstructionSet.registerAll` — the instruction set after a list of registrations;
* `ThumbAssembler.InstructionSet.Extends` — a set that offers what another does, and more after it.

Main results:

* `ThumbAssembler.InstructionSet.registerAll_eq_foldl_add` — refused registrations change nothing;
* `ThumbAssembler.InstructionSet.get?_registerAll` — the formats of a mnemonic after registrations;
* `ThumbAssembler.parse_of_extends` — what was read is read as before;
* `ThumbAssembler.registering_is_conservative` — **registering formats is a conservative
  extension**.
-/

import Mathlib
import ThumbAssembler.Proofs.LineOutline
import ThumbAssembler.Proofs.LinkedProgram

set_option autoImplicit false

namespace ThumbAssembler

/-! ### Registrations -/

namespace InstructionSet

/-- The instruction set after one registration; a format that is refused changes nothing. -/
def tryRegister (isa : InstructionSet) (f : Format) : InstructionSet :=
  match isa.register f with
  | .ok isa' => isa'
  | .error _ => isa

/-- The instruction set after registrations in the given order. -/
def registerAll (isa : InstructionSet) (formats : List Format) : InstructionSet :=
  formats.foldl tryRegister isa

/-- The set offers all that another does: under every mnemonic that the other knows come its formats
first, then further ones, with the same condition. -/
def Extends (isa' isa : InstructionSet) : Prop :=
  ∀ mnemonic candidates, isa.lookup mnemonic = some candidates →
    ∃ extra, isa'.lookup mnemonic = some ⟨candidates.formats ++ extra, candidates.condition⟩

variable (isa : InstructionSet)

theorem tryRegister_of_overlap {f : Format} (h : f.overlap? ≠ none) : isa.tryRegister f = isa := by
  obtain ⟨field, hfield⟩ := Option.ne_none_iff_exists'.1 h
  simp only [tryRegister, register, hfield]

theorem tryRegister_of_disjoint {f : Format} (h : f.overlap? = none) :
    isa.tryRegister f = isa.add f := by
  simp only [tryRegister, register, h]

/-- **Refused registrations change nothing**: the set is that of the formats without overlap. -/
theorem registerAll_eq_foldl_add (formats : List Format) :
    isa.registerAll formats = (formats.filter fun f => f.overlap? = none).foldl add isa := by
  unfold registerAll
  induction formats generalizing isa with
  | nil => rfl
  | cons f formats ih =>
      rw [List.foldl_cons, ih]
      by_cases hf : f.overlap? = none
      · rw [tryRegister_of_disjoint isa hf, List.filter_cons_of_pos (by simp [hf]),
          List.foldl_cons]
      · rw [tryRegister_of_overlap isa hf, List.filter_cons_of_neg (by simp [hf])]

/-- The formats of a list that are registered under a mnemonic. -/
def accepted (formats : List Format) (mnemonic : Text) : List Format :=
  formats.filter fun f => f.overlap? = none ∧ f.mnemonic = mnemonic

theorem mem_accepted {formats : List Format} {mnemonic : Text} {f : Format} :
    f ∈ accepted formats mnemonic ↔ f ∈ formats ∧ f.overlap? = none ∧ f.mnemonic = mnemonic := by
  simp [accepted]

/-- What a registration adds to the formats of a mnemonic. -/
theorem get?_tryRegister (f : Format) (mnemonic : Text) :
    Assoc.get? mnemonic (isa.tryRegister f).formats =
      if f.overlap? = none ∧ f.mnemonic = mnemonic then
        some ((Assoc.get? mnemonic isa.formats).getD [] ++ [f])
      else Assoc.get? mnemonic isa.formats := by
  by_cases hf : f.overlap? = none
  · rw [tryRegister_of_disjoint isa hf, add]
    by_cases hname : f.mnemonic = mnemonic
    · rw [if_pos ⟨hf, hname⟩, hname, Assoc.get?_put_self]
    · rw [if_neg fun h => hname h.2, Assoc.get?_put_of_ne hname]
  · rw [tryRegister_of_overlap isa hf, if_neg fun h => hf h.1]

/-- **The formats of a mnemonic after registrations**: the old ones, then those accepted under
it. -/
theorem get?_registerAll (formats : List Format) (mnemonic : Text) :
    Assoc.get? mnemonic (isa.registerAll formats).formats =
      if accepted formats mnemonic = [] then Assoc.get? mnemonic isa.formats
      else some ((Assoc.get? mnemonic isa.formats).getD [] ++ accepted formats mnemonic) := by
  unfold registerAll
  induction formats generalizing isa with
  | nil => rfl
  | cons f formats ih =>
      rw [List.foldl_cons, ih, get?_tryRegister]
      by_cases hf : f.overlap? = none ∧ f.mnemonic = mnemonic
      · have hcons : accepted (f :: formats) mnemonic = f :: accepted formats mnemonic :=
          List.filter_cons_of_pos (by simpa using hf)
        rw [if_pos hf, hcons, if_neg (List.cons_ne_nil _ _)]
        by_cases hnone : accepted formats mnemonic = []
        · rw [if_pos hnone, hnone]
        · rw [if_neg hnone, Option.getD_some, List.append_assoc, List.singleton_append]
      · have hskip : accepted (f :: formats) mnemonic = accepted formats mnemonic :=
          List.filter_cons_of_neg (by simpa using hf)
        rw [if_neg hf, hskip]

theorem conditionalBranch_registerAll (formats : List Format) :
    (isa.registerAll formats).conditionalBranch = isa.conditionalBranch := by
  unfold registerAll
  induction formats generalizing isa with
  | nil => rfl
  | cons f formats ih =>
      rw [List.foldl_cons, ih]
      by_cases hf : f.overlap? = none
      · rw [tryRegister_of_disjoint isa hf, add]
      · rw [tryRegister_of_overlap isa hf]

/-- A mnemonic under which nothing is registered is looked up as before. -/
theorem lookup_registerAll_of_nil {formats : List Format} {mnemonic : Text}
    (h : accepted formats mnemonic.lower = []) :
    (isa.registerAll formats).lookup mnemonic = isa.lookup mnemonic := by
  simp only [lookup, get?_registerAll, h, if_true, conditionalBranch_registerAll]

/-- **Registrations extend the set**, if none hides a conditional branch. -/
theorem registerAll_extends {formats : List Format}
    (h : ∀ f ∈ formats, f.overlap? = none → ∀ c ∈ isa.lookup f.mnemonic, c.condition = none) :
    (isa.registerAll formats).Extends isa := by
  intro mnemonic candidates hlookup
  by_cases hnil : accepted formats mnemonic.lower = []
  · refine ⟨[], ?_⟩
    rw [lookup_registerAll_of_nil isa hnil, hlookup, List.append_nil]
  · -- the mnemonic names no conditional branch, so it has an entry, which has grown
    obtain ⟨f, hf⟩ := List.exists_mem_of_ne_nil _ hnil
    obtain ⟨hmem, hoverlap, hname⟩ := mem_accepted.1 hf
    have hsame : isa.lookup f.mnemonic = some candidates := by
      rw [← hlookup, hname]
      simp only [lookup, Text.lower_lower]
    have hcondition := h f hmem hoverlap candidates hsame
    unfold lookup at hlookup
    split at hlookup
    · rename_i entry hentry
      obtain rfl := Option.some_inj.1 hlookup
      refine ⟨accepted formats mnemonic.lower, ?_⟩
      simp only [lookup, get?_registerAll, if_neg hnil, hentry, Option.getD_some]
    · obtain ⟨c, -, rfl⟩ := Option.map_eq_some_iff.1 hlookup
      cases hcondition

/-- A name stays free if nothing is registered under it. -/
theorem isReserved_registerAll {formats : List Format} {name : Text}
    (hfree : isa.isReserved name = false)
    (h : ∀ f ∈ formats, f.overlap? = none → name.lower ≠ f.mnemonic) :
    (isa.registerAll formats).isReserved name = false := by
  have hnil : accepted formats name.lower = [] := by
    rw [List.eq_nil_iff_forall_not_mem]
    intro f hf
    obtain ⟨hmem, hoverlap, hname⟩ := mem_accepted.1 hf
    exact h f hmem hoverlap hname.symm
  rw [isReserved, lookup_registerAll_of_nil isa hnil]
  exact hfree

end InstructionSet

/-! ### Reading with an extended set -/

section Extends

variable {isa isa' : InstructionSet}

/-- The format that operands choose is still the first that suits them. -/
theorem SourceLine.buildInstruction_of_extends {line : SourceLine} {mnemonic : Token}
    {candidates : Candidates} {os : List Operand} {i : Instruction}
    (h : line.buildInstruction mnemonic candidates os = .ok i) (extra : List Format) :
    line.buildInstruction mnemonic ⟨candidates.formats ++ extra, candidates.condition⟩ os =
      .ok i := by
  obtain ⟨f, hchoose, h⟩ := bind_eq_ok_iff.1 h
  unfold chooseFormat at hchoose
  split at hchoose
  · rename_i f' hfind
    obtain rfl := Except.ok.inj hchoose
    have hchoose' : line.chooseFormat mnemonic (candidates.formats ++ extra) os = .ok f' := by
      simp only [chooseFormat, List.find?_append, hfind, Option.some_or]
    rw [buildInstruction, hchoose', ok_bind]
    exact h
  · cases hchoose

theorem SourceLine.instruction_of_extends (hisa : isa'.Extends isa) {line : SourceLine}
    {ts : List Token} {i : Instruction} (h : line.instruction isa ts = .ok i) :
    line.instruction isa' ts = .ok i := by
  unfold instruction at h ⊢
  split at h
  · simp only at h ⊢
    split at h
    · cases h
    · rename_i candidates hlookup
      obtain ⟨extra, hlookup'⟩ := hisa _ _ hlookup
      obtain ⟨⟨os, rest⟩, hos, h⟩ := bind_eq_ok_iff.1 h
      simp only [hlookup', hos, ok_bind] at h ⊢
      split at h
      · rename_i hend
        rw [if_pos hend]
        exact buildInstruction_of_extends h extra
      · cases h
  · cases h

theorem statement_of_extends (hisa : isa'.Extends isa) {line : SourceLine} {code rest : Text}
    {position : Nat} {s : Statement} (h : statement isa line code position rest = .ok s) :
    statement isa' line code position rest = .ok s := by
  unfold statement at h ⊢
  split at h
  · exact h
  · exact h
  · obtain ⟨ts, hts, h⟩ := bind_eq_ok_iff.1 h
    obtain ⟨i, hi, h⟩ := bind_eq_ok_iff.1 h
    rw [hts, ok_bind, SourceLine.instruction_of_extends hisa hi, ok_bind]
    exact h

/-- The labels are as free as they were. -/
def StayFree (isa isa' : InstructionSet) (labels : List Label) : Prop :=
  ∀ l ∈ labels, isa.isReserved l.name = false → isa'.isReserved l.name = false

/-- The labels of a line are read as before, if they stay free. -/
theorem labelsFrom_of_stayFree {line : SourceLine} {position : Nat} {t : Text}
    {r : List Label × Nat × Text} (h : labelsFrom isa line position t = .ok r)
    (hfree : StayFree isa isa' r.1) : labelsFrom isa' line position t = .ok r := by
  fun_induction labelsFrom isa line position t generalizing r with
  | case1 position t hpart =>
      rw [labelsFrom_of_none isa' line position hpart]
      exact h
  | case2 position t part hpart column => cases h
  | case3 position t part hpart column hreserved =>
      rename_i ih
      obtain ⟨r', hr', h⟩ := bind_eq_ok_iff.1 h
      obtain rfl := Except.ok.inj h
      obtain ⟨hname, hrest⟩ := List.forall_mem_cons.1 hfree
      rw [labelsFrom_of_some line position hpart (hname (by simpa using hreserved)), ih hr' hrest]
      rfl

theorem parseLine_of_extends (hisa : isa'.Extends isa) {number : Nat} {raw : Text} {l : ParsedLine}
    (h : parseLine isa number raw = .ok l)
    (hfree : StayFree isa isa' l.labels) : parseLine isa' number raw = .ok l := by
  rw [parseLine_eq] at h ⊢
  obtain ⟨⟨labels, position, rest⟩, hlabels, h⟩ := bind_eq_ok_iff.1 h
  obtain ⟨s, hs, h⟩ := bind_eq_ok_iff.1 h
  obtain rfl := Except.ok.inj h
  rw [labelsFrom_of_stayFree hlabels hfree, ok_bind]
  simp only [statement_of_extends hisa hs]
  rfl

/-- **What was read is read as before**, if the labels stay free. -/
theorem parse_of_extends (hisa : isa'.Extends isa) {source : Text} {p : Program}
    (h : parse isa source = .ok p) (hfree : StayFree isa isa' p.labels) :
    parse isa' source = .ok p := by
  obtain ⟨ls, hls, rfl⟩ := parse_eq_ok_iff.1 h
  have hlines (l : ParsedLine) (hl : l ∈ ls) : StayFree isa isa' l.labels := by
    intro label hlabel
    have hentry : .label label ∈ l.entries :=
      List.mem_append_left _ (List.mem_map_of_mem hlabel)
    exact hfree label (List.mem_filterMap.2 ⟨_, List.mem_flatMap.2 ⟨l, hl, hentry⟩, rfl⟩)
  have hboth := (List.forall₂_and_left _ _).2 ⟨hlines, hls.flip⟩
  refine parse_eq_ok_iff.2 ⟨ls, hboth.flip.imp ?_, rfl⟩
  rintro q l ⟨hlabels, hread⟩
  exact parseLine_of_extends hisa hread hlabels

end Extends

/-! ### Registrations and assembled sources -/

/-- **Registering formats is a conservative extension.**  Let a source be assembled, and let formats
be registered, some of which may be refused for an overlap.  If no mnemonic that is registered named
a conditional branch and no label of the source becomes a mnemonic, then the source is read as the
same program and assembled to the same words, and for every target it is reported as before. -/
theorem registering_is_conservative {isa : InstructionSet} {bias : Int} {source : Text}
    {a : Assembly} (h : assemble isa bias source = .ok a) {formats : List Format}
    (hbranches : ∀ f ∈ formats, f.overlap? = none →
      ∀ c ∈ isa.lookup f.mnemonic, c.condition = none)
    (hlabels : ∀ f ∈ formats, f.overlap? = none →
      ∀ l ∈ a.program.labels, l.name.lower ≠ f.mnemonic) :
    isa.registerAll formats =
        (formats.filter fun f => f.overlap? = none).foldl InstructionSet.add isa ∧
      parse (isa.registerAll formats) source = parse isa source ∧
      assemble (isa.registerAll formats) bias source = .ok a ∧
      ∀ target width,
        report (isa.registerAll formats) target width source = report isa target width source := by
  obtain ⟨p, q, words, hp, -, hq, -, rfl⟩ := assemble_eq_ok_iff.1 h
  have hlinked := Program.linkedBy_of_walk hq
  have hfree : StayFree isa (isa.registerAll formats) p.labels := by
    intro l hl hunreserved
    refine isa.isReserved_registerAll hunreserved fun f hf hoverlap => ?_
    exact hlabels f hf hoverlap l (by rw [hlinked.labels_eq]; exact hl)
  have hparse : parse (isa.registerAll formats) source = parse isa source := by
    rw [hp, parse_of_extends (isa.registerAll_extends hbranches) hp hfree]
  have hassemble (bias : Int) :
      assemble (isa.registerAll formats) bias source = assemble isa bias source := by
    rw [assemble, assemble, hparse]
  refine ⟨isa.registerAll_eq_foldl_add formats, hparse, (hassemble bias).trans h, ?_⟩
  intro target width
  rw [report, report, hassemble]

/-- Another form of `movs` with the shapes of the first, a new mnemonic, and a format that overlaps
its opcode and would hide `bne`. -/
def threeFormats : List Format :=
  [{ name := "move".toList, mnemonic := "movs".toList, opcode := 23, opcodeWidth := 5
     fields := [Thumb.bits "rd" 3 8, Thumb.bits "imm8" 8 0]
     slots := [Thumb.reg "rd", Thumb.imm "imm8"], usage := "movs rd, #imm8".toList },
   { name := "halt".toList, mnemonic := "halt".toList, opcode := 190, opcodeWidth := 8
     fields := [], slots := [], usage := "halt".toList },
   { name := "wide".toList, mnemonic := "bne".toList, opcode := 13, opcodeWidth := 8
     fields := [Thumb.bits "imm9" 9 0], slots := [Thumb.imm "imm9"], usage := "bne #imm9".toList }]

/-- The first form of `movs` is still the one that is chosen, and `bne` is still a branch. -/
theorem registering_is_conservative_three_formats :
    ∃ a, assemble Thumb.instructionSet 3 "loop: movs r0, #1\nbne loop".toList = .ok a ∧
      a.words = [0x2001, 0xd1fc] ∧
      (Thumb.instructionSet.registerAll threeFormats).formats.length =
        Thumb.instructionSet.formats.length + 1 ∧
      assemble (Thumb.instructionSet.registerAll threeFormats) 3
        "loop: movs r0, #1\nbne loop".toList = .ok a := by
  have heval : (assemble Thumb.instructionSet 3 "loop: movs r0, #1\nbne loop".toList).toOption.any
      (fun a => a.words = [0x2001, 0xd1fc] ∧ a.program.labelNames = ["loop".toList]) = true := by
    decide +kernel
  obtain ⟨a, ha, htest⟩ := exists_ok_of_any heval
  obtain ⟨hwords, hnames⟩ := of_decide_eq_true htest
  have hbranches : ∀ f ∈ threeFormats, f.overlap? = none →
      ∀ c ∈ Thumb.instructionSet.lookup f.mnemonic, c.condition = none := by decide +kernel
  have hlabels : ∀ f ∈ threeFormats, f.overlap? = none →
      ∀ l ∈ a.program.labels, l.name.lower ≠ f.mnemonic := by
    have hloop : ∀ f ∈ threeFormats, Text.lower "loop".toList ≠ f.mnemonic := by decide +kernel
    intro f hf _ l hl
    have hname : l.name ∈ a.program.labelNames := List.mem_map_of_mem hl
    rw [hnames, List.mem_singleton] at hname
    rw [hname]
    exact hloop f hf
  obtain ⟨-, -, hassemble, -⟩ := registering_is_conservative ha hbranches hlabels
  exact ⟨a, ha, hwords, by decide +kernel, hassemble⟩

end ThumbAssembler
