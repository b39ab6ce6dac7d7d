/-
**The bias of a target.**

Targets differ in how many words the processor has read ahead when it adds the offset of a branch.
This bias is used in one place, the distance from a branch to its label.  So a source keeps its
program, its symbol table and the number of its words when the bias changes.  A word that is not a
branch stays the same; the word of a branch keeps its opcode and its condition, and the offset moves
against the bias.  Moved too far, the offset leaves its field, and the label is reported.

Main definitions:

* `ThumbAssembler.Instruction.Shifts` — two words of an instruction that differ in the offset at
  most.

Main results:

* `ThumbAssembler.text_of_label_of_parse` — a reference to a label is spelled as the label;
* `ThumbAssembler.Instruction.Formed.shifts` — the words of an instruction under two biases;
* `ThumbAssembler.assemble_eq_error_of_bias` — what can fail when the bias changes;
* `ThumbAssembler.bias_moves_only_offsets` — **the bias affects the offsets of branches only**.
-/

import Mathlib
import ThumbAssembler.Proofs.InstructionGrammar

set_option autoImplicit false

namespace ThumbAssembler

/-! ### The spelling of label references -/

theorem SpellsOperand.text_of_label {line : Text} {ts : List Token} {o : Operand}
    (h : SpellsOperand line ts o) {name : Text} (hname : o.content = .label name) :
    o.text = name := by
  cases h with
  | identifier hdenotes column =>
      cases hdenotes with
      | label hdigits hspecial => exact Operand.Content.label.inj hname
      | _ => cases hname
  | _ => cases hname

theorem SpellsOperands.text_of_label {line : Text} {ts : List Token} {os : List Operand}
    (h : SpellsOperands line ts os) {o : Operand} (ho : o ∈ os) {name : Text}
    (hname : o.content = .label name) : o.text = name := by
  induction h with
  | single h =>
      obtain rfl := List.mem_singleton.1 ho
      exact h.text_of_label hname
  | cons h comma column hrest ih =>
      rcases List.mem_cons.1 ho with rfl | ho
      · exact h.text_of_label hname
      · exact ih ho

/-- The operands of an instruction are spelled by tokens of its line. -/
theorem SourceLine.spells_of_instruction {isa : InstructionSet} {line : SourceLine}
    {ts : List Token} {i : Instruction} (h : line.instruction isa ts = .ok i) :
    ∃ read, read = [] ∧ i.operands = [] ∨ SpellsOperands line.text read i.operands := by
  unfold instruction at h
  split at h
  · simp only at h
    split at h
    · cases h
    · obtain ⟨⟨os, rest⟩, hos, h⟩ := bind_eq_ok_iff.1 h
      simp only at h
      split at h
      · obtain ⟨-, hoperands, -⟩ := buildInstruction_keeps.of_ok h
        obtain ⟨read, -, hread⟩ := spells_of_operandList hos
        rw [hoperands]
        exact ⟨read, hread⟩
      · cases h
  · cases h

/-- Every instruction of a program was read from the tokens of a line. -/
theorem exists_instruction_of_parse {isa : InstructionSet} {source : Text} {p : Program}
    (h : parse isa source = .ok p) {i : Instruction} (hi : .instruction i ∈ p) :
    ∃ (line : SourceLine) (ts : List Token), line.instruction isa ts = .ok i := by
  obtain ⟨ls, hls, rfl⟩ := parse_eq_ok_iff.1 h
  obtain ⟨l, hl, hentry⟩ := List.mem_flatMap.1 hi
  obtain ⟨⟨raw, number⟩, -, hread⟩ := exists_left_of_forall₂ hls hl
  rw [parseLine_eq] at hread
  obtain ⟨⟨labels, position, rest⟩, -, hread⟩ := bind_eq_ok_iff.1 hread
  obtain ⟨s, hs, hread⟩ := bind_eq_ok_iff.1 hread
  obtain rfl := Except.ok.inj hread
  cases hsilent : isSilent rest with
  | true =>
      obtain ⟨s', hs', hentries⟩ :=
        statement_of_isSilent isa ⟨number, raw.shown⟩ raw.code position hsilent
      obtain rfl := Except.ok.inj (hs.symm.trans hs')
      rw [hentries] at hentry
      simp at hentry
  | false =>
      rw [statement_of_not_isSilent isa ⟨number, raw.shown⟩ raw.code position hsilent] at hs
      obtain ⟨ts, -, hs⟩ := bind_eq_ok_iff.1 hs
      obtain ⟨j, hj, hs⟩ := bind_eq_ok_iff.1 hs
      obtain rfl := Except.ok.inj hs
      obtain rfl : i = j := by simpa [ParsedLine.entries] using hentry
      exact ⟨_, ts, hj⟩

/-- **A reference to a label is spelled as the label.** -/
theorem text_of_label_of_parse {isa : InstructionSet} {source : Text} {p : Program}
    (h : parse isa source = .ok p) {i : Instruction} (hi : .instruction i ∈ p) {o : Operand}
    (ho : o ∈ i.operands) {name : Text} (hname : o.content = .label name) : o.text = name := by
  obtain ⟨line, ts, hread⟩ := exists_instruction_of_parse h hi
  obtain ⟨read, ⟨-, hnone⟩ | hspells⟩ := SourceLine.spells_of_instruction hread
  · rw [hnone] at ho
    cases ho
  · exact hspells.text_of_label ho hname

/-! ### Words that differ in the offset -/

theorem Assoc.get?_map_congr {α : Type} {fields : List Field} {value value' : Field → α}
    {name : Text} (h : ∀ g ∈ fields, g.name = name → value' g = value g) :
    get? name (fields.map fun g => (g.name, value' g)) =
      get? name (fields.map fun g => (g.name, value g)) := by
  induction fields with
  | nil => rfl
  | cons g fields ih =>
      obtain ⟨hg, hfields⟩ := List.forall_mem_cons.1 h
      rw [List.map_cons, List.map_cons, get?, get?]
      by_cases hname : g.name = name
      · rw [if_pos hname, if_pos hname, hg hname]
      · rw [if_neg hname, if_neg hname, ih hfields]

/-- Words with the same opcode that agree in all fields but one have the same decoding, but for
this field. -/
theorem Format.get?_decode_congr {f : Format} (hf : f.WellFormed) {w w' : Int}
    {values values' : List (Text × Int)} (hdecode : f.decode w = .ok values)
    (hdecode' : f.decode w' = .ok values')
    (hopcode : w' / Bits.weight f.opcodeOffset.toNat = w / Bits.weight f.opcodeOffset.toNat)
    {field : Text} (hfields : ∀ g ∈ f.fields, g.name ≠ field → g.read w' = g.read w) {name : Text}
    (hname : name ≠ field) : Assoc.get? name values' = Assoc.get? name values := by
  rw [decode_eq hf, Except.ok.injEq] at hdecode hdecode'
  subst hdecode hdecode'
  rw [Assoc.get?, Assoc.get?, hopcode, Assoc.get?_map_congr]
  intro g hg hgname
  rw [hfields g hg (by rwa [hgname])]

namespace Instruction

/-- The words of one instruction under two biases.  What is no branch has the same word; the words
of a branch have the opcode and the condition of the instruction and agree in everything but the
offset, which moves by `shift`. -/
structure Shifts (i : Instruction) (shift w w' : Int) : Prop where
  plain : i.format.branch = false → w' = w
  branch : i.format.branch = true → ∃ values values' offset,
    i.format.decode w = .ok values ∧ i.format.decode w' = .ok values' ∧
    Assoc.get? "opcode".toList values = some i.format.opcode ∧
    (i.format.conditional = true →
      ∃ c, i.condition = some c ∧ Assoc.get? "cond".toList values = some c.code) ∧
    (∀ name, name ≠ "offset".toList → Assoc.get? name values' = Assoc.get? name values) ∧
    Assoc.get? "offset".toList values = some offset ∧
    Assoc.get? "offset".toList values' = some (offset + shift)

variable {i : Instruction}

/-- The words of a branch with two offsets agree in all other fields. -/
theorem Formed.read_linked (hi : i.Formed) {o : Operand} {name : Text} (href : i.RefersTo o name)
    {offset offset' w w' : Int} (hw : (i.linked o offset).encode = .ok w)
    (hw' : (i.linked o offset').encode = .ok w') {g : Field} (hg : g ∈ i.format.fields)
    (hname : g.name ≠ "offset".toList) : g.read w' = g.read w := by
  obtain ⟨hcomplete, hfeeds⟩ := hi.linked_complete href offset
  obtain ⟨hcomplete', -⟩ := hi.linked_complete href offset'
  have hf := hi.sound.toWellFormed
  have hunfed : g.name ∉ i.format.fedNames := by
    have hfed := hcomplete.map_fst_feeds
    rw [hfeeds] at hfed
    rw [show i.format.fedNames = ["offset".toList] from hfed.symm, List.mem_singleton]
    exact hname
  -- the frame of a word has the opcode and the condition, whatever the offset
  have hframe : (i.linked o offset').frame = (i.linked o offset).frame := rfl
  rw [read_encode_of_unfed (i := i.linked o offset') hf hcomplete' hw' hg hunfed, hframe,
    read_encode_of_unfed (i := i.linked o offset) hf hcomplete hw hg hunfed]

/-- **The words of a branch with two offsets.** -/
theorem Formed.shifts_linked (hi : i.Formed) {o : Operand} {name : Text} (href : i.RefersTo o name)
    {offset shift w w' : Int} (hw : (i.linked o offset).encode = .ok w)
    (hw' : (i.linked o (offset + shift)).encode = .ok w') : i.Shifts shift w w' where
  plain := by
    intro hplain
    rw [(hi.branch_of_label href.mem href.content).1] at hplain
    cases hplain
  branch := by
    intro _
    have hf := hi.sound.toWellFormed
    obtain ⟨hcomplete, hfeeds⟩ := hi.linked_complete href offset
    obtain ⟨hcomplete', -⟩ := hi.linked_complete href (offset + shift)
    obtain ⟨values, hdecode, hvalues⟩ :=
      decodesTo_of_encode (i := i.linked o offset) hf hcomplete hw
    obtain ⟨values', hdecode', hoffset'⟩ := hi.decode_linked href hw'
    have hopcode := (word_mem_range (i := i.linked o offset) hf hcomplete hw).2.2
    have hopcode' := (word_mem_range (i := i.linked o (offset + shift)) hf hcomplete' hw').2.2
    have hoffset : Assoc.get? "offset".toList values = some offset := by
      rw [hvalues.operands ("offset".toList, { o with content := .immediate offset })
        (by rw [hfeeds]; exact List.mem_singleton_self _)]
      rfl
    refine ⟨values, values', offset, hdecode, hdecode', hvalues.opcode, hvalues.condition, ?_,
      hoffset, hoffset'⟩
    intro field hfield
    exact Format.get?_decode_congr hf hdecode hdecode' (hopcode'.trans hopcode.symm)
      (fun g hg hname => hi.read_linked href hw hw' hg hname) hfield

/-- **The words of an instruction under two biases.** -/
theorem Formed.shifts (hi : i.Formed) (hregular : i.format.Regular) {bias bias' : Int}
    {table : SymbolTable} {a : Nat} {j j' : Instruction}
    (hlink : linkEntry bias table (a, .instruction i) = .ok (.instruction j))
    (hlink' : linkEntry bias' table (a, .instruction i) = .ok (.instruction j')) {w w' : Int}
    (hw : j.encode = .ok w) (hw' : j'.encode = .ok w') : i.Shifts (bias - bias') w w' := by
  rcases hi.cases_label with hlabels | ⟨o, name, href⟩
  · -- nothing is linked, and a branch would have a label
    rw [linkEntry_of_not_isLabel hlabels] at hlink hlink'
    obtain rfl := Entry.instruction.inj (Except.ok.inj hlink)
    obtain rfl := Entry.instruction.inj (Except.ok.inj hlink')
    refine ⟨fun _ => Except.ok.inj (hw'.symm.trans hw), fun hbranch => ?_⟩
    obtain ⟨s, hs, hkind⟩ := hregular.branch hbranch
    have hmem : s.kind ∈ i.format.signature := List.mem_map_of_mem hs
    rw [hi.signature, List.mem_map] at hmem
    obtain ⟨o, ho, hlabel⟩ := hmem
    have hnot := hlabels o ho
    simp [Operand.isLabel, hlabel, hkind] at hnot
  · obtain ⟨t, ht, rfl⟩ := hi.eq_linked href hlink
    obtain ⟨t', ht', rfl⟩ := hi.eq_linked href hlink'
    obtain rfl := Option.some_inj.1 (ht'.symm.trans ht)
    refine hi.shifts_linked href hw ?_
    rwa [show t' - (a + bias) + (bias - bias') = t' - (a + bias') by omega]

end Instruction

/-! ### Sources under two biases -/

/-- **What can fail when the bias changes**: a branch is too far from its label. -/
theorem assemble_eq_error_of_bias {isa : InstructionSet} (hisa : isa.Sound) {bias bias' : Int}
    {source : Text} {a : Assembly} (h : assemble isa bias source = .ok a) {p : Program}
    (hp : parse isa source = .ok p) {e : Fault} (h' : assemble isa bias' source = .error e) :
    ∃ (before : Program) (i : Instruction) (after : Program) (o : Operand) (name : Text) (t : Int)
        (g : Field), p = before ++ .instruction i :: after ∧ i.RefersTo o name ∧
      p.Defines name t ∧ i.format.field? "offset".toList = some g ∧
      e = rejection (.branchOutOfRange i.mnemonic name (t - (before.size + bias')) g.bounds)
        (i.place o) := by
  obtain ⟨p', hreads, hnodup, hreach, hfit⟩ := (exists_assemble_eq_ok_iff hisa).1 ⟨a, h⟩
  obtain rfl := Except.ok.inj (hp.symm.trans (parse_eq_ok_iff.2 hreads))
  have hformed (i : Instruction) (hi : .instruction i ∈ p) : i.Formed :=
    Instruction.formed_of_parse hisa hp hi
  rcases assemble_eq_error_iff_stage.1 h' with hparse | ⟨p', hp', hstage⟩
  · rw [hp] at hparse
    cases hparse
  obtain rfl := Except.ok.inj (hp.symm.trans hp')
  rcases hstage with hcollect | ⟨-, hwalk | ⟨q, hq, hencode⟩⟩
  · rw [collect_of_nodup hnodup] at hcollect
    cases hcollect
  · obtain ⟨before, i, after, hsplit, -, hlink⟩ := (walk_eq_error_iff hnodup hformed).1 hwalk
    have hmem : (before.size, Entry.instruction i) ∈ p.addressed :=
      Program.mem_addressed.2 ⟨before, after, hsplit, rfl⟩
    obtain ⟨o, name, href, hcause⟩ := (linkEntry_eq_error_iff hnodup
      (hformed i (Program.mem_of_mem_addressed hmem))).1 hlink
    rcases hcause with ⟨hname, -⟩ | ⟨t, g, hdefines, hfield, -, he⟩
    · -- the label is defined, as it was for the other bias
      obtain ⟨_, _, hdefines, -⟩ := hreach _ i o name hmem href.mem href.content
      exact absurd hdefines.mem_labelNames hname
    · exact ⟨before, i, after, o, name, t, g, hsplit, href, hdefines, hfield, he⟩
  · -- the operands are those that fitted for the other bias
    obtain ⟨before, i, after, r, g, v, hsplit, -, hmisfit, -⟩ :=
      (encode_linked_eq_error_iff hformed (mapM_eq_ok_iff.1 hq)).1 hencode
    obtain ⟨g', v', hfield, hvalue, hholds⟩ := hfit i (by rw [hsplit]; simp) r hmisfit.mem_feeds
      (Instruction.isLabel_eq_false_of_value hmisfit.value)
    obtain rfl := Option.some_inj.1 (hfield.symm.trans hmisfit.field)
    obtain rfl := Option.some_inj.1 (hvalue.symm.trans hmisfit.value)
    exact absurd hholds hmisfit.not_holds

/-- **The bias affects the offsets of branches only.**  Let a source be assembled for a target.  If
it is assembled for another target too, both have as many words and the same symbol table, and at
every address the two words are those of one instruction, with the offset moved by the difference of
the biases if it is a branch.  If it is not, and the distance of a branch can be printed, the
diagnostic is about a range, and its token is a reference to a label. -/
theorem bias_moves_only_offsets {target target' : Target} {source : Text} {a : Assembly}
    (h : assemble Thumb.instructionSet target.bias source = .ok a) :
    ∃ p, parse Thumb.instructionSet source = .ok p ∧
      (∀ a', assemble Thumb.instructionSet target'.bias source = .ok a' →
        a.words.length = p.size ∧ a'.words.length = p.size ∧ a'.symbols = a.symbols ∧
        ∀ address i, (address, .instruction i) ∈ p.addressed →
          ∃ w w', a.words[address]? = some w ∧ a'.words[address]? = some w' ∧
            i.Shifts (target.bias - target'.bias) w w') ∧
      ((∀ a', assemble Thumb.instructionSet target'.bias source ≠ .ok a') →
        target'.bias.natAbs + source.length < printLimit → ∀ width,
        ∃ d, report Thumb.instructionSet target' width source = .ok (.failure d) ∧
          d.kind = .range ∧
          ∃ i o name, .instruction i ∈ p ∧ o ∈ i.operands ∧ o.content = .label name ∧
            d.place = i.place o ∧ d.place.token = name) := by
  have hisa := Thumb.instructionSet_sound
  obtain ⟨p, q, words, hp, hnodup, hq, hwords, rfl⟩ := assemble_eq_ok_iff.1 h
  refine ⟨p, hp, ?_, ?_⟩
  · intro a' h'
    obtain ⟨p', q', words', hp', -, hq', hwords', rfl⟩ := assemble_eq_ok_iff.1 h'
    obtain rfl := Except.ok.inj (hp.symm.trans hp')
    obtain ⟨hlength, hat⟩ := encode_linked hq hwords
    obtain ⟨hlength', hat'⟩ := encode_linked hq' hwords'
    refine ⟨hlength, hlength', rfl, fun address i hmem => ?_⟩
    obtain ⟨j, w, hlink, hw, -, hget⟩ := hat address i hmem
    obtain ⟨j', w', hlink', hw', -, hget'⟩ := hat' address i hmem
    have hi := Program.mem_of_mem_addressed hmem
    have hread := parse_readIn hisa hp hi
    obtain ⟨-, -, ⟨ts, -, hfrom⟩, -⟩ := hread
    obtain ⟨candidates, hlookup, -, hfind⟩ := hfrom.format
    have hregular := Thumb.instructionSet_regular.formats _
      (InstructionSet.mem_allFormats_of_lookup hlookup (List.mem_of_find?_eq_some hfind))
    exact ⟨w, w', hget, hget', (hfrom.formed hisa).shifts hregular hlink hlink' hw hw'⟩
  · intro hfails hsize width
    cases h' : assemble Thumb.instructionSet target'.bias source with
    | ok a' => exact absurd h' (hfails a')
    | error e =>
        obtain ⟨before, i, after, o, name, t, g, hsplit, href, hdefines, hfield, he⟩ :=
          assemble_eq_error_of_bias hisa h hp h'
        have hi : .instruction i ∈ p := by
          rw [hsplit]
          simp
        rw [he, rejection_tooFar (Instruction.formed_of_parse hisa hp hi) hp hsize hsplit hdefines
          hfield] at h'
        have hreport : report Thumb.instructionSet target' width source =
            .ok (.failure (Rejection.diagnostic ⟨.branchOutOfRange i.mnemonic name
              (t - (before.size + target'.bias)) g.bounds, i.place o⟩)) := by
          simp only [report, h']
        refine ⟨_, hreport, rfl, i, o, name, hi, href.mem, href.content, rfl, ?_⟩
        exact text_of_label_of_parse hp hi href.mem href.content

/-- A branch on inequality over a jump back. -/
def branchOverJump : Text := "top: movs r0, #1\nbne end\nb top\nend:".toList

/-- The branch over the jump has the offset -1 with a bias of 3 and the offset 0 with a bias of 2;
with a bias of 200 its field has no room for the offset. -/
theorem bias_moves_only_offsets_over_jump :
    ∃ a a' p i d,
      assemble Thumb.instructionSet Target.parm.bias branchOverJump = .ok a ∧
      assemble Thumb.instructionSet Target.armv6m.bias branchOverJump = .ok a' ∧
      parse Thumb.instructionSet branchOverJump = .ok p ∧ a'.words.length = p.size ∧
      a'.symbols = a.symbols ∧ (1, .instruction i) ∈ p.addressed ∧ i.format.branch = true ∧
      (∃ w w', a.words[1]? = some w ∧ a'.words[1]? = some w' ∧ i.Shifts 1 w w') ∧
      report Thumb.instructionSet { Target.parm with bias := 200 } none branchOverJump =
        .ok (.failure d) ∧ d.kind = .range ∧ d.place.token = "end".toList := by
  have heval : (assemble Thumb.instructionSet Target.parm.bias branchOverJump).toOption.any
      (fun a => a.words = [0x2001, 0xd1ff, 0xe7fb]) = true := by decide +kernel
  have heval' : (assemble Thumb.instructionSet Target.armv6m.bias branchOverJump).toOption.any
      (fun a => a.words = [0x2001, 0xd100, 0xe7fc]) = true := by decide +kernel
  have hfar : (assemble Thumb.instructionSet 200 branchOverJump).toOption = none := by
    decide +kernel
  have hbranch : (parse Thumb.instructionSet branchOverJump).toOption.any
      (fun p => p.addressed.any fun x => x.1 = 1 && x.2.instruction?.any fun i => i.format.branch) =
        true := by decide +kernel
  have htoken : (report Thumb.instructionSet { Target.parm with bias := 200 } none
      branchOverJump).toOption.map (fun r => r.diagnostic?.map fun d => d.place.token) =
        some (some "end".toList) := by decide +kernel
  obtain ⟨a, ha, -⟩ := exists_ok_of_any heval
  obtain ⟨a', ha', -⟩ := exists_ok_of_any heval'
  obtain ⟨p, hp, hboth, -⟩ := @bias_moves_only_offsets Target.parm Target.armv6m _ a ha
  obtain ⟨-, hlength, hsymbols, hshifts⟩ := hboth a' ha'
  obtain ⟨_, -, -, hfails⟩ :=
    @bias_moves_only_offsets Target.parm { Target.parm with bias := 200 } _ a ha
  have hnone (b : Assembly) : assemble Thumb.instructionSet 200 branchOverJump ≠ .ok b := by
    intro hb
    rw [hb] at hfar
    cases hfar
  obtain ⟨d, hd, hkind, -⟩ := hfails hnone (by decide +kernel) none
  rw [hd] at htoken
  obtain ⟨p', hp', htest⟩ := exists_ok_of_any hbranch
  obtain rfl := Except.ok.inj (hp.symm.trans hp')
  obtain ⟨⟨address, e⟩, hmem, hx⟩ := List.any_eq_true.1 htest
  obtain ⟨haddress, he⟩ := (Bool.and_eq_true _ _).mp hx
  obtain rfl : address = 1 := of_decide_eq_true haddress
  cases e with
  | label l => cases he
  | instruction i =>
      exact ⟨a, a', p, i, d, ha, ha', hp, hlength, hsymbols, hmem, he, hshifts 1 i hmem, hd, hkind,
        Option.some_inj.1 (Option.some_inj.1 htoken)⟩

end ThumbAssembler
