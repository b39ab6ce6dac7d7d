/-
**A word is the word of one instruction only.**

Two instructions with the same word do the same: they have the same mnemonic, condition, registers
and numbers.  They can still be written in two ways, since two conditions have a second name, and
multiplication may repeat its first register.  So the words of an assembled source determine its
resolved program up to these spellings.

Main definitions:

* `ThumbAssembler.Condition.mnemonics` — the mnemonics of the branch on a condition;
* `ThumbAssembler.SameSpelling` — two printed instructions differ in the two ways above at most;
* `ThumbAssembler.Instruction.Named` — the mnemonic of an instruction finds its format;
* `ThumbAssembler.Instruction.operation` — what an instruction does, however it is written.

Main results:

* `ThumbAssembler.Instruction.Named.mnemonic_cases` — the mnemonic is given by the format and the
  condition, up to second names;
* `ThumbAssembler.operation_eq_of_encode_eq` — **instructions with the same word do the same**;
* `ThumbAssembler.instructions_eq_of_words_eq` — **sources with the same words have the same
  resolved instructions**.
-/

import Mathlib
import ThumbAssembler.Proofs.PrintedInstruction
import ThumbAssembler.Proofs.ResolvedInstruction

set_option autoImplicit false

namespace ThumbAssembler

/-! ### Conditions and their names -/

namespace Condition

theorem code_injective : Function.Injective code := by
  intro c c' h
  have hcodes : ∀ c ∈ all, ∀ c' ∈ all, c.code = c'.code → c = c' := by decide
  exact hcodes c c.mem_all c' c'.mem_all h

/-- The mnemonics of the branch on a condition, in small letters. -/
def mnemonics (c : Condition) : List Text :=
  c.mnemonic :: (aliases.filter fun a => a.2 = c).map fun a => 'b' :: a.1.lower

end Condition

theorem upperChar_of_isIdentifierPart {c : Char} (h : isIdentifierPart c = true) :
    (upperChar c).toLower = c.toLower := by
  have hc := toNat_of_isIdentifierPart h
  have hdotless : c ≠ Char.ofNat 0x131 := ne_of_toNat_ne (by simp; omega)
  have hlong : c ≠ Char.ofNat 0x17F := ne_of_toNat_ne (by simp; omega)
  rw [upperChar, if_neg hdotless, if_neg hlong, Char.toLower_toUpper_eq_toLower]

/-- An identifier can be put in capitals and back. -/
theorem lower_upper {t : Text} (h : ∀ c ∈ t, isIdentifierPart c = true) :
    t.upper.lower = t.lower := by
  rw [Text.upper, Text.lower, List.map_map]
  exact List.map_congr_left fun c hc => upperChar_of_isIdentifierPart (h c hc)

/-- A mnemonic that denotes a condition is one of the mnemonics of the condition. -/
theorem mem_mnemonics_of_branchCondition? {t : Text} {c : Condition} (hidentifier : IsIdentifier t)
    (hlower : t.lower = t) (h : InstructionSet.branchCondition? t = some c) : t ∈ c.mnemonics := by
  unfold InstructionSet.branchCondition? at h
  split at h
  · rename_i rest
    have hrest : (Text.upper rest).lower = rest := by
      rw [lower_upper hidentifier.2]
      exact (List.cons.inj hlower).2
    simp only [Condition.ofName?, Condition.ofCapitals?] at h
    split at h
    · rename_i c' hfind
      obtain rfl := Option.some_inj.1 h
      have hname : c'.name = Text.upper rest := by simpa using List.find?_some hfind
      rw [Condition.mnemonics, Condition.mnemonic, hname, hrest]
      exact List.mem_cons_self
    · refine List.mem_cons_of_mem _ (List.mem_map.2 ⟨(Text.upper rest, c), ?_, by rw [hrest]⟩)
      obtain ⟨before, after, hsplit, -⟩ := List.lookup_eq_some_iff.1 h
      exact List.mem_filter.2 ⟨by rw [hsplit]; simp, by simp⟩
  · cases h

/-! ### Instructions of an assembled program -/

namespace Instruction

variable {isa : InstructionSet} {i j : Instruction} {w : Int}

/-- The mnemonic of the instruction finds its format and its condition. -/
structure Named (isa : InstructionSet) (i : Instruction) : Prop where
  identifier : IsIdentifier i.mnemonic
  lower : i.mnemonic.lower = i.mnemonic
  candidates : ∃ candidates, isa.lookup i.mnemonic = some candidates ∧
    i.condition = candidates.condition ∧ i.format ∈ candidates.formats

theorem Named.mem_allFormats (h : i.Named isa) : i.format ∈ isa.allFormats := by
  obtain ⟨candidates, hlookup, -, hformat⟩ := h.candidates
  exact isa.mem_allFormats_of_lookup hlookup hformat

/-- **The mnemonic of an instruction is given by its format and its condition**, up to the second
names of conditions. -/
theorem Named.mnemonic_cases (h : i.Named isa) (hregular : isa.Regular) :
    i.condition = none ∧ i.mnemonic = i.format.mnemonic ∨
      ∃ c, i.condition = some c ∧ i.format = isa.conditionalBranch ∧ i.mnemonic ∈ c.mnemonics := by
  obtain ⟨candidates, hlookup, hcondition, hformat⟩ := h.candidates
  unfold InstructionSet.lookup at hlookup
  rw [h.lower] at hlookup
  split at hlookup
  · rename_i formats hformats
    obtain rfl := Option.some_inj.1 hlookup
    exact Or.inl ⟨hcondition,
      (hregular.keyed _ (Assoc.mem_of_get?_eq_some hformats) _ hformat).symm⟩
  · obtain ⟨c, hc, rfl⟩ := Option.map_eq_some_iff.1 hlookup
    exact Or.inr ⟨c, hcondition, List.mem_singleton.1 hformat,
      mem_mnemonics_of_branchCondition? h.identifier h.lower hc⟩

end Instruction

/-- Linking an instruction that was read gives a named and resolved instruction. -/
theorem named_of_link {isa : InstructionSet} (hisa : isa.Sound) {source : Text} {p : Program}
    (hp : parse isa source = .ok p) {bias : Int} {table : SymbolTable} {k : Nat}
    {i i' : Instruction} (hi : .instruction i ∈ p)
    (hlink : linkEntry bias table (k, .instruction i) = .ok (.instruction i')) :
    i'.Named isa ∧ i'.Resolved := by
  obtain ⟨line, -, ⟨ts, hts, hread⟩, -⟩ := parse_readIn hisa hp hi
  obtain ⟨hresolved, hmnemonic, hformat, hcondition⟩ :=
    (hread.formed hisa).resolved hread.slots hlink
  obtain ⟨candidates, hlookup, hcandidate, hfind⟩ := hread.format
  obtain ⟨t, ht, hkind, hspelling⟩ := hread.mnemonic
  have hspelled := hts t ht
  rw [Token.SpelledIn, hkind] at hspelled
  refine ⟨⟨?_, ?_, candidates, ?_, ?_, ?_⟩, hresolved⟩
  · rw [hmnemonic, hspelling]
    exact hspelled.1.lower
  · rw [hmnemonic, hspelling, Text.lower_lower]
  · rw [hmnemonic, hlookup]
  · rw [hcondition, hcandidate]
  · rw [hformat]
    exact List.mem_of_find?_eq_some hfind

/-- The instructions of an assembled program are named and resolved, and have its words. -/
theorem instructions_of_assemble {isa : InstructionSet} (hisa : isa.Sound) {bias : Int}
    {source : Text} {a : Assembly} (h : assemble isa bias source = .ok a) :
    List.Forall₂ (fun i w => i.encode = .ok w) a.program.instructions a.words ∧
      ∀ i ∈ a.program.instructions, i.Named isa ∧ i.Resolved := by
  obtain ⟨p, q, words, hp, -, hq, hencode, rfl⟩ := assemble_eq_ok_iff.1 h
  refine ⟨mapM_eq_ok_iff.1 hencode, fun i' hi' => ?_⟩
  obtain ⟨e, he, hentry⟩ := List.mem_filterMap.1 hi'
  cases e with
  | label l => cases hentry
  | instruction j =>
      obtain rfl := Option.some_inj.1 hentry
      obtain ⟨⟨k, e⟩, hmem, hlink⟩ := exists_left_of_forall₂ hq he
      cases e with
      | label l => cases hlink
      | instruction i => exact named_of_link hisa hp (Program.mem_of_mem_addressed hmem) hlink

/-! ### Equal words -/

/-- What an instruction does: its mnemonic and condition, and the operands that it does not merely
repeat. -/
structure Operation where
  mnemonic : Text
  condition : Option Condition
  operands : List Operand.Content
  deriving DecidableEq, Repr

namespace Instruction

variable {i j : Instruction} {w : Int}

/-- What the instruction does, however it is written. -/
def operation (i : Instruction) : Operation where
  mnemonic := i.format.mnemonic
  condition := i.condition
  operands := ((i.format.slots.zip (i.operands.map Operand.content)).filter fun p =>
    p.1.tie = none).map Prod.snd

/-- Conditions that are packed into the same word are the same. -/
theorem Resolved.condition_eq (hi : i.Resolved) (hj : j.Resolved) (hformat : i.format = j.format)
    (hiw : i.encode = .ok w) (hjw : j.encode = .ok w) : i.condition = j.condition := by
  cases hc : i.format.conditional with
  | false =>
      have hinone := hi.condition
      have hjnone := hj.condition
      rw [hc] at hinone
      rw [← hformat, hc] at hjnone
      rw [Option.isNone_iff_eq_none.1 (Option.isSome_eq_false_iff.1 hinone.symm),
        Option.isNone_iff_eq_none.1 (Option.isSome_eq_false_iff.1 hjnone.symm)]
  | true =>
      have hwf := hi.sound.toWellFormed
      obtain ⟨g, c, hg, hname, hcond, hcode⟩ := meaning_read_condition hwf hi.complete hiw hc
      obtain ⟨g', c', hg', hname', hcond', hcode'⟩ :=
        meaning_read_condition hj.sound.toWellFormed hj.complete hjw (by rw [← hformat]; exact hc)
      rw [← hformat] at hg'
      obtain rfl : g' = g :=
        List.inj_on_of_nodup_map hwf.names_nodup hg' hg (hname'.trans hname.symm)
      rw [hcond, hcond', Condition.code_injective (hcode.symm.trans hcode')]

/-- Resolved instructions with the same word have the same format, or one multiplies and repeats its
register and the other does not. -/
theorem Named.format_cases (hi : i.Named Thumb.instructionSet) (hj : j.Named Thumb.instructionSet)
    (hi' : i.Resolved) (hj' : j.Resolved) (hiw : i.encode = .ok w) (hjw : j.encode = .ok w) :
    i.format = j.format ∨
      i.format = Thumb.multiplyRepeated 0xD ∧ j.format = Thumb.multiply 0xD ∨
      i.format = Thumb.multiply 0xD ∧ j.format = Thumb.multiplyRepeated 0xD := by
  have hwf := hi'.sound.toWellFormed
  have hwf' := hj'.sound.toWellFormed
  obtain ⟨-, -, hopcode⟩ := word_mem_range hwf hi'.complete hiw
  obtain ⟨-, -, hopcode'⟩ := word_mem_range hwf' hj'.complete hjw
  exact Thumb.eq_or_multiply_of_comparable _ hi.mem_allFormats _ hj.mem_allFormats
    (Format.comparable_of_opcode_eq hwf hwf' hopcode hopcode')

end Instruction

/-- The operands that a word gives to a multiplication. -/
theorem Thumb.contents_multiply (w : Int) : ∃ d n,
    (multiply 0xD).slots.map ((multiply 0xD).contentOf .immediate w) =
        [.register d, .register n] ∧
      (multiplyRepeated 0xD).slots.map ((multiplyRepeated 0xD).contentOf .immediate w) =
        [.register d, .register n, .register d] := ⟨_, _, rfl, rfl⟩

section EqualWords

variable {i j : Instruction} {w : Int}

theorem Instruction.Named.contents_eq (h : i.Named Thumb.instructionSet) (h' : i.Resolved)
    (hw : i.encode = .ok w) :
    i.operands.map Operand.content = i.format.slots.map (i.format.contentOf .immediate w) :=
  h'.contents_eq (Thumb.instructionSet_regular.formats _ h.mem_allFormats) hw

theorem Instruction.Resolved.condition_eq_none (h : i.Resolved)
    (hc : i.format.conditional = false) :
    i.condition = none := by
  have hcondition := h.condition
  rw [hc] at hcondition
  exact Option.isNone_iff_eq_none.1 (Option.isSome_eq_false_iff.1 hcondition.symm)

/-- **Instructions with the same word do the same.** -/
theorem operation_eq_of_encode_eq (hi : i.Named Thumb.instructionSet)
    (hj : j.Named Thumb.instructionSet) (hi' : i.Resolved) (hj' : j.Resolved)
    (hiw : i.encode = .ok w) (hjw : j.encode = .ok w) : i.operation = j.operation := by
  have hcontents := hi.contents_eq hi' hiw
  have hcontents' := hj.contents_eq hj' hjw
  rcases hi.format_cases hj hi' hj' hiw hjw with heq | ⟨hf, hg⟩ | ⟨hf, hg⟩
  · rw [Instruction.operation, Instruction.operation, hcontents, hcontents', heq,
      hi'.condition_eq hj' heq hiw hjw]
  all_goals
    have hnone := hi'.condition_eq_none (by rw [hf]; rfl)
    have hnone' := hj'.condition_eq_none (by rw [hg]; rfl)
    rw [Instruction.operation, Instruction.operation, hcontents, hcontents', hf, hg, hnone, hnone']
    rfl

/-! ### Spellings -/

/-- The second text spells an instruction of the first in another way: by the second name of a
condition, or by repeating the first register of a multiplication. -/
inductive Respelled : Text → Text → Prop
  | higherOrSame (operands : Text) :
      Respelled ("bcs ".toList ++ operands) ("bhs ".toList ++ operands)
  | lower (operands : Text) : Respelled ("bcc ".toList ++ operands) ("blo ".toList ++ operands)
  | repeated (d n : Int) :
      Respelled ("muls r".toList ++ decimal d ++ ", r".toList ++ decimal n)
        ("muls r".toList ++ decimal d ++ ", r".toList ++ decimal n ++ ", r".toList ++ decimal d)

/-- The texts are equal, or one spells the other in another way. -/
def SameSpelling (t t' : Text) : Prop := t = t' ∨ Respelled t t' ∨ Respelled t' t

/-- Only two conditions have two mnemonics. -/
theorem Condition.mnemonics_cases (c : Condition) : ∀ t ∈ c.mnemonics, ∀ t' ∈ c.mnemonics,
    t = t' ∨ t = "bcs".toList ∧ t' = "bhs".toList ∨ t = "bhs".toList ∧ t' = "bcs".toList ∨
      t = "bcc".toList ∧ t' = "blo".toList ∨ t = "blo".toList ∧ t' = "bcc".toList := by
  cases c <;> decide

theorem render_of_contents {contents : List Operand.Content} {text : Text}
    (h : i.operands.map Operand.content = contents) (htext : renderList contents = text)
    (hne : text ≠ []) : i.render = i.mnemonic ++ " ".toList ++ text := by
  have hoperands : i.renderOperands = text := by
    rw [Instruction.renderOperands, ← htext, ← h, renderList, List.map_map]
    rfl
  rw [Instruction.render, hoperands, if_neg (by simpa using hne)]

theorem render_congr (hmnemonic : i.mnemonic = j.mnemonic)
    (hcontents : i.operands.map Operand.content = j.operands.map Operand.content) :
    i.render = j.render := by
  have hoperands : i.renderOperands = j.renderOperands := by
    have hrender := congrArg (List.map Operand.Content.render) hcontents
    rw [List.map_map, List.map_map] at hrender
    exact congrArg (Text.joined ", ".toList) hrender
  rw [Instruction.render, Instruction.render, hoperands, hmnemonic]

/-- A branch on a condition is printed in one way, up to the name of the condition. -/
theorem sameSpelling_of_mnemonics {c : Condition} (hi : i.mnemonic ∈ c.mnemonics)
    (hj : j.mnemonic ∈ c.mnemonics) {offset : Int}
    (hcontents : i.operands.map Operand.content = [.immediate offset])
    (hcontents' : j.operands.map Operand.content = [.immediate offset]) :
    SameSpelling i.render j.render := by
  have hrender := render_of_contents hcontents (renderList_singleton _)
    (by simp [Operand.Content.render])
  have hrender' := render_of_contents hcontents' (renderList_singleton _)
    (by simp [Operand.Content.render])
  rw [hrender, hrender']
  rcases c.mnemonics_cases _ hi _ hj with h | ⟨h, h'⟩ | ⟨h, h'⟩ | ⟨h, h'⟩ | ⟨h, h'⟩
  · exact Or.inl (by rw [h])
  all_goals rw [h, h']
  · exact Or.inr (Or.inl (.higherOrSame _))
  · exact Or.inr (Or.inr (.higherOrSame _))
  · exact Or.inr (Or.inl (.lower _))
  · exact Or.inr (Or.inr (.lower _))

theorem mnemonic_of_unconditional (hi : i.Named Thumb.instructionSet) (hi' : i.Resolved)
    (hc : i.format.conditional = false) : i.mnemonic = i.format.mnemonic := by
  rcases hi.mnemonic_cases Thumb.instructionSet_regular with ⟨-, h⟩ | ⟨c, hc', -, -⟩
  · exact h
  · rw [hi'.condition_eq_none hc] at hc'
    cases hc'

/-- A multiplication is printed in one way, up to the repeated register. -/
theorem respelled_multiply (hi : i.Named Thumb.instructionSet)
    (hj : j.Named Thumb.instructionSet) (hi' : i.Resolved) (hj' : j.Resolved)
    (hiw : i.encode = .ok w) (hjw : j.encode = .ok w) (hf : i.format = Thumb.multiply 0xD)
    (hg : j.format = Thumb.multiplyRepeated 0xD) : Respelled i.render j.render := by
  have hmnemonic : i.mnemonic = "muls".toList := by
    rw [mnemonic_of_unconditional hi hi' (by rw [hf]; rfl), hf]
    rfl
  have hmnemonic' : j.mnemonic = "muls".toList := by
    rw [mnemonic_of_unconditional hj hj' (by rw [hg]; rfl), hg]
    rfl
  have hcontents := hi.contents_eq hi' hiw
  have hcontents' := hj.contents_eq hj' hjw
  obtain ⟨d, n, hshort, hlong⟩ := Thumb.contents_multiply w
  rw [hf, hshort] at hcontents
  rw [hg, hlong] at hcontents'
  have hrender : i.render = "muls r".toList ++ decimal d ++ ", r".toList ++ decimal n := by
    rw [render_of_contents hcontents rfl (by simp [renderList_cons_cons]), hmnemonic,
      renderList_cons_cons, renderList_singleton]
    simp [Operand.Content.render]
  have hrender' : j.render =
      "muls r".toList ++ decimal d ++ ", r".toList ++ decimal n ++ ", r".toList ++ decimal d := by
    rw [render_of_contents hcontents' rfl (by simp [renderList_cons_cons]), hmnemonic',
      renderList_cons_cons, renderList_cons_cons, renderList_singleton]
    simp [Operand.Content.render]
  rw [hrender, hrender']
  exact .repeated d n

/-- **Instructions with the same word are printed alike**, up to spelling. -/
theorem sameSpelling_of_encode_eq (hi : i.Named Thumb.instructionSet)
    (hj : j.Named Thumb.instructionSet) (hi' : i.Resolved) (hj' : j.Resolved)
    (hiw : i.encode = .ok w) (hjw : j.encode = .ok w) : SameSpelling i.render j.render := by
  have hcontents := hi.contents_eq hi' hiw
  have hcontents' := hj.contents_eq hj' hjw
  rcases hi.format_cases hj hi' hj' hiw hjw with heq | ⟨hf, hg⟩ | ⟨hf, hg⟩
  · have hcondition := hi'.condition_eq hj' heq hiw hjw
    rcases hi.mnemonic_cases Thumb.instructionSet_regular with
      ⟨hnone, hmnemonic⟩ | ⟨c, hc, hf, hmem⟩
    · rcases hj.mnemonic_cases Thumb.instructionSet_regular with ⟨-, hmnemonic'⟩ | ⟨c', hc', -, -⟩
      · refine Or.inl (render_congr ?_ ?_)
        · rw [hmnemonic, hmnemonic', heq]
        · rw [hcontents, hcontents', heq]
      · rw [hcondition, hc'] at hnone
        cases hnone
    · rcases hj.mnemonic_cases Thumb.instructionSet_regular with ⟨hnone', -⟩ | ⟨c', hc', -, hmem'⟩
      · rw [hcondition, hnone'] at hc
        cases hc
      · obtain rfl : c' = c := Option.some_inj.1 (by rw [← hc', ← hcondition, hc])
        have hg := heq.symm.trans hf
        rw [hf] at hcontents
        rw [hg] at hcontents'
        exact sameSpelling_of_mnemonics hmem hmem' hcontents hcontents'
  · exact Or.inr (Or.inr (respelled_multiply hj hi hj' hi' hjw hiw hg hf))
  · exact Or.inr (Or.inl (respelled_multiply hi hj hi' hj' hiw hjw hf hg))

/-- The numbers of an instruction that has a word can be printed. -/
theorem printed_of_encode (hi : i.Named Thumb.instructionSet) (hi' : i.Resolved)
    (hw : i.encode = .ok w) : i.printed = .ok i.render := by
  have hall : i.numbers.all isPrintable = true := by
    refine List.all_eq_true.2 fun v hv => ?_
    obtain ⟨o, ho, hv⟩ := List.mem_filterMap.1 hv
    have hmem := List.mem_map_of_mem (f := Operand.content) ho
    rw [hi.contents_eq hi' hw] at hmem
    obtain ⟨s, hs, hcontent⟩ := List.mem_map.1 hmem
    rw [Operand.value?, ← hcontent, Format.contentOf] at hv
    have hprint : isPrintable (i.format.slotValue w s) = true :=
      Format.isPrintable_slotValue hi'.sound hs
    cases hkind : s.kind <;> simp_all [OperandKind.content, Operand.Content.value?]
  rw [Instruction.printed, printing, if_pos hall]

/-- Linked branches with the same word have the same offset. -/
theorem offset_eq_of_encode_eq {o o' : Operand} {offset offset' : Int}
    (hi : (i.linked o offset).Named Thumb.instructionSet) (hi' : (i.linked o offset).Resolved)
    (hj : (j.linked o' offset').Named Thumb.instructionSet) (hj' : (j.linked o' offset').Resolved)
    (hiw : (i.linked o offset).encode = .ok w) (hjw : (j.linked o' offset').encode = .ok w) :
    offset = offset' := by
  have hcontents : [Operand.Content.immediate offset] = _ := hi.contents_eq hi' hiw
  have hcontents' : [Operand.Content.immediate offset'] = _ := hj.contents_eq hj' hjw
  have hlength := congrArg List.length hcontents
  have hlength' := congrArg List.length hcontents'
  rcases hi.format_cases hj hi' hj' hiw hjw with heq | ⟨hf, -⟩ | ⟨-, hg⟩
  · rw [heq, ← hcontents'] at hcontents
    exact Operand.Content.immediate.inj (List.cons.inj hcontents).1
  -- a multiplication has more than one operand
  · rw [hf] at hlength
    cases hlength
  · rw [hg] at hlength'
    cases hlength'

end EqualWords

/-! ### Sources with the same words -/

section EqualSources

variable {bias : Int} {source source' : Text} {a a' : Assembly}

/-- Branches at the same address lead to labels at the same address, if the words are the same. -/
theorem address?_eq_of_words_eq (h : assemble Thumb.instructionSet bias source = .ok a)
    (h' : assemble Thumb.instructionSet bias source' = .ok a') (hwords : a.words = a'.words)
    {p p' : Program} (hp : parse Thumb.instructionSet source = .ok p)
    (hp' : parse Thumb.instructionSet source' = .ok p') {k : Nat} {i i' : Instruction}
    (hi : (k, .instruction i) ∈ p.addressed) (hi' : (k, .instruction i') ∈ p'.addressed)
    {o o' : Operand} {name name' : Text} (href : i.RefersTo o name)
    (href' : i'.RefersTo o' name') : a.symbols.address? name = a'.symbols.address? name' := by
  have hisa := Thumb.instructionSet_sound
  obtain ⟨p₁, q, words, hp₁, -, hq, hencode, rfl⟩ := assemble_eq_ok_iff.1 h
  obtain ⟨p₂, q', words', hp₂, -, hq', hencode', rfl⟩ := assemble_eq_ok_iff.1 h'
  obtain rfl : p₁ = p := Except.ok.inj (hp₁.symm.trans hp)
  obtain rfl : p₂ = p' := Except.ok.inj (hp₂.symm.trans hp')
  obtain rfl : words = words' := hwords
  have hmem := Program.mem_of_mem_addressed hi
  have hmem' := Program.mem_of_mem_addressed hi'
  obtain ⟨j, w, hlink, hw, -, hget⟩ := (encode_linked hq hencode).2 k i hi
  obtain ⟨j', w', hlink', hw', -, hget'⟩ := (encode_linked hq' hencode').2 k i' hi'
  obtain rfl : w = w' := Option.some_inj.1 (hget.symm.trans hget')
  obtain ⟨hnamed, hresolved⟩ := named_of_link hisa hp hmem hlink
  obtain ⟨hnamed', hresolved'⟩ := named_of_link hisa hp' hmem' hlink'
  obtain ⟨t, ht, rfl⟩ := (Instruction.formed_of_parse hisa hp hmem).eq_linked href hlink
  obtain ⟨t', ht', rfl⟩ := (Instruction.formed_of_parse hisa hp' hmem').eq_linked href' hlink'
  -- equal offsets from equal addresses
  have hoffset := offset_eq_of_encode_eq hnamed hresolved hnamed' hresolved' hw hw'
  have htarget : t = t' := by omega
  rw [ht, ht', htarget]

/-- **Sources with the same words have the same resolved instructions.**  There are as many of them,
they are printed alike up to spelling, and branches lead to the same address.  Instructions that do
different things have different words. -/
theorem instructions_eq_of_words_eq (h : assemble Thumb.instructionSet bias source = .ok a)
    (h' : assemble Thumb.instructionSet bias source' = .ok a') (hwords : a.words = a'.words) :
    a.program.size = a'.program.size ∧
      (∀ (k : Nat) (i i' : Instruction), a.program.instructions[k]? = some i →
        a'.program.instructions[k]? = some i' → ∃ t t', i.printed = .ok t ∧
          i'.printed = .ok t' ∧ SameSpelling t t') ∧
      (∀ i ∈ a.program.instructions, ∀ i' ∈ a'.program.instructions,
        i.operation ≠ i'.operation → i.encode ≠ i'.encode) ∧
      ∀ p p' k i i' o o' name name', parse Thumb.instructionSet source = .ok p →
        parse Thumb.instructionSet source' = .ok p' → (k, .instruction i) ∈ p.addressed →
        (k, .instruction i') ∈ p'.addressed → i.RefersTo o name → i'.RefersTo o' name' →
        a.symbols.address? name = a'.symbols.address? name' := by
  obtain ⟨hencode, hnamed⟩ := instructions_of_assemble Thumb.instructionSet_sound h
  obtain ⟨hencode', hnamed'⟩ := instructions_of_assemble Thumb.instructionSet_sound h'
  refine ⟨?_, ?_, ?_, ?_⟩
  · rw [Program.size, Program.size, hencode.length_eq, hencode'.length_eq, hwords]
  · intro k i i' hi hi'
    obtain ⟨hi₁, hi₂⟩ := hnamed i (List.mem_of_getElem? hi)
    obtain ⟨hi₁', hi₂'⟩ := hnamed' i' (List.mem_of_getElem? hi')
    obtain ⟨w, hget, hw⟩ := exists_getElem?_of_forall₂ hencode hi
    obtain ⟨w', hget', hw'⟩ := exists_getElem?_of_forall₂ hencode' hi'
    rw [hwords] at hget
    obtain rfl : w = w' := Option.some_inj.1 (hget.symm.trans hget')
    exact ⟨_, _, printed_of_encode hi₁ hi₂ hw, printed_of_encode hi₁' hi₂' hw',
      sameSpelling_of_encode_eq hi₁ hi₁' hi₂ hi₂' hw hw'⟩
  · intro i hi i' hi' hne heq
    obtain ⟨hi₁, hi₂⟩ := hnamed i hi
    obtain ⟨hi₁', hi₂'⟩ := hnamed' i' hi'
    obtain ⟨k, hk⟩ := List.mem_iff_getElem?.1 hi
    obtain ⟨w, -, hw⟩ := exists_getElem?_of_forall₂ hencode hk
    exact hne (operation_eq_of_encode_eq hi₁ hi₁' hi₂ hi₂' hw (heq ▸ hw))
  · intro p p' k i i' o o' name name' hp hp' hi hi' href href'
    exact address?_eq_of_words_eq h h' hwords hp hp' hi hi' href href'

end EqualSources

/-- A branch by either name of its condition and a multiplication with and without the repeated
register. -/
theorem instructions_eq_of_words_eq_respelled :
    ∃ a a', assemble Thumb.instructionSet 3 "bhs end\nmuls r1, r2, r1\nend:".toList = .ok a ∧
      assemble Thumb.instructionSet 3 "top: bcs stop\nmuls r1, r2\nstop:".toList = .ok a' ∧
      a.words = a'.words ∧
      a.program.instructions.mapM Instruction.printed =
        .ok (["bhs #-1", "muls r1, r2, r1"].map String.toList) ∧
      a'.program.instructions.mapM Instruction.printed =
        .ok (["bcs #-1", "muls r1, r2"].map String.toList) ∧
      a.program.size = a'.program.size ∧
      ∀ (k : Nat) (i i' : Instruction), a.program.instructions[k]? = some i →
        a'.program.instructions[k]? = some i' → ∃ t t', i.printed = .ok t ∧
          i'.printed = .ok t' ∧ SameSpelling t t' := by
  have hprinted : (assemble Thumb.instructionSet 3
      "bhs end\nmuls r1, r2, r1\nend:".toList).toOption.any (fun a =>
        a.words = [0xD2FF, 0x4351] && (a.program.instructions.mapM Instruction.printed).toOption =
          some (["bhs #-1", "muls r1, r2, r1"].map String.toList)) = true := by decide +kernel
  have hprinted' : (assemble Thumb.instructionSet 3
      "top: bcs stop\nmuls r1, r2\nstop:".toList).toOption.any (fun a =>
        a.words = [0xD2FF, 0x4351] && (a.program.instructions.mapM Instruction.printed).toOption =
          some (["bcs #-1", "muls r1, r2"].map String.toList)) = true := by decide +kernel
  obtain ⟨a, ha, heval⟩ := exists_ok_of_any hprinted
  obtain ⟨a', ha', heval'⟩ := exists_ok_of_any hprinted'
  simp only [Bool.and_eq_true, decide_eq_true_eq] at heval heval'
  have hwords : a.words = a'.words := by rw [heval.1, heval'.1]
  obtain ⟨hsize, hsame, -⟩ := instructions_eq_of_words_eq ha ha' hwords
  exact ⟨a, a', ha, ha', hwords, toOption_eq_some_iff.1 heval.2, toOption_eq_some_iff.1 heval'.2,
    hsize, hsame⟩

end ThumbAssembler
