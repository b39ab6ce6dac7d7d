/-
**Encoding and decoding instructions.**

The word of an instruction is put together by disjunction: the opcode on top, the condition and
every operand in a field of its own.  In a well-formed format the fields share no bits with each
other and none with the opcode, so each of them is read back as if the others were not there.  An
instruction has a word exactly when every operand that feeds a field is a value that this field can
hold; otherwise the first operand that is not is reported.

Main definitions:

* `ThumbAssembler.Field.InWord` — a well-formed field that lies within a word;
* `ThumbAssembler.Format.WellFormed` — a format whose fields and slots fit together;
* `ThumbAssembler.Instruction.feeds` — the operands that feed fields, in slot order;
* `ThumbAssembler.Instruction.Complete` — an instruction with everything that its format needs;
* `ThumbAssembler.Instruction.Fits` — an operand is a value that its field can hold;
* `ThumbAssembler.Instruction.FirstMisfit` — an operand is the first that does not fit.

Main results:

* `ThumbAssembler.Instruction.encode_eq` — the word as a disjunction of placed operands;
* `ThumbAssembler.Instruction.encode_eq_error_iff` — the failure of encoding;
* `ThumbAssembler.Format.decode_eq` — the decoding of a word;
* `ThumbAssembler.Instruction.decode_encode` — **encoding fails exactly on an operand that does not
  fit, and decoding gives back what was encoded**.
-/

import Mathlib
import ThumbAssembler.Encoding
import ThumbAssembler.Proofs.FieldLaws
import ThumbAssembler.Proofs.FirstFailure
import ThumbAssembler.Thumb

set_option autoImplicit false

namespace ThumbAssembler

/-! ### Well-formed formats -/

/-- A well-formed field that lies within a word. -/
structure Field.InWord (g : Field) : Prop extends g.WellFormed where
  end_le : g.offset + g.width ≤ wordBits

/-- The bits of a word make one digit. -/
theorem Field.digitCount_le_one {n : Nat} (h : (n : Int) ≤ wordBits) : digitCount n ≤ 1 := by
  simp only [wordBits] at h
  unfold digitCount
  omega

theorem Field.InWord.countable {g : Field} (h : g.InWord) : g.Countable := by
  have hend := h.end_le
  have ho := h.offset_nonneg
  have hw := h.width_pos
  have hwidth : digitCount g.width.toNat ≤ 1 := digitCount_le_one (by omega)
  unfold Countable digitLimit
  omega

theorem Field.InWord.movable {g : Field} (h : g.InWord) : g.Movable := by
  have hend := h.end_le
  have ho := h.offset_nonneg
  have hw := h.width_pos
  have hwidth : digitCount g.width.toNat ≤ 1 := digitCount_le_one (by omega)
  have hoffset : digitCount g.offset.toNat ≤ 1 := digitCount_le_one (by omega)
  unfold Movable digitLimit
  omega

/-- The names of the fields that the slots of a format feed, in slot order. -/
def Format.fedNames (f : Format) : List Text := f.slots.filterMap Slot.field

/-- A format in which the opcode and the fields share no bits, names are unique, and the slots feed
different fields.  The condition of a conditional format has a field of its own. -/
structure Format.WellFormed (f : Format) : Prop where
  opcodeWidth_nonneg : 0 ≤ f.opcodeWidth
  opcodeWidth_le : f.opcodeWidth ≤ wordBits
  opcode_nonneg : 0 ≤ f.opcode
  opcode_lt : f.opcode < Bits.weight f.opcodeWidth.toNat
  names_nodup : (f.fields.map Field.name).Nodup
  opcode_not_mem : "opcode".toList ∉ f.fields.map Field.name
  width_pos : ∀ g ∈ f.fields, 1 ≤ g.width
  offset_nonneg : ∀ g ∈ f.fields, 0 ≤ g.offset
  scale_pos : ∀ g ∈ f.fields, 1 ≤ g.scale
  below_opcode : ∀ g ∈ f.fields, g.offset + g.width ≤ f.opcodeOffset
  disjoint : f.fields.Pairwise Field.Disjoint
  fed_nodup : f.fedNames.Nodup
  fed_mem : ∀ name ∈ f.fedNames, name ∈ f.fields.map Field.name
  condition : f.conditional = true → "cond".toList ∉ f.fedNames ∧
    ∃ g ∈ f.fields, g.name = "cond".toList ∧ g.width = 4 ∧ g.signed = false ∧ g.scale = 1

/-- Comparing texts decides equality, and so whether a name is among others. -/
instance Text.lawfulBEq : LawfulBEq Text := inferInstance

instance (f : Format) : Decidable f.WellFormed :=
  decidable_of_iff
    ((0 ≤ f.opcodeWidth ∧ f.opcodeWidth ≤ wordBits ∧ 0 ≤ f.opcode ∧
        f.opcode < Bits.weight f.opcodeWidth.toNat) ∧
      ((f.fields.map Field.name).Nodup ∧ "opcode".toList ∉ f.fields.map Field.name) ∧
      (∀ g ∈ f.fields,
        1 ≤ g.width ∧ 0 ≤ g.offset ∧ 1 ≤ g.scale ∧ g.offset + g.width ≤ f.opcodeOffset) ∧
      f.fields.Pairwise Field.Disjoint ∧
      (f.fedNames.Nodup ∧ ∀ name ∈ f.fedNames, name ∈ f.fields.map Field.name) ∧
      (f.conditional = true → "cond".toList ∉ f.fedNames ∧
        ∃ g ∈ f.fields, g.name = "cond".toList ∧ g.width = 4 ∧ g.signed = false ∧ g.scale = 1))
    ⟨fun ⟨⟨h₁, h₂, h₃, h₄⟩, ⟨h₅, h₆⟩, h₇, h₈, ⟨h₉, h₁₀⟩, h₁₁⟩ =>
        ⟨h₁, h₂, h₃, h₄, h₅, h₆, fun g hg => (h₇ g hg).1, fun g hg => (h₇ g hg).2.1,
          fun g hg => (h₇ g hg).2.2.1, fun g hg => (h₇ g hg).2.2.2, h₈, h₉, h₁₀, h₁₁⟩,
      fun h =>
        ⟨⟨h.opcodeWidth_nonneg, h.opcodeWidth_le, h.opcode_nonneg, h.opcode_lt⟩,
          ⟨h.names_nodup, h.opcode_not_mem⟩,
          fun g hg =>
            ⟨h.width_pos g hg, h.offset_nonneg g hg, h.scale_pos g hg, h.below_opcode g hg⟩,
          h.disjoint, ⟨h.fed_nodup, h.fed_mem⟩, h.condition⟩⟩

namespace Format

variable {f : Format}

theorem opcodeOffset_nonneg (h : f.WellFormed) : 0 ≤ f.opcodeOffset := by
  have hle := h.opcodeWidth_le
  unfold opcodeOffset
  omega

theorem opcodeOffset_le (h : f.WellFormed) : f.opcodeOffset ≤ wordBits := by
  have hge := h.opcodeWidth_nonneg
  unfold opcodeOffset
  omega

/-- The opcode and what is below it fill the word. -/
theorem opcodeWidth_add_offset (h : f.WellFormed) :
    f.opcodeWidth.toNat + f.opcodeOffset.toNat = 16 := by
  have hge := h.opcodeWidth_nonneg
  have hle := h.opcodeWidth_le
  unfold opcodeOffset
  simp only [wordBits] at hle ⊢
  omega

theorem WellFormed.field_inWord (h : f.WellFormed) {g : Field} (hg : g ∈ f.fields) :
    g.InWord where
  width_pos := h.width_pos g hg
  offset_nonneg := h.offset_nonneg g hg
  scale_pos := h.scale_pos g hg
  end_le := le_trans (h.below_opcode g hg) (opcodeOffset_le h)

theorem WellFormed.field_wellFormed (h : f.WellFormed) {g : Field} (hg : g ∈ f.fields) :
    g.WellFormed := (h.field_inWord hg).toWellFormed

theorem WellFormed.field_disjoint (h : f.WellFormed) {g g' : Field} (hg : g ∈ f.fields)
    (hg' : g' ∈ f.fields) (hne : g.name ≠ g'.name) : g.Disjoint g' :=
  h.disjoint.forall hg hg' fun heq => hne (congrArg Field.name heq)

/-- With unique names, the field of a name is the one in the list. -/
theorem field?_eq_some_iff (h : (f.fields.map Field.name).Nodup) {name : Text} {g : Field} :
    f.field? name = some g ↔ g ∈ f.fields ∧ g.name = name := by
  constructor
  · intro hg
    have hname := List.find?_some hg
    exact ⟨List.mem_reverse.1 (List.mem_of_find?_eq_some hg), by simpa using hname⟩
  · rintro ⟨hmem, rfl⟩
    cases hfound : f.field? g.name with
    | none =>
        have := List.find?_eq_none.1 hfound g (List.mem_reverse.2 hmem)
        simp at this
    | some g' =>
        have hname : g'.name = g.name := by simpa using List.find?_some hfound
        have hmem' : g' ∈ f.fields := List.mem_reverse.1 (List.mem_of_find?_eq_some hfound)
        rw [List.inj_on_of_nodup_map h hmem' hmem hname]

theorem field_eq_ok {name : Text} {g : Field} (h : f.field? name = some g) :
    f.field name = .ok g := by
  simp only [field, h]

/-! ### Decoding -/

/-- Reading the fields one after another adds each of them at the end. -/
theorem foldlM_extract {fields : List Field} (word : Int) (values : List (Text × Int))
    (hwf : ∀ g ∈ fields, g.InWord)
    (hnodup : (values.map Prod.fst ++ fields.map Field.name).Nodup) :
    fields.foldlM
        (fun values field => do return Assoc.put field.name (← field.extract word) values) values =
      .ok (values ++ fields.map fun g => (g.name, g.meaning (g.read word))) := by
  induction fields generalizing values with
  | nil => simp
  | cons g fields ih =>
      obtain ⟨hg, hwf⟩ := List.forall_mem_cons.1 hwf
      have hnew : g.name ∉ values.map Prod.fst := by
        intro hmem
        exact (List.nodup_append.1 hnodup).2.2 _ hmem _ (by simp) rfl
      have hnodup' :
          ((values ++ [(g.name, g.meaning (g.read word))]).map Prod.fst ++
            fields.map Field.name).Nodup := by
        simpa using hnodup
      rw [List.foldlM_cons, Field.extract_eq_meaning hg.toWellFormed hg.countable, ok_bind,
        pure_eq_ok, ok_bind, Assoc.put_of_not_mem _ hnew, ih _ hwf hnodup']
      simp

/-- **The decoding of a word**: the opcode, and the meaning of every field. -/
theorem decode_eq (h : f.WellFormed) (word : Int) :
    f.decode word =
      .ok (("opcode".toList, word / Bits.weight f.opcodeOffset.toNat) ::
        f.fields.map fun g => (g.name, g.meaning (g.read word))) := by
  have hnodup :
      ([("opcode".toList, word / Bits.weight f.opcodeOffset.toNat)].map Prod.fst ++
        f.fields.map Field.name).Nodup :=
    List.nodup_cons.2 ⟨h.opcode_not_mem, h.names_nodup⟩
  rw [decode, Field.shiftRight_eq_ok (opcodeOffset_nonneg h), ok_bind,
    foldlM_extract word _ (fun g hg => h.field_inWord hg) hnodup]
  rfl

/-- A decoding has the opcode and the fields, by name. -/
theorem get?_decode (h : f.WellFormed) {word : Int} {values : List (Text × Int)}
    (hdecode : f.decode word = .ok values) :
    values.map Prod.fst = "opcode".toList :: f.fields.map Field.name ∧
      Assoc.get? "opcode".toList values = some (word / Bits.weight f.opcodeOffset.toNat) ∧
      ∀ g ∈ f.fields, Assoc.get? g.name values = some (g.meaning (g.read word)) := by
  rw [decode_eq h, Except.ok.injEq] at hdecode
  subst hdecode
  have hnodup : ("opcode".toList :: f.fields.map Field.name).Nodup :=
    List.nodup_cons.2 ⟨h.opcode_not_mem, h.names_nodup⟩
  refine ⟨by simp, by simp [Assoc.get?], fun g hg => ?_⟩
  refine (Assoc.get?_eq_some_iff ?_ _ _).2 (List.mem_cons_of_mem _ ?_)
  · rw [List.map_cons, List.map_map]
    exact hnodup
  · exact List.mem_map.2 ⟨g, hg, rfl⟩

end Format

/-! ### Operands and their fields -/

/-- The operands of paired slots that feed fields, each with the name of its field. -/
def feeding (pairs : List (Slot × Operand)) : List (Text × Operand) :=
  pairs.filterMap fun p => p.1.field.map fun name => (name, p.2)

namespace Instruction

/-- The operands that feed fields, in slot order, each with the name of its field. -/
def feeds (i : Instruction) : List (Text × Operand) := feeding (i.format.slots.zip i.operands)

/-- The instruction has an operand for every slot, a number for every field, and a condition if its
format needs one. -/
structure Complete (i : Instruction) : Prop where
  length_eq : i.operands.length = i.format.slots.length
  valued : ∀ p ∈ i.feeds, ∃ v, p.2.value? = some v
  condition : i.format.conditional = true → ∃ c, i.condition = some c

/-- The operand is a value that its field can hold. -/
def Fits (i : Instruction) (p : Text × Operand) : Prop :=
  ∃ g v, i.format.field? p.1 = some g ∧ p.2.value? = some v ∧ g.Holds v

variable {i : Instruction}

theorem mem_operands_of_mem_feeds {p : Text × Operand} (h : p ∈ i.feeds) : p.2 ∈ i.operands := by
  obtain ⟨⟨slot, o⟩, hpair, hfeed⟩ := List.mem_filterMap.1 h
  obtain ⟨name, -, rfl⟩ := Option.map_eq_some_iff.1 hfeed
  exact (List.of_mem_zip hpair).2

/-- The word with the operands of the remaining slots is the disjunction of their bits. -/
theorem encodeSlots_eq (word : Int) (pairs : List (Slot × Operand)) :
    i.encodeSlots word pairs = do
      let parts ← (feeding pairs).mapM fun p => i.packOperand p.1 p.2
      return parts.foldl Bits.or word := by
  induction pairs generalizing word with
  | nil => rfl
  | cons pair pairs ih =>
      obtain ⟨slot, o⟩ := pair
      cases hfield : slot.field with
      | none =>
          have hfeeding : feeding ((slot, o) :: pairs) = feeding pairs := by
            simp [feeding, hfield]
          simp only [encodeSlots, hfield]
          rw [ih, hfeeding]
      | some name =>
          have hfeeding : feeding ((slot, o) :: pairs) = (name, o) :: feeding pairs := by
            simp [feeding, hfield]
          simp only [encodeSlots, hfield]
          rw [hfeeding, List.mapM_cons]
          cases i.packOperand name o with
          | error e => rfl
          | ok part =>
              rw [ok_bind, ok_bind, ih]
              cases (feeding pairs).mapM fun p => i.packOperand p.1 p.2 with
              | error e => rfl
              | ok parts => rfl

theorem isLabel_eq_false_of_value {o : Operand} {v : Int} (h : o.value? = some v) :
    o.isLabel = false := by
  obtain ⟨content, column, text⟩ := o
  cases content with
  | label name => simp [Operand.value?, Operand.Content.value?] at h
  | _ => rfl

/-- The bits of an operand that feeds a field, or the report that the field cannot hold it. -/
theorem packOperand_eq {name : Text} {o : Operand} {g : Field} {v : Int} (hg : g.InWord)
    (hfield : i.format.field? name = some g) (hv : o.value? = some v) :
    i.packOperand name o =
      if g.Holds v then .ok (g.placed v)
      else .error (rejection (.outOfRange i.mnemonic (i.subject name) v g.bounds) (i.place o)) := by
  have hvalue : i.fieldValue name o = .ok (g, v) := by
    simp [fieldValue, isLabel_eq_false_of_value hv, Format.field_eq_ok hfield, hv]
  have hfits := Field.fits_eq_decide hg.toWellFormed hg.countable v
  have hpack := Field.pack_eq_placed hg.toWellFormed hg.countable hg.movable v
  have hspan := Field.span_eq_ok hg.toWellFormed hg.countable
  simp only [packOperand, hvalue, ok_bind, hfits, hpack, hspan, liftField]
  by_cases hholds : g.Holds v
  · simp [hholds]
  · by_cases hprint : isPrintable v = true
    · simp [hholds, hprint, reject]
    · simp [hholds, hprint, rejection, Cause.numbers]

/-- Every operand that feeds a field has a field and a number. -/
theorem Complete.field_value (hf : i.format.WellFormed) (hi : i.Complete) {p : Text × Operand}
    (hp : p ∈ i.feeds) :
    ∃ g v, g ∈ i.format.fields ∧ g.name = p.1 ∧ i.format.field? p.1 = some g ∧
      p.2.value? = some v := by
  obtain ⟨v, hv⟩ := hi.valued p hp
  obtain ⟨⟨slot, o⟩, hpair, hslot⟩ := List.mem_filterMap.1 hp
  obtain ⟨name, hname, rfl⟩ := Option.map_eq_some_iff.1 hslot
  have hfed : name ∈ i.format.fedNames :=
    List.mem_filterMap.2 ⟨slot, (List.of_mem_zip hpair).1, hname⟩
  obtain ⟨g, hg, hgname⟩ := List.mem_map.1 (hf.fed_mem name hfed)
  exact ⟨g, v, hg, hgname, (Format.field?_eq_some_iff hf.names_nodup).2 ⟨hg, hgname⟩, hv⟩

/-! ### The word of an instruction -/

/-- The bits of the condition; none in a format that is not conditional. -/
def conditionPart (i : Instruction) : Int :=
  match i.format.conditional, i.format.field? "cond".toList, i.condition with
  | true, some g, some c => g.placed c.code
  | _, _, _ => 0

/-- The opcode and the condition. -/
def frame (i : Instruction) : Int :=
  Bits.or (i.format.opcode * Bits.weight i.format.opcodeOffset.toNat) i.conditionPart

theorem opcodeBits_eq {f : Format} (h : f.WellFormed) :
    opcodeBits f = .ok (f.opcode * Bits.weight f.opcodeOffset.toNat) := by
  have hcount : Bits.count f.opcode ≤ f.opcodeWidth.toNat :=
    Bits.count_le h.opcode_nonneg h.opcode_lt
  have hword := Format.opcodeWidth_add_offset h
  have hopcode : Field.digitCount (Bits.count f.opcode) ≤ 1 :=
    Field.digitCount_le_one (by simp only [wordBits]; omega)
  have hoffset : Field.digitCount f.opcodeOffset.toNat ≤ 1 :=
    Field.digitCount_le_one (by simp only [wordBits]; omega)
  have hroom : Field.digitCount (Bits.count f.opcode) + Field.digitCount f.opcodeOffset.toNat ≤
      Field.digitLimit := by
    unfold Field.digitLimit
    omega
  rw [opcodeBits, Field.shiftLeft_eq_ok (Format.opcodeOffset_nonneg h) hroom, liftField]

/-- The field and the code of the condition of a conditional format. -/
theorem condition_field (hf : i.format.WellFormed) (hi : i.Complete)
    (hc : i.format.conditional = true) :
    ∃ g c, g ∈ i.format.fields ∧ g.name = "cond".toList ∧ i.condition = some c ∧
      g.Holds c.code ∧ i.conditionPart = g.placed c.code ∧
      i.conditionBits = .ok (g.placed c.code) := by
  obtain ⟨c, hcond⟩ := hi.condition hc
  obtain ⟨-, g, hg, hname, hwidth, hsigned, hscale⟩ := hf.condition hc
  have hfield : i.format.field? "cond".toList = some g :=
    (Format.field?_eq_some_iff hf.names_nodup).2 ⟨hg, hname⟩
  have hholds : g.Holds c.code := by
    have hcode := c.code_lt
    have hhigh : g.bounds.high = 15 := by
      simp [Field.bounds, hsigned, hwidth, hscale, Bits.weight]
    have hlow : g.bounds.low = 0 := by simp [Field.bounds, hsigned]
    refine ⟨?_, ?_, ?_⟩
    · rw [hscale, Int.emod_one]
    · omega
    · omega
  have hword := hf.field_inWord hg
  have hpack := Field.pack_eq_placed hword.toWellFormed hword.countable hword.movable c.code
  refine ⟨g, c, hg, hname, hcond, hholds, ?_, ?_⟩
  · simp only [conditionPart, hc, hfield, hcond]
  · simp only [conditionBits, hc, if_true, Format.field_eq_ok hfield, ok_bind, hcond, hpack,
      liftField]

theorem conditionBits_eq (hf : i.format.WellFormed) (hi : i.Complete) :
    i.conditionBits = .ok i.conditionPart := by
  cases hc : i.format.conditional with
  | false => simp [conditionBits, conditionPart, hc]
  | true =>
      obtain ⟨g, c, -, -, -, -, hpart, hbits⟩ := condition_field hf hi hc
      rw [hbits, hpart]

/-- **The word of an instruction**: its frame with the bits of every operand that feeds a field. -/
theorem encode_eq (hf : i.format.WellFormed) (hi : i.Complete) :
    i.encode = do
      let parts ← i.feeds.mapM fun p => i.packOperand p.1 p.2
      return parts.foldl Bits.or i.frame := by
  rw [encode, opcodeBits_eq hf, ok_bind, conditionBits_eq hf hi, ok_bind, encodeSlots_eq]
  rfl

/-- The operand has a field that can hold its number, and `x` is this number in its place. -/
def PlacedBy (i : Instruction) (p : Text × Operand) (x : Int) : Prop :=
  ∃ g v, g ∈ i.format.fields ∧ g.name = p.1 ∧ p.2.value? = some v ∧ g.Holds v ∧ x = g.placed v

theorem packOperand_eq_ok_iff (hf : i.format.WellFormed) (hi : i.Complete) {p : Text × Operand}
    (hp : p ∈ i.feeds) (x : Int) : i.packOperand p.1 p.2 = .ok x ↔ i.PlacedBy p x := by
  obtain ⟨g, v, hg, hname, hfield, hv⟩ := hi.field_value hf hp
  rw [packOperand_eq (hf.field_inWord hg) hfield hv]
  constructor
  · intro h
    by_cases hholds : g.Holds v
    · rw [if_pos hholds] at h
      exact ⟨g, v, hg, hname, hv, hholds, (Except.ok.inj h).symm⟩
    · simp [hholds] at h
  · rintro ⟨g', v', hg', hname', hv', hholds, rfl⟩
    obtain rfl : g' = g :=
      List.inj_on_of_nodup_map hf.names_nodup hg' hg (hname'.trans hname.symm)
    obtain rfl : v' = v := Option.some_inj.1 (hv'.symm.trans hv)
    rw [if_pos hholds]

/-- Encoding succeeds exactly when every operand can be placed in its field. -/
theorem encode_eq_ok_iff (hf : i.format.WellFormed) (hi : i.Complete) {w : Int} :
    i.encode = .ok w ↔
      ∃ parts, List.Forall₂ i.PlacedBy i.feeds parts ∧ w = parts.foldl Bits.or i.frame := by
  rw [encode_eq hf hi, bind_eq_ok_iff]
  refine exists_congr fun parts => ?_
  rw [mapM_eq_ok_iff, forall₂_congr_of_mem fun p hp => packOperand_eq_ok_iff hf hi hp, pure_eq_ok,
    Except.ok.injEq, eq_comm (a := w)]

/-! ### Reading the word back -/

/-- The opcode leaves all fields empty. -/
theorem read_opcode {f : Format} (hf : f.WellFormed) {g : Field} (hg : g ∈ f.fields) :
    g.read (f.opcode * Bits.weight f.opcodeOffset.toNat) = 0 := by
  have hw := hf.width_pos g hg
  have ho := hf.offset_nonneg g hg
  have hbelow := hf.below_opcode g hg
  refine Bits.window_mul_weight_of_disjoint hf.opcode_nonneg hf.opcode_lt (Or.inr ?_)
  omega

/-- A field that does not hold the condition is empty before the operands are placed. -/
theorem read_frame_of_ne (hf : i.format.WellFormed) (hi : i.Complete) {g : Field}
    (hg : g ∈ i.format.fields) (hne : i.format.conditional = true → g.name ≠ "cond".toList) :
    g.read i.frame = 0 := by
  rw [frame, Field.read_or, read_opcode hf hg, Bits.zero_or]
  cases hc : i.format.conditional with
  | false =>
      have hpart : i.conditionPart = 0 := by simp [conditionPart, hc]
      rw [hpart]
      simp [Field.read, Bits.window]
  | true =>
      obtain ⟨g', c, hg', hname', -, -, hpart, -⟩ := condition_field hf hi hc
      have hdisjoint : g.Disjoint g' :=
        hf.field_disjoint hg hg' (by rw [hname']; exact hne hc)
      rw [hpart, Field.read_placed_of_disjoint (hf.field_wellFormed hg) (hf.field_wellFormed hg')
        hdisjoint]

/-- The operands leave a field that none of them feeds as it was. -/
theorem read_word_of_unfed (hf : i.format.WellFormed) {parts : List Int}
    {fed : List (Text × Operand)} (hparts : List.Forall₂ i.PlacedBy fed parts) {g : Field}
    (hg : g ∈ i.format.fields) (hunfed : g.name ∉ fed.map Prod.fst) (word : Int) :
    g.read (parts.foldl Bits.or word) = g.read word := by
  refine Field.read_foldl_or_of_zero g word fun x hx => ?_
  obtain ⟨p, hp, g', v, hg', hname', -, -, rfl⟩ := exists_left_of_forall₂ hparts hx
  have hne : g.name ≠ g'.name := by
    intro heq
    exact hunfed (List.mem_map.2 ⟨p, hp, by rw [heq, hname']⟩)
  exact Field.read_placed_of_disjoint (hf.field_wellFormed hg) (hf.field_wellFormed hg')
    (hf.field_disjoint hg hg' hne) v

/-- **An operand is read back from the field that it feeds**, if the field was empty. -/
theorem read_word_of_fed (hf : i.format.WellFormed) {parts : List Int}
    {fed : List (Text × Operand)} (hparts : List.Forall₂ i.PlacedBy fed parts)
    (hnodup : (fed.map Prod.fst).Nodup) {p : Text × Operand} (hp : p ∈ fed) {g : Field}
    (hg : g ∈ i.format.fields) (hname : g.name = p.1) {word : Int} (hempty : g.read word = 0) :
    ∃ v, p.2.value? = some v ∧ g.Holds v ∧ g.read (parts.foldl Bits.or word) = g.pattern v := by
  -- along the operands before it the field stays empty, and along those after it unchanged
  induction hparts generalizing word with
  | nil => simp at hp
  | @cons q x fed parts hq hparts ih =>
      obtain ⟨g', v, hg', hname', hv, hholds, rfl⟩ := hq
      rw [List.map_cons, List.nodup_cons] at hnodup
      rcases List.mem_cons.1 hp with rfl | hp
      · obtain rfl : g' = g :=
          List.inj_on_of_nodup_map hf.names_nodup hg' hg (hname'.trans hname.symm)
        refine ⟨v, hv, hholds, ?_⟩
        rw [List.foldl_cons, read_word_of_unfed hf hparts hg (by rw [hname]; exact hnodup.1),
          Field.read_or, hempty, Bits.zero_or, Field.read_placed_self]
      · -- the operand before it feeds another field
        have hne : g.name ≠ g'.name := by
          intro heq
          exact hnodup.1 (List.mem_map.2 ⟨p, hp, by rw [← hname, heq, hname']⟩)
        refine ih hnodup.2 hp ?_
        rw [Field.read_or, hempty, Bits.zero_or, Field.read_placed_of_disjoint
          (hf.field_wellFormed hg) (hf.field_wellFormed hg') (hf.field_disjoint hg hg' hne)]

/-- The names of the fields that operands feed are those that slots feed, in the same order. -/
theorem Complete.map_fst_feeds (hi : i.Complete) : i.feeds.map Prod.fst = i.format.fedNames := by
  have hmap : i.feeds.map Prod.fst =
      ((i.format.slots.zip i.operands).map Prod.fst).filterMap Slot.field := by
    rw [feeds, feeding, List.map_filterMap, List.filterMap_map]
    refine List.filterMap_congr fun p _ => ?_
    cases h : p.1.field <;> simp [h]
  rw [hmap, List.map_fst_zip hi.length_eq.ge, Format.fedNames]

/-- The placed operands lie below the opcode. -/
theorem parts_below_opcode (hf : i.format.WellFormed) {parts : List Int}
    {fed : List (Text × Operand)} (hparts : List.Forall₂ i.PlacedBy fed parts) :
    ∀ x ∈ parts, 0 ≤ x ∧ x < Bits.weight i.format.opcodeOffset.toNat := by
  intro x hx
  obtain ⟨p, -, g, v, hg, -, -, -, rfl⟩ := exists_left_of_forall₂ hparts hx
  have hbelow := hf.below_opcode g hg
  exact ⟨g.placed_nonneg v, Field.placed_lt (hf.field_wellFormed hg) v (by omega)⟩

theorem conditionPart_below_opcode (hf : i.format.WellFormed) (hi : i.Complete) :
    0 ≤ i.conditionPart ∧ i.conditionPart < Bits.weight i.format.opcodeOffset.toNat := by
  cases hc : i.format.conditional with
  | false =>
      have hpart : i.conditionPart = 0 := by simp [conditionPart, hc]
      rw [hpart]
      exact ⟨le_rfl, Bits.weight_pos _⟩
  | true =>
      obtain ⟨g, c, hg, -, -, -, hpart, -⟩ := condition_field hf hi hc
      have hbelow := hf.below_opcode g hg
      rw [hpart]
      exact ⟨g.placed_nonneg _, Field.placed_lt (hf.field_wellFormed hg) _ (by omega)⟩

theorem frame_mem_range (hf : i.format.WellFormed) (hi : i.Complete) :
    0 ≤ i.frame ∧ i.frame < Bits.weight 16 := by
  have hsplit := Format.opcodeWidth_add_offset hf
  have hpos := Bits.weight_pos i.format.opcodeOffset.toNat
  have hopcode : i.format.opcode * Bits.weight i.format.opcodeOffset.toNat < Bits.weight 16 := by
    rw [← hsplit, Bits.weight_add]
    exact Int.mul_lt_mul_of_pos_right hf.opcode_lt hpos
  have hnonneg := mul_nonneg hf.opcode_nonneg hpos.le
  obtain ⟨hcond, hcond'⟩ := conditionPart_below_opcode hf hi
  have hcond'' := lt_of_lt_of_le hcond' (Bits.weight_le_weight (by omega : _ ≤ 16))
  exact ⟨Bits.or_nonneg hnonneg hcond, Bits.or_lt_weight hnonneg hopcode hcond hcond''⟩

theorem frame_div (hf : i.format.WellFormed) (hi : i.Complete) :
    i.frame / Bits.weight i.format.opcodeOffset.toNat = i.format.opcode := by
  obtain ⟨hcond, hcond'⟩ := conditionPart_below_opcode hf hi
  rw [frame, Bits.or_div, Int.mul_ediv_cancel _ (Bits.weight_pos _).ne',
    Int.ediv_eq_zero_of_lt hcond hcond', Bits.or_zero]

/-! ### The round trip -/

/-- What decoding the word of an instruction has to give: the opcode, the operands in the fields
that they feed, the condition in its field, and nothing in the other fields. -/
structure DecodesTo (i : Instruction) (values : List (Text × Int)) : Prop where
  names : values.map Prod.fst = "opcode".toList :: i.format.fields.map Field.name
  opcode : Assoc.get? "opcode".toList values = some i.format.opcode
  operands : ∀ p ∈ i.feeds, Assoc.get? p.1 values = p.2.value?
  condition : i.format.conditional = true →
    ∃ c, i.condition = some c ∧ Assoc.get? "cond".toList values = some c.code
  others : ∀ g ∈ i.format.fields, g.name ∉ i.format.fedNames →
    (i.format.conditional = true → g.name ≠ "cond".toList) → Assoc.get? g.name values = some 0

theorem not_holds_of_not_fits {p : Text × Operand} {g : Field} {v : Int}
    (hfield : i.format.field? p.1 = some g) (hv : p.2.value? = some v) (h : ¬ i.Fits p) :
    ¬ g.Holds v := fun hholds => h ⟨g, v, hfield, hv, hholds⟩

/-- An operand can be packed exactly when it fits. -/
theorem exists_packOperand_eq_ok_iff (hf : i.format.WellFormed) (hi : i.Complete)
    {p : Text × Operand} (hp : p ∈ i.feeds) :
    (∃ x, i.packOperand p.1 p.2 = .ok x) ↔ i.Fits p := by
  obtain ⟨g, v, hg, hname, hfield, hv⟩ := hi.field_value hf hp
  rw [packOperand_eq (hf.field_inWord hg) hfield hv]
  constructor
  · rintro ⟨x, hx⟩
    by_contra hfits
    rw [if_neg (not_holds_of_not_fits hfield hv hfits)] at hx
    cases hx
  · rintro ⟨g', v', hfield', hv', hholds⟩
    obtain rfl : g' = g := Option.some_inj.1 (hfield'.symm.trans hfield)
    obtain rfl : v' = v := Option.some_inj.1 (hv'.symm.trans hv)
    exact ⟨_, if_pos hholds⟩

/-- Encoding succeeds exactly when every operand that feeds a field fits. -/
theorem exists_encode_eq_ok_iff (hf : i.format.WellFormed) (hi : i.Complete) :
    (∃ w, i.encode = .ok w) ↔ ∀ p ∈ i.feeds, i.Fits p := by
  have hwalk : (∃ w, i.encode = .ok w) ↔
      ∃ parts, (i.feeds.mapM fun p => i.packOperand p.1 p.2) = .ok parts := by
    rw [encode_eq hf hi]
    constructor
    · rintro ⟨w, hw⟩
      obtain ⟨parts, hparts, -⟩ := bind_eq_ok_iff.1 hw
      exact ⟨parts, hparts⟩
    · rintro ⟨parts, hparts⟩
      exact ⟨_, by rw [hparts]; rfl⟩
  rw [hwalk, exists_mapM_eq_ok_iff]
  exact forall₂_congr fun p hp => exists_packOperand_eq_ok_iff hf hi hp

/-- The operand is the first that does not fit: `g` is its field and `v` its number. -/
structure FirstMisfit (i : Instruction) (p : Text × Operand) (g : Field) (v : Int) : Prop where
  split : ∃ before after, i.feeds = before ++ p :: after ∧ ∀ q ∈ before, i.Fits q
  field : i.format.field? p.1 = some g
  value : p.2.value? = some v
  not_holds : ¬ g.Holds v

theorem FirstMisfit.mem_feeds {p : Text × Operand} {g : Field} {v : Int}
    (h : i.FirstMisfit p g v) : p ∈ i.feeds := by
  obtain ⟨before, after, hfeeds, -⟩ := h.split
  rw [hfeeds]
  simp

/-- **Encoding fails exactly with the report of the first operand that does not fit.** -/
theorem encode_eq_error_iff (hf : i.format.WellFormed) (hi : i.Complete) {e : Fault} :
    i.encode = .error e ↔
      ∃ p g v, i.FirstMisfit p g v ∧
        e = rejection (.outOfRange i.mnemonic (i.subject p.1) v g.bounds) (i.place p.2) := by
  have hwalk : i.encode = .error e ↔
      (i.feeds.mapM fun p => i.packOperand p.1 p.2) = .error e := by
    rw [encode_eq hf hi]
    cases i.feeds.mapM fun p => i.packOperand p.1 p.2 <;> simp
  rw [hwalk, mapM_eq_error_iff]
  constructor
  · rintro ⟨before, p, after, hfeeds, hbefore, hp⟩
    have hmem (q : Text × Operand) (hq : q ∈ before ++ [p]) : q ∈ i.feeds := by
      rw [hfeeds, List.append_cons]
      exact List.mem_append_left _ hq
    obtain ⟨g, v, hg, -, hfield, hv⟩ := hi.field_value hf (hmem p (by simp))
    have hfits (q : Text × Operand) (hq : q ∈ before) : i.Fits q :=
      (exists_packOperand_eq_ok_iff hf hi (hmem q (List.mem_append_left _ hq))).1 (hbefore q hq)
    rw [packOperand_eq (hf.field_inWord hg) hfield hv] at hp
    by_cases hholds : g.Holds v
    · rw [if_pos hholds] at hp
      cases hp
    · rw [if_neg hholds] at hp
      exact ⟨p, g, v, ⟨⟨before, after, hfeeds, hfits⟩, hfield, hv, hholds⟩,
        (Except.error.inj hp).symm⟩
  · rintro ⟨p, g, v, ⟨⟨before, after, hfeeds, hfits⟩, hfield, hv, hholds⟩, he⟩
    have hg : g ∈ i.format.fields := ((Format.field?_eq_some_iff hf.names_nodup).1 hfield).1
    refine ⟨before, p, after, hfeeds, fun q hq => ?_, ?_⟩
    · refine (exists_packOperand_eq_ok_iff hf hi ?_).2 (hfits q hq)
      rw [hfeeds]
      exact List.mem_append_left _ hq
    · rw [packOperand_eq (hf.field_inWord hg) hfield hv, if_neg hholds, he]

/-- The word of an instruction is a word, and its highest bits are the opcode. -/
theorem word_mem_range (hf : i.format.WellFormed) (hi : i.Complete) {w : Int}
    (hw : i.encode = .ok w) :
    0 ≤ w ∧ w < Bits.weight 16 ∧
      w / Bits.weight i.format.opcodeOffset.toNat = i.format.opcode := by
  obtain ⟨parts, hparts, rfl⟩ := (encode_eq_ok_iff hf hi).1 hw
  have hbelow := parts_below_opcode hf hparts
  have hsplit := Format.opcodeWidth_add_offset hf
  obtain ⟨hframe, hframe'⟩ := frame_mem_range hf hi
  have hbelow' : ∀ x ∈ parts, 0 ≤ x ∧ x < Bits.weight 16 := fun x hx =>
    ⟨(hbelow x hx).1, lt_of_lt_of_le (hbelow x hx).2 (Bits.weight_le_weight (by omega))⟩
  obtain ⟨hnonneg, hlt⟩ := Bits.foldl_or_mem_range hframe hframe' hbelow'
  exact ⟨hnonneg, hlt, by rw [Bits.foldl_or_div_of_lt _ hbelow, frame_div hf hi]⟩

/-- A field that no operand feeds holds what the frame of the word holds in it. -/
theorem read_encode_of_unfed (hf : i.format.WellFormed) (hi : i.Complete) {w : Int}
    (hw : i.encode = .ok w) {g : Field} (hg : g ∈ i.format.fields)
    (hunfed : g.name ∉ i.format.fedNames) : g.read w = g.read i.frame := by
  obtain ⟨parts, hparts, rfl⟩ := (encode_eq_ok_iff hf hi).1 hw
  rw [← hi.map_fst_feeds] at hunfed
  exact read_word_of_unfed hf hparts hg hunfed _

/-- **The number of an operand is the meaning of the field that it feeds.** -/
theorem meaning_read_of_fed (hf : i.format.WellFormed) (hi : i.Complete) {w : Int}
    (hw : i.encode = .ok w) {p : Text × Operand} (hp : p ∈ i.feeds) {g : Field}
    (hg : g ∈ i.format.fields) (hname : g.name = p.1) :
    p.2.value? = some (g.meaning (g.read w)) := by
  obtain ⟨parts, hparts, rfl⟩ := (encode_eq_ok_iff hf hi).1 hw
  have hnodup : (i.feeds.map Prod.fst).Nodup := by
    rw [hi.map_fst_feeds]
    exact hf.fed_nodup
  have hempty : g.read i.frame = 0 := by
    refine read_frame_of_ne hf hi hg fun hc heq => (hf.condition hc).1 ?_
    rw [← heq, hname, ← hi.map_fst_feeds]
    exact List.mem_map_of_mem hp
  obtain ⟨v, hv, hholds, hread⟩ := read_word_of_fed hf hparts hnodup hp hg hname hempty
  rw [hv, hread, Field.meaning_pattern (hf.field_wellFormed hg) hholds]

/-- The code of the condition is the meaning of its field. -/
theorem meaning_read_condition (hf : i.format.WellFormed) (hi : i.Complete) {w : Int}
    (hw : i.encode = .ok w) (hc : i.format.conditional = true) :
    ∃ g c, g ∈ i.format.fields ∧ g.name = "cond".toList ∧ i.condition = some c ∧
      g.meaning (g.read w) = c.code := by
  obtain ⟨g, c, hg, hname, hcond, hholds, hpart, -⟩ := condition_field hf hi hc
  refine ⟨g, c, hg, hname, hcond, ?_⟩
  rw [read_encode_of_unfed hf hi hw hg (by rw [hname]; exact (hf.condition hc).1), frame,
    Field.read_or, read_opcode hf hg, Bits.zero_or, hpart, Field.read_placed_self,
    Field.meaning_pattern (hf.field_wellFormed hg) hholds]

theorem decodesTo_of_encode (hf : i.format.WellFormed) (hi : i.Complete) {w : Int}
    (hw : i.encode = .ok w) :
    ∃ values, i.format.decode w = .ok values ∧ i.DecodesTo values := by
  refine ⟨_, Format.decode_eq hf w, ?_⟩
  obtain ⟨hnames, hopcode, hfields⟩ := Format.get?_decode hf (Format.decode_eq hf w)
  obtain ⟨-, -, hdiv⟩ := word_mem_range hf hi hw
  refine ⟨hnames, by rw [hopcode, hdiv], ?_, ?_, ?_⟩
  · intro p hp
    obtain ⟨g, -, hg, hname, -, -⟩ := hi.field_value hf hp
    rw [meaning_read_of_fed hf hi hw hp hg hname, ← hname, hfields g hg]
  · intro hc
    obtain ⟨g, c, hg, hname, hcond, hread⟩ := meaning_read_condition hf hi hw hc
    exact ⟨c, hcond, by rw [← hname, hfields g hg, hread]⟩
  · intro g hg hunfed hne
    rw [hfields g hg, read_encode_of_unfed hf hi hw hg hunfed, read_frame_of_ne hf hi hg hne,
      Field.meaning_zero]

/-- **Encoding fails exactly on an operand that does not fit, and then reports the first one;
otherwise decoding gives back what was encoded.** -/
theorem decode_encode (hf : i.format.WellFormed) (hi : i.Complete) :
    ((∃ e, i.encode = .error e) ↔ ∃ p ∈ i.feeds, ¬ i.Fits p) ∧
      (∀ before p after, i.feeds = before ++ p :: after → (∀ q ∈ before, i.Fits q) →
        ¬ i.Fits p → ∃ g v, i.format.field? p.1 = some g ∧ p.2.value? = some v ∧
          i.encode =
            .error (rejection (.outOfRange i.mnemonic (i.subject p.1) v g.bounds) (i.place p.2))) ∧
      ((∀ p ∈ i.feeds, i.Fits p) →
        ∃ w values, i.encode = .ok w ∧ 0 ≤ w ∧ w < Bits.weight 16 ∧
          i.format.decode w = .ok values ∧ i.DecodesTo values) := by
  refine ⟨?_, ?_, ?_⟩
  · have hok := exists_encode_eq_ok_iff hf hi
    constructor
    · rintro ⟨e, he⟩
      by_contra hfits
      simp only [not_exists, not_and, not_not] at hfits
      obtain ⟨w, hw⟩ := hok.2 hfits
      rw [he] at hw
      cases hw
    · rintro ⟨p, hp, hfits⟩
      cases hencode : i.encode with
      | ok w => exact absurd (hok.1 ⟨w, hencode⟩ p hp) hfits
      | error e => exact ⟨e, rfl⟩
  · intro before p after hfeeds hbefore hfits
    have hp : p ∈ i.feeds := by
      rw [hfeeds]
      simp
    obtain ⟨g, v, -, -, hfield, hv⟩ := hi.field_value hf hp
    have hmisfit : i.FirstMisfit p g v :=
      ⟨⟨before, after, hfeeds, hbefore⟩, hfield, hv, not_holds_of_not_fits hfield hv hfits⟩
    refine ⟨g, v, hfield, hv, ?_⟩
    rw [encode_eq_error_iff hf hi]
    exact ⟨p, g, v, hmisfit, rfl⟩
  · intro hfits
    obtain ⟨w, hw⟩ := (exists_encode_eq_ok_iff hf hi).2 hfits
    obtain ⟨hnonneg, hlt, -⟩ := word_mem_range hf hi hw
    obtain ⟨values, hdecode, hvalues⟩ := decodesTo_of_encode hf hi hw
    exact ⟨w, values, hw, hnonneg, hlt, hdecode, hvalues⟩

/-- A branch three words back on inequality: the format is conditional and its offset negative. -/
theorem decode_encode_branch_back :
    let i : Instruction :=
      { mnemonic := "bne".toList, format := Thumb.conditionalBranch,
        operands := [⟨.immediate (-3), 5, "loop".toList⟩], condition := some .ne }
    i.format.WellFormed ∧ i.Complete ∧ (∀ p ∈ i.feeds, i.Fits p) ∧
      ∃ w values, i.encode = .ok w ∧ 0 ≤ w ∧ w < Bits.weight 16 ∧
        i.format.decode w = .ok values ∧ i.DecodesTo values := by
  intro i
  have hf : i.format.WellFormed := by decide
  have hfeeds : i.feeds = [("offset".toList, ⟨.immediate (-3), 5, "loop".toList⟩)] := by decide
  have hi : i.Complete :=
    { length_eq := rfl
      valued := by
        rw [hfeeds]
        intro p hp
        exact ⟨-3, by rw [List.mem_singleton.1 hp]; rfl⟩
      condition := fun _ => ⟨.ne, rfl⟩ }
  have hfits : ∀ p ∈ i.feeds, i.Fits p := by
    rw [hfeeds]
    intro p hp
    rw [List.mem_singleton.1 hp]
    exact ⟨{ Thumb.bits "offset" 8 0 with signed := true }, -3, by decide, rfl, by decide⟩
  exact ⟨hf, hi, hfits, (decode_encode hf hi).2.2 hfits⟩

end Instruction

end ThumbAssembler
