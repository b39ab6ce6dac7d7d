/-
**Words and the operands that they give.**

In a regular format nothing is lost between an instruction and its word.  Every operand is a number
that some field of the word holds, a fixed number, or a register given before, and every field of
the word is filled by an operand or by the condition.  So the word determines the operands, and
every word with the opcode of the format is the word of an instruction.

Main definitions:

* `ThumbAssembler.Format.valueAt` — the number that a word holds in a field;
* `ThumbAssembler.Format.contentOf` — the operand that a slot takes from a word;
* `ThumbAssembler.Format.decoded` — the instruction that a word stands for in a format;
* `ThumbAssembler.Instruction.Resolved` — an instruction whose operands are those of its slots, with
  labels replaced by offsets.

Main results:

* `ThumbAssembler.Instruction.Resolved.contents_eq` — **the word of an instruction determines its
  operands**;
* `ThumbAssembler.Format.encode_decoded` — **every word of a format is the word of an instruction**;
* `ThumbAssembler.Instruction.Formed.resolved` — linking gives resolved instructions.
-/

import Mathlib
import ThumbAssembler.Proofs.FormatTable
import ThumbAssembler.Proofs.Verdict

set_option autoImplicit false

namespace ThumbAssembler

/-! ### Operands of a word -/

namespace OperandKind

/-- The shape of an operand after linking: a label has become a number. -/
def resolved : OperandKind → OperandKind
  | .label => .immediate
  | kind => kind

/-- The operand of a shape with a given number; how a label is written is left open. -/
def content (branch : Int → Operand.Content) (n : Int) : OperandKind → Operand.Content
  | .register => .register n
  | .immediate => .immediate n
  | .label => branch n
  | .stackPointer => .stackPointer
  | .stackOffset => .stackOffset n

theorem kind_content_immediate (k : OperandKind) (n : Int) :
    (k.content .immediate n).kind = k.resolved := by
  cases k <;> rfl

theorem kind_content {branch : Int → Operand.Content} (h : ∀ n, (branch n).kind = .label)
    (k : OperandKind) (n : Int) : (k.content branch n).kind = k := by
  cases k with
  | label => exact h n
  | _ => rfl

/-- A content is determined by its shape and its number. -/
theorem content_of_value {k : OperandKind} {c : Operand.Content} {v : Int}
    (hkind : c.kind = k.resolved) (hv : c.value? = some v) : c = k.content .immediate v := by
  cases c with
  | label name => cases hv
  | stackPointer => cases hv
  | _ =>
      obtain rfl := Option.some_inj.1 hv
      cases k <;> first | rfl | cases hkind

end OperandKind

namespace Format

variable {f : Format} {w : Int}

/-- The number that a word holds in a field. -/
def valueAt (f : Format) (word : Int) (name : Text) : Int :=
  match f.field? name with
  | some g => g.meaning (g.read word)
  | none => 0

/-- The number of the operand of a slot: that of its field, the fixed one, or that of the register
which it repeats. -/
def slotValue (f : Format) (word : Int) (s : Slot) : Int :=
  match s.field, s.fixed, s.tie with
  | some name, _, _ => f.valueAt word name
  | none, some n, _ => n
  | none, none, some name => f.valueAt word name
  | none, none, none => 0

/-- The operand that a slot takes from a word. -/
def contentOf (f : Format) (branch : Int → Operand.Content) (word : Int) (s : Slot) :
    Operand.Content :=
  s.kind.content branch (f.slotValue word s)

theorem valueAt_of_mem (hf : f.WellFormed) {g : Field} (hg : g ∈ f.fields) :
    f.valueAt w g.name = g.meaning (g.read w) := by
  rw [valueAt, (field?_eq_some_iff hf.names_nodup).2 ⟨hg, rfl⟩]

/-- A field can hold the number that a word holds in it. -/
theorem holds_valueAt (hf : f.WellFormed) {g : Field} (hg : g ∈ f.fields) :
    g.Holds (f.valueAt w g.name) := by
  rw [valueAt_of_mem hf hg]
  exact Field.holds_meaning (hf.field_wellFormed hg) (g.read_nonneg w) (g.read_lt w)

/-- What a field of a sound format can hold can be printed. -/
theorem isPrintable_of_holds (hf : f.Sound) {g : Field} (hg : g ∈ f.fields) {v : Int}
    (hv : g.Holds v) : isPrintable v = true := by
  have hnumbers := List.all_eq_true.1 (hf.bounds_printable g hg)
  have hlow := isPrintable_iff.1 (hnumbers g.bounds.low (by simp [Field.Span.numbers]))
  have hhigh := isPrintable_iff.1 (hnumbers g.bounds.high (by simp [Field.Span.numbers]))
  obtain ⟨-, hlow', hhigh'⟩ := hv
  rw [isPrintable_iff]
  omega

theorem isPrintable_zero : isPrintable 0 = true := by decide +kernel

theorem isPrintable_valueAt (hf : f.Sound) (name : Text) :
    isPrintable (f.valueAt w name) = true := by
  cases hfield : f.field? name with
  | none =>
      rw [valueAt, hfield]
      exact isPrintable_zero
  | some g =>
      obtain ⟨hg, rfl⟩ := (field?_eq_some_iff hf.names_nodup).1 hfield
      exact isPrintable_of_holds hf hg (holds_valueAt hf.toWellFormed hg)

/-- The numbers that a word gives can be printed. -/
theorem isPrintable_slotValue (hf : f.Sound) {s : Slot} (hs : s ∈ f.slots) :
    isPrintable (f.slotValue w s) = true := by
  unfold slotValue
  split
  · exact isPrintable_valueAt hf _
  · rename_i n _ hfixed
    exact hf.fixed_printable s hs n hfixed
  · exact isPrintable_valueAt hf _
  · exact isPrintable_zero

end Format

/-! ### Slots that agree with their operands -/

section Slots

variable {placed : List (Text × Int)} {pairs : List (Slot × Operand)} {value : Text → Int}

/-- Placing a register keeps a list of numbers that fields have. -/
theorem get?_placeRegister {s : Slot} {o : Operand}
    (hfed : ∀ name ∈ s.field, ∀ v ∈ o.value?, v = value name)
    (hplaced : ∀ name v, Assoc.get? name placed = some v → v = value name) (name : Text) (v : Int)
    (h : Assoc.get? name (SourceLine.placeRegister placed s o) = some v) : v = value name := by
  unfold SourceLine.placeRegister at h
  split at h
  · rename_i field n hfield _ hn
    by_cases heq : field = name
    · subst heq
      rw [Assoc.get?_put_self] at h
      obtain rfl := Option.some_inj.1 h
      exact hfed field hfield n hn
    · rw [Assoc.get?_put_of_ne heq] at h
      exact hplaced name v h
  · exact hplaced name v h

/-- A tied operand has the number of the field that it is tied to. -/
theorem SlotsAgree.tied (h : SlotsAgree placed pairs)
    (hfed : ∀ p ∈ pairs, ∀ name ∈ p.1.field, ∀ v ∈ p.2.value?, v = value name)
    (hplaced : ∀ name v, Assoc.get? name placed = some v → v = value name) :
    ∀ p ∈ pairs, ∀ name ∈ p.1.tie, p.2.value? = some (value name) := by
  -- the registers placed so far are the numbers of their fields
  induction pairs generalizing placed with
  | nil => simp
  | cons pair rest ih =>
      obtain ⟨s, o⟩ := pair
      obtain ⟨-, htie, hrest⟩ := h
      obtain ⟨hfed₀, hfed⟩ := List.forall_mem_cons.1 hfed
      refine List.forall_mem_cons.2 ⟨?_, ih hrest hfed (get?_placeRegister hfed₀ hplaced)⟩
      intro name hname
      obtain ⟨v, hv, hget⟩ := htie name hname
      rw [hv, hplaced name v hget]

theorem SlotsAgree.fixed (h : SlotsAgree placed pairs) :
    ∀ p ∈ pairs, ∀ n ∈ p.1.fixed, p.2.value? = some n := by
  induction pairs generalizing placed with
  | nil => simp
  | cons pair rest ih =>
      obtain ⟨s, o⟩ := pair
      obtain ⟨hfixed, -, hrest⟩ := h
      exact List.forall_mem_cons.2 ⟨hfixed, ih hrest⟩

/-- Slots agree with operands that have the numbers of their fields, if ties come after what they
are tied to. -/
theorem slotsAgree_of_values (value : Text → Int) {names : List Text} {slots : List Slot}
    {operand : Slot → Operand}
    (hties : TiesPlaced names slots)
    (hfixed : ∀ s ∈ slots, ∀ n ∈ s.fixed, (operand s).value? = some n)
    (htied : ∀ s ∈ slots, ∀ name ∈ s.tie, (operand s).value? = some (value name))
    (hfed : ∀ s ∈ slots, s.kind = .register → ∀ name ∈ s.field,
      (operand s).value? = some (value name))
    (hplaced : ∀ name ∈ names, Assoc.get? name placed = some (value name)) :
    SlotsAgree placed (slots.map fun s => (s, operand s)) := by
  induction slots generalizing names placed with
  | nil => trivial
  | cons s rest ih =>
      obtain ⟨htie, hties⟩ := hties
      obtain ⟨hfixed₀, hfixed⟩ := List.forall_mem_cons.1 hfixed
      obtain ⟨htied₀, htied⟩ := List.forall_mem_cons.1 htied
      obtain ⟨hfed₀, hfed⟩ := List.forall_mem_cons.1 hfed
      refine ⟨hfixed₀, fun name hname => ⟨_, htied₀ name hname, hplaced name (htie name hname)⟩, ?_⟩
      refine ih hties hfixed htied hfed fun name hname => ?_
      simp only [Slot.registersAfter] at hname
      split at hname
      · rename_i field hfield hkind
        have hv := hfed₀ hkind field hfield
        have hplace : SourceLine.placeRegister placed s (operand s) =
            Assoc.put field (value field) placed := by
          simp only [SourceLine.placeRegister, hfield, hkind, hv]
        rw [hplace]
        by_cases heq : field = name
        · rw [heq, Assoc.get?_put_self]
        · rw [Assoc.get?_put_of_ne heq]
          rcases List.mem_cons.1 hname with rfl | hname
          · exact absurd rfl heq
          · exact hplaced name hname
      · rename_i hnot
        have hplace : SourceLine.placeRegister placed s (operand s) = placed := by
          unfold SourceLine.placeRegister
          split
          · rename_i field _ hfield hkind _
            exact absurd hkind (hnot field hfield)
          · rfl
        rw [hplace]
        exact hplaced name hname

end Slots

/-! ### Resolved instructions -/

namespace Instruction

variable {i : Instruction} {w : Int}

/-- The operands of the instruction are those of its slots, with labels replaced by offsets. -/
structure Resolved (i : Instruction) : Prop where
  sound : i.format.Sound
  signature : i.operands.map Operand.kind = i.format.signature.map OperandKind.resolved
  slots : SlotsAgree [] (i.format.slots.zip i.operands)
  condition : i.format.conditional = i.condition.isSome

namespace Resolved

theorem length_eq (h : i.Resolved) : i.operands.length = i.format.slots.length := by
  have hlength := congrArg List.length h.signature
  simpa only [List.length_map, Format.signature] using hlength

theorem kind_of_mem_zip (h : i.Resolved) {s : Slot} {o : Operand}
    (hmem : (s, o) ∈ i.format.slots.zip i.operands) : o.kind = s.kind.resolved := by
  obtain ⟨k, hk⟩ := List.mem_iff_getElem?.1 hmem
  rw [List.getElem?_zip_eq_some] at hk
  have hkinds := congrArg (fun kinds => kinds[k]?) h.signature
  simp only [Format.signature, List.getElem?_map, hk.1, hk.2, Option.map_some] at hkinds
  exact Option.some_inj.1 hkinds

theorem complete (h : i.Resolved) : i.Complete where
  length_eq := h.length_eq
  valued := by
    intro p hp
    obtain ⟨⟨s, o⟩, hpair, hfeed⟩ := List.mem_filterMap.1 hp
    obtain ⟨name, hname, rfl⟩ := Option.map_eq_some_iff.1 hfeed
    have hkind := h.kind_of_mem_zip hpair
    have hfed : s.field ≠ none := Option.ne_none_iff_exists'.2 ⟨name, hname⟩
    rw [← Option.isSome_iff_exists, ← Operand.isNumeric_kind, hkind]
    rcases h.sound.fed_numeric s (List.of_mem_zip hpair).1 hfed with hnumeric | hlabel
    · cases hs : s.kind <;> simp_all [OperandKind.isNumeric, OperandKind.resolved]
    · rw [hlabel]
      rfl
  condition := by
    intro hc
    rw [h.condition, Option.isSome_iff_exists] at hc
    exact hc

/-- An operand that feeds a field has the number that the word holds in it. -/
theorem value_of_fed (h : i.Resolved) (hw : i.encode = .ok w) {s : Slot} {o : Operand}
    (hpair : (s, o) ∈ i.format.slots.zip i.operands) {name : Text} (hname : s.field = some name) :
    o.value? = some (i.format.valueAt w name) := by
  have hfeed : (name, o) ∈ i.feeds := List.mem_filterMap.2 ⟨(s, o), hpair, by simp [hname]⟩
  have hwf := h.sound.toWellFormed
  obtain ⟨g, -, hg, rfl, -, -⟩ := h.complete.field_value hwf hfeed
  rw [meaning_read_of_fed hwf h.complete hw hfeed hg rfl, Format.valueAt_of_mem hwf hg]

/-- The operand of a regular slot is the one that the slot takes from the word. -/
theorem content_eq (h : i.Resolved) (hregular : i.format.Regular) (hw : i.encode = .ok w)
    {s : Slot} {o : Operand} (hpair : (s, o) ∈ i.format.slots.zip i.operands) :
    o.content = i.format.contentOf .immediate w s := by
  have hkind := h.kind_of_mem_zip hpair
  have hs := hregular.slots s (List.of_mem_zip hpair).1
  cases hs with
  | fed hstack => exact OperandKind.content_of_value hkind (h.value_of_fed hw hpair rfl)
  | fixed => exact OperandKind.content_of_value hkind (h.slots.fixed _ hpair _ rfl)
  | tied =>
      have hfed (p : Slot × Operand) (hp : p ∈ i.format.slots.zip i.operands) (name : Text)
          (hname : name ∈ p.1.field) (v : Int) (hv : v ∈ p.2.value?) :
          v = i.format.valueAt w name :=
        Option.some_inj.1 (hv.symm.trans (h.value_of_fed hw hp hname))
      exact OperandKind.content_of_value hkind
        (h.slots.tied hfed (by simp [Assoc.get?]) _ hpair _ rfl)
  | bare =>
      obtain ⟨content, column, text⟩ := o
      cases content <;> first | rfl | cases hkind

/-- **The word of an instruction determines its operands.** -/
theorem contents_eq (h : i.Resolved) (hregular : i.format.Regular) (hw : i.encode = .ok w) :
    i.operands.map Operand.content = i.format.slots.map (i.format.contentOf .immediate w) := by
  have hoperands : (i.format.slots.zip i.operands).map Prod.snd = i.operands :=
    List.map_snd_zip h.length_eq.le
  have hslots : (i.format.slots.zip i.operands).map Prod.fst = i.format.slots :=
    List.map_fst_zip h.length_eq.ge
  calc i.operands.map Operand.content
      = (i.format.slots.zip i.operands).map fun p => p.2.content := by
        conv_lhs => rw [← hoperands, List.map_map]
        rfl
    _ = (i.format.slots.zip i.operands).map fun p => i.format.contentOf .immediate w p.1 :=
        List.map_congr_left fun p hp => h.content_eq hregular hw hp
    _ = i.format.slots.map (i.format.contentOf .immediate w) := by
        conv_rhs => rw [← hslots, List.map_map]
        rfl

end Resolved

/-- Linking replaces the label of a branch and leaves everything else. -/
theorem Formed.resolved (h : i.Formed) (hslots : SlotsAgree [] (i.format.slots.zip i.operands))
    {bias : Int} {table : SymbolTable} {a : Nat} {i' : Instruction}
    (hlink : linkEntry bias table (a, .instruction i) = .ok (.instruction i')) :
    i'.Resolved ∧ i'.mnemonic = i.mnemonic ∧ i'.format = i.format ∧ i'.condition = i.condition := by
  rcases h.linkEntry_cases hlink with ⟨hlabels, rfl⟩ | ⟨o, name, offset, g, href, rfl, -, -⟩
  · refine ⟨⟨h.sound, ?_, hslots, h.condition⟩, rfl, rfl, rfl⟩
    rw [h.signature, List.map_map]
    refine List.map_congr_left fun o ho => ?_
    have hlabel := hlabels o ho
    simp only [Operand.isLabel, decide_eq_false_iff_not] at hlabel
    cases hkind : o.kind <;> simp_all [OperandKind.resolved]
  · -- a branch has one slot, which is neither fixed nor tied
    obtain ⟨-, slot, g', hslot, hfield, -, -⟩ := h.refersTo href.mem href.content
    have hkind : slot.kind = .label := by
      have hsignature := h.signature
      rw [Format.signature, hslot, href.operands] at hsignature
      have hhead := (List.cons.inj hsignature).1
      rw [hhead, Operand.kind, href.content, Operand.Content.kind]
    have hchecked := h.sound.checked_numeric slot (by rw [hslot]; exact List.mem_singleton_self _)
    have hnot : ¬ (slot.fixed ≠ none ∨ slot.tie ≠ none) := by
      intro hor
      have hnumeric := hchecked hor
      rw [hkind] at hnumeric
      cases hnumeric
    simp only [ne_eq, not_or, not_not] at hnot
    refine ⟨⟨h.sound, ?_, ?_, h.condition⟩, rfl, rfl, rfl⟩
    · simp only [linked, Format.signature, hslot, List.map_cons, List.map_nil, hkind]
      rfl
    · simp [linked, hslot, SlotsAgree, hnot.1, hnot.2]

end Instruction

/-! ### The instruction of a word -/

namespace Format

variable {f : Format} {w : Int}

/-- The instruction that a word stands for in a format. -/
def decoded (f : Format) (mnemonic : Text) (condition : Option Condition)
    (branch : Int → Operand.Content) (word : Int) : Instruction where
  mnemonic := mnemonic
  format := f
  operands := f.slots.map fun s => { content := f.contentOf branch word s }
  condition := condition

variable {mnemonic : Text} {condition : Option Condition} {branch : Int → Operand.Content}

theorem zip_decoded :
    f.slots.zip (f.decoded mnemonic condition branch w).operands =
      f.slots.map fun s => (s, ({ content := f.contentOf branch w s } : Operand)) := by
  have hzip : (f.slots.map id).zip (f.decoded mnemonic condition branch w).operands = _ :=
    List.zip_map'
  rwa [List.map_id] at hzip

/-- A register and an operand with a fixed number have the number of their slot. -/
theorem value?_contentOf (branch : Int → Operand.Content) {s : Slot} (h : s.kind.isNumeric = true) :
    (f.contentOf branch w s).value? = some (f.slotValue w s) := by
  unfold contentOf
  cases hs : s.kind <;> simp_all [OperandKind.isNumeric, OperandKind.content,
    Operand.Content.value?]

theorem slotValue_of_field {s : Slot} {name : Text} (h : s.field = some name) :
    f.slotValue w s = f.valueAt w name := by
  simp only [slotValue, h]

/-- The operands that a word gives agree with their slots. -/
theorem slotsAgree_decoded (hf : f.Sound) (hregular : f.Regular) :
    SlotsAgree [] (f.slots.zip (f.decoded mnemonic condition branch w).operands) := by
  rw [zip_decoded]
  refine slotsAgree_of_values (f.valueAt w) hregular.ties ?_ ?_ ?_ (by simp)
  · intro s hs n hn
    have hnumeric := hf.checked_numeric s hs (Or.inl (Option.ne_none_iff_exists'.2 ⟨n, hn⟩))
    cases hregular.slots s hs with
    | fixed =>
        obtain rfl := Option.some_inj.1 hn
        exact value?_contentOf branch hnumeric
    | _ => cases hn
  · intro s hs name hname
    have hnumeric := hf.checked_numeric s hs (Or.inr (Option.ne_none_iff_exists'.2 ⟨name, hname⟩))
    cases hregular.slots s hs with
    | tied =>
        obtain rfl := Option.some_inj.1 hname
        exact value?_contentOf branch hnumeric
    | _ => cases hname
  · intro s hs hkind name hname
    rw [← slotValue_of_field hname]
    exact value?_contentOf branch (by rw [hkind]; rfl)

theorem resolved_decoded (hf : f.Sound) (hregular : f.Regular)
    (hcondition : f.conditional = condition.isSome) (mnemonic : Text) (w : Int) :
    (f.decoded mnemonic condition .immediate w).Resolved where
  sound := hf
  signature := by
    simp only [decoded, List.map_map, signature]
    exact List.map_congr_left fun s _ => OperandKind.kind_content_immediate _ _
  slots := slotsAgree_decoded hf hregular
  condition := hcondition

/-- The operands that a word gives fit their fields. -/
theorem fits_decoded (hf : f.Sound) (hregular : f.Regular)
    (hcondition : f.conditional = condition.isSome) (mnemonic : Text) (w : Int) :
    ∀ p ∈ (f.decoded mnemonic condition .immediate w).feeds,
      (f.decoded mnemonic condition .immediate w).Fits p ∧ p.2.value? = some (f.valueAt w p.1) := by
  intro p hp
  have hcomplete := (resolved_decoded hf hregular hcondition mnemonic w).complete
  obtain ⟨g, v, hg, hname, hfield, hv⟩ := hcomplete.field_value hf.toWellFormed hp
  obtain ⟨⟨s, o⟩, hpair, hfeed⟩ := List.mem_filterMap.1 hp
  obtain ⟨name, hs, rfl⟩ := Option.map_eq_some_iff.1 hfeed
  have hvalue : o.value? = some (f.valueAt w name) := by
    have hpair' : (s, o) ∈ f.slots.zip (f.decoded mnemonic condition .immediate w).operands := hpair
    rw [zip_decoded] at hpair'
    obtain ⟨s', hs', heq⟩ := List.mem_map.1 hpair'
    obtain ⟨rfl, rfl⟩ := Prod.mk.inj heq
    rw [← slotValue_of_field hs]
    cases hregular.slots s' hs' with
    | @fed kind name' hstack =>
        cases kind with
        | stackPointer => exact absurd rfl hstack
        | _ => rfl
    | _ => cases hs
  refine ⟨⟨g, v, hfield, hv, ?_⟩, hvalue⟩
  obtain rfl := Option.some_inj.1 (hv.symm.trans hvalue)
  have hname' : g.name = name := hname
  rw [← hname']
  exact holds_valueAt hf.toWellFormed hg

/-- **Every word of a format is the word of an instruction.** -/
theorem encode_decoded (hf : f.Sound) (hregular : f.Regular)
    (hcondition : f.conditional = condition.isSome)
    (hopcode : w / Bits.weight f.opcodeOffset.toNat = f.opcode)
    (hcode : ∀ c ∈ condition, f.valueAt w "cond".toList = c.code) :
    (f.decoded mnemonic condition .immediate w).encode = .ok w := by
  have hwf := hf.toWellFormed
  have hresolved := resolved_decoded hf hregular hcondition mnemonic w
  have hfits := fits_decoded hf hregular hcondition mnemonic w
  generalize hi : f.decoded mnemonic condition .immediate w = i at hresolved hfits ⊢
  have hformat : i.format = f := by rw [← hi]; rfl
  subst hformat
  obtain ⟨w', hw'⟩ := (Instruction.exists_encode_eq_ok_iff hwf hresolved.complete).2
    fun p hp => (hfits p hp).1
  obtain ⟨-, -, hopcode'⟩ := Instruction.word_mem_range hwf hresolved.complete hw'
  rw [hw', eq_of_read_eq hregular.covered (hopcode'.trans hopcode.symm) fun g hg => ?_]
  -- a field is filled by an operand or by the condition
  refine Field.read_eq_of_meaning_eq (hwf.field_wellFormed hg) ?_
  rcases hregular.filled g hg with hfed | ⟨hc, hname⟩
  · rw [← hresolved.complete.map_fst_feeds] at hfed
    obtain ⟨p, hp, hname⟩ := List.mem_map.1 hfed
    have hread := Instruction.meaning_read_of_fed hwf hresolved.complete hw' hp hg hname.symm
    rw [(hfits p hp).2, hname, valueAt_of_mem hwf hg] at hread
    exact (Option.some_inj.1 hread).symm
  · obtain ⟨g', c, hg', hname', hcond, hread⟩ :=
      Instruction.meaning_read_condition hwf hresolved.complete hw' hc
    obtain rfl : g' = g := List.inj_on_of_nodup_map hwf.names_nodup hg' hg (hname'.trans hname.symm)
    have hcond' : condition = some c := by rw [← hcond, ← hi]; rfl
    rw [hread, ← hcode c hcond', ← hname, valueAt_of_mem hwf hg]

end Format

end ThumbAssembler
