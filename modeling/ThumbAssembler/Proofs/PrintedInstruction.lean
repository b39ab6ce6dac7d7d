/-
**Printing and reading an instruction.**

An instruction is printed as its mnemonic and the canonical spelling of its operands.  Reading the
printed text gives the instruction back, except for where it stands and how it was spelled.

Main definitions:

* `ThumbAssembler.Operand.Content.Canonical`, `ThumbAssembler.Instruction.Canonical` — a content and
  an instruction that can be printed and read back;
* `ThumbAssembler.Spelling` — what a printed text has to be like to be read as it stands.

Main results:

* `ThumbAssembler.Instruction.ReadIn.canonical` — an instruction that was read can be printed and
  read back, if its numbers can be printed;
* `ThumbAssembler.SourceLine.operand_render`, `ThumbAssembler.SourceLine.operands_render` — the
  spelling of operands is read back;
* `ThumbAssembler.SourceLine.instruction_render` — **the spelling of an instruction is read back**.
-/

import Mathlib
import ThumbAssembler.Proofs.CanonicalText
import ThumbAssembler.Proofs.PlaceErasure

set_option autoImplicit false

namespace ThumbAssembler

/-! ### Contents -/

namespace Operand.Content

/-- The content is one that can be printed and read back. -/
def Canonical : Content → Prop
  | register index => isRegisterIndex index = true
  | immediate v => isPrintable v = true
  | label name => IsIdentifier name ∧ registerDigits? name = none ∧ name.lower ∉ specialRegisters
  | stackPointer => True
  | stackOffset bytes => isPrintable bytes = true

end Operand.Content

/-- No identifier ends in a line feed. -/
theorem IsIdentifier.dropFinalLineFeed_eq {name : Text} (h : IsIdentifier name) :
    dropFinalLineFeed name = name := by
  rw [dropFinalLineFeed, if_neg]
  intro hlast
  have hpart := h.part _ (List.mem_of_getLast? hlast)
  revert hpart
  decide

/-- **A name is free exactly when it reads back as a label** and is no mnemonic. -/
theorem InstructionSet.isReserved_eq_false_iff (isa : InstructionSet) {name : Text}
    (h : IsIdentifier name) :
    isa.isReserved name = false ↔
      (Operand.Content.label name).Canonical ∧ isa.lookup name = none := by
  simp [isReserved, isRegisterName, h.dropFinalLineFeed_eq, Operand.Content.Canonical, h]

theorem Operand.DrawnFrom.canonical {ts : List Token} {code : Text} {o : Operand}
    (h : o.DrawnFrom ts) (hts : ∀ t ∈ ts, t.SpelledIn code)
    (hprint : ∀ v, o.value? = some v → isPrintable v = true) : o.content.Canonical := by
  obtain ⟨content, column, text⟩ := o
  cases content with
  | register index => exact h
  | immediate v => exact hprint v rfl
  | label name =>
      obtain ⟨⟨t, ht, hkind, rfl⟩, hname⟩ := h
      have hspelled := hts t ht
      rw [Token.SpelledIn, hkind] at hspelled
      exact ⟨hspelled.1, hname⟩
  | stackPointer => trivial
  | stackOffset bytes => exact hprint bytes rfl

/-! ### Spelling -/

/-- The digits of a register, as they are printed. -/
theorem decimal_of_isRegisterIndex {index : Int} (h : isRegisterIndex index = true) :
    decimal index = Nat.toDigits 10 index.natAbs := by
  have hnonneg : 0 ≤ index := of_decide_eq_true ((Bool.and_eq_true _ _).mp h).1
  rw [decimal, signedDigits, if_neg (by omega)]

theorem isNumeralPart_decimal (n : Int) : ∀ c ∈ decimal n, isNumeralPart c = true := by
  have hdigits (c : Char) (hc : c ∈ Nat.toDigits 10 n.natAbs) : isNumeralPart c = true := by
    refine isNumeralPart_of_isIdentifierPart ?_
    rw [isIdentifierPart, Nat.isDigit_of_mem_toDigits (by norm_num) le_rfl hc, Bool.or_true]
  unfold decimal signedDigits
  split
  · exact List.forall_mem_cons.2 ⟨by decide, hdigits⟩
  · exact hdigits

theorem isIdentifier_register {index : Int} (h : isRegisterIndex index = true) :
    IsIdentifier ('r' :: decimal index) := by
  refine ⟨by decide, ?_⟩
  rw [decimal_of_isRegisterIndex h]
  intro c hc
  rw [isIdentifierPart, Nat.isDigit_of_mem_toDigits (by norm_num) le_rfl hc, Bool.or_true]

theorem isIdentifier_sp : IsIdentifier "sp".toList :=
  ⟨by decide, List.forall_mem_singleton.2 (by decide)⟩

/-! ### Operands -/

namespace SourceLine

variable (line : SourceLine) (number : Int) (whole : Text) (position : Nat)

/-- The tokens are read as one operand with the given content. -/
def ReadsAs (ts : List Token) (content : Operand.Content) : Prop :=
  ∀ after, ∃ o, line.operand (ts ++ after) = .ok (o, after) ∧ o.content = content

theorem readsAs_identifier {t : Token} (ht : t.kind = .identifier) {o : Operand}
    (ho : line.identifierOperand t = .ok o) : line.ReadsAs [t] o.content := by
  obtain ⟨kind, text, column⟩ := t
  obtain rfl : kind = .identifier := ht
  refine fun after => ⟨o, ?_, rfl⟩
  rw [List.singleton_append, operand, ho]
  rfl

theorem readsAs_register {index : Int} (h : isRegisterIndex index = true) (column : Nat) :
    line.ReadsAs [⟨.identifier, 'r' :: decimal index, column⟩] (.register index) := by
  have hnonneg : 0 ≤ index := of_decide_eq_true ((Bool.and_eq_true _ _).mp h).1
  have hdigits : registerDigits? ('r' :: Nat.toDigits 10 index.natAbs) =
      some (Nat.toDigits 10 index.natAbs) := by
    unfold registerDigits?
    exact if_pos ⟨Or.inl rfl, Nat.toDigits_ne_nil, all_isDigit_toDigits _⟩
  have hshort : ¬ maxDigits < (Nat.toDigits 10 index.natAbs).length := by
    have := length_toDigits_le (isPrintable_iff.1 (isPrintable_of_isRegisterIndex h))
    omega
  have hself : (index.natAbs : Int) = index := by omega
  rw [decimal_of_isRegisterIndex h]
  refine readsAs_identifier line rfl
    (o := ⟨.register index, column, 'r' :: Nat.toDigits 10 index.natAbs⟩) ?_
  simp only [identifierOperand, hdigits, if_neg hshort, digitsValue_toDigits, hself, h, if_true]

theorem readsAs_label {name : Text} (hdigits : registerDigits? name = none)
    (hspecial : name.lower ∉ specialRegisters) (column : Nat) :
    line.ReadsAs [⟨.identifier, name, column⟩] (.label name) := by
  simp only [specialRegisters, List.mem_cons, List.not_mem_nil, or_false, not_or] at hspecial
  obtain ⟨hsp, hlr, hpc⟩ := hspecial
  have hneither : ¬ (name.lower = "pc".toList ∨ name.lower = "lr".toList) := by
    rw [not_or]
    exact ⟨hpc, hlr⟩
  refine readsAs_identifier line rfl (o := ⟨.label name, column, name⟩) ?_
  simp only [identifierOperand, hdigits, if_neg hsp, if_neg hneither]

/-- The spelling of a memory operand is read back. -/
theorem stackOffset_render {bytes : Int} (h : isPrintable bytes = true) (rest : Text) :
    ∃ ts stop,
      Scans number whole position ((Operand.Content.stackOffset bytes).render ++ rest) ts stop
        rest ∧
      line.ReadsAs ts (.stackOffset bytes) := by
  have hopen (t : Text) : Scans number whole position ('[' :: t) _ _ t := scans_punctuation rfl
  by_cases hzero : bytes = 0
  · have hrender : (Operand.Content.stackOffset bytes).render ++ rest =
        '[' :: ("sp".toList ++ (']' :: rest)) := by
      rw [Operand.Content.render, if_pos hzero]
      rfl
    rw [hrender]
    refine ⟨_, _, ((hopen _).trans (scans_identifier isIdentifier_sp
      (startsOutside_cons (by decide)))).trans (scans_punctuation rfl), ?_⟩
    intro after
    exact ⟨_, rfl, by rw [hzero]⟩
  · have hrender : (Operand.Content.stackOffset bytes).render ++ rest =
        '[' :: ("sp".toList ++ (',' :: ' ' :: '#' :: (decimal bytes ++ (']' :: rest)))) := by
      rw [Operand.Content.render, if_neg hzero]
      simp
    rw [hrender]
    refine ⟨_, _, (((((hopen _).trans (scans_identifier isIdentifier_sp
      (startsOutside_cons (by decide)))).trans (scans_punctuation rfl)).trans
      (scans_separator rfl)).trans
      (scans_immediate (isNumeralPart_decimal bytes) (startsOutside_cons (by decide))
        (Numeral.value?_decimal h))).trans (scans_punctuation rfl), ?_⟩
    exact fun after => ⟨_, rfl, rfl⟩

/-- **The spelling of an operand is read back**, whatever follows that cannot be part of it. -/
theorem operand_render {content : Operand.Content} (h : content.Canonical) {rest : Text}
    (hrest : StartsOutside isNumeralPart rest) :
    ∃ ts stop, Scans number whole position (content.render ++ rest) ts stop rest ∧
      line.ReadsAs ts content := by
  have hrest' : StartsOutside isIdentifierPart rest :=
    startsOutside_of_imp hrest fun c hc => isNumeralPart_of_isIdentifierPart hc
  cases content with
  | register index =>
      exact ⟨_, _, scans_identifier (isIdentifier_register h) hrest', readsAs_register line h _⟩
  | immediate v =>
      refine ⟨_, _, scans_immediate (isNumeralPart_decimal v) hrest
        (Numeral.value?_decimal h), ?_⟩
      exact fun after => ⟨_, rfl, rfl⟩
  | label name =>
      obtain ⟨hname, hdigits, hspecial⟩ := h
      exact ⟨_, _, scans_identifier hname hrest', readsAs_label line hdigits hspecial _⟩
  | stackPointer =>
      refine ⟨_, _, scans_identifier isIdentifier_sp hrest', ?_⟩
      exact fun after => ⟨_, rfl, rfl⟩
  | stackOffset bytes => exact stackOffset_render line number whole position h rest

theorem operands_of_error {ts : List Token} {e : Fault} (h : line.operand ts = .error e) :
    line.operands ts = .error e := by
  rw [operands]
  split
  · rename_i e' he
    rw [h] at he
    rw [Except.error.inj he]
  all_goals
    rename_i he
    rw [h] at he
    cases he

theorem operands_of_comma {ts rest : List Token} {o : Operand} {text : Text} {column : Nat}
    (h : line.operand ts = .ok (o, ⟨.comma, text, column⟩ :: rest)) :
    line.operands ts = do
      let (os, rest) ← line.operands rest
      return (o :: os, rest) := by
  rw [operands]
  split
  · rename_i e he
    rw [h] at he
    cases he
  · rename_i o' text' column' rest' he
    rw [h] at he
    obtain ⟨rfl, hrest⟩ := Prod.mk.inj (Except.ok.inj he)
    obtain ⟨-, rfl⟩ := List.cons.inj hrest
    rfl
  · rename_i o' rest' hnot he
    rw [h] at he
    obtain ⟨-, hrest⟩ := Prod.mk.inj (Except.ok.inj he)
    exact absurd hrest.symm (hnot text column rest)

theorem operands_of_no_comma {ts rest : List Token} {o : Operand}
    (h : line.operand ts = .ok (o, rest))
    (hnot : ∀ text column rest', rest ≠ ⟨.comma, text, column⟩ :: rest') :
    line.operands ts = .ok ([o], rest) := by
  rw [operands]
  split
  · rename_i e he
    rw [h] at he
    cases he
  · rename_i o' text' column' rest' he
    rw [h] at he
    obtain ⟨-, hrest⟩ := Prod.mk.inj (Except.ok.inj he)
    exact absurd hrest (hnot text' column' rest')
  · rename_i o' rest' _ he
    rw [h] at he
    obtain ⟨rfl, rfl⟩ := Prod.mk.inj (Except.ok.inj he)
    rfl

theorem operands_of_end {ts : List Token} {o : Operand} {text : Text} {column : Nat}
    (h : line.operand ts = .ok (o, [⟨.endOfLine, text, column⟩])) :
    line.operands ts = .ok ([o], [⟨.endOfLine, text, column⟩]) :=
  operands_of_no_comma line h (by simp)

theorem operands_ne_endOfLine {ts : List Token} {r : List Operand × List Token}
    (h : line.operands ts = .ok r) : (nextToken ts).kind ≠ .endOfLine := by
  intro hend
  have hoperand : line.operand ts = line.unexpected .operand ts := by
    cases ts with
    | nil => rfl
    | cons t ts =>
        obtain ⟨kind, text, column⟩ := t
        obtain rfl : kind = .endOfLine := hend
        rfl
  rw [operands] at h
  split at h
  · cases h
  all_goals
    rename_i hok
    rw [hoperand] at hok
    cases hok

end SourceLine

/-- The spelling of operands, as it is joined. -/
def renderList (contents : List Operand.Content) : Text :=
  Text.joined ", ".toList (contents.map Operand.Content.render)

theorem renderList_singleton (c : Operand.Content) : renderList [c] = c.render :=
  Text.joined_singleton _ _

theorem renderList_cons_cons (c d : Operand.Content) (contents : List Operand.Content) :
    renderList (c :: d :: contents) = c.render ++ (',' :: ' ' :: renderList (d :: contents)) :=
  Text.joined_cons_cons _ _ _ _

namespace SourceLine

variable (line : SourceLine) (number : Int) (whole : Text) (position : Nat)

/-- **The spelling of operands is read back.** -/
theorem operands_render {content : Operand.Content} {contents : List Operand.Content}
    (h : ∀ c ∈ content :: contents, c.Canonical) :
    ∃ ts, scan number whole position (renderList (content :: contents)) = .ok ts ∧
      ∃ os last, line.operands ts = .ok (os, [last]) ∧ last.kind = .endOfLine ∧
        os.map Operand.content = content :: contents := by
  induction contents generalizing content position with
  | nil =>
      obtain ⟨ts, stop, hscan, hread⟩ := operand_render line number whole position
        (List.forall_mem_singleton.1 h) (startsOutside_nil _)
      rw [List.append_nil] at hscan
      obtain ⟨column, hts⟩ := hscan.of_nil
      obtain ⟨o, ho, hcontent⟩ := hread [⟨.endOfLine, [], column⟩]
      rw [renderList_singleton]
      exact ⟨_, hts, [o], _, operands_of_end line ho, rfl, by simp [hcontent]⟩
  | cons d contents ih =>
      obtain ⟨hc, hcs⟩ := List.forall_mem_cons.1 h
      have hcomma : StartsOutside isNumeralPart
          (',' :: ' ' :: renderList (d :: contents)) := startsOutside_cons (by decide)
      obtain ⟨ts, stop, hscan, hread⟩ := operand_render line number whole position hc hcomma
      -- the remaining operands are read from where the comma and the space have ended
      obtain ⟨us, hus, os, last, hos, hlast, hcontents⟩ := ih (stop + 1 + 1) hcs
      have hall := (hscan.trans (scans_punctuation rfl)).trans (scans_separator rfl)
      obtain ⟨o, ho, hcontent⟩ := hread (⟨.comma, [','], stop + 1⟩ :: us)
      refine ⟨ts ++ ⟨.comma, [','], stop + 1⟩ :: us, ?_, o :: os, last, ?_, hlast, ?_⟩
      · rw [renderList_cons_cons, hall, hus]
        simp
      · rw [operands_of_comma line ho, hos]
        rfl
      · rw [List.map_cons, hcontent, hcontents]

end SourceLine

/-! ### Spelling of operands -/

theorem isBlank_of_isNumeralPart {c : Char} (h : isNumeralPart c = true) : isBlank c = false := by
  cases hblank : isBlank c with
  | false => rfl
  | true => simp [isNumeralPart, hblank] at h

theorem endsOutside_of_forall {p : Char → Bool} {t : Text} (h : ∀ c ∈ t, p c = false) :
    EndsOutside p t := fun c hc => h c (List.mem_of_getLast? hc)

theorem endsOutside_append {p : Char → Bool} (s : Text) {t : Text} (ht : EndsOutside p t)
    (hne : t ≠ []) : EndsOutside p (s ++ t) := by
  intro c hc
  rw [List.getLast?_append_of_ne_nil _ hne] at hc
  exact ht c hc

/-- What the spelling of an operand has to be like for a line to be read as it stands. -/
structure Spelling (t : Text) : Prop where
  plain : t.Plain
  head : ∃ c rest, t = c :: rest ∧ isBlank c = false ∧ c ≠ ':'
  last : EndsOutside isBlank t

theorem Spelling.ne_nil {t : Text} (h : Spelling t) : t ≠ [] := by
  obtain ⟨c, rest, rfl, -⟩ := h.head
  exact List.cons_ne_nil c rest

theorem spelling_of_isIdentifier {t : Text} (h : IsIdentifier t) : Spelling t where
  plain := Text.plain_of_isIdentifierPart h.part
  head := by
    cases t with
    | nil => exact absurd rfl h.ne_nil
    | cons c rest =>
        have hrange := toNat_of_isIdentifierPart (h.part c List.mem_cons_self)
        refine ⟨c, rest, rfl, isBlank_eq_false (by omega) (by omega), ne_of_toNat_ne ?_⟩
        have hcolon : ':'.toNat = 58 := rfl
        omega
  last := endsOutside_of_forall fun c hc =>
    isBlank_of_isNumeralPart (isNumeralPart_of_isIdentifierPart (h.part c hc))

theorem spelling_immediate (v : Int) : Spelling ('#' :: decimal v) where
  plain := Text.Plain.append (s := ['#']) (by decide) (Text.plain_decimal v)
  head := ⟨'#', _, rfl, by decide, by decide⟩
  last := endsOutside_of_forall
    (List.forall_mem_cons.2 ⟨by decide, fun c hc =>
      isBlank_of_isNumeralPart (isNumeralPart_decimal v c hc)⟩)

theorem spelling_stackOffset (bytes : Int) :
    Spelling (Operand.Content.stackOffset bytes).render := by
  rw [Operand.Content.render]
  split
  · exact ⟨by decide, ⟨'[', _, rfl, by decide, by decide⟩,
      endsOutside_append "[sp".toList (endsOutside_singleton (by decide)) (by decide)⟩
  · refine ⟨?_, ⟨'[', _, rfl, by decide, by decide⟩, ?_⟩
    · exact ((by decide : Text.Plain "[sp, #".toList).append (Text.plain_decimal bytes)).append
        (by decide)
    · exact endsOutside_append _ (endsOutside_singleton (by decide)) (by decide)

theorem Operand.Content.Canonical.spelling {content : Operand.Content} (h : content.Canonical) :
    Spelling content.render := by
  cases content with
  | register index => exact spelling_of_isIdentifier (isIdentifier_register h)
  | immediate v => exact spelling_immediate v
  | label name => exact spelling_of_isIdentifier h.1
  | stackPointer => exact spelling_of_isIdentifier isIdentifier_sp
  | stackOffset bytes => exact spelling_stackOffset bytes

theorem spelling_renderList {content : Operand.Content} {contents : List Operand.Content}
    (h : ∀ c ∈ content :: contents, c.Canonical) : Spelling (renderList (content :: contents)) := by
  induction contents generalizing content with
  | nil =>
      rw [renderList_singleton]
      exact (List.forall_mem_singleton.1 h).spelling
  | cons d contents ih =>
      obtain ⟨hc, hcs⟩ := List.forall_mem_cons.1 h
      have hrest := ih hcs
      have hjoin : renderList (content :: d :: contents) =
          content.render ++ ", ".toList ++ renderList (d :: contents) := by
        rw [renderList_cons_cons]
        simp
      obtain ⟨c, rest, hhead, hblank, hcolon⟩ := hc.spelling.head
      rw [hjoin]
      refine ⟨(hc.spelling.plain.append (by decide)).append hrest.plain, ⟨c, ?_⟩, ?_⟩
      · exact ⟨_, by rw [hhead]; rfl, hblank, hcolon⟩
      · exact endsOutside_append _ hrest.last hrest.ne_nil

/-! ### Instructions -/

/-- The instruction is one that can be printed and read back. -/
structure Instruction.Canonical (isa : InstructionSet) (i : Instruction) : Prop where
  mnemonic : IsIdentifier i.mnemonic
  lower : i.mnemonic.lower = i.mnemonic
  format : ∃ candidates, isa.lookup i.mnemonic = some candidates ∧
    i.condition = candidates.condition ∧
    (candidates.formats.find? fun f => f.signature = i.operands.map Operand.kind) = some i.format
  slots : SlotsAgree [] (i.format.slots.zip i.operands)
  operands : ∀ c ∈ i.operands.map Operand.content, c.Canonical

theorem Instruction.ReadIn.canonical {isa : InstructionSet} {code : Text} {i : Instruction}
    (h : i.ReadIn isa code) (hprint : ∀ v ∈ i.numbers, isPrintable v = true) :
    i.Canonical isa := by
  obtain ⟨ts, hts, hread⟩ := h
  obtain ⟨t, ht, hkind, hmnemonic⟩ := hread.mnemonic
  have hspelled := hts t ht
  rw [Token.SpelledIn, hkind] at hspelled
  refine ⟨?_, ?_, hread.format, hread.slots, ?_⟩
  · rw [hmnemonic]
    exact hspelled.1.lower
  · rw [hmnemonic, Text.lower_lower]
  · intro c hc
    obtain ⟨o, ho, rfl⟩ := List.mem_map.1 hc
    exact (hread.operands o ho).canonical hts fun v hv =>
      hprint v (List.mem_filterMap.2 ⟨o, ho, hv⟩)

theorem slotsAgree_bare {placed : List (Text × Int)} {pairs : List (Slot × Operand)} :
    SlotsAgree placed (pairs.map (Prod.map id Operand.bare)) ↔ SlotsAgree placed pairs := by
  induction pairs generalizing placed with
  | nil => rfl
  | cons pair pairs ih => exact and_congr Iff.rfl (and_congr Iff.rfl ih)

/-- Whether operands agree with their slots depends on their contents only. -/
theorem slotsAgree_congr {slots : List Slot} {os os' : List Operand}
    (h : os.map Operand.bare = os'.map Operand.bare) :
    SlotsAgree [] (slots.zip os) ↔ SlotsAgree [] (slots.zip os') := by
  rw [← slotsAgree_bare, ← List.zip_map_right, h, List.zip_map_right, slotsAgree_bare]

theorem map_bare_eq {os os' : List Operand}
    (h : os.map Operand.content = os'.map Operand.content) :
    os.map Operand.bare = os'.map Operand.bare := by
  have hbare := congrArg (List.map fun c => ({ content := c } : Operand)) h
  rwa [List.map_map, List.map_map] at hbare

theorem map_kind_eq {os os' : List Operand}
    (h : os.map Operand.content = os'.map Operand.content) :
    os.map Operand.kind = os'.map Operand.kind := by
  have hkind := congrArg (List.map Operand.Content.kind) h
  rwa [List.map_map, List.map_map] at hkind

/-- What follows the mnemonic of an instruction. -/
def operandTail : List Operand.Content → Text
  | [] => []
  | c :: contents => ' ' :: renderList (c :: contents)

theorem Instruction.Canonical.render_eq {isa : InstructionSet} {i : Instruction}
    (h : i.Canonical isa) :
    i.render = i.mnemonic ++ operandTail (i.operands.map Operand.content) := by
  have hoperands : i.renderOperands = renderList (i.operands.map Operand.content) := by
    rw [renderOperands, renderList, List.map_map]
    rfl
  have hcanonical := h.operands
  rw [render, hoperands]
  cases hcontents : i.operands.map Operand.content with
  | nil => simp [renderList, Text.joined, operandTail]
  | cons c contents =>
      rw [hcontents] at hcanonical
      have hne := (spelling_renderList hcanonical).ne_nil
      rw [if_neg (by simpa using hne), operandTail]
      simp

theorem startsOutside_operandTail (contents : List Operand.Content) :
    StartsOutside isIdentifierPart (operandTail contents) := by
  cases contents with
  | nil => exact startsOutside_nil _
  | cons c contents => exact startsOutside_cons (by decide)

namespace SourceLine

variable (line : SourceLine) (number : Int) (whole : Text) (position : Nat)

theorem operandList_render {contents : List Operand.Content}
    (h : ∀ c ∈ contents, c.Canonical) :
    ∃ ts, scan number whole position (operandTail contents) = .ok ts ∧
      ∃ os rest, line.operandList ts = .ok (os, rest) ∧ (nextToken rest).kind = .endOfLine ∧
        os.map Operand.content = contents := by
  cases contents with
  | nil => exact ⟨_, by rw [operandTail, scan], [], _, rfl, rfl, rfl⟩
  | cons c contents =>
      obtain ⟨ts, hts, os, last, hos, hlast, hcontents⟩ :=
        operands_render line number whole (position + 1) h
      refine ⟨ts, ?_, os, [last], ?_, hlast, hcontents⟩
      · rw [operandTail, scans_separator rfl, hts]
        rfl
      · rw [operandList, if_neg (operands_ne_endOfLine line hos), hos]

theorem buildInstruction_of_contents {isa : InstructionSet} {i : Instruction}
    (h : i.Canonical isa) {candidates : Candidates}
    (hlookup : isa.lookup i.mnemonic = some candidates) {os : List Operand}
    (hos : os.map Operand.content = i.operands.map Operand.content) (column : Nat) :
    ∃ j, line.buildInstruction ⟨.identifier, i.mnemonic, column⟩ candidates os = .ok j ∧
      j.bare = i.bare := by
  obtain ⟨candidates', hlookup', hcondition, hfind⟩ := h.format
  obtain rfl := Option.some_inj.1 (hlookup'.symm.trans hlookup)
  have hslots : line.checkSlots ⟨.identifier, i.mnemonic, column⟩ i.format os = .ok () :=
    checkSlotsFrom_eq_ok_iff.2 ((slotsAgree_congr (map_bare_eq hos)).2 h.slots)
  -- the same shapes choose the same format
  rw [← map_kind_eq hos] at hfind
  refine ⟨_, by simp only [buildInstruction, chooseFormat, hfind, ok_bind, hslots]; rfl, ?_⟩
  simp only [Instruction.bare, h.lower, hcondition, map_bare_eq hos]

/-- **The spelling of an instruction is read back.** -/
theorem instruction_render {isa : InstructionSet} {i : Instruction} (h : i.Canonical isa) :
    ∃ ts, scan number whole position i.render = .ok ts ∧
      ∃ j, line.instruction isa ts = .ok j ∧ j.bare = i.bare := by
  obtain ⟨candidates, hlookup, -⟩ := h.format
  obtain ⟨ts, hts, os, rest, hos, hend, hcontents⟩ :=
    operandList_render line number whole (position + i.mnemonic.length) h.operands
  obtain ⟨j, hj, hbare⟩ := buildInstruction_of_contents line h hlookup hcontents (position + 1)
  refine ⟨⟨.identifier, i.mnemonic, position + 1⟩ :: ts, ?_, j, ?_, hbare⟩
  · rw [h.render_eq, scans_identifier h.mnemonic (startsOutside_operandTail _), hts]
    rfl
  · simp only [instruction, hlookup, hos, ok_bind, hend, if_true, hj]

end SourceLine

end ThumbAssembler
