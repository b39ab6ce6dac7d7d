/-
**What of a source matters.**

The words of a source depend on little of its text.  Of a line there matter the names of the labels
that it defines and, if an instruction follows, the mnemonic without regard to letter case and what
the tokens after it stand for: the number of a register, the stack pointer, the value of a numeral,
the name of a label, punctuation.  This is the outline of the line.  Two sources whose lines have
the same outlines are assembled to the same words; spacing, comments, letter case of mnemonics and
registers and the spelling of numerals are not in the outline, but the letter case of labels is.

One spelling matters all the same: the number of a register is read within the digit limit, and
leading zeros count.  A source that spells a register with more digits is not assembled, whatever
the register.

Main definitions:

* `ThumbAssembler.Follows` — what is known of a computation once another has succeeded;
* `ThumbAssembler.Token.meaning` — what a token after the mnemonic stands for;
* `ThumbAssembler.Token.Legible` — a token whose number, if it is a register, can be read;
* `ThumbAssembler.leadingLabels` — the labels that a text starts with;
* `ThumbAssembler.Text.outline` — the outline of a line;
* `ThumbAssembler.Text.Legible` — all registers of a line can be read.

Main results:

* `ThumbAssembler.SourceLine.identifierOperand_content` — an operand denotes what its token means;
* `ThumbAssembler.SourceLine.instruction_follows` — **tokens of the same meaning spell the same
  instruction**, if they are legible;
* `ThumbAssembler.parseLine_follows` — lines of the same outline define the same entries;
* `ThumbAssembler.report_of_outline_eq` — sources of the same outline have the same words, if their
  registers can be read.
-/

import Mathlib
import ThumbAssembler.Proofs.LineReading
import ThumbAssembler.Proofs.Placement

set_option autoImplicit false

namespace ThumbAssembler

/-! ### Computations that succeed together -/

section Follows

variable {ε α β γ δ : Type} {R R' : α → β → Prop} {S : γ → δ → Prop} {E E' : ε → Prop}

/-- Whenever the first computation succeeds, so does the second, with a related result, unless it is
stopped by one of the failures `E`. -/
def Follows (R : α → β → Prop) (E : ε → Prop) (x : Except ε α) (y : Except ε β) : Prop :=
  ∀ a, x = .ok a → Outcome (R a) E y

theorem follows_ok {a : α} {b : β} (h : R a b) : Follows R E (.ok a) (.ok b) := by
  intro a' ha'
  obtain rfl := Except.ok.inj ha'
  exact h

theorem follows_error (e : ε) (y : Except ε β) : Follows R E (.error e) y := by
  intro a ha
  cases ha

theorem Follows.bind {x : Except ε α} {y : Except ε β} {f : α → Except ε γ} {g : β → Except ε δ}
    (h : Follows R E x y) (hfg : ∀ a b, R a b → Follows S E (f a) (g b)) :
    Follows S E (x >>= f) (y >>= g) := by
  intro c hc
  obtain ⟨a, ha, hc⟩ := bind_eq_ok_iff.1 hc
  exact (h a ha).bind fun b hab => hfg a b hab c hc

theorem Follows.imp {x : Except ε α} {y : Except ε β} (h : Follows R E x y)
    (hR : ∀ a b, R a b → R' a b) (hE : ∀ e, E e → E' e) : Follows R' E' x y :=
  fun a ha => (h a ha).imp (hR a) hE

end Follows

/-! ### Meanings of tokens -/

/-- The number of a register, however it is spelled. -/
def registerNumber? (name : Text) : Option Nat := (registerDigits? name).map (digitsValue 10)

/-- What a token after the mnemonic stands for: a sign of punctuation or an immediate by its sort,
which holds the value; a register by its number; the stack pointer; any other name by itself. -/
inductive Meaning where
  | sign (kind : TokenKind)
  | register (index : Nat)
  | stackPointer
  | name (text : Text)
  deriving DecidableEq, Repr

/-- What an identifier after the mnemonic stands for. -/
def nameMeaning (text : Text) : Meaning :=
  match registerNumber? text with
  | some index => .register index
  | none => if text.lower = "sp".toList then .stackPointer else .name text

/-- What a token after the mnemonic stands for. -/
def Token.meaning (t : Token) : Meaning :=
  if t.kind = .identifier then nameMeaning t.text else .sign t.kind

/-- The operand that a name denotes; registers that are out of range or not supported are none. -/
def Meaning.content? : Meaning → Option Operand.Content
  | sign _ => none
  | register index => if isRegisterIndex index then some (.register index) else none
  | stackPointer => some .stackPointer
  | name text =>
      if text.lower = "pc".toList ∨ text.lower = "lr".toList then none else some (.label text)

/-- The number of the token, if it is a register, has few enough digits to be read. -/
def Token.Legible (t : Token) : Prop :=
  t.kind = .identifier → ∀ digits ∈ registerDigits? t.text, digits.length ≤ maxDigits

instance : DecidablePred Token.Legible :=
  fun t => inferInstanceAs (Decidable
    (t.kind = .identifier → ∀ digits ∈ registerDigits? t.text, digits.length ≤ maxDigits))

theorem nameMeaning_ne_sign (text : Text) (kind : TokenKind) : nameMeaning text ≠ .sign kind := by
  unfold nameMeaning
  split
  · simp
  · split <;> simp

/-- The stack pointer is no numbered register. -/
theorem registerDigits?_of_lower_eq_sp {text : Text} (h : text.lower = "sp".toList) :
    registerDigits? text = none := by
  cases text with
  | nil => rfl
  | cons c rest =>
      have hc : c.toLower = 's' := (List.cons.inj h).1
      rw [registerDigits?, if_neg]
      rintro ⟨rfl | rfl, -⟩
      · exact absurd hc (by decide)
      · exact absurd hc (by decide)

theorem nameMeaning_eq_stackPointer_iff {text : Text} :
    nameMeaning text = .stackPointer ↔ text.lower = "sp".toList := by
  constructor
  · intro h
    unfold nameMeaning at h
    split at h
    · cases h
    · by_contra hne
      rw [if_neg hne] at h
      cases h
  · intro h
    simp only [nameMeaning, registerNumber?, registerDigits?_of_lower_eq_sp h, Option.map_none, h,
      if_true]

theorem Token.legible_of_kind_ne {t : Token} (h : t.kind ≠ .identifier) : t.Legible :=
  fun hkind => absurd hkind h

theorem Token.legible_of_lower_eq_sp {t : Token} (h : t.text.lower = "sp".toList) : t.Legible := by
  intro _ digits hdigits
  rw [registerDigits?_of_lower_eq_sp h] at hdigits
  cases hdigits

section Meaning

variable {t t' : Token}

theorem Token.kind_eq_of_meaning_eq (h : t.meaning = t'.meaning) : t.kind = t'.kind := by
  unfold meaning at h
  split at h
  · split at h
    · rename_i ht ht'
      rw [ht, ht']
    · exact absurd h (nameMeaning_ne_sign _ _)
  · split at h
    · exact absurd h.symm (nameMeaning_ne_sign _ _)
    · exact Meaning.sign.inj h

theorem Token.nameMeaning_eq_of_meaning_eq (h : t.meaning = t'.meaning)
    (ht : t.kind = .identifier) : nameMeaning t.text = nameMeaning t'.text := by
  have ht' : t'.kind = .identifier := by rw [← kind_eq_of_meaning_eq h, ht]
  rwa [meaning, meaning, if_pos ht, if_pos ht'] at h

end Meaning

/-! ### Operands -/

/-- The tokens stand for the same, one by one. -/
def Alike (ts ts' : List Token) : Prop :=
  List.Forall₂ (fun t t' => t.meaning = t'.meaning) ts ts'

theorem alike_of_map_eq {ts ts' : List Token} (h : ts.map Token.meaning = ts'.map Token.meaning) :
    Alike ts ts' := by
  have hmeanings : List.Forall₂ Eq (ts.map Token.meaning) (ts'.map Token.meaning) := by
    rw [h]
    exact List.forall₂_same.2 fun _ _ => rfl
  rwa [List.forall₂_map_left_iff, List.forall₂_map_right_iff] at hmeanings

theorem Alike.nextToken_kind {ts ts' : List Token} (h : Alike ts ts') :
    (nextToken ts).kind = (nextToken ts').kind := by
  cases h with
  | nil => rfl
  | cons ht _ => exact Token.kind_eq_of_meaning_eq ht

/-- The end of the line is legible. -/
theorem EndsLine.legible {ts : List Token} (h : EndsLine ts)
    (hend : (nextToken ts).kind = .endOfLine) : ∀ t ∈ ts, t.Legible := by
  obtain ⟨last, rfl, hlast⟩ := h.eq_singleton hend
  intro t ht
  obtain rfl := List.mem_singleton.1 ht
  exact Token.legible_of_kind_ne (by rw [hlast]; decide)

namespace SourceLine

/-- What has been read from the tokens `ts'` is the same as what the other line has, the tokens that
are left stand for the same, and those that have been read are legible. -/
def SameRead {α β : Type} (view : α → β) (ts' : List Token) (r r' : α × List Token) : Prop :=
  view r.1 = view r'.1 ∧ Alike r.2 r'.2 ∧ ∃ read, ts' = read ++ r'.2 ∧ ∀ t ∈ read, t.Legible

/-- Operands are the same if they denote the same. -/
abbrev SameOperand := SameRead Operand.content

/-- Lists of operands are the same if they denote the same. -/
abbrev SameOperands := SameRead (List.map Operand.content)

/-- Legible tokens may stand in front. -/
theorem SameRead.append_left {α β : Type} {view : α → β} {ts' : List Token}
    {r r' : α × List Token} (h : SameRead view ts' r r') {read : List Token}
    (hread : ∀ t ∈ read, t.Legible) : SameRead view (read ++ ts') r r' := by
  obtain ⟨hview, halike, read', rfl, hread'⟩ := h
  refine ⟨hview, halike, read ++ read', (List.append_assoc _ _ _).symm, fun t ht => ?_⟩
  exact (List.mem_append.1 ht).elim (hread t) (hread' t)

theorem follows_cons {α β : Type} {view : α → β} {ts' : List Token}
    {x y : Except Fault (α × List Token)} (h : Follows (SameRead view ts') (LongRegister ts') x y)
    {t' : Token} (ht' : t'.Legible) :
    Follows (SameRead view (t' :: ts')) (LongRegister (t' :: ts')) x y :=
  h.imp (fun _ _ hr => hr.append_left (List.forall_mem_singleton.2 ht'))
    fun _ he => he.mono (List.subset_cons_self _ _)

/-- A single legible token has been read. -/
theorem follows_of_token {α β : Type} {view : α → β} {a a' : α} {ts ts' : List Token} {t' : Token}
    (hview : view a = view a') (hts : Alike ts ts') (ht' : t'.Legible) {E : Fault → Prop} :
    Follows (SameRead view (t' :: ts')) E (.ok (a, ts)) (.ok (a', ts')) :=
  follows_ok ⟨hview, hts, [t'], rfl, List.forall_mem_singleton.2 ht'⟩

/-- **An operand denotes what its token means**, if its number can be read. -/
theorem identifierOperand_content (line : SourceLine) {t : Token}
    (ht : ∀ digits ∈ registerDigits? t.text, digits.length ≤ maxDigits) :
    (line.identifierOperand t).toOption.map Operand.content = (nameMeaning t.text).content? := by
  unfold identifierOperand nameMeaning registerNumber?
  cases hdigits : registerDigits? t.text with
  | some digits =>
      have hshort : ¬maxDigits < digits.length := Nat.not_lt.2 (ht digits hdigits)
      simp only [hshort, if_false, Option.map_some, Meaning.content?]
      split
      · rfl
      · rfl
  | none =>
      simp only [Option.map_none]
      by_cases hsp : t.text.lower = "sp".toList
      · simp only [hsp, if_true]
        rfl
      · simp only [hsp, if_false, Meaning.content?]
        split
        · rfl
        · rfl

variable (line line' : SourceLine)

theorem identifierOperand_of_long {t : Token} {digits : Text}
    (hdigits : registerDigits? t.text = some digits) (hlong : maxDigits < digits.length) :
    line.identifierOperand t = .error (.numeralTooLong digits.length) := by
  simp only [identifierOperand, hdigits, hlong, if_true]

/-- Names of the same meaning denote the same operand, unless the number of a register is too
long. -/
theorem identifierOperand_follows {t t' : Token} (ht : t.kind = .identifier)
    (h : t.meaning = t'.meaning) :
    Follows (fun o o' => o.content = o'.content ∧ t'.Legible) (LongRegister [t'])
      (line.identifierOperand t) (line'.identifierOperand t') := by
  intro o ho
  have ht' : t'.kind = .identifier := by rw [← Token.kind_eq_of_meaning_eq h, ht]
  by_cases hshort' : ∀ digits ∈ registerDigits? t'.text, digits.length ≤ maxDigits
  · have hshort : ∀ digits ∈ registerDigits? t.text, digits.length ≤ maxDigits := by
      intro digits hdigits
      by_contra hlong
      rw [line.identifierOperand_of_long hdigits (Nat.lt_of_not_le hlong)] at ho
      cases ho
    have hcontent : (line'.identifierOperand t').toOption.map Operand.content =
        some o.content := by
      rw [line'.identifierOperand_content hshort', ← Token.nameMeaning_eq_of_meaning_eq h ht,
        ← line.identifierOperand_content hshort, ho]
      rfl
    obtain ⟨o', ho', hsame⟩ := Option.map_eq_some_iff.1 hcontent
    rw [toOption_eq_some_iff.1 ho']
    exact ⟨hsame.symm, fun _ => hshort'⟩
  · push Not at hshort'
    obtain ⟨digits, hdigits, hlong⟩ := hshort'
    rw [line'.identifierOperand_of_long hdigits hlong]
    exact ⟨t', List.mem_singleton_self t', digits, ht', hdigits, hlong, rfl⟩

theorem closeBracket_follows (start start' : Token) (bytes : Int) {ts ts' : List Token}
    (h : Alike ts ts') :
    Follows (SameOperand ts') (LongRegister ts') (line.closeBracket start bytes ts)
      (line'.closeBracket start' bytes ts') := by
  cases h with
  | nil => exact follows_error _ _
  | @cons t t' ts ts' ht hts =>
      obtain ⟨kind, text, column⟩ := t
      obtain ⟨kind', text', column'⟩ := t'
      obtain rfl : kind = kind' := Token.kind_eq_of_meaning_eq ht
      cases kind with
      | closeBracket =>
          refine follows_of_token ?_ hts (Token.legible_of_kind_ne ?_)
          · rfl
          · simp
      | _ => exact follows_error _ _

theorem bracketOffset_follows (start start' : Token) {ts ts' : List Token} (h : Alike ts ts') :
    Follows (SameOperand ts') (LongRegister ts') (line.bracketOffset start ts)
      (line'.bracketOffset start' ts') := by
  have h' := h
  cases h with
  | nil => exact follows_error _ _
  | @cons t t' ts ts' ht hts =>
      obtain ⟨kind, text, column⟩ := t
      obtain ⟨kind', text', column'⟩ := t'
      obtain rfl : kind = kind' := Token.kind_eq_of_meaning_eq ht
      cases kind with
      | comma =>
          cases hts with
          | nil => exact follows_error _ _
          | @cons u u' ts ts' hu hts =>
              obtain ⟨kind, text, column⟩ := u
              obtain ⟨kind', text', column'⟩ := u'
              obtain rfl : kind = kind' := Token.kind_eq_of_meaning_eq hu
              cases kind with
              | immediate bytes =>
                  have hclose := closeBracket_follows line line' start start' bytes hts
                  exact follows_cons (follows_cons hclose (Token.legible_of_kind_ne (by simp)))
                    (Token.legible_of_kind_ne (by simp))
              | _ => exact follows_error _ _
      | _ => exact closeBracket_follows line line' start start' 0 h'

theorem bracketOperand_follows (start start' : Token) {ts ts' : List Token} (h : Alike ts ts') :
    Follows (SameOperand ts') (LongRegister ts') (line.bracketOperand start ts)
      (line'.bracketOperand start' ts') := by
  cases h with
  | nil => exact follows_error _ _
  | @cons t t' ts ts' ht hts =>
      obtain ⟨kind, base, column⟩ := t
      obtain ⟨kind', base', column'⟩ := t'
      obtain rfl : kind = kind' := Token.kind_eq_of_meaning_eq ht
      cases kind with
      | identifier =>
          have hmeaning : nameMeaning base = nameMeaning base' :=
            Token.nameMeaning_eq_of_meaning_eq ht rfl
          have hsp : base.lower = "sp".toList ↔ base'.lower = "sp".toList := by
            rw [← nameMeaning_eq_stackPointer_iff, ← nameMeaning_eq_stackPointer_iff, hmeaning]
          simp only [bracketOperand, hsp]
          split
          · rename_i hbase
            exact follows_cons (bracketOffset_follows line line' start start' hts)
              (Token.legible_of_lower_eq_sp hbase)
          · exact follows_error _ _
      | _ => exact follows_error _ _

theorem operand_follows {ts ts' : List Token} (h : Alike ts ts') :
    Follows (SameOperand ts') (LongRegister ts') (line.operand ts) (line'.operand ts') := by
  cases h with
  | nil => exact follows_error _ _
  | @cons t t' ts ts' ht hts =>
      obtain ⟨kind, text, column⟩ := t
      obtain ⟨kind', text', column'⟩ := t'
      obtain rfl : kind = kind' := Token.kind_eq_of_meaning_eq ht
      cases kind with
      | immediate value =>
          refine follows_of_token ?_ hts (Token.legible_of_kind_ne ?_)
          · rfl
          · simp
      | openBracket =>
          exact follows_cons (bracketOperand_follows line line' _ _ hts)
            (Token.legible_of_kind_ne (by simp))
      | identifier =>
          have hname := (identifierOperand_follows line line' rfl ht).imp (fun _ _ ho => ho)
            fun _ he => he.mono (List.cons_subset_cons _ (List.nil_subset ts'))
          exact hname.bind fun o o' ho => follows_of_token ho.1 hts ho.2
      | _ => exact follows_error _ _

theorem operands_follows {ts ts' : List Token} (h : Alike ts ts') :
    Follows (SameOperands ts') (LongRegister ts') (line.operands ts) (line'.operands ts') := by
  fun_induction line.operands ts generalizing ts' with
  | case1 ts e he => exact follows_error _ _
  | case2 ts o text column rest ho ih =>
      have hoperand := operand_follows line line' h _ ho
      cases ho' : line'.operand ts' with
      | error e =>
          rw [operands_of_error line' ho']
          exact fun _ _ => hoperand.of_error ho'
      | ok r' =>
          obtain ⟨o', rest'⟩ := r'
          obtain ⟨hcontent, hrest, read, rfl, hread⟩ := hoperand.of_ok ho'
          cases hrest with
          | @cons _ u _ us hu hus =>
              obtain ⟨kind, text', column'⟩ := u
              obtain rfl : TokenKind.comma = kind := Token.kind_eq_of_meaning_eq hu
              have hcomma : Token.Legible ⟨.comma, text', column'⟩ :=
                Token.legible_of_kind_ne (by simp)
              have hmore := (follows_cons (ih hus) hcomma).imp
                (fun _ _ hr => hr.append_left hread)
                fun _ he => he.mono (List.subset_append_right read _)
              rw [operands_of_comma line' ho']
              refine hmore.bind fun r r' hr => follows_ok ⟨?_, hr.2⟩
              exact congrArg₂ List.cons hcontent hr.1
  | case3 ts o rest hnot ho =>
      have hoperand := operand_follows line line' h _ ho
      cases ho' : line'.operand ts' with
      | error e =>
          rw [operands_of_error line' ho']
          exact fun _ _ => hoperand.of_error ho'
      | ok r' =>
          obtain ⟨o', rest'⟩ := r'
          obtain ⟨hcontent, hrest⟩ := hoperand.of_ok ho'
          rw [operands_of_no_comma line' ho']
          · exact follows_ok ⟨congrArg (fun content => [content]) hcontent, hrest⟩
          · -- a comma in one list would be a comma in the other
            rintro text column us rfl
            cases hrest.1 with
            | @cons u _ us' _ hu _ =>
                obtain ⟨kind, text', column'⟩ := u
                obtain rfl : kind = .comma := Token.kind_eq_of_meaning_eq hu
                exact hnot text' column' us' rfl

theorem operandList_follows {ts ts' : List Token} (h : Alike ts ts') :
    Follows (SameOperands ts') (LongRegister ts') (line.operandList ts)
      (line'.operandList ts') := by
  unfold operandList
  rw [h.nextToken_kind]
  split
  · exact follows_ok ⟨rfl, h, [], rfl, by simp⟩
  · exact operands_follows line line' h

/-! ### Instructions -/

/-- The same operands after the same mnemonic make the same instruction, up to its place. -/
theorem buildInstruction_follows {mnemonic mnemonic' : Token}
    (hmnemonic : mnemonic.text.lower = mnemonic'.text.lower) (candidates : Candidates)
    {os os' : List Operand} (hos : os.map Operand.content = os'.map Operand.content)
    {E : Fault → Prop} :
    Follows (fun i i' => i.bare = i'.bare) E (line.buildInstruction mnemonic candidates os)
      (line'.buildInstruction mnemonic' candidates os') := by
  unfold buildInstruction chooseFormat
  rw [map_kind_eq hos]
  cases candidates.formats.find? fun f => f.signature = os'.map Operand.kind with
  | none => exact follows_error _ _
  | some f =>
      have hslots : Follows (fun _ _ => True) E (line.checkSlots mnemonic f os)
          (line'.checkSlots mnemonic' f os') := by
        intro _ h
        have hagree : line'.checkSlots mnemonic' f os' = .ok () := checkSlotsFrom_eq_ok_iff.2
          ((slotsAgree_congr (map_bare_eq hos)).1 (checkSlotsFrom_eq_ok_iff.1 h))
        rw [hagree]
        trivial
      refine hslots.bind fun _ _ _ => follows_ok ?_
      simp only [Instruction.bare, hmnemonic, map_bare_eq hos]

/-- **Tokens of the same meaning spell the same instruction**, after mnemonics that differ in letter
case at most, exactly if the numbers of their registers can be read. -/
theorem instruction_follows (isa : InstructionSet) {t t' : Token} {ts ts' : List Token}
    (hkind : t.kind = t'.kind) (hmnemonic : t.text.lower = t'.text.lower) (hts : Alike ts ts')
    (hends : EndsLine (t' :: ts')) :
    Follows (fun i i' => i.bare = i'.bare ∧ ∀ u ∈ ts', u.Legible) (LongRegister ts')
      (line.instruction isa (t :: ts)) (line'.instruction isa (t' :: ts')) := by
  obtain ⟨kind, text, column⟩ := t
  obtain ⟨kind', text', column'⟩ := t'
  obtain rfl : kind = kind' := hkind
  cases kind with
  | identifier =>
      have hlookup : isa.lookup text = isa.lookup text' := by
        simp only [InstructionSet.lookup, show text.lower = text'.lower from hmnemonic]
      simp only [instruction, hlookup]
      cases isa.lookup text' with
      | none => exact follows_error _ _
      | some candidates =>
          have hwithin := (line'.operandList_staysWithin ts' (hends.tail (by simp))).1
          have hoperands : Follows (fun r r' => SameOperands ts' r r' ∧ EndsLine r'.2)
              (LongRegister ts') (line.operandList ts) (line'.operandList ts') := by
            intro r hr
            have hread := operandList_follows line line' hts r hr
            cases hr' : line'.operandList ts' with
            | ok r' => exact ⟨hread.of_ok hr', hwithin.of_ok hr'⟩
            | error e => exact hread.of_error hr'
          refine hoperands.bind ?_
          rintro r r' ⟨⟨hcontents, halike, read, rfl, hread⟩, hrest⟩
          simp only [halike.nextToken_kind]
          split
          · rename_i hend
            refine (buildInstruction_follows line line' hmnemonic candidates hcontents).imp
              (fun i i' hi => ⟨hi, fun u hu => ?_⟩) fun _ he => he
            exact (List.mem_append.1 hu).elim (hread u) (hrest.legible hend u)
          · exact follows_error _ _
  | _ => exact follows_error _ _

end SourceLine

/-! ### Lines -/

/-- The names of the labels that a text starts with, and the position and the text after them. -/
def leadingLabels (position : Nat) (t : Text) : List Text × Nat × Text :=
  match _h : labelPart? t with
  | none => ([], position, t)
  | some part =>
      let r := leadingLabels (position + part.length) part.rest
      (part.name :: r.1, r.2)
termination_by t.length
decreasing_by exact labelPart_length _h

theorem leadingLabels_of_none (position : Nat) {t : Text} (h : labelPart? t = none) :
    leadingLabels position t = ([], position, t) := by
  rw [leadingLabels]
  split
  · rfl
  · simp_all

theorem leadingLabels_of_some (position : Nat) {t : Text} {part : LabelPart}
    (h : labelPart? t = some part) :
    leadingLabels position t =
      (part.name :: (leadingLabels (position + part.length) part.rest).1,
        (leadingLabels (position + part.length) part.rest).2) := by
  rw [leadingLabels]
  split
  · simp_all
  · rename_i part' hpart
    obtain rfl := Option.some_inj.1 (hpart.symm.trans h)
    rfl

/-- The labels of a line are those that it starts with, and none of them may be reserved. -/
theorem labelsFrom_leading (isa : InstructionSet) (line : SourceLine) (position : Nat) (t : Text) :
    Outcome
      (fun r => r.1.map Label.name = (leadingLabels position t).1 ∧
        r.2 = (leadingLabels position t).2 ∧
        ∀ name ∈ (leadingLabels position t).1, isa.isReserved name = false)
      (fun _ => ∃ name ∈ (leadingLabels position t).1, isa.isReserved name = true)
      (labelsFrom isa line position t) := by
  fun_induction labelsFrom isa line position t with
  | case1 position t h =>
      rw [leadingLabels_of_none position h]
      exact ⟨rfl, rfl, by simp⟩
  | case2 position t part h column hreserved =>
      rw [leadingLabels_of_some position h]
      exact ⟨part.name, List.mem_cons_self, hreserved⟩
  | case3 position t part h column hreserved ih =>
      rw [leadingLabels_of_some position h]
      cases hrest : labelsFrom isa line (position + part.length) part.rest with
      | error e =>
          obtain ⟨name, hname, hname'⟩ := ih.of_error hrest
          exact ⟨name, List.mem_cons_of_mem _ hname, hname'⟩
      | ok r =>
          obtain ⟨hnames, hr, hfree⟩ := ih.of_ok hrest
          refine ⟨?_, hr, List.forall_mem_cons.2 ⟨by simpa using hreserved, hfree⟩⟩
          simp only [List.map_cons, hnames]

/-- What follows the labels of a line is blank or a directive. -/
def isSilent (rest : Text) : Bool :=
  match rest.trimStart with
  | [] => true
  | c :: _ => c = '.'

section Statement

variable (isa : InstructionSet) (line : SourceLine) (code : Text) (position : Nat) {rest : Text}

theorem statement_of_isSilent (h : isSilent rest = true) :
    ∃ s, statement isa line code position rest = .ok s ∧
      ∀ number labels, ParsedLine.entries ⟨number, labels, s⟩ = labels.map Entry.label := by
  unfold isSilent at h
  unfold statement
  split
  · exact ⟨.blank, rfl, fun _ _ => List.append_nil _⟩
  · exact ⟨.directive _, rfl, fun _ _ => List.append_nil _⟩
  · rename_i hblank hdirective
    split at h
    · rename_i hnil
      exact absurd hnil hblank
    · rename_i c tail hcons
      obtain rfl : c = '.' := by simpa using h
      exact absurd hcons (hdirective tail)

theorem statement_of_not_isSilent (h : isSilent rest = false) :
    statement isa line code position rest = do
      let tokens ← tokenize line.number code position
      return .instruction (← line.instruction isa tokens) := by
  unfold isSilent at h
  unfold statement
  split
  · rename_i hnil
    rw [hnil] at h
    cases h
  · rename_i tail hcons
    rw [hcons] at h
    cases h
  · rfl

end Statement

/-- What follows the labels of a line: nothing, an instruction or what is not made of tokens. -/
inductive Remainder where
  | silent
  | instruction (kind : TokenKind) (mnemonic : Text) (operands : List Meaning)
  | unreadable
  deriving DecidableEq, Repr

/-- What follows the labels of a line whose statement starts at a position of the code. -/
def remainder (code : Text) (position : Nat) (rest : Text) : Remainder :=
  if isSilent rest then .silent
  else match tokenize 0 code position with
    | .ok (t :: ts) => .instruction t.kind t.text.lower (ts.map Token.meaning)
    | _ => .unreadable

/-- The tokens after the mnemonic, if an instruction follows the labels of a line. -/
def operandTokens (code : Text) (position : Nat) (rest : Text) : List Token :=
  if isSilent rest then []
  else match tokenize 0 code position with
    | .ok (_ :: ts) => ts
    | _ => []

/-- What of a line matters: the labels that it defines, and what follows them. -/
structure Outline where
  labels : List Text
  remainder : Remainder
  deriving DecidableEq, Repr

/-- The outline of a line. -/
def Text.outline (raw : Text) : Outline where
  labels := (leadingLabels 0 raw.code).1
  remainder := ThumbAssembler.remainder raw.code (leadingLabels 0 raw.code).2.1
    (leadingLabels 0 raw.code).2.2

/-- The tokens after the mnemonic of a line. -/
def Text.operandTokens (raw : Text) : List Token :=
  ThumbAssembler.operandTokens raw.code (leadingLabels 0 raw.code).2.1
    (leadingLabels 0 raw.code).2.2

/-- The numbers of all registers of a line can be read. -/
def Text.Legible (raw : Text) : Prop := ∀ t ∈ raw.operandTokens, t.Legible

instance : DecidablePred Text.Legible :=
  fun raw => inferInstanceAs (Decidable (∀ t ∈ raw.operandTokens, t.Legible))

theorem Text.not_legible_of_longRegister {raw : Text} {e : Fault}
    (h : LongRegister raw.operandTokens e) :
    ¬raw.Legible ∧ ∃ digits, e = .numeralTooLong digits := by
  obtain ⟨t, ht, digits, hkind, hdigits, hlong, he⟩ := h
  refine ⟨fun hlegible => ?_, digits.length, he⟩
  exact absurd (hlegible t ht hkind digits hdigits) (Nat.not_le.2 hlong)

theorem remainder_of_tokenize {code rest : Text} {position : Nat} {t : Token} {ts : List Token}
    (hrest : isSilent rest = false) (h : tokenize 0 code position = .ok (t :: ts)) :
    remainder code position rest =
      .instruction t.kind t.text.lower (ts.map Token.meaning) := by
  rw [remainder, if_neg (by simp [hrest])]
  simp only [h]

theorem operandTokens_of_tokenize {code rest : Text} {position : Nat} {t : Token} {ts : List Token}
    (hrest : isSilent rest = false) (h : tokenize 0 code position = .ok (t :: ts)) :
    operandTokens code position rest = ts := by
  rw [operandTokens, if_neg (by simp [hrest])]
  simp only [h]

theorem exists_tokenize_of_remainder {code rest : Text} {position : Nat} {kind : TokenKind}
    {mnemonic : Text} {operands : List Meaning}
    (h : remainder code position rest = .instruction kind mnemonic operands) :
    isSilent rest = false ∧ ∃ t ts, tokenize 0 code position = .ok (t :: ts) ∧ t.kind = kind ∧
      t.text.lower = mnemonic ∧ ts.map Token.meaning = operands := by
  unfold remainder at h
  split at h
  · cases h
  · rename_i hrest
    refine ⟨by simpa using hrest, ?_⟩
    split at h
    · rename_i t ts hts
      obtain ⟨hkind, hmnemonic, hoperands⟩ := Remainder.instruction.inj h
      exact ⟨t, ts, hts, hkind, hmnemonic, hoperands⟩
    · cases h

theorem isSilent_of_remainder {code rest : Text} {position : Nat}
    (h : remainder code position rest = .silent) : isSilent rest = true := by
  unfold remainder at h
  split at h
  · assumption
  · split at h
    · cases h
    · cases h

/-- The tokens of a text do not depend on the number of its line. -/
theorem tokenize_ok_of_tokenize {number : Nat} (number' : Nat) {text : Text} {start : Nat}
    {ts : List Token} (h : tokenize number text start = .ok ts) :
    tokenize number' text start = .ok ts := by
  have htogether : Together .any Eq (tokenize number text start) (tokenize number' text start) :=
    scan_together (fun _ _ => ⟨trivial, trivial, trivial⟩) _ _
  obtain ⟨_, hts', rfl⟩ := htogether.exists_of_ok h
  exact hts'

/-- Statements that add the same entries to a program, up to places. -/
def Statement.Same (s s' : Statement) : Prop :=
  Program.bare (ParsedLine.entries ⟨0, [], s⟩) = Program.bare (ParsedLine.entries ⟨0, [], s'⟩)

theorem statement_follows (isa : InstructionSet) (line line' : SourceLine) {code code' : Text}
    {position position' : Nat} {rest rest' : Text}
    (h : remainder code position rest = remainder code' position' rest') :
    Follows (fun s s' => s.Same s' ∧ ∀ t ∈ operandTokens code' position' rest', t.Legible)
      (LongRegister (operandTokens code' position' rest'))
      (statement isa line code position rest) (statement isa line' code' position' rest') := by
  intro s hs
  cases hsilent : isSilent rest with
  | true =>
      have hsilent' : isSilent rest' = true := by
        refine isSilent_of_remainder (h.symm.trans ?_)
        rw [remainder, if_pos hsilent]
      obtain ⟨s₁, hs₁, hentries⟩ := statement_of_isSilent isa line code position hsilent
      obtain ⟨s₂, hs₂, hentries'⟩ := statement_of_isSilent isa line' code' position' hsilent'
      obtain rfl := Except.ok.inj (hs.symm.trans hs₁)
      rw [hs₂]
      refine ⟨by rw [Statement.Same, hentries, hentries'], ?_⟩
      rw [operandTokens, if_pos hsilent']
      simp
  | false =>
      rw [statement_of_not_isSilent isa line code position hsilent] at hs
      obtain ⟨ts, hts, hs⟩ := bind_eq_ok_iff.1 hs
      obtain ⟨i, hi, hs⟩ := bind_eq_ok_iff.1 hs
      obtain rfl := Except.ok.inj hs
      cases ts with
      | nil => cases hi
      | cons t ts =>
          rw [remainder_of_tokenize hsilent (tokenize_ok_of_tokenize 0 hts)] at h
          obtain ⟨hsilent', t', ts', hts', hkind, hmnemonic, hmeanings⟩ :=
            exists_tokenize_of_remainder h.symm
          have hread := line.instruction_follows line' isa hkind.symm hmnemonic.symm
            (alike_of_map_eq hmeanings.symm) (endsLine_of_tokenize hts') i hi
          rw [statement_of_not_isSilent isa line' code' position' hsilent',
            tokenize_ok_of_tokenize line'.number hts', ok_bind,
            operandTokens_of_tokenize hsilent' hts']
          refine hread.bind fun i' hi' => ⟨?_, hi'.2⟩
          simpa [Statement.Same, ParsedLine.entries, Program.bare, Entry.bare] using hi'.1

/-- The entries of a line, up to places, are those of its labels and of its statement. -/
theorem bare_entries_congr {number number' : Nat} {labels labels' : List Label}
    {s s' : Statement} (hlabels : labels.map Label.name = labels'.map Label.name)
    (hs : s.Same s') :
    Program.bare (ParsedLine.entries ⟨number, labels, s⟩) =
      Program.bare (ParsedLine.entries ⟨number', labels', s'⟩) := by
  have hnames (ls : List Label) : Program.bare (ls.map Entry.label) =
      (ls.map Label.name).map fun name => .label { name := name } := by
    rw [Program.bare, List.map_map, List.map_map]
    rfl
  have hsplit (n : Nat) (ls : List Label) (s : Statement) :
      Program.bare (ParsedLine.entries ⟨n, ls, s⟩) =
        Program.bare (ls.map Entry.label) ++ Program.bare (ParsedLine.entries ⟨0, [], s⟩) := by
    simp only [ParsedLine.entries, Program.bare, List.map_append, List.map_nil, List.nil_append]
  rw [hsplit number labels s, hsplit number' labels' s', hnames labels, hnames labels', hlabels]
  exact congrArg _ hs

/-- **Lines of the same outline define the same entries**, up to places, if their registers can be
read. -/
theorem parseLine_follows (isa : InstructionSet) (number number' : Nat) {raw raw' : Text}
    (h : raw.outline = raw'.outline) :
    Follows (fun l l' => Program.bare l.entries = Program.bare l'.entries ∧ raw'.Legible)
      (LongRegister raw'.operandTokens)
      (parseLine isa number raw) (parseLine isa number' raw') := by
  obtain ⟨hlabels, hremainder⟩ := Outline.mk.inj h
  have hread := labelsFrom_leading isa ⟨number, raw.shown⟩ 0 raw.code
  have hread' := labelsFrom_leading isa ⟨number', raw'.shown⟩ 0 raw'.code
  have hfollows : Follows
      (fun r r' => r.1.map Label.name = r'.1.map Label.name ∧ r.2 = (leadingLabels 0 raw.code).2 ∧
        r'.2 = (leadingLabels 0 raw'.code).2)
      (LongRegister raw'.operandTokens)
      (labelsFrom isa ⟨number, raw.shown⟩ 0 raw.code)
      (labelsFrom isa ⟨number', raw'.shown⟩ 0 raw'.code) := by
    intro r hr
    obtain ⟨hnames, hrest, hfree⟩ := hread.of_ok hr
    cases hr' : labelsFrom isa ⟨number', raw'.shown⟩ 0 raw'.code with
    | error e =>
        -- the names are the same, so one that is reserved would have stopped the other line
        obtain ⟨name, hname, hreserved⟩ := hread'.of_error hr'
        rw [← hlabels] at hname
        rw [hfree name hname] at hreserved
        cases hreserved
    | ok r' =>
        obtain ⟨hnames', hrest', -⟩ := hread'.of_ok hr'
        exact ⟨by rw [hnames, hnames', hlabels], hrest, hrest'⟩
  refine hfollows.bind ?_
  rintro ⟨labels, stop⟩ ⟨labels', stop'⟩ ⟨hnames, rfl, rfl⟩
  refine (statement_follows isa _ _ hremainder).bind fun s s' hs => follows_ok ⟨?_, hs.2⟩
  exact bare_entries_congr hnames hs.1

/-! ### Sources -/

/-- A line has a register with too many digits. -/
def LongRegisterIn (raws : List Text) (e : Fault) : Prop :=
  ∃ raw ∈ raws, LongRegister raw.operandTokens e

theorem parseLines_follows (isa : InstructionSet) (number number' : Nat) {raws raws' : List Text}
    (h : raws.map Text.outline = raws'.map Text.outline) :
    Follows (fun ls ls' => Program.bare (ls.flatMap ParsedLine.entries) =
        Program.bare (ls'.flatMap ParsedLine.entries) ∧ ∀ raw' ∈ raws', raw'.Legible)
      (LongRegisterIn raws') (parseLines isa number raws) (parseLines isa number' raws') := by
  induction raws generalizing raws' number number' with
  | nil =>
      obtain rfl := List.map_eq_nil_iff.1 h.symm
      exact follows_ok ⟨rfl, by simp⟩
  | cons raw raws ih =>
      obtain ⟨raw', rest', rfl, hraw, hrest⟩ := List.map_eq_cons_iff.1 h.symm
      have hline : Follows _ (LongRegisterIn (raw' :: rest')) _ _ :=
        (parseLine_follows isa number number' hraw.symm).imp (fun _ _ hl => hl)
          fun _ he => ⟨raw', List.mem_cons_self, he⟩
      have hlines : Follows _ (LongRegisterIn (raw' :: rest')) _ _ :=
        (ih (number + 1) (number' + 1) hrest.symm).imp (fun _ _ hls => hls)
          fun _ ⟨raw, hmem, he⟩ => ⟨raw, List.mem_cons_of_mem _ hmem, he⟩
      refine hline.bind fun l l' hl => hlines.bind fun ls ls' hls => follows_ok ⟨?_, ?_⟩
      · have hl := hl.1
        have hls := hls.1
        simp only [Program.bare, List.flatMap_cons, List.map_append] at hl hls ⊢
        rw [hl, hls]
      · exact List.forall_mem_cons.2 ⟨hl.2, hls.2⟩

/-- Sources of the same outline spell the same program, up to places. -/
theorem parse_follows (isa : InstructionSet) {source source' : Text}
    (h : source.lines.map Text.outline = source'.lines.map Text.outline) :
    Follows (fun p p' => Program.bare p = Program.bare p' ∧ ∀ raw ∈ source'.lines, raw.Legible)
      (LongRegisterIn source'.lines) (parse isa source) (parse isa source') :=
  (parseLines_follows isa 1 1 h).bind fun _ _ hls => follows_ok hls

/-- **Sources of the same outline have the same words**, if their registers can be read. -/
theorem assemble_follows (isa : InstructionSet) (bias : Int) {source source' : Text}
    (h : source.lines.map Text.outline = source'.lines.map Text.outline) :
    Follows (fun a a' => a.words = a'.words ∧ ∀ raw ∈ source'.lines, raw.Legible)
      (LongRegisterIn source'.lines) (assemble isa bias source) (assemble isa bias source') := by
  intro a ha
  obtain ⟨p, -, -, hp, -⟩ := assemble_eq_ok_iff.1 ha
  have hread := parse_follows isa h p hp
  cases hp' : parse isa source' with
  | error e =>
      simp only [assemble, hp', error_bind]
      exact hread.of_error hp'
  | ok p' =>
      obtain ⟨hbare, hlegible⟩ := hread.of_ok hp'
      have hwords : some a.words = (p.assembled bias).toOption := by
        have hassemble := toOption_assemble isa bias source
        rwa [ha, hp] at hassemble
      -- the words of a program are those of its bare form, which both programs have in common
      have hwords' : (assemble isa bias source').toOption.map Assembly.words = some a.words := by
        have hassemble := toOption_assemble isa bias source'
        rw [hp'] at hassemble
        rw [hassemble, hwords, ← p.toOption_assembled_bare, hbare, p'.toOption_assembled_bare]
        rfl
      obtain ⟨a', ha', hsame⟩ := Option.map_eq_some_iff.1 hwords'
      rw [toOption_eq_some_iff.1 ha']
      exact ⟨hsame.symm, hlegible⟩

/-- Every label that an assembled program refers to is one that it defines, letter for letter. -/
theorem mem_labelNames_of_assemble {isa : InstructionSet} (hisa : isa.Sound) {bias : Int}
    {source : Text} {a : Assembly} (h : assemble isa bias source = .ok a) :
    ∃ p, parse isa source = .ok p ∧ ∀ i o name, .instruction i ∈ p → o ∈ i.operands →
      o.content = .label name → name ∈ p.labelNames := by
  obtain ⟨p, hreads, -, hreach, -⟩ := (exists_assemble_eq_ok_iff hisa).1 ⟨a, h⟩
  refine ⟨p, parse_eq_ok_iff.2 hreads, fun i o name hi ho hname => ?_⟩
  obtain ⟨before, after, hsplit⟩ := List.append_of_mem hi
  obtain ⟨t, g, hdefines, -⟩ := hreach _ i o name
    (Program.mem_addressed.2 ⟨before, after, hsplit, rfl⟩) ho hname
  exact hdefines.mem_labelNames

/-- **Only the outline of a source matters.**  If the lines of two sources have the same outlines
and the first source is assembled, then so is the second, to the same words and the same image,
exactly if the numbers of its registers can be read; otherwise such a number stops it.  The letter
case of labels is in the outline, and matters: an assembled source defines every label that it
refers to, letter for letter. -/
theorem report_of_outline_eq {target : Target} {width : RowWidth} {source source' : Text}
    (h : source.lines.map Text.outline = source'.lines.map Text.outline) {r : Report}
    (hr : report Thumb.instructionSet target width source = .ok r) (hok : r.isOk = true) :
    ((∀ raw ∈ source'.lines, raw.Legible) →
        ∃ r', report Thumb.instructionSet target width source' = .ok r' ∧ r'.isOk = true ∧
          r'.words = r.words ∧ r'.output = r.output) ∧
      ((¬∀ raw ∈ source'.lines, raw.Legible) →
        ∃ digits, report Thumb.instructionSet target width source' =
          .error (.numeralTooLong digits)) ∧
      ∃ p, parse Thumb.instructionSet source = .ok p ∧
        ∀ i o name, .instruction i ∈ p → o ∈ i.operands → o.content = .label name →
          name ∈ p.labelNames := by
  obtain ⟨a, ha, -⟩ := exists_assemble_of_report hr hok
  have hread := assemble_follows Thumb.instructionSet target.bias h a ha
  have hlabels := mem_labelNames_of_assemble Thumb.instructionSet_sound ha
  simp only [report, ha] at hr
  obtain rfl := Except.ok.inj hr
  cases ha' : assemble Thumb.instructionSet target.bias source' with
  | ok a' =>
      obtain ⟨hwords, hlegible⟩ := hread.of_ok ha'
      refine ⟨fun _ => ?_, fun hlong => absurd hlegible hlong, hlabels⟩
      simp only [report, ha']
      exact ⟨_, rfl, rfl, hwords.symm, by simp only [Report.output, hwords]⟩
  | error e =>
      obtain ⟨raw, hraw, hlong⟩ := hread.of_error ha'
      obtain ⟨hillegible, digits, rfl⟩ := Text.not_legible_of_longRegister hlong
      refine ⟨fun hlegible => absurd (hlegible raw hraw) hillegible, fun _ => ⟨digits, ?_⟩, hlabels⟩
      simp only [report, ha']

/-- A respelled source: spacing, tabs, comments, letter case, leading zeros and the spelling of
numerals differ. -/
theorem report_of_outline_eq_respelled :
    ∃ r r', report Thumb.instructionSet Target.parm none
        "L: adds r1, r1, #7\nldr r2, [sp, #16]\n.text\nbne L".toList = .ok r ∧
      report Thumb.instructionSet Target.parm none
        " L :ADDS R01,r001,#0x7 @ n\n\tLdr R2 , [ SP,#+0016 ]\n\nBNE L".toList = .ok r' ∧
      r.words = [0x1DC9, 0x9A04, 0xD1FB] ∧ r'.words = r.words ∧ r'.output = r.output := by
  obtain ⟨r, hr, htest⟩ : ∃ r, report Thumb.instructionSet Target.parm none
      "L: adds r1, r1, #7\nldr r2, [sp, #16]\n.text\nbne L".toList = .ok r ∧
      (r.isOk && decide (r.words = [0x1DC9, 0x9A04, 0xD1FB])) = true :=
    exists_ok_of_any (by decide +kernel)
  rw [Bool.and_eq_true, decide_eq_true_eq] at htest
  have houtline :
      (Text.lines "L: adds r1, r1, #7\nldr r2, [sp, #16]\n.text\nbne L".toList).map Text.outline =
        (Text.lines " L :ADDS R01,r001,#0x7 @ n\n\tLdr R2 , [ SP,#+0016 ]\n\nBNE L".toList).map
          Text.outline := by
    decide +kernel
  obtain ⟨r', hr', -, hwords, houtput⟩ :=
    (report_of_outline_eq houtline hr htest.1).1 (by decide +kernel)
  exact ⟨r, r', hr, hr', htest.2, hwords, houtput⟩

/-! ### A register that cannot be read -/

section MoveOne

variable {digits : Text}

/-- The line that moves one to the register with the given digits. -/
def moveOne (digits : Text) : Text :=
  ['m', 'o', 'v', 's'] ++ ' ' :: (('r' :: digits) ++ [',', ' ', '#', '1'])

theorem isIdentifier_of_digits (h : ∀ c ∈ digits, c.isDigit = true) :
    IsIdentifier ('r' :: digits) := by
  refine ⟨by decide, fun c hc => ?_⟩
  rw [isIdentifierPart, h c hc, Bool.or_true]

theorem isIdentifier_movs : IsIdentifier ['m', 'o', 'v', 's'] := by
  refine ⟨by decide, ?_⟩
  simp only [List.forall_mem_cons, List.not_mem_nil, false_implies, implies_true, and_true]
  decide

theorem plain_moveOne (h : ∀ c ∈ digits, c.isDigit = true) : (moveOne digits).Plain := by
  have hspace : Text.Plain [' '] := by decide
  have hregister : Text.Plain ('r' :: digits) := by
    refine Text.plain_of_isIdentifierPart (List.forall_mem_cons.2 ⟨by decide, ?_⟩)
    exact (isIdentifier_of_digits h).2
  exact Text.Plain.append (by decide) (hspace.append (hregister.append (by decide)))

theorem lines_moveOne (h : ∀ c ∈ digits, c.isDigit = true) :
    (moveOne digits).lines = [moveOne digits] :=
  Text.lines_singleton (Text.isLineBreak_of_plain (plain_moveOne h)) (List.cons_ne_nil _ _)

theorem code_moveOne (h : ∀ c ∈ digits, c.isDigit = true) :
    (moveOne digits).code = moveOne digits := by
  have hend : EndsOutside isBlank (moveOne digits) := by
    have hone : EndsOutside isBlank [',', ' ', '#', '1'] :=
      endsOutside_append [',', ' ', '#'] (endsOutside_singleton (by decide)) (by simp)
    have hregister := endsOutside_append ('r' :: digits) hone (by simp)
    exact endsOutside_append _ (endsOutside_append [' '] hregister (by simp)) (by simp)
  rw [Text.code, Text.expandTabs, Text.expandTabsFrom_of_plain (plain_moveOne h),
    Text.stripComment_of_plain (plain_moveOne h), Text.trimEnd_of_endsOutside hend]

theorem leadingLabels_moveOne (digits : Text) :
    leadingLabels 0 (moveOne digits) = ([], 0, moveOne digits) := by
  refine leadingLabels_of_none 0
    (labelPart?_of_not_colon isIdentifier_movs (startsOutside_cons (by decide)) ?_)
  simp [Text.trimStart, show isBlank ' ' = true by decide, show isBlank 'r' = false by decide]

theorem tokenize_moveOne (h : ∀ c ∈ digits, c.isDigit = true) :
    ∃ column column' column'', tokenize 0 (moveOne digits) 0 =
      .ok [⟨.identifier, ['m', 'o', 'v', 's'], 1⟩, ⟨.identifier, 'r' :: digits, 6⟩,
        ⟨.comma, [','], column⟩, ⟨.immediate 1, ['#', '1'], column'⟩,
        ⟨.endOfLine, [], column''⟩] := by
  have hone : Numeral.value? ['1'] = .ok (some 1) := by decide
  have hmnemonic : Scans 0 (moveOne digits) 0 (moveOne digits)
      [⟨.identifier, ['m', 'o', 'v', 's'], 1⟩] 4
      (' ' :: (('r' :: digits) ++ [',', ' ', '#', '1'])) :=
    scans_identifier isIdentifier_movs (startsOutside_cons (by decide))
  have hregister : Scans 0 (moveOne digits) 5 (('r' :: digits) ++ [',', ' ', '#', '1'])
      [⟨.identifier, 'r' :: digits, 6⟩] (5 + ('r' :: digits).length) [',', ' ', '#', '1'] :=
    scans_identifier (isIdentifier_of_digits h) (startsOutside_cons (by decide))
  have hcomma : Scans 0 (moveOne digits) (5 + ('r' :: digits).length) [',', ' ', '#', '1']
      [⟨.comma, [','], 5 + ('r' :: digits).length + 1⟩] (5 + ('r' :: digits).length + 1)
      [' ', '#', '1'] :=
    scans_punctuation (by decide)
  have hvalue : Scans 0 (moveOne digits) (5 + ('r' :: digits).length + 1 + 1) ['#', '1']
      [⟨.immediate 1, ['#', '1'], 5 + ('r' :: digits).length + 1 + 1 + 1⟩]
      (5 + ('r' :: digits).length + 1 + 1 + 1 + 1) [] :=
    scans_immediate (List.forall_mem_singleton.2 (by decide)) (startsOutside_nil _) hone
  obtain ⟨column, hscan⟩ := (hmnemonic.trans ((scans_separator rfl).trans (hregister.trans
    (hcomma.trans ((scans_separator rfl).trans hvalue))))).of_nil
  exact ⟨_, _, column, hscan⟩

theorem isSilent_moveOne (digits : Text) : isSilent (moveOne digits) = false := by
  simp [isSilent, moveOne, Text.trimStart, show isBlank 'm' = false by decide]

theorem registerDigits?_of_digits (hne : digits ≠ []) (h : ∀ c ∈ digits, c.isDigit = true) :
    registerDigits? ('r' :: digits) = some digits :=
  if_pos ⟨Or.inl rfl, hne, List.all_eq_true.2 h⟩

/-- The outline of the line depends on the value of the digits only. -/
theorem outline_moveOne (hne : digits ≠ []) (h : ∀ c ∈ digits, c.isDigit = true) :
    (moveOne digits).outline = ⟨[], .instruction .identifier ['m', 'o', 'v', 's']
      [.register (digitsValue 10 digits), .sign .comma, .sign (.immediate 1),
        .sign .endOfLine]⟩ := by
  obtain ⟨column, column', column'', htokens⟩ := tokenize_moveOne h
  have hmeaning : nameMeaning ('r' :: digits) = .register (digitsValue 10 digits) := by
    simp only [nameMeaning, registerNumber?, registerDigits?_of_digits hne h, Option.map_some]
  rw [Text.outline, code_moveOne h, leadingLabels_moveOne,
    remainder_of_tokenize (isSilent_moveOne digits) htokens]
  simp only [List.map_cons, List.map_nil, Token.meaning, hmeaning]
  rfl

theorem not_legible_moveOne (h : ∀ c ∈ digits, c.isDigit = true)
    (hlong : maxDigits < digits.length) : ¬(moveOne digits).Legible := by
  have hne : digits ≠ [] := List.ne_nil_of_length_pos (Nat.zero_lt_of_lt hlong)
  obtain ⟨column, column', column'', htokens⟩ := tokenize_moveOne h
  intro hlegible
  rw [Text.Legible, Text.operandTokens, code_moveOne h, leadingLabels_moveOne,
    operandTokens_of_tokenize (isSilent_moveOne digits) htokens] at hlegible
  have hshort := hlegible _ List.mem_cons_self rfl digits (registerDigits?_of_digits hne h)
  exact absurd hshort (Nat.not_le.2 hlong)

/-- Zeros in front of the number of a register do not change the outline, but enough of them stop
the assembler. -/
theorem moveOne_zeros {zeros : Nat} (hzeros : maxDigits ≤ zeros) :
    (moveOne ['1']).lines.map Text.outline =
        (moveOne (List.replicate zeros '0' ++ ['1'])).lines.map Text.outline ∧
      (∃ r, report Thumb.instructionSet Target.parm none (moveOne ['1']) = .ok r ∧
        r.isOk = true) ∧
      ∃ digits, report Thumb.instructionSet Target.parm none
        (moveOne (List.replicate zeros '0' ++ ['1'])) = .error (.numeralTooLong digits) := by
  have hone : ∀ c ∈ ['1'], c.isDigit = true := List.forall_mem_singleton.2 (by decide)
  have hdigits : ∀ c ∈ List.replicate zeros '0' ++ ['1'], c.isDigit = true := by
    intro c hc
    rcases List.mem_append.1 hc with hc | hc
    · rw [List.eq_of_mem_replicate hc]
      decide
    · exact hone c hc
  have hlong : maxDigits < (List.replicate zeros '0' ++ ['1']).length := by
    rw [List.length_append, List.length_replicate, List.length_singleton]
    omega
  have houtline : (moveOne ['1']).lines.map Text.outline =
      (moveOne (List.replicate zeros '0' ++ ['1'])).lines.map Text.outline := by
    rw [lines_moveOne hone, lines_moveOne hdigits, List.map_singleton, List.map_singleton,
      outline_moveOne (List.cons_ne_nil _ _) hone, outline_moveOne (by simp) hdigits,
      digitsValue_replicate_zero]
  obtain ⟨r, hr, hok⟩ : ∃ r, report Thumb.instructionSet Target.parm none (moveOne ['1']) = .ok r ∧
      r.isOk = true := exists_ok_of_any (by decide +kernel)
  refine ⟨houtline, ⟨r, hr, hok⟩, ?_⟩
  obtain ⟨a, ha, -⟩ := exists_assemble_of_report hr hok
  have hread := assemble_follows Thumb.instructionSet Target.parm.bias houtline a ha
  cases hlast : assemble Thumb.instructionSet Target.parm.bias
      (moveOne (List.replicate zeros '0' ++ ['1'])) with
  | ok a' =>
      have hlegible := (hread.of_ok hlast).2
      rw [lines_moveOne hdigits] at hlegible
      exact absurd (hlegible _ List.mem_cons_self) (not_legible_moveOne hdigits hlong)
  | error e =>
      obtain ⟨raw, -, hregister⟩ := hread.of_error hlast
      obtain ⟨-, digits, rfl⟩ := Text.not_legible_of_longRegister hregister
      exact ⟨digits, by simp only [report, hlast]⟩

end MoveOne

/-- The outline alone does not decide: `r1` with 4300 zeros in front of the digit is the same
register, and stops the assembler. -/
theorem outline_eq_of_unreadable_register :
    (moveOne ['1']).lines.map Text.outline =
        (moveOne (List.replicate 4300 '0' ++ ['1'])).lines.map Text.outline ∧
      (∃ r, report Thumb.instructionSet Target.parm none (moveOne ['1']) = .ok r ∧
        r.isOk = true) ∧
      ∃ digits, report Thumb.instructionSet Target.parm none
        (moveOne (List.replicate 4300 '0' ++ ['1'])) = .error (.numeralTooLong digits) :=
  moveOne_zeros (by decide)

end ThumbAssembler
