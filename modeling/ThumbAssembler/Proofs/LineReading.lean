/-
**Reading a line elsewhere.**

A line is read in the same way wherever it stands and whatever comment it has.  The number of the
line and the text that is shown only go into the places of what is read and of the fault that stops
the reading; a memory operand is cut out of the text, but from the part that is read.  So two lines
with the same code, under any numbers, give the same entries up to their places, or stop at
corresponding faults.

Main definitions:

* `ThumbAssembler.SourceLine.Corresponds` — lines whose places correspond;
* `ThumbAssembler.Text.ReadAlike` — numbered lines with the same code and corresponding places;
* `ThumbAssembler.entriesFrom` — the entries that lines add to a program.

Main results:

* `ThumbAssembler.scan_together`, `ThumbAssembler.SourceLine.instruction_together`,
  `ThumbAssembler.labelsFrom_together` — scanning, instructions and labels;
* `ThumbAssembler.parseLine_together` — **lines with the same code have corresponding entries, or
  corresponding faults**;
* `ThumbAssembler.entriesFrom_together` — lines give corresponding entries wherever they stand;
* `ThumbAssembler.parseLines_bare` — and so the same entries up to their places.
-/

import Mathlib
import ThumbAssembler.Proofs.LosslessTokens
import ThumbAssembler.Proofs.PrintedProgram

set_option autoImplicit false

namespace ThumbAssembler

variable {m : Correspondence}

/-! ### Tokens -/

/-- Whatever stands on the first line at some column has a corresponding place on the second. -/
def SourceLine.Corresponds (m : Correspondence) (line line' : SourceLine) : Prop :=
  ∀ column token, Place.Corresponds m ⟨line.number, column, token, line.text⟩
    ⟨line'.number, column, token, line'.text⟩

theorem neverRejects_value? (t : Text) : NeverRejects (Numeral.value? t) :=
  (value?_outcome t).imp (fun _ _ => trivial) fun e he r hr => by
    obtain ⟨digits, he, -⟩ := he
    rw [he] at hr
    cases hr

/-- The tokens of a text do not depend on the number of its line. -/
theorem scan_together {number number' : Nat} {whole : Text}
    (h : SourceLine.Corresponds m ⟨number, whole⟩ ⟨number', whole⟩) (position : Nat) (t : Text) :
    Together m Eq (scan number whole position t) (scan number' whole position t) := by
  fun_induction scan number whole position t with
  | case1 position =>
      rw [scan]
      exact Eq.refl [_]
  | case2 position c rest hc ih =>
      rw [scan]
      simp only [hc, if_true]
      exact ih
  | case3 position rest hc =>
      rw [scan]
      simp only [hc, Bool.false_eq_true, if_false, if_true]
      exact Eq.refl [_]
  | case4 position c rest hc hcomment kind hkind ih =>
      rw [scan]
      simp only [hc, Bool.false_eq_true, if_false, hcomment, hkind]
      exact ih.bind fun ts ts' hts => congrArg _ hts
  | case5 position rest place numeral hc hcomment hkind ih =>
      -- the value of the numeral comes first, and is the same on every line
      rw [scan]
      simp only [hc, Bool.false_eq_true, if_false, hcomment, hkind, if_true]
      refine (neverRejects_value? numeral).together.bind ?_
      rintro v _ rfl
      cases v with
      | none => exact together_reject (.same rfl) (h _ _)
      | some v => exact ih.bind fun ts ts' hts => congrArg _ hts
  | case6 position c rest hc hcomment hkind hsign hstart name ih =>
      rw [scan]
      simp only [hc, Bool.false_eq_true, if_false, hcomment, hkind, hsign, hstart, if_true]
      exact ih.bind fun ts ts' hts => congrArg _ hts
  | case7 position c rest place hc hcomment hkind hsign hstart hdigit numeral =>
      rw [scan]
      simp only [hc, Bool.false_eq_true, if_false, hcomment, hkind, hsign, hstart, hdigit, if_true]
      exact together_reject (.same rfl) (h _ _)
  | case8 position c rest place hc hcomment hkind hsign hstart hdigit =>
      rw [scan]
      simp only [hc, Bool.false_eq_true, if_false, hcomment, hkind, hsign, hstart, hdigit]
      exact together_reject (.same rfl) (h _ _)

/-- A closing bracket stands within the text. -/
theorem scan_closeBracket_column_le (line : Int) (whole : Text) (position : Nat) (rest : Text) :
    Outcome
      (fun ts => ∀ t ∈ ts, t.kind = .closeBracket → t.column ≤ position + rest.length)
      (fun _ => True) (scan line whole position rest) := by
  refine (scan_splits line whole position rest).imp ?_ fun _ _ => trivial
  rintro ts ⟨piece, rest, body, rfl, hsplits, -, rfl⟩ t ht hkind
  rcases List.mem_append.1 ht with ht | ht
  · have hbounds := (hsplits.bounds t ht).2
    have hlength := List.length_pos_iff.2 (hsplits.text_ne_nil t ht)
    rw [List.length_append]
    omega
  · rw [List.mem_singleton.1 ht] at hkind
    cases hkind

/-! ### Instructions -/

namespace SourceLine

/-- The lines have the same text up to every closing bracket. -/
def SlicesAgree (line line' : SourceLine) (ts : List Token) : Prop :=
  ∀ t ∈ ts, t.kind = .closeBracket → line'.text.take t.column = line.text.take t.column

theorem SlicesAgree.mono {line line' : SourceLine} {ts ts' : List Token}
    (h : line.SlicesAgree line' ts) (hts : ts' ⊆ ts) : line.SlicesAgree line' ts' :=
  fun t ht => h t (hts ht)

/-- Lines that start with the same code agree on the tokens of the code. -/
theorem slicesAgree_of_tokenize {number : Int} {code : Text} {start : Nat} {ts : List Token}
    (h : tokenize number code start = .ok ts) {line line' : SourceLine} (hline : code <+: line.text)
    (hline' : code <+: line'.text) : line.SlicesAgree line' ts := by
  intro t ht hkind
  have hcolumn : t.column ≤ code.length := by
    rcases Nat.le_total start code.length with hle | hle
    · have hbound := (scan_closeBracket_column_le number code start _).of_ok h t ht hkind
      rw [List.length_drop] at hbound
      omega
    · -- beyond the end there is only the mark for it
      rw [tokenize, List.drop_eq_nil_of_le hle, scan] at h
      obtain rfl := Except.ok.inj h
      rw [List.mem_singleton.1 ht] at hkind
      cases hkind
  obtain ⟨rest, hrest⟩ := hline
  obtain ⟨rest', hrest'⟩ := hline'
  rw [← hrest, ← hrest', List.take_append_of_le_length hcolumn,
    List.take_append_of_le_length hcolumn]

variable {line line' : SourceLine} (h : line.Corresponds m line')

include h

theorem unexpected_together {α β : Type} {R : α → β → Prop} (what : Expectation)
    (ts : List Token) : Together m R (line.unexpected what ts) (line'.unexpected what ts) :=
  together_reject (.same rfl) (h _ _)

theorem identifierOperand_together (t : Token) :
    Together m Eq (line.identifierOperand t) (line'.identifierOperand t) := by
  unfold identifierOperand
  split
  · split
    · exact Fault.Corresponds.other (by rintro r ⟨⟩)
    · split
      · exact Eq.refl (_ : Operand)
      · exact together_reject (.same rfl) (h _ _)
  · split
    · exact Eq.refl (_ : Operand)
    · split
      · exact together_reject (.same rfl) (h _ _)
      · exact Eq.refl (_ : Operand)

theorem closeBracket_together (start : Token) (bytes : Int) {ts : List Token}
    (hslices : line.SlicesAgree line' ts) :
    Together m Eq (line.closeBracket start bytes ts) (line'.closeBracket start bytes ts) := by
  unfold closeBracket
  split
  · have htake := hslices _ List.mem_cons_self rfl
    simp only at htake
    rw [Text.slice, Text.slice, htake]
    exact Eq.refl (_ : Operand × List Token)
  · exact unexpected_together h _ _

theorem bracketOffset_together (start : Token) {ts : List Token}
    (hslices : line.SlicesAgree line' ts) :
    Together m Eq (line.bracketOffset start ts) (line'.bracketOffset start ts) := by
  unfold bracketOffset
  split
  · exact closeBracket_together h _ _ (hslices.mono (by simp))
  · exact unexpected_together h _ _
  · exact closeBracket_together h _ _ hslices

theorem bracketOperand_together (start : Token) {ts : List Token}
    (hslices : line.SlicesAgree line' ts) :
    Together m Eq (line.bracketOperand start ts) (line'.bracketOperand start ts) := by
  unfold bracketOperand
  split
  · split
    · exact bracketOffset_together h _ (hslices.mono (by simp))
    · exact together_reject (.same rfl) (h _ _)
  · exact unexpected_together h _ _

theorem operand_together {ts : List Token} (hslices : line.SlicesAgree line' ts) :
    Together m Eq (line.operand ts) (line'.operand ts) := by
  unfold operand
  split
  · exact Eq.refl (_ : Operand × List Token)
  · exact bracketOperand_together h _ (hslices.mono (by simp))
  · refine (identifierOperand_together h _).bind ?_
    rintro o _ rfl
    exact Eq.refl (_ : Operand × List Token)
  · exact unexpected_together h _ _

/-- The operands of a line do not depend on its number and its comment. -/
theorem operands_together {ts : List Token} (hslices : line.SlicesAgree line' ts) :
    Together m Eq (line.operands ts) (line'.operands ts) := by
  fun_induction line.operands ts with
  | case1 ts e he =>
      have hoperand := operand_together h hslices
      rw [he] at hoperand
      cases he' : line'.operand ts with
      | ok r' => rw [he'] at hoperand; exact hoperand.elim
      | error e' =>
          rw [he'] at hoperand
          rw [operands_of_error line' he']
          exact hoperand
  | case2 ts o text column rest ho ih =>
      obtain ⟨_, ho', rfl⟩ := (operand_together h hslices).exists_of_ok ho
      have hrest : ⟨.comma, text, column⟩ :: rest ⊆ ts := ((operand_outcome line ts).of_ok ho).2
      rw [operands_of_comma line' ho']
      refine (ih (hslices.mono (List.subset_of_cons_subset hrest))).bind ?_
      rintro r _ rfl
      exact Eq.refl (_ : List Operand × List Token)
  | case3 ts o rest hnot ho =>
      obtain ⟨_, ho', rfl⟩ := (operand_together h hslices).exists_of_ok ho
      rw [operands_of_no_comma line' ho' hnot]
      exact Eq.refl (_ : List Operand × List Token)

theorem operandList_together {ts : List Token} (hslices : line.SlicesAgree line' ts) :
    Together m Eq (line.operandList ts) (line'.operandList ts) := by
  unfold operandList
  split
  · exact Eq.refl (_ : List Operand × List Token)
  · exact operands_together h hslices

theorem chooseFormat_together (mnemonic : Token) (formats : List Format) (os : List Operand) :
    Together m Eq (line.chooseFormat mnemonic formats os)
      (line'.chooseFormat mnemonic formats os) := by
  unfold chooseFormat
  split
  · exact Eq.refl (_ : Format)
  · exact together_reject (.same rfl) (h _ _)

omit h in
theorem neverRejects_numberOf (o : Operand) : NeverRejects (numberOf o) := by
  unfold numberOf
  split
  · trivial
  · rintro r ⟨⟩

theorem checkFixed_together (mnemonic : Token) (slot : Slot) (o : Operand) :
    Together m Eq (line.checkFixed mnemonic slot o) (line'.checkFixed mnemonic slot o) := by
  unfold checkFixed
  split
  · exact Eq.refl ()
  · refine (neverRejects_numberOf o).together.bind ?_
    rintro v _ rfl
    split
    · exact Eq.refl ()
    · exact together_reject (.same rfl) (h _ _)

theorem checkTie_together (mnemonic : Token) (usage : Text) (placed : List (Text × Int))
    (slot : Slot) (o : Operand) :
    Together m Eq (line.checkTie mnemonic usage placed slot o)
      (line'.checkTie mnemonic usage placed slot o) := by
  unfold checkTie
  split
  · exact Eq.refl ()
  · refine (neverRejects_numberOf o).together.bind ?_
    rintro v _ rfl
    split
    · exact Eq.refl ()
    · exact together_reject (.same rfl) (h _ _)

theorem checkSlotsFrom_together (mnemonic : Token) (usage : Text) (placed : List (Text × Int))
    (pairs : List (Slot × Operand)) :
    Together m Eq (line.checkSlotsFrom mnemonic usage placed pairs)
      (line'.checkSlotsFrom mnemonic usage placed pairs) := by
  induction pairs generalizing placed with
  | nil => exact Eq.refl ()
  | cons pair pairs ih =>
      refine (checkFixed_together h mnemonic _ _).bind fun _ _ _ => ?_
      exact (checkTie_together h mnemonic usage placed _ _).bind fun _ _ _ => ih _

theorem buildInstruction_together (mnemonic : Token) (candidates : Candidates)
    (os : List Operand) :
    Together m (Instruction.Corresponds m) (line.buildInstruction mnemonic candidates os)
      (line'.buildInstruction mnemonic candidates os) := by
  refine (chooseFormat_together h mnemonic _ _).bind ?_
  rintro f _ rfl
  refine (checkSlotsFrom_together h mnemonic _ _ _).bind fun _ _ _ => ?_
  have hplace := h mnemonic.column mnemonic.text
  exact ⟨rfl, rfl, rfl, List.forall₂_same.2 fun o _ => ⟨rfl, (h o.column o.text).spot⟩, hplace.line,
    hplace.lineText⟩

/-- The instruction of a line does not depend on the number and the comment of the line. -/
theorem instruction_together (isa : InstructionSet) {ts : List Token}
    (hslices : line.SlicesAgree line' ts) :
    Together m (Instruction.Corresponds m) (line.instruction isa ts)
      (line'.instruction isa ts) := by
  unfold instruction
  split
  · simp only
    split
    · exact together_reject (.same rfl) (h _ _)
    · refine (operandList_together h (hslices.mono (by simp))).bind ?_
      rintro ⟨os, rest⟩ _ rfl
      simp only
      split
      · exact buildInstruction_together h _ _ _
      · exact unexpected_together h _ _
  · exact unexpected_together h _ _

end SourceLine

/-! ### Lines -/

/-- The labels of a line do not depend on its number and its comment. -/
theorem labelsFrom_together (isa : InstructionSet) {line line' : SourceLine}
    (h : line.Corresponds m line') (position : Nat) (t : Text) :
    Together m (fun r r' => List.Forall₂ (Label.Corresponds m) r.1 r'.1 ∧ r'.2 = r.2)
      (labelsFrom isa line position t) (labelsFrom isa line' position t) := by
  fun_induction labelsFrom isa line position t with
  | case1 position t hpart =>
      rw [labelsFrom_of_none isa line' position hpart]
      exact ⟨.nil, rfl⟩
  | case2 position t part hpart column hreserved =>
      rw [labelsFrom]
      split
      · simp_all
      · rename_i part' hpart'
        obtain rfl := Option.some_inj.1 (hpart'.symm.trans hpart)
        simp only [hreserved, if_true]
        exact together_reject (.same rfl) (h _ _)
  | case3 position t part hpart column hreserved ih =>
      rw [labelsFrom_of_some _ position hpart (by simpa using hreserved)]
      refine ih.bind fun r r' hr => ⟨.cons ?_ hr.1, hr.2⟩
      exact ⟨rfl, h _ _⟩

theorem statement_together (isa : InstructionSet) {line line' : SourceLine}
    (h : line.Corresponds m line') {code : Text}
    (hcode : SourceLine.Corresponds m ⟨line.number, code⟩ ⟨line'.number, code⟩)
    (hline : code <+: line.text) (hline' : code <+: line'.text) (position : Nat) (rest : Text) :
    Together m
      (fun s s' => Program.Corresponds m (ParsedLine.entries ⟨0, [], s⟩)
        (ParsedLine.entries ⟨0, [], s'⟩))
      (statement isa line code position rest) (statement isa line' code position rest) := by
  unfold statement
  split
  · exact List.Forall₂.nil
  · exact List.Forall₂.nil
  · have htokens : Together m (fun ts ts' => ts' = ts ∧ line.SlicesAgree line' ts)
        (tokenize line.number code position) (tokenize line'.number code position) := by
      have hscan : Together m Eq (tokenize line.number code position)
          (tokenize line'.number code position) := scan_together hcode _ _
      cases hts : tokenize line.number code position with
      | error e =>
          rw [hts] at hscan
          cases hts' : tokenize line'.number code position with
          | error e' => rwa [hts'] at hscan
          | ok ts' => rw [hts'] at hscan; exact hscan.elim
      | ok ts =>
          obtain ⟨_, hts', rfl⟩ := hscan.exists_of_ok hts
          rw [hts']
          exact ⟨rfl, SourceLine.slicesAgree_of_tokenize hts hline hline'⟩
    refine htokens.bind ?_
    rintro ts _ ⟨rfl, hslices⟩
    refine (SourceLine.instruction_together h isa hslices).bind fun i i' hi => ?_
    exact List.Forall₂.cons (.instruction hi) .nil

/-- The lines have the same code, and whatever stands on them has corresponding places. -/
structure Text.ReadAlike (m : Correspondence) (number number' : Nat) (raw raw' : Text) : Prop where
  code : raw'.code = raw.code
  shown : SourceLine.Corresponds m ⟨number, raw.shown⟩ ⟨number', raw'.shown⟩
  scanned : SourceLine.Corresponds m ⟨number, raw.code⟩ ⟨number', raw.code⟩

/-- **Lines with the same code have corresponding entries, or corresponding faults.** -/
theorem parseLine_together (isa : InstructionSet) {number number' : Nat} {raw raw' : Text}
    (h : Text.ReadAlike m number number' raw raw') :
    Together m (fun l l' => Program.Corresponds m l.entries l'.entries)
      (parseLine isa number raw) (parseLine isa number' raw') := by
  have hline' := raw'.code_isPrefix_shown
  rw [parseLine_eq, parseLine_eq, h.code]
  rw [h.code] at hline'
  refine (labelsFrom_together isa h.shown 0 raw.code).bind ?_
  rintro ⟨labels, stop⟩ ⟨labels', _⟩ ⟨hlabels, rfl⟩
  refine (statement_together isa h.shown h.scanned raw.code_isPrefix_shown hline' _ _).bind
    fun s s' hs => ?_
  have hentries := List.forall₂_map_left_iff.2 (List.forall₂_map_right_iff.2
    (hlabels.imp fun _ _ hl => Entry.Corresponds.label hl))
  exact List.rel_append hentries hs

/-- The entries that lines add to a program, the first line with the given number. -/
def entriesFrom (isa : InstructionSet) (number : Nat) (raws : List Text) :
    Except Fault Program := do
  return (← parseLines isa number raws).flatMap ParsedLine.entries

theorem entriesFrom_cons (isa : InstructionSet) (number : Nat) (raw : Text) (raws : List Text) :
    entriesFrom isa number (raw :: raws) = do
      let l ← parseLine isa number raw
      let p ← entriesFrom isa (number + 1) raws
      return l.entries ++ p := by
  rw [entriesFrom, parseLines]
  cases parseLine isa number raw with
  | error e => rfl
  | ok l =>
      rw [ok_bind, ok_bind, entriesFrom]
      cases parseLines isa (number + 1) raws <;> rfl

/-- Lines with corresponding numbers have corresponding entries. -/
theorem entriesFrom_together (isa : InstructionSet) {number number' : Nat} {raws : List Text}
    (h : ∀ k < raws.length, ∀ text,
      SourceLine.Corresponds m ⟨number + k, text⟩ ⟨number' + k, text⟩) :
    Together m (Program.Corresponds m) (entriesFrom isa number raws)
      (entriesFrom isa number' raws) := by
  induction raws generalizing number number' with
  | nil => exact List.Forall₂.nil
  | cons raw raws ih =>
      have hfirst := h 0 (Nat.zero_lt_succ _)
      have hrest : ∀ k < raws.length, ∀ text,
          SourceLine.Corresponds m ⟨number + 1 + k, text⟩ ⟨number' + 1 + k, text⟩ := by
        intro k hk text
        have hnext := h (k + 1) (Nat.succ_lt_succ hk) text
        rwa [Nat.add_comm k, ← Nat.add_assoc, ← Nat.add_assoc] at hnext
      rw [entriesFrom_cons, entriesFrom_cons]
      refine (parseLine_together isa ⟨rfl, hfirst _, hfirst _⟩).bind fun l l' hl => ?_
      exact (ih hrest).bind fun p p' hp => List.rel_append hl hp

/-- **Lines give the same entries wherever they stand**, up to the places of the entries. -/
theorem parseLines_bare (isa : InstructionSet) (number number' : Nat) {raws : List Text}
    {ls : List ParsedLine} (h : parseLines isa number raws = .ok ls) :
    ∃ ls', parseLines isa number' raws = .ok ls' ∧
      Program.bare (ls'.flatMap ParsedLine.entries) =
        Program.bare (ls.flatMap ParsedLine.entries) := by
  have htogether : Together .any (Program.Corresponds .any) (entriesFrom isa number raws)
      (entriesFrom isa number' raws) :=
    entriesFrom_together isa fun _ _ _ _ _ => ⟨trivial, trivial, trivial⟩
  have hentries : entriesFrom isa number raws = .ok (ls.flatMap ParsedLine.entries) := by
    rw [entriesFrom, h]
    rfl
  obtain ⟨p', hp', hcorresponds⟩ := htogether.exists_of_ok hentries
  obtain ⟨ls', hls', hp'⟩ := bind_eq_ok_iff.1 hp'
  obtain rfl := Except.ok.inj hp'
  exact ⟨ls', hls', hcorresponds.bare_eq⟩

end ThumbAssembler
