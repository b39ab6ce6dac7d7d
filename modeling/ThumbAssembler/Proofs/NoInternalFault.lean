/-
**Assembling never fails internally.**

Some definitions stop where no source can lead them: a format may lack a field, an operand may have
no number, a condition may be missing, a label may reach the encoder, a frozen symbol table refuses
definitions.  Others read on where there is nothing to read: past the end of the tokens, at an
operand without a number, at a directive without a name.  This module proves that no source gets
there.  A source is assembled, or rejected for a fault of its own, or has a number with too many
digits.

Main definitions:

* `ThumbAssembler.EndsLine` — tokens of which the last, and no other, is the end of the line;
* `ThumbAssembler.StaysWithin` — reading never looks past the end of the line;
* `ThumbAssembler.Text.Guarded` — no access on a line relies on a default;
* `ThumbAssembler.ExceedsDigits` — the numbers of a source that have too many digits.

Main results:

* `ThumbAssembler.endsLine_of_tokenize` — every token list ends its line;
* `ThumbAssembler.SourceLine.instruction_append` — **an instruction is read within its line**;
* `ThumbAssembler.assemble_eq_error_cases` — **why assembling stops**;
* `ThumbAssembler.report_never_internal` — the two together, for every source.
-/

import Mathlib
import ThumbAssembler.Proofs.LosslessTokens
import ThumbAssembler.Proofs.PrintedProgram
import ThumbAssembler.Proofs.Verdict

set_option autoImplicit false

namespace ThumbAssembler

/-! ### The end of the tokens -/

/-- The last token, and no other, is the end of the line. -/
def EndsLine (ts : List Token) : Prop :=
  ∃ before t, ts = before ++ [t] ∧ t.kind = .endOfLine ∧ ∀ u ∈ before, u.kind ≠ .endOfLine

namespace EndsLine

variable {t : Token} {ts : List Token}

theorem ne_nil (h : EndsLine ts) : ts ≠ [] := by
  obtain ⟨before, t, rfl, -⟩ := h
  simp

/-- After a token other than the end, the end is still to come. -/
theorem tail (h : EndsLine (t :: ts)) (ht : t.kind ≠ .endOfLine) : EndsLine ts := by
  obtain ⟨before, u, hts, hu, hbefore⟩ := h
  cases before with
  | nil =>
      obtain ⟨rfl, -⟩ := List.cons.inj hts
      exact absurd hu ht
  | cons t' before =>
      obtain ⟨rfl, rfl⟩ := List.cons.inj hts
      exact ⟨before, u, rfl, hu, fun v hv => hbefore v (List.mem_cons_of_mem _ hv)⟩

/-- If the end is next, nothing else is left. -/
theorem eq_singleton (h : EndsLine ts) (hend : (nextToken ts).kind = .endOfLine) :
    ∃ t, ts = [t] ∧ t.kind = .endOfLine := by
  obtain ⟨before, t, rfl, ht, hbefore⟩ := h
  cases before with
  | nil => exact ⟨t, rfl, ht⟩
  | cons u before => exact absurd hend (hbefore u List.mem_cons_self)

theorem nextToken_append (h : EndsLine ts) (extra : List Token) :
    nextToken (ts ++ extra) = nextToken ts := by
  cases ts with
  | nil => exact absurd rfl h.ne_nil
  | cons t ts => rfl

end EndsLine

theorem scan_endsLine (line : Int) (whole : Text) (position : Nat) (rest : Text) :
    Outcome EndsLine (fun _ => True) (scan line whole position rest) := by
  refine (scan_splits line whole position rest).imp ?_ fun _ _ => trivial
  rintro ts ⟨piece, rest, body, -, hsplits, -, rfl⟩
  exact ⟨body, _, rfl, rfl, hsplits.kind_ne_endOfLine⟩

theorem endsLine_of_tokenize {line : Int} {text : Text} {start : Nat} {ts : List Token}
    (h : tokenize line text start = .ok ts) : EndsLine ts :=
  (scan_endsLine line text start (text.drop start)).of_ok h

/-! ### Reading within the line -/

section StaysWithin

variable {α : Type}

/-- The result of reading with further tokens at the end. -/
def followedBy (extra : List Token) : Except Fault (α × List Token) → Except Fault (α × List Token)
  | .ok (a, rest) => .ok (a, rest ++ extra)
  | .error e => .error e

/-- Reading from tokens that end the line leaves tokens that end the line, and does not depend on
what follows them. -/
def StaysWithin (read : List Token → Except Fault (α × List Token)) : Prop :=
  ∀ ts, EndsLine ts → Outcome (fun r => EndsLine r.2) (fun _ => True) (read ts) ∧
    ∀ extra, read (ts ++ extra) = followedBy extra (read ts)

end StaysWithin

namespace SourceLine

variable (line : SourceLine)

theorem closeBracket_staysWithin (start : Token) (bytes : Int) :
    StaysWithin (line.closeBracket start bytes) := by
  intro ts h
  cases ts with
  | nil => exact absurd rfl h.ne_nil
  | cons t ts =>
      obtain ⟨kind, text, column⟩ := t
      cases kind with
      | closeBracket => exact ⟨h.tail (by simp), fun extra => rfl⟩
      | _ => exact ⟨trivial, fun extra => rfl⟩

theorem bracketOffset_staysWithin (start : Token) : StaysWithin (line.bracketOffset start) := by
  intro ts h
  cases ts with
  | nil => exact absurd rfl h.ne_nil
  | cons t ts =>
      obtain ⟨kind, text, column⟩ := t
      cases kind with
      | comma =>
          -- the comma is not the end, so there is a token after it to look at
          have hts := h.tail (by simp)
          cases ts with
          | nil => exact absurd rfl hts.ne_nil
          | cons u ts =>
              obtain ⟨kind, text, column⟩ := u
              cases kind with
              | immediate bytes =>
                  exact line.closeBracket_staysWithin start bytes ts (hts.tail (by simp))
              | _ => exact ⟨trivial, fun extra => rfl⟩
      | _ => exact line.closeBracket_staysWithin start 0 _ h

theorem bracketOperand_staysWithin (start : Token) : StaysWithin (line.bracketOperand start) := by
  intro ts h
  cases ts with
  | nil => exact absurd rfl h.ne_nil
  | cons t ts =>
      obtain ⟨kind, base, column⟩ := t
      cases kind with
      | identifier =>
          simp only [List.cons_append, bracketOperand]
          split
          · exact line.bracketOffset_staysWithin start ts (h.tail (by simp))
          · exact ⟨trivial, fun extra => rfl⟩
      | _ => exact ⟨trivial, fun extra => rfl⟩

theorem operand_staysWithin : StaysWithin line.operand := by
  intro ts h
  cases ts with
  | nil => exact absurd rfl h.ne_nil
  | cons t ts =>
      obtain ⟨kind, text, column⟩ := t
      cases kind with
      | immediate v => exact ⟨h.tail (by simp), fun extra => rfl⟩
      | openBracket => exact line.bracketOperand_staysWithin _ ts (h.tail (by simp))
      | identifier =>
          simp only [List.cons_append, operand]
          cases line.identifierOperand ⟨.identifier, text, column⟩ with
          | error e => exact ⟨trivial, fun extra => rfl⟩
          | ok o => exact ⟨h.tail (by simp), fun extra => rfl⟩
      | _ => exact ⟨trivial, fun extra => rfl⟩

/-- Reading operands stays within the line, since it goes on only after a comma. -/
theorem operands_staysWithin : StaysWithin line.operands := by
  intro ts h
  fun_induction operands line ts with
  | case1 ts e he =>
      refine ⟨trivial, fun extra => operands_of_error line ?_⟩
      rw [(line.operand_staysWithin ts h).2 extra, he]
      rfl
  | case2 ts o text column rest ho ih =>
      obtain ⟨hends, happend⟩ := line.operand_staysWithin ts h
      have hrest : EndsLine rest := (hends.of_ok ho).tail (by simp)
      obtain ⟨hends', happend'⟩ := ih hrest
      refine ⟨hends'.bind fun r hr => hr, fun extra => ?_⟩
      have hcomma : line.operand (ts ++ extra) =
          .ok (o, ⟨.comma, text, column⟩ :: (rest ++ extra)) := by
        rw [happend, ho]
        rfl
      rw [operands_of_comma line hcomma, happend']
      cases line.operands rest <;> rfl
  | case3 ts o rest hnot ho =>
      obtain ⟨hends, happend⟩ := line.operand_staysWithin ts h
      have hrest : EndsLine rest := hends.of_ok ho
      refine ⟨hrest, fun extra => ?_⟩
      have hlast : line.operand (ts ++ extra) = .ok (o, rest ++ extra) := by
        rw [happend, ho]
        rfl
      -- a comma in front of the further tokens would be one in front of the rest
      refine operands_of_no_comma line hlast fun text column rest' heq => ?_
      cases rest with
      | nil => exact hrest.ne_nil rfl
      | cons t rest =>
          obtain ⟨rfl, -⟩ := List.cons.inj heq
          exact hnot text column rest rfl

theorem operandList_staysWithin : StaysWithin line.operandList := by
  intro ts h
  unfold operandList
  obtain ⟨hends, happend⟩ := line.operands_staysWithin ts h
  simp only [h.nextToken_append]
  split
  · exact ⟨h, fun extra => rfl⟩
  · exact ⟨hends, happend⟩

/-- **An instruction is read within its line**: what follows the end of the line is not looked
at. -/
theorem instruction_append (isa : InstructionSet) {ts : List Token} (h : EndsLine ts)
    (extra : List Token) : line.instruction isa (ts ++ extra) = line.instruction isa ts := by
  cases ts with
  | nil => exact absurd rfl h.ne_nil
  | cons t ts =>
      obtain ⟨kind, text, column⟩ := t
      cases kind with
      | identifier =>
          simp only [List.cons_append, instruction]
          cases isa.lookup text with
          | none => rfl
          | some candidates =>
              obtain ⟨hends, happend⟩ := line.operandList_staysWithin ts (h.tail (by simp))
              simp only [happend]
              cases hos : line.operandList ts with
              | error e => rfl
              | ok r =>
                  have hrest : EndsLine r.2 := hends.of_ok hos
                  simp only [followedBy, ok_bind, hrest.nextToken_append]
                  split
                  · rfl
                  · simp only [unexpected, hrest.nextToken_append]
      | _ => rfl

end SourceLine

/-! ### Accesses with a default -/

/-- No access on a line relies on a default: an instruction is read within the tokens, a slot for a
register meets an operand with a number, and a directive has a name. -/
structure Text.Guarded (isa : InstructionSet) (number : Nat) (raw : Text) : Prop where
  tokens : ∀ (line : SourceLine) start ts, tokenize number raw.code start = .ok ts →
    EndsLine ts ∧ ∀ extra, line.instruction isa (ts ++ extra) = line.instruction isa ts
  registers : ∀ (line : SourceLine) mnemonic formats os f,
    line.chooseFormat mnemonic formats os = .ok f →
    ∀ x ∈ f.slots.zip os, x.1.kind = .register → ∃ v, x.2.value? = some v
  directive : ∀ l name, parseLine isa number raw = .ok l → l.statement = .directive name →
    name ≠ []

/-- The format that is chosen has the shapes of the operands. -/
theorem SourceLine.signature_of_chooseFormat {line : SourceLine} {mnemonic : Token}
    {formats : List Format} {os : List Operand} {f : Format}
    (h : line.chooseFormat mnemonic formats os = .ok f) : f.signature = os.map Operand.kind := by
  unfold chooseFormat at h
  split at h
  · rename_i g hfind
    obtain rfl := Except.ok.inj h
    simpa using List.find?_some hfind
  · cases h

/-- The name of a directive starts with its full stop. -/
theorem statement_directive {isa : InstructionSet} {line : SourceLine} {code rest name : Text}
    {position : Nat} (h : statement isa line code position rest = .ok (.directive name)) :
    name ≠ [] := by
  unfold statement at h
  split at h
  · cases h
  · rename_i tail htrim
    obtain rfl := Statement.directive.inj (Except.ok.inj h)
    have hdot : isBlank '.' = false := by decide
    rw [Text.firstWord, htrim, List.takeWhile_cons, hdot]
    simp
  · obtain ⟨ts, -, h⟩ := bind_eq_ok_iff.1 h
    obtain ⟨i, -, h⟩ := bind_eq_ok_iff.1 h
    cases h

/-- **No access on a line relies on a default.** -/
theorem Text.guarded (isa : InstructionSet) (number : Nat) (raw : Text) :
    raw.Guarded isa number where
  tokens := by
    intro line start ts h
    have hends := endsLine_of_tokenize h
    exact ⟨hends, line.instruction_append isa hends⟩
  registers := by
    rintro line mnemonic formats os f h ⟨slot, o⟩ hmem hkind
    have hsame := Format.kind_of_mem_zip (SourceLine.signature_of_chooseFormat h) hmem
    have hnumber := o.isNumeric_kind
    rw [← hsame, show slot.kind = .register from hkind] at hnumber
    exact Option.isSome_iff_exists.1 hnumber.symm
  directive := by
    rintro l name h hname
    obtain ⟨⟨labels, position, rest⟩, -, h⟩ := bind_eq_ok_iff.1 h
    obtain ⟨s, hs, h⟩ := bind_eq_ok_iff.1 h
    obtain rfl := Except.ok.inj h
    obtain rfl : s = .directive name := hname
    exact statement_directive hs

/-! ### Faults -/

/-- The source has a number with too many digits, and the fault says so: a decimal immediate or the
number of a register that cannot be read, or a hexadecimal immediate that cannot be printed.  The
distance of a branch cannot be printed only if the source is as long as such a number is large. -/
inductive ExceedsDigits (bias : Int) (source : Text) : Fault → Prop
  | decimal {raw : Text} {e : Fault} (line : raw ∈ source.lines) (long : LongNumeral raw.code e) :
      ExceedsDigits bias source e
  | register {raw : Text} {e : Fault} (line : raw ∈ source.lines) (long : LongName raw.code e) :
      ExceedsDigits bias source e
  | hexadecimal {raw : Text} (line : raw ∈ source.lines) (long : LongHexadecimal raw.code) :
      ExceedsDigits bias source .numberTooLong
  | distance (long : printLimit ≤ bias.natAbs + source.length) :
      ExceedsDigits bias source .numberTooLong

/-- A number with too many digits is a fault of reading or of printing it. -/
theorem ExceedsDigits.eq_tooLong {bias : Int} {source : Text} {e : Fault}
    (h : ExceedsDigits bias source e) : (∃ n, e = .numeralTooLong n) ∨ e = .numberTooLong := by
  cases h with
  | decimal _ long =>
      obtain ⟨numeral, digits, he, -⟩ := long
      exact Or.inl ⟨_, he⟩
  | register _ long =>
      obtain ⟨name, digits, he, -⟩ := long
      exact Or.inl ⟨_, he⟩
  | hexadecimal _ _ => exact Or.inr rfl
  | distance _ => exact Or.inr rfl

/-- The kinds of rejections that a source can bring about. -/
def sourceKinds : List Kind := [.syntactic, .duplicateLabel, .undefinedLabel, .range]

theorem rejection_cases (cause : Cause) (place : Place) :
    rejection cause place = .rejected ⟨cause, place⟩ ∨
      rejection cause place = .numberTooLong := by
  unfold rejection
  split
  · exact Or.inl rfl
  · exact Or.inr rfl

section Faults

variable {isa : InstructionSet} {bias : Int} {source : Text} {p : Program} {e : Fault}

theorem parse_eq_error_cases (hisa : isa.Sound) (h : parse isa source = .error e) :
    (∃ r, e = .rejected r ∧ r.cause.kind ∈ sourceKinds) ∨ ExceedsDigits bias source e := by
  obtain ⟨before, raw, number, after, hsplit, -, hline⟩ := parse_eq_error_iff.1 h
  have hraw : raw ∈ source.lines := by
    have hmem : (raw, number) ∈ source.numbered := by
      rw [hsplit]
      simp
    exact List.fst_mem_of_mem_zipIdx hmem
  rcases (parseLine_outcome hisa number raw).of_error hline with
    ⟨r, rfl, hkind, -⟩ | hlong | hlong
  · exact Or.inl ⟨r, rfl, by rw [hkind]; decide⟩
  · exact Or.inr (.decimal hraw hlong)
  · exact Or.inr (.register hraw hlong)

theorem walk_eq_error_cases (hp : parse isa source = .ok p) (hnodup : p.labelNames.Nodup)
    (hformed : ∀ i, .instruction i ∈ p → i.Formed)
    (h : p.addressed.mapM (linkEntry bias p.table.freeze) = .error e) :
    (∃ r, e = .rejected r ∧ r.cause.kind ∈ sourceKinds) ∨ ExceedsDigits bias source e := by
  obtain ⟨before, i, after, hsplit, -, hlink⟩ := (walk_eq_error_iff hnodup hformed).1 h
  have hi := hformed i (by rw [hsplit]; simp)
  obtain ⟨o, name, -, hcause⟩ := (linkEntry_eq_error_iff hnodup hi).1 hlink
  rcases hcause with ⟨-, rfl⟩ | ⟨t, g, hdefines, hfield, -, he⟩
  · exact Or.inl ⟨_, rfl, by simp [sourceKinds, Cause.kind]⟩
  · rcases rejection_cases (.branchOutOfRange i.mnemonic name (t - (before.size + bias)) g.bounds)
      (i.place o) with hrejected | hlong
    · exact Or.inl ⟨_, he.trans hrejected, by simp [sourceKinds, Cause.kind]⟩
    · -- a distance within the program can be printed, unless the source is as long as the limit
      rw [he, hlong]
      refine Or.inr (.distance (Nat.le_of_not_lt fun hshort => ?_))
      rw [rejection_tooFar hi hp hshort hsplit hdefines hfield] at hlong
      cases hlong

theorem encode_eq_error_cases (hisa : isa.Sound) (hp : parse isa source = .ok p) {q : Program}
    (hq : p.addressed.mapM (linkEntry bias p.table.freeze) = .ok q)
    (h : Program.encode q = .error e) :
    (∃ r, e = .rejected r ∧ r.cause.kind ∈ sourceKinds) ∨ ExceedsDigits bias source e := by
  have hformed (i : Instruction) (hi : .instruction i ∈ p) : i.Formed :=
    Instruction.formed_of_parse hisa hp hi
  obtain ⟨before, i, after, r, g, v, hsplit, -, hmisfit, he⟩ :=
    (encode_linked_eq_error_iff hformed (mapM_eq_ok_iff.1 hq)).1 h
  have hi : .instruction i ∈ p := by
    rw [hsplit]
    simp
  rcases rejection_cases (.outOfRange i.mnemonic (i.subject r.1) v g.bounds) (i.place r.2) with
    hrejected | hlong
  · exact Or.inl ⟨_, he.trans hrejected, by simp [sourceKinds, Cause.kind]⟩
  · rw [he, hlong]
    -- otherwise all numbers of the source could be printed, and the misfit would be rejected
    by_contra hnot
    have hshort (raw : Text) (hraw : raw ∈ source.lines) : ¬ LongHexadecimal raw.code :=
      fun hhexadecimal => hnot (Or.inr (.hexadecimal hraw hhexadecimal))
    rw [rejection_misfit hisa hp hshort hi hmisfit] at hlong
    cases hlong

/-- **Why assembling stops**: the source has a fault of its own, or a number with too many
digits. -/
theorem assemble_eq_error_cases (hisa : isa.Sound) (h : assemble isa bias source = .error e) :
    (∃ r, e = .rejected r ∧ r.cause.kind ∈ sourceKinds) ∨ ExceedsDigits bias source e := by
  rcases assemble_eq_error_iff_stage.1 h with h | ⟨p, hp, h | ⟨hnodup, h | ⟨q, hq, h⟩⟩⟩
  · exact parse_eq_error_cases hisa h
  · -- the first pass: the table is not frozen yet, so only a repeated label stops it
    obtain ⟨before, first, l, after, -, rfl⟩ := collect_eq_error_iff.1 h
    exact Or.inl ⟨_, rfl, by simp [sourceKinds, Cause.kind]⟩
  · exact walk_eq_error_cases hp hnodup (fun i => Instruction.formed_of_parse hisa hp) h
  · exact encode_eq_error_cases hisa hp hq h

end Faults

/-- **Assembling never fails internally.**  For every source, target and row width there is a
report, whose diagnostic, if it has one, is of a kind that a source can bring about; or else the
source has a number with too many digits, and no other fault remains.  No access on any of its lines
relies on a default. -/
theorem report_never_internal (target : Target) (width : RowWidth) (source : Text) :
    ((∃ r, report Thumb.instructionSet target width source = .ok r ∧
        ∀ d, r.diagnostic? = some d →
          d.kind ∈ [Kind.syntactic, .duplicateLabel, .undefinedLabel, .range]) ∨
      ∃ e, report Thumb.instructionSet target width source = .error e ∧
        ExceedsDigits target.bias source e) ∧
    ∀ raw ∈ source.lines, ∀ number, raw.Guarded Thumb.instructionSet number := by
  refine ⟨?_, fun raw _ number => raw.guarded Thumb.instructionSet number⟩
  unfold report
  cases hassemble : assemble Thumb.instructionSet target.bias source with
  | ok a => exact Or.inl ⟨_, rfl, by simp [Report.diagnostic?]⟩
  | error e =>
      rcases assemble_eq_error_cases Thumb.instructionSet_sound hassemble with
        ⟨r, rfl, hkind⟩ | hlong
      · refine Or.inl ⟨_, rfl, fun d hd => ?_⟩
        rw [← Option.some_inj.1 hd]
        exact hkind
      · rcases hlong.eq_tooLong with ⟨n, rfl⟩ | rfl
        · exact Or.inr ⟨_, rfl, hlong⟩
        · exact Or.inr ⟨_, rfl, hlong⟩

-- a value of 3571 hexadecimal digits can still be printed in a diagnostic, and one of 3572 cannot
example : (report Thumb.instructionSet Target.parm none
      ("movs r0, #0x".toList ++ List.replicate 3571 'f')).toOption.any (fun r =>
        r.diagnostic?.any fun d => d.kind = .range) = true ∧
    (report Thumb.instructionSet Target.parm none
      ("movs r0, #0x".toList ++ List.replicate 3572 'f')).toOption = none := by decide +kernel

end ThumbAssembler
