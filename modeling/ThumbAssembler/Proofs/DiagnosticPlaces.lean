/-
**Diagnostics point at the token they are about.**

Every stage can reject a source, and every rejection has a place: a line of the source, a column in
it and the token there.  This module proves that the place is always right, whichever stage it comes
from.  The layout of a diagnostic then consists of three lines, in which the carets stand under the
token.

Main definitions:

* `ThumbAssembler.Diagnostic.PointsAt` — a diagnostic names a line of the source and what stands in
  it.

Main results:

* `ThumbAssembler.assemble_pointsInto` — **every rejection points into a line of the source**;
* `ThumbAssembler.Cause.unbroken_message` — a message breaks a line only where a text that it quotes
  does;
* `ThumbAssembler.lines_format` — a diagnostic is laid out on three lines;
* `ThumbAssembler.report_points_at_token` — the two together, for every source.
-/

import Mathlib
import ThumbAssembler.Proofs.Placement

set_option autoImplicit false

namespace ThumbAssembler

/-! ### Rejections of all stages -/

/-- The mnemonic of an instruction has no line break. -/
theorem Instruction.ReadIn.unbroken_mnemonic {isa : InstructionSet} {code : Text} {i : Instruction}
    (h : i.ReadIn isa code) : i.mnemonic.Unbroken := by
  obtain ⟨ts, hts, hread⟩ := h
  obtain ⟨t, ht, hkind, hmnemonic⟩ := hread.mnemonic
  have hspelled := hts t ht
  rw [Token.SpelledIn, hkind] at hspelled
  rw [hmnemonic]
  exact Text.unbroken_of_isIdentifier hspelled.1.lower

/-- A label that an instruction refers to has no line break in its name. -/
theorem Instruction.ReadIn.unbroken_label {isa : InstructionSet} {code : Text} {i : Instruction}
    (h : i.ReadIn isa code) {o : Operand} {name : Text} (href : i.RefersTo o name) :
    name.Unbroken := by
  obtain ⟨ts, hts, hread⟩ := h
  have hdrawn := hread.operands o href.mem
  rw [Operand.DrawnFrom, href.content] at hdrawn
  obtain ⟨⟨t, ht, hkind, rfl⟩, -⟩ := hdrawn
  have hspelled := hts t ht
  rw [Token.SpelledIn, hkind] at hspelled
  exact Text.unbroken_of_isIdentifier hspelled.1

/-- The field that an operand feeds has no line break in its name. -/
theorem Instruction.ReadIn.unbroken_field {isa : InstructionSet} (hisa : isa.Unbroken) {code : Text}
    {i : Instruction} (h : i.ReadIn isa code) {r : Text × Operand} (hr : r ∈ i.feeds) :
    ∀ t ∈ (i.subject r.1).texts, t.Unbroken := by
  obtain ⟨ts, -, hread⟩ := h
  obtain ⟨candidates, hlookup, -, hfind⟩ := hread.format
  have hformat := hisa _
    (InstructionSet.mem_allFormats_of_lookup hlookup (List.mem_of_find?_eq_some hfind))
  obtain ⟨⟨slot, o⟩, hpair, hfeed⟩ := List.mem_filterMap.1 hr
  obtain ⟨name, hname, rfl⟩ := Option.map_eq_some_iff.1 hfeed
  unfold Instruction.subject
  split
  · simp [Subject.texts]
  · exact List.forall_mem_singleton.2 (hformat.fields slot (List.of_mem_zip hpair).1 name hname)

section Stages

variable {isa : InstructionSet} {bias : Int} {source : Text} {p : Program} {e : Fault}

/-- The rejection of an operand of a program points into a line. -/
theorem pointsInto_operand (hisa : isa.Unbroken) (hp : parse isa source = .ok p) {i : Instruction}
    (hi : .instruction i ∈ p) {o : Operand} (ho : o ∈ i.operands) (cause : Cause)
    (htexts : ∀ t ∈ cause.texts, t.Unbroken) :
    ∃ q ∈ source.numbered, (⟨cause, i.place o⟩ : Rejection).PointsInto q.2 q.1.shown := by
  obtain ⟨q, hq, hline, htext, hne, hoperands⟩ := parse_standsIn hisa hp hi
  refine ⟨q, hq, hline, ?_, ?_, ?_, htexts⟩
  · exact ⟨[], by simp [Instruction.place, htext]⟩
  · simpa [Instruction.place, htext] using hne
  · simpa [Instruction.place, htext] using hoperands o ho

/-- **Every rejection points into a line of the source.** -/
theorem assemble_pointsInto (hsound : isa.Sound) (hisa : isa.Unbroken)
    (h : assemble isa bias source = .error e) :
    ∃ q ∈ source.numbered, e.PointsInto q.2 q.1.shown := by
  rcases assemble_eq_error_iff_stage.1 h with h | ⟨p, hp, h | ⟨hnodup, h⟩⟩
  · exact parse_pointsInto hisa h
  · -- the first pass rejects the second definition of a label
    obtain ⟨before, first, l, after, hrepeats, rfl⟩ := collect_eq_error_iff.1 h
    have hl : .label l ∈ p := by
      rw [hrepeats.split]
      simp
    obtain ⟨q, hq, hline, htext, hname⟩ := parse_standsIn hisa hp hl
    obtain ⟨_, -, hread⟩ := parse_readIn hsound hp hl
    have hidentifier : IsIdentifier l.name := hread.identifier
    refine ⟨q, hq, fun r hr => ?_⟩
    obtain rfl := Fault.rejected.inj hr
    refine ⟨hline, ⟨[], by simp [Label.place, htext]⟩, ?_,
      by simpa [Label.place, htext] using hname,
      List.forall_mem_singleton.2 (Text.unbroken_of_isIdentifier hidentifier)⟩
    intro hnil
    rw [show l.place.lineText = q.1.shown from htext] at hnil
    have hsub := hname.subset
    rw [hnil, List.subset_nil] at hsub
    exact hidentifier.ne_nil hsub
  · have hformed (i : Instruction) (hi : .instruction i ∈ p) : i.Formed :=
      Instruction.formed_of_parse hsound hp hi
    rcases h with h | ⟨q, hq, h⟩
    · -- the second pass rejects a reference to a label
      obtain ⟨before, i, after, hsplit, -, hlink⟩ := (walk_eq_error_iff hnodup hformed).1 h
      have hi : .instruction i ∈ p := by
        rw [hsplit]
        simp
      obtain ⟨_, -, hread, -⟩ := parse_readIn hsound hp hi
      obtain ⟨o, name, href, hcause⟩ := (linkEntry_eq_error_iff hnodup (hformed i hi)).1 hlink
      have hname := hread.unbroken_label href
      rcases hcause with ⟨-, rfl⟩ | ⟨t, g, -, -, -, he⟩
      · obtain ⟨q, hq, hpoints⟩ := pointsInto_operand hisa hp hi href.mem
          (.undefinedLabel name) (List.forall_mem_singleton.2 hname)
        exact ⟨q, hq, pointsInto_rejected hpoints⟩
      · obtain ⟨q, hq, hpoints⟩ := pointsInto_operand hisa hp hi href.mem
          (.branchOutOfRange i.mnemonic name (t - (Program.size before + bias)) g.bounds)
          (List.forall_mem_cons.2 ⟨hread.unbroken_mnemonic, List.forall_mem_singleton.2 hname⟩)
        rw [he]
        exact ⟨q, hq, pointsInto_rejection hpoints⟩
    · -- the encoder rejects a number that does not fit its field
      obtain ⟨before, i, after, r, g, v, hsplit, -, hmisfit, he⟩ :=
        (encode_linked_eq_error_iff hformed (mapM_eq_ok_iff.1 hq)).1 h
      have hi : .instruction i ∈ p := by
        rw [hsplit]
        simp
      obtain ⟨_, -, hread, -⟩ := parse_readIn hsound hp hi
      have hfeeds := hmisfit.mem_feeds
      obtain ⟨q, hq, hpoints⟩ := pointsInto_operand hisa hp hi
        (Instruction.mem_operands_of_mem_feeds hfeeds)
        (.outOfRange i.mnemonic (i.subject r.1) v g.bounds)
        (List.forall_mem_cons.2 ⟨hread.unbroken_mnemonic, hread.unbroken_field hisa hfeeds⟩)
      rw [he]
      exact ⟨q, hq, pointsInto_rejection hpoints⟩

end Stages

/-! ### Messages -/

namespace Text

@[simp] theorem unbroken_nil : Unbroken [] := by simp [Unbroken]

@[simp] theorem unbroken_cons {c : Char} {t : Text} :
    Unbroken (c :: t) ↔ isLineBreak c = false ∧ Unbroken t := List.forall_mem_cons

@[simp] theorem unbroken_append {s t : Text} :
    Unbroken (s ++ t) ↔ s.Unbroken ∧ t.Unbroken := List.forall_mem_append

@[simp] theorem unbroken_inQuotes {t : Text} : (inQuotes t).Unbroken ↔ t.Unbroken := by
  have hquote : isLineBreak '\x27' = false := by decide
  simp [inQuotes, hquote]

@[simp] theorem unbroken_decimal (n : Int) : (decimal n).Unbroken :=
  isLineBreak_of_plain (plain_decimal n)

theorem unbroken_joined {separator : Text} (hseparator : separator.Unbroken) {parts : List Text}
    (h : ∀ t ∈ parts, t.Unbroken) : (joined separator parts).Unbroken := by
  induction parts with
  | nil => simp [joined]
  | cons t parts ih =>
      obtain ⟨ht, hparts⟩ := List.forall_mem_cons.1 h
      cases parts with
      | nil => rwa [joined_singleton]
      | cons u parts =>
          rw [joined_cons_cons, unbroken_append, unbroken_append]
          exact ⟨ht, hseparator, ih hparts⟩

theorem isLineBreak_of_isHexDigit {c : Char} (h : Numeral.isHexDigit c = true) :
    isLineBreak c = false := by
  simp only [Numeral.isHexDigit, Bool.or_eq_true, Bool.and_eq_true, decide_eq_true_eq,
    Char.isDigit] at h
  refine isLineBreak_eq_false ?_ ?_
  · rcases h with (⟨h, -⟩ | ⟨h, -⟩) | ⟨h, -⟩ <;> exact le_trans (by decide) h
  · rcases h with (⟨-, h⟩ | ⟨-, h⟩) | ⟨-, h⟩ <;> exact le_trans h (by decide)

theorem unbroken_zeroPadded (width n : Nat) : (zeroPadded 16 width n).Unbroken := by
  have hdigits : Unbroken (Nat.toDigits 16 n) := fun c hc =>
    isLineBreak_of_isHexDigit (isHexDigit_of_mem_toDigits (by norm_num) le_rfl hc)
  have hzeros (k : Nat) : Unbroken (List.replicate k '0') := by
    intro c hc
    rw [List.eq_of_mem_replicate hc]
    decide
  rw [zeroPadded, if_neg (by omega), Int.natAbs_natCast, List.leftpad, unbroken_append]
  exact ⟨hzeros _, hdigits⟩

theorem unbroken_quotedChar {mark c : Char} (h : isLineBreak c = false) :
    (quotedChar mark c).Unbroken := by
  have hslash : isLineBreak '\\' = false := by decide
  unfold quotedChar escapedCodePoint
  split
  · simp [h, hslash]
  · split_ifs
    · decide
    · decide
    · decide
    · simpa using h
    · exact unbroken_append.2 ⟨by decide, unbroken_zeroPadded _ _⟩
    · exact unbroken_append.2 ⟨by decide, unbroken_zeroPadded _ _⟩
    · exact unbroken_append.2 ⟨by decide, unbroken_zeroPadded _ _⟩

theorem unbroken_quoted {t : Text} (h : t.Unbroken) : (quoted t).Unbroken := by
  have hmark : isLineBreak (quoteMark t) = false := by
    unfold quoteMark
    split <;> decide
  have hbody : Unbroken (t.flatMap (quotedChar (quoteMark t))) := by
    intro c hc
    obtain ⟨d, hd, hc⟩ := List.mem_flatMap.1 hc
    exact unbroken_quotedChar (h d hd) c hc
  simp [quoted, hmark, hbody]

theorem Unbroken.append {s t : Text} (hs : s.Unbroken) (ht : t.Unbroken) : (s ++ t).Unbroken :=
  unbroken_append.2 ⟨hs, ht⟩

theorem Unbroken.inQuotes {t : Text} (h : t.Unbroken) : t.inQuotes.Unbroken :=
  unbroken_inQuotes.2 h

end Text

theorem Expectation.unbroken_message (what : Expectation) : what.message.Unbroken := by
  cases what <;> decide

theorem Cause.unbroken_foundText {found : Text} (h : found.Unbroken) :
    (foundText found).Unbroken := by
  unfold foundText
  split
  · decide
  · exact h

theorem Cause.unbroken_shapesText (kinds : List OperandKind) : (shapesText kinds).Unbroken := by
  unfold shapesText
  split
  · decide
  · refine Text.unbroken_joined (by decide) ?_
    intro t ht
    obtain ⟨kind, -, rfl⟩ := List.mem_map.1 ht
    cases kind <;> decide

theorem Field.Span.unbroken_describe (s : Field.Span) : s.describe.Unbroken := by
  unfold describe
  refine (Text.unbroken_decimal _).append (by decide) |>.append (Text.unbroken_decimal _)
    |>.append ?_
  split
  · exact Text.Unbroken.append (by decide) (Text.unbroken_decimal _)
  · exact Text.unbroken_nil

theorem Subject.unbroken_message {subject : Subject} (h : ∀ t ∈ subject.texts, t.Unbroken) :
    subject.message.Unbroken := by
  cases subject with
  | branchOffset => decide
  | fieldValue name => exact (h name List.mem_cons_self).append (by decide)

/-- **A message breaks a line only where a text that it quotes does.** -/
theorem Cause.unbroken_message {cause : Cause} (h : ∀ t ∈ cause.texts, t.Unbroken) :
    cause.message.Unbroken := by
  open Text in
  cases cause with
  | malformedNumeral numeral =>
      have hnumeral := h numeral (by simp [texts])
      exact Unbroken.append (by decide) (Unbroken.inQuotes (unbroken_cons.2 ⟨by decide, hnumeral⟩))
  | bareNumeral numeral =>
      have hnumeral := h numeral (by simp [texts])
      exact Unbroken.append (by decide) hnumeral.inQuotes |>.append (by decide)
  | unexpectedCharacter c =>
      exact Unbroken.append (by decide) (unbroken_quoted (h [c] (by simp [texts])))
  | reservedLabel name =>
      have hname := h name (by simp [texts])
      exact hname.inQuotes.append (by decide)
  | expected what found =>
      have hfound := unbroken_foundText (h found (by simp [texts]))
      exact what.unbroken_message.append (by decide) |>.append (unbroken_quoted hfound)
        |>.append (by decide)
  | unknownMnemonic mnemonic =>
      have hmnemonic := h mnemonic (by simp [texts])
      exact Unbroken.append (by decide) hmnemonic.inQuotes
  | registerOutOfRange register last =>
      have hregister := h register (by simp [texts])
      exact Unbroken.append (by decide) hregister.inQuotes |>.append (by decide)
        |>.append (unbroken_decimal _) |>.append (by decide)
  | unsupportedRegister register =>
      have hregister := h register (by simp [texts])
      exact Unbroken.append (by decide) hregister.inQuotes |>.append (by decide)
  | unsupportedBase base =>
      have hbase := h base (by simp [texts])
      exact Unbroken.append (by decide) hbase.inQuotes |>.append (by decide)
  | operandMismatch mnemonic found usages =>
      obtain ⟨hmnemonic, husages⟩ := List.forall_mem_cons.1 h
      exact Unbroken.append (by decide) hmnemonic.inQuotes |>.append (by decide)
        |>.append (unbroken_shapesText found) |>.append (by decide)
        |>.append (unbroken_joined (by decide) husages)
  | fixedOperand mnemonic required found =>
      have hmnemonic := h mnemonic (by simp [texts])
      have hfound := h found (by simp [texts])
      exact hmnemonic.inQuotes.append (by decide) |>.append (unbroken_decimal _)
        |>.append (by decide) |>.append hfound |>.append (by decide)
  | tiedOperand mnemonic usage =>
      have hmnemonic := h mnemonic (by simp [texts])
      have husage := h usage (by simp [texts])
      exact hmnemonic.inQuotes.append (by decide) |>.append husage |>.append (by decide)
  | duplicateLabel name firstLine =>
      have hname := h name (by simp [texts])
      exact Unbroken.append (by decide) hname.inQuotes |>.append (by decide)
        |>.append (unbroken_decimal _)
  | frozenTable name =>
      have hname := h name (by simp [texts])
      exact Unbroken.append (by decide) hname.inQuotes
  | undefinedLabel name =>
      have hname := h name (by simp [texts])
      exact Unbroken.append (by decide) hname.inQuotes
  | branchOutOfRange mnemonic label offset allowed =>
      have hmnemonic := h mnemonic (by simp [texts])
      have hlabel := h label (by simp [texts])
      exact hmnemonic.append (by decide) |>.append hlabel.inQuotes |>.append (by decide)
        |>.append (unbroken_decimal _) |>.append (by decide) |>.append allowed.unbroken_describe
        |>.append (by decide)
  | unresolvedLabel name =>
      have hname := h name (by simp [texts])
      exact Unbroken.append (by decide) hname.inQuotes |>.append (by decide)
  | outOfRange mnemonic subject value allowed =>
      obtain ⟨hmnemonic, hsubject⟩ := List.forall_mem_cons.1 h
      exact hmnemonic.append (by decide) |>.append (Subject.unbroken_message hsubject)
        |>.append (by decide) |>.append (unbroken_decimal _) |>.append (by decide)
        |>.append allowed.unbroken_describe |>.append (by decide)
  | stated kind message firstLine => exact h message (by simp [texts])

/-! ### Layout -/

namespace Diagnostic

/-- The first line of the layout: where, which kind, what. -/
def heading (d : Diagnostic) (filename : Option Text) : Text :=
  sourceText filename d.place ++ ": ".toList ++ d.kind.name ++ " error: ".toList ++ d.message

variable {d : Diagnostic} {filename : Option Text}

theorem unbroken_sourceText (hfilename : ∀ name ∈ filename, name.Unbroken) (p : Place) :
    (sourceText filename p).Unbroken := by
  have hcolon (n : Int) : Text.Unbroken (':' :: decimal n) :=
    Text.unbroken_cons.2 ⟨by decide, Text.unbroken_decimal n⟩
  have hplace : Text.Unbroken (if p.line = 0 then []
      else ':' :: decimal p.line ++ if p.column = 0 then [] else ':' :: decimal p.column) := by
    split
    · exact Text.unbroken_nil
    · refine (hcolon _).append ?_
      split
      · exact Text.unbroken_nil
      · exact hcolon _
  unfold sourceText
  cases filename with
  | none => exact Text.Unbroken.append (by decide) hplace
  | some name =>
      refine Text.Unbroken.append ?_ hplace
      by_cases hempty : name.isEmpty = true
      · simp only [hempty, if_true]
        decide
      · simp only [hempty, Bool.false_eq_true, if_false]
        exact hfilename name rfl

/-- The line of carets, after the indentation that the source line has too. -/
theorem indent_caretLine {p : Place} (h : 1 ≤ p.column) :
    "    ".toList ++ caretLine p =
      List.replicate (p.column + 3).toNat ' ' ++ List.replicate (max p.token.length 1) '^' := by
  have hindent : (p.column + 3).toNat = 4 + (p.column - 1).toNat := by omega
  rw [hindent, List.replicate_add, caretLine, List.append_assoc]
  rfl

theorem unbroken_caretLine (p : Place) : (caretLine p).Unbroken := by
  intro c hc
  rcases List.mem_append.1 hc with hc | hc
  · rw [List.eq_of_mem_replicate hc]
    decide
  · rw [List.eq_of_mem_replicate hc]
    decide

/-- **A diagnostic is laid out on three lines**: what it says, the source line, and carets. -/
theorem lines_format (hfilename : ∀ name ∈ filename, name.Unbroken) (hmessage : d.message.Unbroken)
    (hline : d.place.lineText.Unbroken) (hne : d.place.lineText ≠ [])
    (hcolumn : 1 ≤ d.place.column) :
    (d.format filename).lines =
      [d.heading filename, "    ".toList ++ d.place.lineText,
        "    ".toList ++ caretLine d.place] := by
  have hkind : d.kind.name.Unbroken := by
    cases d.kind <;> decide
  have hheading : (d.heading filename).Unbroken :=
    (unbroken_sourceText hfilename d.place).append (by decide) |>.append hkind
      |>.append (by decide) |>.append hmessage
  have hsource : Text.Unbroken ("    ".toList ++ d.place.lineText) :=
    Text.Unbroken.append (by decide) hline
  have hcarets : Text.Unbroken ("    ".toList ++ caretLine d.place) :=
    Text.Unbroken.append (by decide) (unbroken_caretLine d.place)
  have hformat : d.format filename =
      d.heading filename ++ '\n' :: (("    ".toList ++ d.place.lineText) ++
        '\n' :: ("    ".toList ++ caretLine d.place)) := by
    rw [format, if_neg (by simpa using hne), if_neg (by omega)]
    simp [heading]
  rw [hformat, Text.lines_append_feed hheading, Text.lines_append_feed hsource,
    Text.lines_singleton hcarets (by simp)]

end Diagnostic

/-! ### Reports -/

/-- The diagnostic names a line of the source, shows that line from its start, and says what stands
at a column of it. -/
structure Diagnostic.PointsAt (source : Text) (d : Diagnostic) : Prop where
  line : 1 ≤ d.place.line ∧ d.place.line ≤ source.lines.length
  column : 1 ≤ d.place.column ∧ d.place.column ≤ d.place.lineText.length + 1
  ne_nil : d.place.lineText ≠ []
  lineText : ∃ raw, source.lines[(d.place.line - 1).toNat]? = some raw ∧
    d.place.lineText <+: raw.shown
  token : d.place.lineText.slice (d.place.column - 1).toNat
    ((d.place.column - 1).toNat + d.place.token.length) = d.place.token

theorem Rejection.PointsInto.pointsAt {source : Text} {q : Text × Nat} (hq : q ∈ source.numbered)
    {r : Rejection} (h : r.PointsInto q.2 q.1.shown) : r.diagnostic.PointsAt source := by
  obtain ⟨hpos, hget⟩ := List.mem_zipIdx_iff_le_and_getElem?_sub.1 hq
  have hlt := (List.getElem?_eq_some_iff.1 hget).1
  have hline : r.diagnostic.place.line = q.2 := h.line
  refine ⟨?_, ⟨h.token.column_pos, h.token.column_le⟩, h.ne_nil, ⟨q.1, ?_, h.lineText⟩,
    h.token.slice_eq⟩
  · rw [hline]
    omega
  · have hindex : (r.diagnostic.place.line - 1).toNat = q.2 - 1 := by
      rw [hline]
      omega
    rw [hindex, hget]

/-- **Diagnostics point at the token they are about.**  For every source, target and row width, the
diagnostic of a rejected source points at what stands in a line of the source.  Under a file name
without line breaks it is laid out on three lines; the carets on the third start in the column in
which the token starts on the second, and are as many as the token has characters, but at least
one. -/
theorem report_points_at_token {target : Target} {width : RowWidth} {source : Text} {d : Diagnostic}
    (h : report Thumb.instructionSet target width source = .ok (.failure d)) :
    d.PointsAt source ∧
      ∀ filename : Option Text, (∀ name ∈ filename, name.Unbroken) →
        (d.format filename).lines =
            [d.heading filename, "    ".toList ++ d.place.lineText,
              List.replicate (d.place.column + 3).toNat ' ' ++
                List.replicate (max d.place.token.length 1) '^'] ∧
          Text.slice (d.place.column + 3).toNat
              ((d.place.column + 3).toNat + d.place.token.length)
              ("    ".toList ++ d.place.lineText) = d.place.token := by
  unfold report at h
  split at h
  · cases h
  · rename_i r hr
    obtain rfl := Report.failure.inj (Except.ok.inj h)
    obtain ⟨q, hq, hpoints⟩ :=
      assemble_pointsInto Thumb.instructionSet_sound Thumb.instructionSet_unbroken hr
    have hpoints := hpoints r rfl
    have hat := hpoints.pointsAt hq
    refine ⟨hat, fun filename hfilename => ?_⟩
    have hunbroken : r.place.lineText.Unbroken :=
      (Text.unbroken_of_mem_numbered hq).shown.of_subset hpoints.lineText.subset
    have hlines := Diagnostic.lines_format hfilename
      (Cause.unbroken_message hpoints.texts) hunbroken hat.ne_nil hat.column.1
    have htoken := (hpoints.token.append_left "    ".toList).slice_eq
    have hindent : (("    ".toList.length : Int) + r.place.column - 1).toNat =
        (r.place.column + 3).toNat := by
      have hfour : ("    ".toList.length : Int) = 4 := rfl
      omega
    rw [hindent] at htoken
    rw [Diagnostic.indent_caretLine hat.column.1] at hlines
    exact ⟨hlines, htoken⟩
  · cases h

/-- The place of an operand in brackets, behind a tab and before a comment. -/
theorem report_points_at_token_in_brackets :
    ∃ d, report Thumb.instructionSet Target.parm none
        "start:\n\tstr r1, [sp, #3] @ odd".toList = .ok (.failure d) ∧
      d.place = ⟨2, 17, "[sp, #3]".toList, "        str r1, [sp, #3] @ odd".toList⟩ ∧
      d.PointsAt "start:\n\tstr r1, [sp, #3] @ odd".toList ∧
      (d.format (some "odd.s".toList)).lines =
        ["odd.s:2:17: range error: ".toList ++ d.message,
          "            str r1, [sp, #3] @ odd".toList,
          "                    ^^^^^^^^".toList] := by
  have heval : (report Thumb.instructionSet Target.parm none
      "start:\n\tstr r1, [sp, #3] @ odd".toList).toOption = some (.failure ⟨.range,
        "str: imm8 value 3 out of range (allowed 0..1020, multiple of 4)".toList,
        ⟨2, 17, "[sp, #3]".toList, "        str r1, [sp, #3] @ odd".toList⟩⟩) := by
    decide +kernel
  have hreport := toOption_eq_some_iff.1 heval
  obtain ⟨hat, hlayout⟩ := report_points_at_token hreport
  refine ⟨_, hreport, rfl, hat, ?_⟩
  exact (hlayout (some "odd.s".toList) (by decide)).1

end ThumbAssembler
