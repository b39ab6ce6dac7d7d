/-
**Where things stand in a line.**

A column says where a token, an operand or a label stands in the text of its line, and the spelling
that is kept with it is what the line shows there.  The columns come about in different ways: from
the position of the scanner, from the blanks before a label, from a piece cut out of the line for an
operand in brackets.  This module proves that they all agree with the line, and that the place of a
rejection does.

Main definitions:

* `ThumbAssembler.Text.HasAt` — a piece stands in a text at a column;
* `ThumbAssembler.Text.Unbroken` — a text without line breaks;
* `ThumbAssembler.Cause.texts` — the texts that the wording of a cause quotes;
* `ThumbAssembler.Rejection.PointsInto` — a rejection points at what stands in a line;
* `ThumbAssembler.Entry.StandsIn` — an entry stands in a line.

Main results:

* `ThumbAssembler.scan_hasAt` — **tokens stand at their columns**;
* `ThumbAssembler.SourceLine.instruction_standsIn` — **operands stand at their columns**;
* `ThumbAssembler.parseLine_standsIn` — what is read on a line stands in it, and a line that cannot
  be read is rejected at something that stands in it;
* `ThumbAssembler.parse_standsIn`, `ThumbAssembler.parse_pointsInto` — likewise for a source.
-/

import Mathlib
import ThumbAssembler.Proofs.FormatTable
import ThumbAssembler.Proofs.NoInternalFault

set_option autoImplicit false

namespace ThumbAssembler

/-! ### Pieces of a text -/

namespace Text

/-- The piece stands in the text at the column; columns count from one. -/
def HasAt (whole : Text) (column : Int) (piece : Text) : Prop :=
  ∃ before after, whole = before ++ piece ++ after ∧ column = before.length + 1

variable {whole piece : Text} {column : Int}

namespace HasAt

theorem column_pos (h : whole.HasAt column piece) : 1 ≤ column := by
  obtain ⟨before, after, -, rfl⟩ := h
  omega

theorem column_le (h : whole.HasAt column piece) : column ≤ whole.length + 1 := by
  obtain ⟨before, after, rfl, rfl⟩ := h
  simp only [List.length_append]
  omega

/-- What stands at a column can be cut out of the text there. -/
theorem slice_eq (h : whole.HasAt column piece) :
    whole.slice (column - 1).toNat ((column - 1).toNat + piece.length) = piece := by
  obtain ⟨before, after, rfl, rfl⟩ := h
  have hcolumn : ((before.length : Int) + 1 - 1).toNat = before.length := by omega
  rw [hcolumn, slice, ← List.length_append, List.take_left, List.drop_left]

theorem subset (h : whole.HasAt column piece) : piece ⊆ whole := by
  obtain ⟨before, after, rfl, -⟩ := h
  intro c hc
  simp [hc]

/-- A piece stands at the same column when the text goes on. -/
theorem of_isPrefix (h : whole.HasAt column piece) {longer : Text} (hlonger : whole <+: longer) :
    longer.HasAt column piece := by
  obtain ⟨before, after, rfl, hcolumn⟩ := h
  obtain ⟨rest, rfl⟩ := hlonger
  exact ⟨before, after ++ rest, by simp, hcolumn⟩

end HasAt

/-- What is cut out of a text stands where it was cut out. -/
theorem hasAt_slice {start : Nat} (h : start ≤ whole.length) (stop : Nat) :
    whole.HasAt (start + 1) (whole.slice start stop) := by
  rcases Nat.le_total start stop with hle | hle
  · refine ⟨whole.take start, whole.drop stop, ?_, by simp [h]⟩
    have htake : whole.take start = (whole.take stop).take start := by
      rw [List.take_take, Nat.min_eq_left hle]
    rw [slice, htake, List.take_append_drop, List.take_append_drop]
  · refine ⟨whole.take start, whole.drop start, ?_, by simp [h]⟩
    have hempty : whole.slice start stop = [] := by
      rw [slice, List.drop_eq_nil_iff, List.length_take]
      omega
    rw [hempty, List.append_nil, List.take_append_drop]

/-- The text has no line break. -/
def Unbroken (t : Text) : Prop := ∀ c ∈ t, isLineBreak c = false

instance (t : Text) : Decidable t.Unbroken :=
  decidable_of_iff ((t.all fun c => !isLineBreak c) = true) (by simp [Unbroken])

theorem Unbroken.of_subset {s t : Text} (h : t.Unbroken) (hs : s ⊆ t) : s.Unbroken :=
  fun c hc => h c (hs hc)

theorem HasAt.unbroken (h : whole.HasAt column piece) (hwhole : whole.Unbroken) :
    piece.Unbroken :=
  hwhole.of_subset h.subset

theorem unbroken_of_isIdentifier {t : Text} (h : IsIdentifier t) : t.Unbroken := by
  intro c hc
  have hrange := toNat_of_isIdentifierPart (h.part c hc)
  exact isLineBreak_eq_false (by omega) (by omega)

end Text

/-! ### Rejections -/

/-- The text that the wording of a subject quotes. -/
def Subject.texts : Subject → List Text
  | .branchOffset => []
  | .fieldValue name => [name]

/-- The texts that the wording of a cause quotes. -/
def Cause.texts : Cause → List Text
  | malformedNumeral numeral => [numeral]
  | bareNumeral numeral => [numeral]
  | unexpectedCharacter c => [[c]]
  | reservedLabel name => [name]
  | expected _ found => [found]
  | unknownMnemonic mnemonic => [mnemonic]
  | registerOutOfRange register _ => [register]
  | unsupportedRegister register => [register]
  | unsupportedBase base => [base]
  | operandMismatch mnemonic _ usages => mnemonic :: usages
  | fixedOperand mnemonic _ found => [mnemonic, found]
  | tiedOperand mnemonic usage => [mnemonic, usage]
  | duplicateLabel name _ => [name]
  | frozenTable name => [name]
  | undefinedLabel name => [name]
  | branchOutOfRange mnemonic label _ _ => [mnemonic, label]
  | unresolvedLabel name => [name]
  | outOfRange mnemonic subject _ _ => mnemonic :: subject.texts
  | stated _ message _ => [message]

/-- A rejection on a line: it shows a part of the line from its start, points at what stands there,
and quotes no line break. -/
structure Rejection.PointsInto (number : Int) (shown : Text) (r : Rejection) : Prop where
  line : r.place.line = number
  lineText : r.place.lineText <+: shown
  ne_nil : r.place.lineText ≠ []
  token : r.place.lineText.HasAt r.place.column r.place.token
  texts : ∀ t ∈ r.cause.texts, t.Unbroken

/-- A fault that is a rejection points into a line. -/
def Fault.PointsInto (number : Int) (shown : Text) (e : Fault) : Prop :=
  ∀ r, e = .rejected r → r.PointsInto number shown

section PointsInto

variable {number : Int} {shown : Text}

theorem pointsInto_rejected {r : Rejection} (h : r.PointsInto number shown) :
    (Fault.rejected r).PointsInto number shown := by
  intro r' hr'
  rwa [← Fault.rejected.inj hr']

theorem pointsInto_rejection {cause : Cause} {place : Place}
    (h : (⟨cause, place⟩ : Rejection).PointsInto number shown) :
    (rejection cause place).PointsInto number shown := by
  unfold rejection
  split
  · exact pointsInto_rejected h
  · rintro r ⟨⟩

theorem Fault.PointsInto.of_isPrefix {e : Fault} (h : e.PointsInto number shown) {longer : Text}
    (hlonger : shown <+: longer) : e.PointsInto number longer := by
  intro r hr
  have hpoints := h r hr
  exact { hpoints with lineText := hpoints.lineText.trans hlonger }

end PointsInto

/-! ### Tokens -/

/-- The tokens stand in the text at their columns. -/
def TokensIn (whole : Text) (ts : List Token) : Prop := ∀ t ∈ ts, whole.HasAt t.column t.text

theorem TokensIn.of_isPrefix {whole longer : Text} {ts : List Token} (h : TokensIn whole ts)
    (hlonger : whole <+: longer) : TokensIn longer ts :=
  fun t ht => (h t ht).of_isPrefix hlonger

/-- The rejection of what comes next in a line. -/
theorem pointsInto_next {whole before piece after : Text} {number : Int} {cause : Cause}
    (hwhole : whole = before ++ piece ++ after) (hne : piece ≠ [])
    (htexts : ∀ t ∈ cause.texts, t.Unbroken) :
    (rejection cause ⟨number, before.length + 1, piece, whole⟩).PointsInto number whole :=
  pointsInto_rejection ⟨rfl, ⟨[], List.append_nil _⟩, by simp [hwhole, hne],
    ⟨before, after, hwhole, rfl⟩, htexts⟩

/-- **Tokens stand at their columns**, and so does what cannot be a token.  The scanner has gone
through `before` when it comes to `rest`. -/
theorem scan_hasAt (number : Int) {whole : Text} (hunbroken : whole.Unbroken) (position : Nat)
    (rest : Text) : ∀ before, whole = before ++ rest → position = before.length →
    Outcome (TokensIn whole) (Fault.PointsInto number whole) (scan number whole position rest) := by
  fun_induction scan number whole position rest with
  | case1 position =>
      intro before hwhole hposition t ht
      rw [List.mem_singleton.1 ht]
      exact ⟨before, [], by simpa using hwhole, by simp [hposition]⟩
  | case2 position c rest hc ih =>
      intro before hwhole hposition
      exact ih (before ++ [c]) (by simpa using hwhole) (by simp [hposition])
  | case3 position rest hc =>
      intro before hwhole hposition t ht
      rw [List.mem_singleton.1 ht]
      exact ⟨before, commentMark :: rest, by simpa using hwhole, by simp [hposition]⟩
  | case4 position c rest hc hcomment kind hkind ih =>
      intro before hwhole hposition
      have hrest := ih (before ++ [c]) (by simpa using hwhole) (by simp [hposition])
      refine hrest.bind fun ts hts => List.forall_mem_cons.2 ⟨?_, hts⟩
      exact ⟨before, rest, by simpa using hwhole, by simp [hposition]⟩
  | case5 position rest place numeral hc hcomment hkind ih =>
      intro before hwhole hposition
      have hsplit : whole = before ++ ('#' :: numeral) ++ rest.dropWhile isNumeralPart := by
        rw [hwhole, List.append_assoc, List.cons_append, List.takeWhile_append_dropWhile]
      have hat : whole.HasAt (position + 1 : Nat) ('#' :: numeral) :=
        ⟨before, _, hsplit, by simp [hposition]⟩
      cases hvalue : Numeral.value? numeral with
      | error e =>
          obtain ⟨digits, rfl, -⟩ := (value?_outcome numeral).of_error hvalue
          rintro r ⟨⟩
      | ok value =>
          cases value with
          | none =>
              have hquoted : Text.Unbroken numeral :=
                (hat.unbroken hunbroken).of_subset (List.subset_cons_self _ _)
              have hplace : place ('#' :: numeral) =
                  ⟨number, before.length + 1, '#' :: numeral, whole⟩ := by
                simp [place, hposition]
              rw [ok_bind, hplace]
              exact pointsInto_next hsplit (by simp) (by simpa [Cause.texts] using hquoted)
          | some v =>
              have hrest := ih (before ++ ('#' :: numeral)) hsplit
                (by simp [hposition]; omega)
              exact hrest.bind fun ts hts => List.forall_mem_cons.2 ⟨hat, hts⟩
  | case6 position c rest hc hcomment hkind hsign hstart name ih =>
      intro before hwhole hposition
      have hsplit : whole = before ++ name ++ rest.dropWhile isIdentifierPart := by
        rw [hwhole, List.append_assoc, List.cons_append, List.takeWhile_append_dropWhile]
      have hrest := ih (before ++ name) hsplit (by simp [hposition])
      refine hrest.bind fun ts hts => List.forall_mem_cons.2 ⟨?_, hts⟩
      exact ⟨before, _, hsplit, by simp [hposition]⟩
  | case7 position c rest place hc hcomment hkind hsign hstart hdigit numeral =>
      intro before hwhole hposition
      have hsplit : whole = before ++ numeral ++ rest.dropWhile isNumeralPart := by
        rw [hwhole, List.append_assoc, List.cons_append, List.takeWhile_append_dropWhile]
      have hat : whole.HasAt (position + 1 : Nat) numeral :=
        ⟨before, _, hsplit, by simp [hposition]⟩
      have hplace : place numeral = ⟨number, before.length + 1, numeral, whole⟩ := by
        simp [place, hposition]
      rw [hplace]
      exact pointsInto_next hsplit (by simp [numeral])
        (by simpa [Cause.texts] using hat.unbroken hunbroken)
  | case8 position c rest place hc hcomment hkind hsign hstart hdigit =>
      intro before hwhole hposition
      have hsplit : whole = before ++ [c] ++ rest := by simpa using hwhole
      have hat : whole.HasAt (position + 1 : Nat) [c] := ⟨before, _, hsplit, by simp [hposition]⟩
      have hplace : place [c] = ⟨number, before.length + 1, [c], whole⟩ := by
        simp [place, hposition]
      rw [hplace]
      exact pointsInto_next hsplit (by simp) (by simpa [Cause.texts] using hat.unbroken hunbroken)

/-! ### Operands and instructions -/

/-- The operands stand in the text at their columns. -/
def OperandsIn (whole : Text) (os : List Operand) : Prop := ∀ o ∈ os, whole.HasAt o.column o.text

/-- The texts of a format that messages quote have no line break. -/
structure Format.Unbroken (f : Format) : Prop where
  usage : f.usage.Unbroken
  fields : ∀ s ∈ f.slots, ∀ name ∈ s.field, Text.Unbroken name

instance (f : Format) : Decidable f.Unbroken :=
  decidable_of_iff (f.usage.Unbroken ∧ ∀ s ∈ f.slots, ∀ name ∈ s.field, Text.Unbroken name)
    ⟨fun ⟨h₁, h₂⟩ => ⟨h₁, h₂⟩, fun h => ⟨h.usage, h.fields⟩⟩

/-- The formats of a table quote no line break. -/
def InstructionSet.Unbroken (isa : InstructionSet) : Prop := ∀ f ∈ isa.allFormats, f.Unbroken

theorem Thumb.formats_unbroken : ∀ f ∈ conditionalBranch :: formats, f.Unbroken := by
  decide +kernel

theorem Thumb.instructionSet_unbroken : instructionSet.Unbroken :=
  fun f hf => formats_unbroken f (mem_formats_of_mem_allFormats f hf)

namespace SourceLine

/-- A line that rejections can show. -/
structure Shown (line : SourceLine) : Prop where
  ne_nil : line.text ≠ []
  unbroken : line.text.Unbroken

/-- The tokens stand in the line, and the last is its end. -/
structure Holds (line : SourceLine) (ts : List Token) : Prop where
  ends : EndsLine ts
  tokens : TokensIn line.text ts

section

variable {line : SourceLine} {t : Token} {ts : List Token}

theorem Holds.head (h : line.Holds (t :: ts)) : line.text.HasAt t.column t.text :=
  h.tokens t List.mem_cons_self

theorem Holds.tail (h : line.Holds (t :: ts)) (ht : t.kind ≠ .endOfLine) : line.Holds ts :=
  ⟨h.ends.tail ht, fun u hu => h.tokens u (List.mem_cons_of_mem _ hu)⟩

/-- There is always a next token in the line. -/
theorem Holds.nextToken (h : line.Holds ts) :
    line.text.HasAt (nextToken ts).column (nextToken ts).text := by
  cases ts with
  | nil => exact absurd rfl h.ends.ne_nil
  | cons t ts => exact h.head

/-- The rejection of what stands at a column of the line. -/
theorem Shown.pointsInto (h : line.Shown) {cause : Cause} {column : Int} {token : Text}
    (hat : line.text.HasAt column token) (htexts : ∀ t ∈ cause.texts, t.Unbroken) :
    (rejection cause ⟨line.number, column, token, line.text⟩).PointsInto line.number line.text :=
  pointsInto_rejection ⟨rfl, ⟨[], List.append_nil _⟩, h.ne_nil, hat, htexts⟩

/-- The rejection of a token whose text is all that the message quotes. -/
theorem Shown.pointsInto_token (h : line.Shown) {cause : Cause}
    (hat : line.text.HasAt t.column t.text) (htexts : cause.texts = [t.text]) :
    (rejection cause (line.place t)).PointsInto line.number line.text := by
  refine h.pointsInto hat ?_
  rw [htexts, List.forall_mem_singleton]
  exact hat.unbroken h.unbroken

/-- What the reading of an operand yields: an operand of the line, and the tokens after it. -/
def OperandStands (line : SourceLine) (r : Operand × List Token) : Prop :=
  line.text.HasAt r.1.column r.1.text ∧ line.Holds r.2

/-- What the reading of operands yields: operands of the line, and the tokens after them. -/
def OperandsStand (line : SourceLine) (r : List Operand × List Token) : Prop :=
  OperandsIn line.text r.1 ∧ line.Holds r.2

end

variable {line : SourceLine} (hline : line.Shown)

include hline

theorem unexpected_standsIn {α : Type} {what : Expectation} {ts : List Token} (h : line.Holds ts)
    (P : α → Prop) :
    Outcome P (Fault.PointsInto line.number line.text) (line.unexpected what ts) :=
  hline.pointsInto_token h.nextToken rfl

theorem identifierOperand_standsIn {t : Token} (h : line.text.HasAt t.column t.text) :
    Outcome (fun o => line.text.HasAt o.column o.text) (Fault.PointsInto line.number line.text)
      (line.identifierOperand t) := by
  unfold identifierOperand
  split
  · split
    · rintro r ⟨⟩
    · split
      · exact h
      · exact hline.pointsInto_token h rfl
  · split
    · exact h
    · split
      · exact hline.pointsInto_token h rfl
      · exact h

/-- An operand in brackets is cut out of the line from its opening bracket on. -/
theorem closeBracket_standsIn {start : Token} (hstart : line.text.HasAt start.column start.text)
    (bytes : Int) {ts : List Token} (h : line.Holds ts) :
    Outcome line.OperandStands (Fault.PointsInto line.number line.text)
      (line.closeBracket start bytes ts) := by
  unfold closeBracket
  split
  · refine ⟨?_, h.tail (by simp)⟩
    have hpos := hstart.column_pos
    have hle := hstart.column_le
    have hcolumn : (start.column : Int) = (start.column - 1 : Nat) + 1 := by omega
    simp only [hcolumn]
    exact Text.hasAt_slice (by omega) _
  · exact unexpected_standsIn hline h _

theorem bracketOffset_standsIn {start : Token} (hstart : line.text.HasAt start.column start.text)
    {ts : List Token} (h : line.Holds ts) :
    Outcome line.OperandStands (Fault.PointsInto line.number line.text)
      (line.bracketOffset start ts) := by
  unfold bracketOffset
  split
  · exact closeBracket_standsIn hline hstart _ ((h.tail (by simp)).tail (by simp))
  · exact unexpected_standsIn hline (h.tail (by simp)) _
  · exact closeBracket_standsIn hline hstart _ h

theorem bracketOperand_standsIn {start : Token} (hstart : line.text.HasAt start.column start.text)
    {ts : List Token} (h : line.Holds ts) :
    Outcome line.OperandStands (Fault.PointsInto line.number line.text)
      (line.bracketOperand start ts) := by
  unfold bracketOperand
  split
  · split
    · exact bracketOffset_standsIn hline hstart (h.tail (by simp))
    · exact hline.pointsInto_token h.head rfl
  · exact unexpected_standsIn hline h _

theorem operand_standsIn {ts : List Token} (h : line.Holds ts) :
    Outcome line.OperandStands (Fault.PointsInto line.number line.text) (line.operand ts) := by
  unfold operand
  split
  · exact ⟨h.head, h.tail (by simp)⟩
  · exact bracketOperand_standsIn hline h.head (h.tail (by simp))
  · exact (identifierOperand_standsIn hline h.head).bind fun o ho => ⟨ho, h.tail (by simp)⟩
  · exact unexpected_standsIn hline h _

theorem operands_standsIn {ts : List Token} (h : line.Holds ts) :
    Outcome line.OperandsStand (Fault.PointsInto line.number line.text) (line.operands ts) := by
  fun_induction line.operands ts with
  | case1 ts e he => exact (operand_standsIn hline h).of_error he
  | case2 ts o text column rest ho ih =>
      obtain ⟨hat, hrest⟩ := (operand_standsIn hline h).of_ok ho
      refine (ih (hrest.tail (by simp))).bind fun r hr => ?_
      exact ⟨List.forall_mem_cons.2 ⟨hat, hr.1⟩, hr.2⟩
  | case3 ts o rest hnot ho =>
      obtain ⟨hat, hrest⟩ := (operand_standsIn hline h).of_ok ho
      exact ⟨List.forall_mem_singleton.2 hat, hrest⟩

theorem operandList_standsIn {ts : List Token} (h : line.Holds ts) :
    Outcome line.OperandsStand (Fault.PointsInto line.number line.text) (line.operandList ts) := by
  unfold operandList
  split
  · exact ⟨by simp [OperandsIn], h⟩
  · exact operands_standsIn hline h

theorem checkFixed_pointsInto {mnemonic : Token}
    (hmnemonic : line.text.HasAt mnemonic.column mnemonic.text) (slot : Slot) {o : Operand}
    (ho : line.text.HasAt o.column o.text) :
    Outcome (fun _ => True) (Fault.PointsInto line.number line.text)
      (line.checkFixed mnemonic slot o) := by
  unfold checkFixed numberOf
  split
  · trivial
  · split
    · rw [ok_bind]
      split
      · trivial
      · refine hline.pointsInto ho (List.forall_mem_cons.2 ⟨?_, List.forall_mem_singleton.2 ?_⟩)
        · exact hmnemonic.unbroken hline.unbroken
        · exact ho.unbroken hline.unbroken
    · rintro r ⟨⟩

theorem checkTie_pointsInto {mnemonic : Token}
    (hmnemonic : line.text.HasAt mnemonic.column mnemonic.text) {usage : Text}
    (husage : usage.Unbroken) (placed : List (Text × Int)) (slot : Slot) {o : Operand}
    (ho : line.text.HasAt o.column o.text) :
    Outcome (fun _ => True) (Fault.PointsInto line.number line.text)
      (line.checkTie mnemonic usage placed slot o) := by
  unfold checkTie numberOf
  split
  · trivial
  · split
    · rw [ok_bind]
      split
      · trivial
      · refine hline.pointsInto ho (List.forall_mem_cons.2 ⟨?_, List.forall_mem_singleton.2 ?_⟩)
        · exact hmnemonic.unbroken hline.unbroken
        · exact husage
    · rintro r ⟨⟩

theorem checkSlotsFrom_pointsInto {mnemonic : Token}
    (hmnemonic : line.text.HasAt mnemonic.column mnemonic.text) {usage : Text}
    (husage : usage.Unbroken) (placed : List (Text × Int)) {pairs : List (Slot × Operand)}
    (hpairs : ∀ q ∈ pairs, line.text.HasAt q.2.column q.2.text) :
    Outcome (fun _ => True) (Fault.PointsInto line.number line.text)
      (line.checkSlotsFrom mnemonic usage placed pairs) := by
  induction pairs generalizing placed with
  | nil => trivial
  | cons pair pairs ih =>
      obtain ⟨ho, hpairs⟩ := List.forall_mem_cons.1 hpairs
      refine (checkFixed_pointsInto hline hmnemonic _ ho).bind fun _ _ => ?_
      refine (checkTie_pointsInto hline hmnemonic husage placed _ ho).bind fun _ _ => ?_
      exact ih _ hpairs

end SourceLine

/-- The instruction stands in a line: it keeps the line's number and text, and its operands stand at
their columns. -/
structure Instruction.StandsIn (number : Int) (shown : Text) (i : Instruction) : Prop where
  line : i.line = number
  text : i.text = shown
  ne_nil : shown ≠ []
  operands : OperandsIn shown i.operands

namespace SourceLine

variable {line : SourceLine} (hline : line.Shown)

include hline

theorem buildInstruction_standsIn {isa : InstructionSet} (hisa : isa.Unbroken) {mnemonic : Token}
    (hmnemonic : line.text.HasAt mnemonic.column mnemonic.text) {candidates : Candidates}
    (hlookup : isa.lookup mnemonic.text = some candidates) {os : List Operand}
    (hos : OperandsIn line.text os) :
    Outcome (Instruction.StandsIn line.number line.text) (Fault.PointsInto line.number line.text)
      (line.buildInstruction mnemonic candidates os) := by
  have hformats : ∀ f ∈ candidates.formats, f.Unbroken := fun f hf =>
    hisa f (InstructionSet.mem_allFormats_of_lookup hlookup hf)
  unfold buildInstruction chooseFormat
  cases hfind : candidates.formats.find? fun f => f.signature = os.map Operand.kind with
  | none =>
      refine hline.pointsInto hmnemonic (List.forall_mem_cons.2 ⟨?_, List.forall_mem_map.2 ?_⟩)
      · exact hmnemonic.unbroken hline.unbroken
      · exact fun f hf => (hformats f hf).usage
  | some f =>
      rw [ok_bind]
      have husage := (hformats f (List.mem_of_find?_eq_some hfind)).usage
      refine (checkSlotsFrom_pointsInto hline hmnemonic husage [] ?_).bind fun _ _ =>
        ⟨rfl, rfl, hline.ne_nil, hos⟩
      exact fun q hq => hos _ (List.of_mem_zip hq).2

/-- **Operands stand at their columns**, and so does what an instruction is rejected for. -/
theorem instruction_standsIn {isa : InstructionSet} (hisa : isa.Unbroken) {ts : List Token}
    (h : line.Holds ts) :
    Outcome (Instruction.StandsIn line.number line.text) (Fault.PointsInto line.number line.text)
      (line.instruction isa ts) := by
  unfold instruction
  split
  · simp only
    split
    · exact hline.pointsInto_token h.head rfl
    · rename_i candidates hlookup
      refine (operandList_standsIn hline (h.tail (by simp))).bind ?_
      rintro ⟨os, rest⟩ ⟨hos, hrest⟩
      simp only
      split
      · exact buildInstruction_standsIn hline hisa h.head hlookup hos
      · exact unexpected_standsIn hline hrest _
  · exact unexpected_standsIn hline h _

end SourceLine

/-! ### Labels -/

theorem Text.HasAt.append_left {t piece : Text} {column : Int} (h : t.HasAt column piece)
    (chunk : Text) : Text.HasAt (chunk ++ t) (chunk.length + column) piece := by
  obtain ⟨before, after, rfl, rfl⟩ := h
  exact ⟨chunk ++ before, after, by simp, by simp; omega⟩

theorem isPrefix_of_identifier? {t name : Text} (h : identifier? t = some name) : name <+: t := by
  unfold identifier? at h
  split at h
  · rename_i c rest
    split at h
    · obtain rfl := Option.some_inj.1 h
      refine ⟨rest.dropWhile isIdentifierPart, ?_⟩
      rw [List.cons_append, List.takeWhile_append_dropWhile]
    · cases h
  · cases h

/-- The name of a label stands after the blanks before it. -/
theorem labelPart?_hasAt {t : Text} {part : LabelPart} (h : labelPart? t = some part) :
    t.HasAt (part.indent + 1) part.name := by
  unfold labelPart? at h
  simp only at h
  split at h
  · cases h
  · rename_i name hname
    split at h
    · obtain rfl := Option.some_inj.1 h
      obtain ⟨indent, hindent⟩ : t.trimStart <:+ t := List.dropWhile_suffix _
      obtain ⟨after, hafter⟩ := isPrefix_of_identifier? hname
      have hlength := congrArg List.length hindent
      rw [List.length_append] at hlength
      refine ⟨indent, after, ?_, by simp only; omega⟩
      rw [List.append_assoc, hafter, hindent]
    · cases h

/-- The label definition stands in a line: it keeps the line's number and text, and its name stands
at its column. -/
structure Label.StandsIn (number : Int) (shown : Text) (l : Label) : Prop where
  line : l.line = number
  text : l.text = shown
  name : shown.HasAt l.column l.name

/-- **Labels stand at their columns**, and so does a name that cannot be a label.  The labels before
take up `before`. -/
theorem labelsFrom_standsIn (isa : InstructionSet) (line : SourceLine)
    (hunbroken : line.text.Unbroken) (position : Nat) (t : Text) :
    ∀ before, before ++ t <+: line.text → position = before.length →
      Outcome (fun r => ∀ l ∈ r.1, l.StandsIn line.number line.text)
        (Fault.PointsInto line.number line.text) (labelsFrom isa line position t) := by
  fun_induction labelsFrom isa line position t with
  | case1 position t h => simp [Outcome]
  | case2 position t part h column hreserved =>
      intro before hbefore hposition
      have hat : line.text.HasAt column part.name := by
        have hname := ((labelPart?_hasAt h).append_left before).of_isPrefix hbefore
        rwa [← hposition, ← add_assoc] at hname
      have hline : line.Shown := by
        refine ⟨?_, hunbroken⟩
        intro hnil
        have hsub := hat.subset
        rw [hnil, List.subset_nil] at hsub
        exact (labelPart?_spec h).1.ne_nil hsub
      exact hline.pointsInto hat (List.forall_mem_singleton.2 (hat.unbroken hunbroken))
  | case3 position t part h column hreserved ih =>
      intro before hbefore hposition
      have hat : line.text.HasAt column part.name := by
        have hname := ((labelPart?_hasAt h).append_left before).of_isPrefix hbefore
        rwa [← hposition, ← add_assoc] at hname
      obtain ⟨-, chunk, ht, hlength, -⟩ := labelPart?_spec h
      have hrest := ih (before ++ chunk) (by rwa [List.append_assoc, ← ht])
        (by rw [List.length_append, hlength, hposition])
      exact hrest.bind fun r hr => List.forall_mem_cons.2 ⟨⟨rfl, rfl, hat⟩, hr⟩

/-! ### Lines -/

/-- The entry stands in a line. -/
def Entry.StandsIn (number : Int) (shown : Text) : Entry → Prop
  | .label l => l.StandsIn number shown
  | .instruction i => i.StandsIn number shown

theorem statement_standsIn {isa : InstructionSet} (hisa : isa.Unbroken) (line : SourceLine)
    (hunbroken : line.text.Unbroken) {code chunk rest : Text} (hcode : code = chunk ++ rest)
    (hshown : code <+: line.text) :
    Outcome (fun s => ∀ i, s = .instruction i → i.StandsIn line.number line.text)
      (Fault.PointsInto line.number line.text) (statement isa line code chunk.length rest) := by
  unfold statement
  split
  · rintro i ⟨⟩
  · rintro i ⟨⟩
  · rename_i hblank _
    have hne : line.text ≠ [] := by
      rintro hnil
      rw [hnil, List.prefix_nil, hcode, List.append_eq_nil_iff] at hshown
      exact hblank (by rw [hshown.2]; rfl)
    have hscan := scan_hasAt line.number (hunbroken.of_subset hshown.subset) chunk.length rest chunk
      hcode rfl
    have htokens : Outcome line.Holds (Fault.PointsInto line.number line.text)
        (tokenize line.number code chunk.length) := by
      have hdrop : code.drop chunk.length = rest := by rw [hcode, List.drop_left]
      rw [tokenize, hdrop]
      cases hts : scan line.number code chunk.length rest with
      | error e => exact (hscan.of_error hts).of_isPrefix hshown
      | ok ts => exact ⟨(scan_endsLine _ _ _ _).of_ok hts, (hscan.of_ok hts).of_isPrefix hshown⟩
    refine htokens.bind fun ts hts => ?_
    refine (SourceLine.instruction_standsIn ⟨hne, hunbroken⟩ hisa hts).bind ?_
    rintro i hi _ ⟨⟩
    exact hi

namespace Text

theorem mem_expandTabsFrom {column : Nat} {t : Text} {c : Char} (h : c ∈ expandTabsFrom column t) :
    c = ' ' ∨ c ∈ t := by
  induction t generalizing column with
  | nil => simp [expandTabsFrom] at h
  | cons d t ih =>
      rw [expandTabsFrom] at h
      split at h
      · rcases List.mem_append.1 h with h | h
        · exact Or.inl (List.eq_of_mem_replicate h)
        · exact (ih h).imp id (List.mem_cons_of_mem d)
      · rcases List.mem_cons.1 h with rfl | h
        · exact Or.inr List.mem_cons_self
        · exact (ih h).imp id (List.mem_cons_of_mem d)

theorem Unbroken.shown {raw : Text} (h : raw.Unbroken) : raw.shown.Unbroken := by
  intro c hc
  rcases mem_expandTabsFrom ((trimEnd_isPrefix _).subset hc) with rfl | hc
  · decide
  · exact h c hc

end Text

/-- **What is read on a line stands in it**, and a line that cannot be read is rejected at something
that stands in it. -/
theorem parseLine_standsIn {isa : InstructionSet} (hisa : isa.Unbroken) (number : Nat) {raw : Text}
    (hraw : raw.Unbroken) :
    Outcome (fun l => ∀ e ∈ l.entries, e.StandsIn number raw.shown)
      (Fault.PointsInto number raw.shown) (parseLine isa number raw) := by
  have hunbroken := hraw.shown
  have hshown := raw.code_isPrefix_shown
  have hlabels := labelsFrom_standsIn isa ⟨number, raw.shown⟩ hunbroken 0 raw.code [] hshown rfl
  have hchunks := labelsFrom_outcome isa ⟨number, raw.shown⟩ 0 raw.code
  unfold parseLine
  cases hread : labelsFrom isa ⟨number, raw.shown⟩ 0 raw.code with
  | error e =>
      have hfault := hlabels.of_error hread
      simp only [Text.shown, Text.code] at hread hfault ⊢
      rw [hread]
      exact hfault
  | ok r =>
      obtain ⟨labels, position, rest⟩ := r
      obtain ⟨-, chunk, hcode, hposition, -⟩ := hchunks.of_ok hread
      have hstand := hlabels.of_ok hread
      simp only [Nat.zero_add] at hcode hposition
      subst hposition
      have hstatement := statement_standsIn hisa ⟨number, raw.shown⟩ hunbroken hcode hshown
      simp only [Text.shown, Text.code] at hread hstatement hstand ⊢
      rw [hread, ok_bind]
      refine hstatement.bind fun s hs => ?_
      intro e he
      rcases List.mem_append.1 he with he | he
      · obtain ⟨l, hl, rfl⟩ := List.mem_map.1 he
        exact hstand l hl
      · cases s with
        | instruction i =>
            obtain rfl := List.mem_singleton.1 he
            exact hs i rfl
        | blank => simp at he
        | directive name => simp at he

/-! ### Sources -/

theorem Text.unbroken_of_mem_numbered {source : Text} {q : Text × Nat} (h : q ∈ source.numbered) :
    q.1.Unbroken :=
  source.lines_noBreaks _ (List.fst_mem_of_mem_zipIdx h)

/-- Every entry of a program stands in a line of the source. -/
theorem parse_standsIn {isa : InstructionSet} (hisa : isa.Unbroken) {source : Text} {p : Program}
    (h : parse isa source = .ok p) {e : Entry} (he : e ∈ p) :
    ∃ q ∈ source.numbered, e.StandsIn q.2 q.1.shown := by
  obtain ⟨ls, hls, rfl⟩ := parse_eq_ok_iff.1 h
  obtain ⟨l, hl, he⟩ := List.mem_flatMap.1 he
  obtain ⟨q, hq, hread⟩ := exists_left_of_forall₂ hls hl
  have hraw := Text.unbroken_of_mem_numbered hq
  exact ⟨q, hq, (parseLine_standsIn hisa q.2 hraw).of_ok hread e he⟩

/-- A source that cannot be read is rejected at something that stands in one of its lines. -/
theorem parse_pointsInto {isa : InstructionSet} (hisa : isa.Unbroken) {source : Text} {e : Fault}
    (h : parse isa source = .error e) : ∃ q ∈ source.numbered, e.PointsInto q.2 q.1.shown := by
  obtain ⟨before, raw, number, after, hlines, -, hread⟩ := parse_eq_error_iff.1 h
  have hmem : (raw, number) ∈ source.numbered := by simp [hlines]
  have hraw := Text.unbroken_of_mem_numbered hmem
  exact ⟨(raw, number), hmem, (parseLine_standsIn hisa number hraw).of_error hread⟩

end ThumbAssembler
