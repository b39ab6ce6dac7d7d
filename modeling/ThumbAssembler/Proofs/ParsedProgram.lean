/-
**What the parser yields.**

A line is read into labels and at most one instruction, or reading stops for a fault of syntax on
that line; the one other reason to stop is a numeral beyond the digit limit.  A source is read line
by line, so it has a program exactly when all its lines can be read, and else the fault of the first
line that cannot.

Main definitions:

* `ThumbAssembler.Text.code` — the part of a line that is read: tabs expanded, comment removed;
* `ThumbAssembler.Instruction.ReadIn` — an instruction is one that the code of a line spells;
* `ThumbAssembler.Entry.ReadIn` — likewise for an entry of a program.

Main results:

* `ThumbAssembler.parseLine_outcome` — **what reading a line yields, and why it stops**;
* `ThumbAssembler.parse_eq_ok_iff`, `ThumbAssembler.parse_eq_error_iff` — **a source is read line by
  line, up to the first that cannot be read**;
* `ThumbAssembler.parse_readIn` — every entry of a program is spelled by a line of the source;
* `ThumbAssembler.size_le_length_of_parse` — a program has no more words than the source has
  characters.
-/

import Mathlib
import ThumbAssembler.Proofs.NumeralLaws
import ThumbAssembler.Proofs.ParsedInstruction
import ThumbAssembler.Source

set_option autoImplicit false

namespace ThumbAssembler

/-! ### Label definitions -/

theorem isIdentifier_of_identifier? {t name : Text} (h : identifier? t = some name) :
    IsIdentifier name := by
  unfold identifier? at h
  split at h
  · rename_i c rest
    split at h
    · rename_i hc
      obtain rfl := Option.some_inj.1 h
      exact ⟨hc, fun d hd => List.mem_takeWhile_imp hd⟩
    · cases h
  · cases h

/-- A label definition ends with its colon. -/
theorem labelPart?_spec {t : Text} {part : LabelPart} (h : labelPart? t = some part) :
    IsIdentifier part.name ∧ ∃ chunk, t = chunk ++ part.rest ∧ chunk.length = part.length ∧
      EndsOutside isIdentifierPart chunk := by
  unfold labelPart? at h
  simp only at h
  split at h
  · cases h
  · rename_i name hname
    split at h
    · rename_i rest hrest
      obtain rfl := Option.some_inj.1 h
      refine ⟨isIdentifier_of_identifier? hname, ?_⟩
      obtain ⟨indent, hindent⟩ : t.trimStart <:+ t := List.dropWhile_suffix _
      obtain ⟨gap, hgap⟩ : ':' :: rest <:+ t.trimStart := by
        rw [← hrest]
        exact (List.dropWhile_suffix _).trans (List.drop_suffix _ _)
      have ht : t = (indent ++ gap ++ [':']) ++ rest := by
        rw [← hindent, ← hgap]
        simp
      refine ⟨indent ++ gap ++ [':'], ht, ?_, ?_⟩
      · rw [ht]
        simp only [List.length_append]
        omega
      · intro c hc
        rw [List.getLast?_concat, Option.mem_some] at hc
        subst hc
        decide
    · cases h

/-- What is known of a label that a line defines. -/
structure Label.ReadIn (isa : InstructionSet) (number : Int) (l : Label) : Prop where
  identifier : IsIdentifier l.name
  unreserved : isa.isReserved l.name = false
  line : l.line = number

/-- The labels of a line, and where its statement starts. -/
theorem labelsFrom_outcome (isa : InstructionSet) (line : SourceLine) (position : Nat) (t : Text) :
    Outcome
      (fun r => (∀ l ∈ r.1, l.ReadIn isa line.number) ∧ ∃ chunk, t = chunk ++ r.2.2 ∧
        r.2.1 = position + chunk.length ∧ EndsOutside isIdentifierPart chunk)
      (SyntaxFault line.number) (labelsFrom isa line position t) := by
  fun_induction labelsFrom isa line position t with
  | case1 position t h => exact ⟨by simp, [], rfl, rfl, by simp [EndsOutside]⟩
  | case2 position t part h column hreserved => exact syntaxFault_rejection rfl rfl
  | case3 position t part h column hreserved ih =>
      obtain ⟨hname, chunk, ht, hlength, hend⟩ := labelPart?_spec h
      -- a label ends with its colon, so the statement starts no identifier in the middle
      refine ih.bind ?_
      rintro ⟨labels, stop, rest⟩ ⟨hlabels, chunk', hrest, hstop, hend'⟩
      simp only at hrest hstop
      refine ⟨List.forall_mem_cons.2 ⟨⟨hname, by simpa using hreserved, rfl⟩, hlabels⟩,
        chunk ++ chunk', ?_, ?_, ?_⟩
      · rw [ht, hrest, List.append_assoc]
      · simp only [hstop, List.length_append, hlength, Nat.add_assoc]
      · cases chunk' with
        | nil => simpa using hend
        | cons c chunk' =>
            intro d hd
            rw [List.getLast?_append_of_ne_nil _ (by simp)] at hd
            exact hend' d hd

/-! ### Lines -/

/-- The part of a line that is read: tabs expanded, comment and trailing blanks removed. -/
def Text.code (raw : Text) : Text := (stripComment raw.expandTabs).trimEnd

/-- The text of a line as it is shown: tabs expanded, trailing blanks removed. -/
def Text.shown (raw : Text) : Text := raw.expandTabs.trimEnd

theorem Text.trimEnd_isPrefix (t : Text) : t.trimEnd <+: t := by
  obtain ⟨tail, htail⟩ : t.reverse.dropWhile isBlank <:+ t.reverse := List.dropWhile_suffix _
  refine ⟨tail.reverse, ?_⟩
  rw [trimEnd, ← List.reverse_append, htail, List.reverse_reverse]

/-- Trimming keeps a start of a text a start. -/
theorem Text.trimEnd_mono {s t : Text} (h : s <+: t) : s.trimEnd <+: t.trimEnd := by
  obtain ⟨rest, rfl⟩ := h
  unfold trimEnd
  rw [List.reverse_append, List.dropWhile_append]
  split
  · exact ⟨[], List.append_nil _⟩
  · rw [List.reverse_append, List.reverse_reverse]
    exact (trimEnd_isPrefix s).trans ⟨_, rfl⟩

/-- The code of a line is a part of what is shown, from its start. -/
theorem Text.code_isPrefix_shown (raw : Text) : raw.code <+: raw.shown :=
  trimEnd_mono ⟨_, List.takeWhile_append_dropWhile⟩

/-- A line is read from its code, and shown as its text. -/
theorem parseLine_eq (isa : InstructionSet) (number : Nat) (raw : Text) :
    parseLine isa number raw = do
      let (labels, position, rest) ← labelsFrom isa ⟨number, raw.shown⟩ 0 raw.code
      return ⟨number, labels, ← statement isa ⟨number, raw.shown⟩ raw.code position rest⟩ := rfl

/-- The instruction is one that the code of a line spells. -/
def Instruction.ReadIn (isa : InstructionSet) (code : Text) (i : Instruction) : Prop :=
  ∃ ts : List Token, (∀ t ∈ ts, t.SpelledIn code) ∧ i.ReadFrom isa ts

/-- The entry is one that a line spells. -/
def Entry.ReadIn (isa : InstructionSet) (number : Int) (raw : Text) : Entry → Prop
  | .label l => l.ReadIn isa number
  | .instruction i => i.ReadIn isa raw.code ∧ i.line = number

/-- A register of the text has a number with too many digits to be read. -/
def LongName (text : Text) (e : Fault) : Prop :=
  ∃ name digits, e = .numeralTooLong digits.length ∧ text.HasIdentifier name ∧
    registerDigits? name = some digits ∧ maxDigits < digits.length

/-- The faults that stop the reading of the code of a line. -/
def LineFails (number : Int) (code : Text) (e : Fault) : Prop :=
  SyntaxFault number e ∨ LongNumeral code e ∨ LongName code e

/-- Within the digit limit, only syntax stops the reading. -/
theorem LineFails.syntaxFault {number : Int} {code : Text} {e : Fault}
    (h : LineFails number code e) (hlimit : code.WithinDigitLimit) : SyntaxFault number e := by
  rcases h with he | ⟨numeral, digits, -, hnumeral, hmagnitude, hlong⟩ |
    ⟨name, digits, -, hname, hdigits, hlong⟩
  · exact he
  · exact absurd (hlimit.decimal numeral digits hnumeral hmagnitude) (by omega)
  · exact absurd (hlimit.register name digits hname hdigits) (by omega)

theorem statement_outcome {isa : InstructionSet} (hisa : isa.Sound) (line : SourceLine)
    {code chunk rest : Text} (hcode : code = chunk ++ rest)
    (hchunk : EndsOutside isIdentifierPart chunk) :
    Outcome
      (fun s => ∀ i, s = .instruction i → i.ReadIn isa code ∧ i.line = (line.number : Int))
      (LineFails line.number code)
      (statement isa line code chunk.length rest) := by
  unfold statement
  split
  · intro i hi
    cases hi
  · intro i hi
    cases hi
  · have hscan : ScanOutcome line.number code (tokenize line.number code chunk.length) := by
      rw [tokenize, hcode, List.drop_left]
      exact (scan_outcome _ _ _ _).append_left chunk (Or.inl hchunk)
    refine Outcome.bind (P := fun ts => ∀ t ∈ ts, t.SpelledIn code) (hscan.imp (fun _ h => h) ?_) ?_
    · exact fun e he => he.imp id Or.inl
    · intro ts hts
      refine Outcome.bind ((SourceLine.instruction_outcome hisa line ts).imp (fun _ h => h) ?_) ?_
      · rintro e (he | ⟨t, ht, digits, hkind, hdigits, hlong, he⟩)
        · exact Or.inl he
        · have hspelled := hts t ht
          rw [Token.SpelledIn, hkind] at hspelled
          exact Or.inr (Or.inr ⟨t.text, digits, he, hspelled, hdigits, hlong⟩)
      · rintro i ⟨hread, hline⟩ i' hi'
        obtain rfl := Statement.instruction.inj hi'
        exact ⟨⟨ts, hts, hread⟩, hline⟩

/-- **What reading a line yields, and why it stops.** -/
theorem parseLine_outcome {isa : InstructionSet} (hisa : isa.Sound) (number : Nat) (raw : Text) :
    Outcome (fun l => ∀ e ∈ l.entries, e.ReadIn isa number raw) (LineFails number raw.code)
      (parseLine isa number raw) := by
  unfold parseLine
  refine Outcome.bind ((labelsFrom_outcome isa _ 0 _).imp (fun _ h => h) fun _ h => Or.inl h) ?_
  rintro ⟨labels, position, rest⟩ ⟨hlabels, chunk, hcode, hposition, hchunk⟩
  simp only [Nat.zero_add] at hcode hposition
  subst hposition
  refine (statement_outcome hisa _ hcode hchunk).bind fun s hs => ?_
  intro e he
  rcases List.mem_append.1 he with he | he
  · obtain ⟨l, hl, rfl⟩ := List.mem_map.1 he
    exact hlabels l hl
  · cases s with
    | instruction i =>
        obtain rfl := List.mem_singleton.1 he
        exact hs i rfl
    | blank => simp at he
    | directive name => simp at he

theorem ParsedLine.size_entries_le (l : ParsedLine) : Program.size l.entries ≤ 1 := by
  have hlabels : (l.labels.map Entry.label).filterMap Entry.instruction? = [] := by
    simp [Entry.instruction?]
  unfold entries Program.size Program.instructions
  rw [List.filterMap_append, hlabels, List.nil_append]
  cases l.statement <;> simp [Entry.instruction?]

/-! ### Numbers of a line -/

theorem isPrintable_of_spelledIn {t : Token} {text : Text} (h : t.SpelledIn text) {v : Int}
    (hkind : t.kind = .immediate v) (hshort : ¬ LongHexadecimal text) : isPrintable v = true := by
  rw [Token.SpelledIn, hkind] at h
  obtain ⟨numeral, -, hnumeral, hvalue⟩ := h
  refine isPrintable_of_value? hvalue fun digits hmagnitude => ?_
  exact Nat.lt_of_not_le fun hlong => hshort ⟨numeral, digits, hnumeral, hmagnitude, hlong⟩

theorem isPrintable_of_isRegisterIndex {index : Int} (h : isRegisterIndex index = true) :
    isPrintable index = true := by
  have hlimit : 8 < printLimit := by decide +kernel
  obtain ⟨hlow, hhigh⟩ := (Bool.and_eq_true _ _).mp h
  have hlow : 0 ≤ index := of_decide_eq_true hlow
  have hhigh : index < 8 := of_decide_eq_true hhigh
  rw [isPrintable_iff]
  omega

/-- Every number of an instruction can be printed, if the line has no long hexadecimal numeral. -/
theorem Instruction.ReadIn.isPrintable_value {isa : InstructionSet} {code : Text} {i : Instruction}
    (h : i.ReadIn isa code) (hshort : ¬ LongHexadecimal code) {o : Operand} (ho : o ∈ i.operands)
    {v : Int} (hv : o.value? = some v) : isPrintable v = true := by
  obtain ⟨ts, hts, hread⟩ := h
  have hdrawn := hread.operands o ho
  obtain ⟨content, column, text⟩ := o
  cases content with
  | register index =>
      obtain rfl : index = v := Option.some_inj.1 hv
      exact isPrintable_of_isRegisterIndex hdrawn
  | immediate n =>
      obtain rfl : n = v := Option.some_inj.1 hv
      obtain ⟨t, ht, hkind⟩ := hdrawn
      exact isPrintable_of_spelledIn (hts t ht) hkind hshort
  | label name => cases hv
  | stackPointer => cases hv
  | stackOffset bytes =>
      obtain rfl : bytes = v := Option.some_inj.1 hv
      rcases hdrawn with rfl | ⟨t, ht, hkind⟩
      · exact isPrintable_of_isRegisterIndex rfl
      · exact isPrintable_of_spelledIn (hts t ht) hkind hshort

/-! ### Sources -/

/-- The lines of a source with their numbers. -/
def Text.numbered (source : Text) : List (Text × Nat) := source.lines.zipIdx 1

theorem parseLines_eq_mapM (isa : InstructionSet) (number : Nat) (raws : List Text) :
    parseLines isa number raws = (raws.zipIdx number).mapM fun q => parseLine isa q.2 q.1 := by
  induction raws generalizing number with
  | nil => rfl
  | cons raw rest ih =>
      rw [parseLines, List.zipIdx_cons, List.mapM_cons, ih]

/-- **A source has a program exactly when all its lines can be read.** -/
theorem parse_eq_ok_iff {isa : InstructionSet} {source : Text} {p : Program} :
    parse isa source = .ok p ↔
      ∃ ls, List.Forall₂ (fun q l => parseLine isa q.2 q.1 = .ok l) source.numbered ls ∧
        p = ls.flatMap ParsedLine.entries := by
  rw [parse, bind_eq_ok_iff, parseLines_eq_mapM]
  refine exists_congr fun ls => ?_
  rw [mapM_eq_ok_iff, Text.numbered, pure_eq_ok, Except.ok.injEq, eq_comm (b := p)]

/-- **The reading of a source stops at the first line that cannot be read.** -/
theorem parse_eq_error_iff {isa : InstructionSet} {source : Text} {e : Fault} :
    parse isa source = .error e ↔
      ∃ before raw number after, source.numbered = before ++ (raw, number) :: after ∧
        (∀ q ∈ before, ∃ l, parseLine isa q.2 q.1 = .ok l) ∧
        parseLine isa number raw = .error e := by
  rw [parse, bind_eq_error_iff, parseLines_eq_mapM, mapM_eq_error_iff]
  constructor
  · rintro (⟨before, ⟨raw, number⟩, after, h⟩ | ⟨ls, -, h⟩)
    · exact ⟨before, raw, number, after, h⟩
    · cases h
  · rintro ⟨before, raw, number, after, h⟩
    exact Or.inl ⟨before, (raw, number), after, h⟩

/-- Every entry of a program is spelled by a line of the source. -/
theorem parse_readIn {isa : InstructionSet} (hisa : isa.Sound) {source : Text} {p : Program}
    (h : parse isa source = .ok p) {e : Entry} (he : e ∈ p) :
    ∃ q ∈ source.numbered, e.ReadIn isa q.2 q.1 := by
  obtain ⟨ls, hls, rfl⟩ := parse_eq_ok_iff.1 h
  obtain ⟨l, hl, he⟩ := List.mem_flatMap.1 he
  obtain ⟨q, hq, hread⟩ := exists_left_of_forall₂ hls hl
  exact ⟨q, hq, (parseLine_outcome hisa q.2 q.1).of_ok hread e he⟩

theorem Text.length_consLine_le (c : Char) (ls : List Text) :
    (consLine c ls).length ≤ ls.length + 1 := by
  cases ls <;> simp [consLine]

theorem Text.length_lines_le (t : Text) : t.lines.length ≤ t.length := by
  fun_induction lines t with
  | case1 => simp
  | case2 rest ih => simp only [List.length_cons]; omega
  | case3 c rest _ hc ih => simp only [List.length_cons]; omega
  | case4 c rest _ hc ih =>
      have := length_consLine_le c (lines rest)
      simp only [List.length_cons]
      omega

theorem size_flatMap_entries_le (ls : List ParsedLine) :
    Program.size (ls.flatMap ParsedLine.entries) ≤ ls.length := by
  induction ls with
  | nil => simp [Program.size, Program.instructions]
  | cons l ls ih =>
      have := l.size_entries_le
      rw [List.flatMap_cons, Program.size_append, List.length_cons]
      omega

/-- A program has no more words than the source has characters. -/
theorem size_le_length_of_parse {isa : InstructionSet} {source : Text} {p : Program}
    (h : parse isa source = .ok p) : p.size ≤ source.length := by
  obtain ⟨ls, hls, rfl⟩ := parse_eq_ok_iff.1 h
  have hlength : source.numbered.length = ls.length := hls.length_eq
  rw [Text.numbered, List.length_zipIdx] at hlength
  calc Program.size (ls.flatMap ParsedLine.entries)
      ≤ ls.length := size_flatMap_entries_le ls
    _ = source.lines.length := hlength.symm
    _ ≤ source.length := source.length_lines_le

end ThumbAssembler
