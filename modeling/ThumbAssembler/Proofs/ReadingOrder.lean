/-
**The order of reading.**

A line is read from left to right and a source line by line.  So tokens follow one another without
overlapping, the operands of an instruction follow its mnemonic, an instruction follows the labels
of its line, and the entries of a program are in the order of their lines and columns.

Main definitions:

* `ThumbAssembler.TokensFrom`, `ThumbAssembler.OperandsFrom` — tokens and operands that follow one
  another from a column on;
* `ThumbAssembler.Instruction.InOrder` — a mnemonic and the operands after it;
* `ThumbAssembler.Entry.Precedes` — an entry comes before another.

Main results:

* `ThumbAssembler.scan_tokensFrom` — **tokens follow one another**;
* `ThumbAssembler.SourceLine.operands_inOrder` — operands follow one another;
* `ThumbAssembler.parse_inOrder` — every instruction is in order;
* `ThumbAssembler.parse_ordered` — **a program is in the order of its source**.
-/

import Mathlib
import ThumbAssembler.Proofs.Placement

set_option autoImplicit false

namespace ThumbAssembler

/-! ### Tokens -/

/-- The tokens follow one another from a column on, and only the end of a line has no text. -/
def TokensFrom : Int → List Token → Prop
  | _, [] => True
  | column, t :: ts =>
      column ≤ t.column ∧ (t.kind ≠ .endOfLine → t.text ≠ []) ∧
        TokensFrom (t.column + t.text.length) ts

theorem TokensFrom.mono {column column' : Int} {ts : List Token} (h : TokensFrom column ts)
    (hle : column' ≤ column) : TokensFrom column' ts := by
  cases ts with
  | nil => trivial
  | cons t ts => exact ⟨hle.trans h.1, h.2⟩

theorem tokensFrom_endOfLine (position : Nat) :
    TokensFrom (position + 1) [⟨.endOfLine, [], position + 1⟩] :=
  ⟨by simp, by simp, trivial⟩

/-- A token and what follows it. -/
theorem tokensFrom_cons {position : Nat} {kind : TokenKind} {text : Text} {ts : List Token}
    (htext : text ≠ []) (h : TokensFrom (position + text.length + 1 : Nat) ts) :
    TokensFrom (position + 1) (⟨kind, text, position + 1⟩ :: ts) := by
  refine ⟨by simp, fun _ => htext, ?_⟩
  have hcolumn :
      ((position + 1 : Nat) : Int) + text.length = (position + text.length + 1 : Nat) := by
    omega
  simp only
  rwa [hcolumn]

/-- The tokens of a piece, and the end of the line after them. -/
theorem Splits.tokensFrom {position : Nat} {piece rest : Text} {ts : List Token}
    (h : Splits position piece ts rest) :
    TokensFrom (position + 1) (ts ++ [⟨.endOfLine, [], position + piece.length + 1⟩]) := by
  induction h with
  | @done position rest => exact tokensFrom_endOfLine position
  | @separator position c piece rest ts _ _ ih =>
      rw [List.length_cons, Nat.add_comm piece.length, ← Nat.add_assoc position]
      exact ih.mono (by omega)
  | @token position kind lexeme piece rest ts hlexeme _ ih =>
      rw [List.length_append, ← Nat.add_assoc position]
      exact tokensFrom_cons hlexeme.ne_nil ih

/-- **Tokens follow one another.** -/
theorem scan_tokensFrom (line : Int) (whole : Text) (position : Nat) (rest : Text) :
    Outcome (TokensFrom (position + 1)) (fun _ => True) (scan line whole position rest) := by
  refine (scan_splits line whole position rest).imp ?_ fun _ _ => trivial
  rintro ts ⟨piece, rest, body, -, hsplits, -, rfl⟩
  exact hsplits.tokensFrom

/-! ### Operands -/

/-- The operands follow one another from a column on, each with some text. -/
def OperandsFrom : Int → List Operand → Prop
  | _, [] => True
  | column, o :: os =>
      column ≤ o.column ∧ o.text ≠ [] ∧ OperandsFrom (o.column + o.text.length) os

/-- No operand stands before the column, and none is empty. -/
theorem OperandsFrom.of_mem {column : Int} {os : List Operand} (h : OperandsFrom column os)
    {o : Operand} (ho : o ∈ os) : column ≤ o.column ∧ o.text ≠ [] := by
  induction os generalizing column with
  | nil => simp at ho
  | cons o' os ih =>
      obtain ⟨hcolumn, htext, hrest⟩ := h
      rcases List.mem_cons.1 ho with rfl | ho
      · exact ⟨hcolumn, htext⟩
      · have hlater := ih hrest ho
        exact ⟨by omega, hlater.2⟩

/-- An operand from a column on, and the tokens that follow it. -/
def OperandFollows (column : Int) (r : Operand × List Token) : Prop :=
  column ≤ r.1.column ∧ r.1.text ≠ [] ∧ TokensFrom (r.1.column + r.1.text.length) r.2

theorem OperandFollows.mono {column column' : Int} {r : Operand × List Token}
    (h : OperandFollows column r) (hle : column' ≤ column) : OperandFollows column' r :=
  ⟨hle.trans h.1, h.2⟩

namespace SourceLine

variable {line : SourceLine}

/-- An identifier is an operand where it stands. -/
theorem identifierOperand_place (t : Token) :
    Outcome (fun o => o.column = (t.column : Int) ∧ o.text = t.text) (fun _ => True)
      (line.identifierOperand t) := by
  unfold identifierOperand
  split
  · split
    · trivial
    · split
      · exact ⟨rfl, rfl⟩
      · trivial
  · split
    · exact ⟨rfl, rfl⟩
    · split
      · trivial
      · exact ⟨rfl, rfl⟩

/-- An operand in brackets reaches from the opening to the closing one. -/
theorem closeBracket_inOrder {start : Token} (hstart : line.text.HasAt start.column start.text)
    (hne : start.text ≠ []) (bytes : Int) {ts : List Token} (h : TokensFrom start.column ts) :
    Outcome (OperandFollows start.column) (fun _ => True) (line.closeBracket start bytes ts) := by
  unfold closeBracket
  split
  · rename_i text column rest
    obtain ⟨hcolumn, htext, hrest⟩ := h
    simp only at hcolumn hrest
    -- the opening bracket is within the line, so something is cut out
    have hpos := hstart.column_pos
    have hbracket : (start.column : Int) ≤ line.text.length := by
      obtain ⟨before, after, hline, hbefore⟩ := hstart
      have hlength := List.length_pos_of_ne_nil hne
      rw [hline, hbefore]
      simp only [List.length_append]
      omega
    have hclose := List.length_pos_of_ne_nil (htext (by simp))
    simp only at hclose
    have hslice : (line.text.slice (start.column - 1) column).length =
        min column line.text.length - (start.column - 1) := by
      rw [Text.slice, List.length_drop, List.length_take]
    refine ⟨le_rfl, ?_, hrest.mono ?_⟩
    · refine List.ne_nil_of_length_pos ?_
      rw [hslice]
      omega
    · simp only [hslice]
      omega
  · trivial

theorem bracketOffset_inOrder {start : Token} (hstart : line.text.HasAt start.column start.text)
    (hne : start.text ≠ []) {ts : List Token} (h : TokensFrom start.column ts) :
    Outcome (OperandFollows start.column) (fun _ => True) (line.bracketOffset start ts) := by
  unfold bracketOffset
  split
  · obtain ⟨hcomma, -, hoffset, -, hrest⟩ := h
    simp only at hcomma hoffset hrest
    exact closeBracket_inOrder hstart hne _ (hrest.mono (by omega))
  · trivial
  · exact closeBracket_inOrder hstart hne _ h

theorem bracketOperand_inOrder {start : Token} (hstart : line.text.HasAt start.column start.text)
    (hne : start.text ≠ []) {ts : List Token} (h : TokensFrom start.column ts) :
    Outcome (OperandFollows start.column) (fun _ => True) (line.bracketOperand start ts) := by
  unfold bracketOperand
  split
  · obtain ⟨hbase, -, hrest⟩ := h
    simp only at hbase hrest
    split
    · exact bracketOffset_inOrder hstart hne (hrest.mono (by omega))
    · trivial
  · trivial

theorem operand_inOrder {column : Int} {ts : List Token} (h : TokensFrom column ts)
    (hts : TokensIn line.text ts) :
    Outcome (OperandFollows column) (fun _ => True) (line.operand ts) := by
  unfold operand
  split
  · obtain ⟨hcolumn, htext, hrest⟩ := h
    exact ⟨hcolumn, htext (by simp), hrest⟩
  · rename_i text start rest
    obtain ⟨hcolumn, htext, hrest⟩ := h
    simp only at hcolumn hrest
    refine (bracketOperand_inOrder (hts _ List.mem_cons_self) (htext (by simp))
      (hrest.mono (by simp only; omega))).imp (fun _ hr => hr.mono hcolumn) fun _ hr => hr
  · obtain ⟨hcolumn, htext, hrest⟩ := h
    refine (identifierOperand_place _).bind fun o ho => ?_
    obtain ⟨hplace, hsame⟩ := ho
    simp only at hplace hsame hcolumn htext hrest
    rw [← hplace] at hcolumn hrest
    rw [← hsame] at htext hrest
    exact ⟨hcolumn, htext (by simp), hrest⟩
  · trivial

/-- Reading an operand leaves tokens of the line. -/
theorem tokensIn_of_operand {ts rest : List Token} {o : Operand} (hts : TokensIn line.text ts)
    (h : line.operand ts = .ok (o, rest)) : TokensIn line.text rest :=
  fun t ht => hts t (((operand_outcome line ts).of_ok h).2 ht)

/-- **Operands follow one another.** -/
theorem operands_inOrder {column : Int} {ts : List Token} (h : TokensFrom column ts)
    (hts : TokensIn line.text ts) :
    Outcome (fun r => OperandsFrom column r.1) (fun _ => True) (line.operands ts) := by
  fun_induction line.operands ts generalizing column with
  | case1 ts e he => trivial
  | case2 ts o text comma rest ho ih =>
      obtain ⟨hcolumn, htext, hcomma, -, hrest⟩ := (operand_inOrder h hts).of_ok ho
      simp only at hcolumn htext hcomma hrest
      have hrest : TokensFrom (o.column + o.text.length) rest := hrest.mono (by omega)
      have htokens := tokensIn_of_operand hts ho
      refine (ih hrest fun t ht => htokens t (List.mem_cons_of_mem _ ht)).bind fun r hr => ?_
      exact ⟨hcolumn, htext, hr⟩
  | case3 ts o rest hnot ho =>
      obtain ⟨hcolumn, htext, -⟩ := (operand_inOrder h hts).of_ok ho
      exact ⟨hcolumn, htext, trivial⟩

theorem operandList_inOrder {column : Int} {ts : List Token} (h : TokensFrom column ts)
    (hts : TokensIn line.text ts) :
    Outcome (fun r => OperandsFrom column r.1) (fun _ => True) (line.operandList ts) := by
  unfold operandList
  split
  · trivial
  · exact operands_inOrder h hts

end SourceLine

/-! ### Instructions -/

/-- The mnemonic stands at the column of the instruction, in letters of either case, and the
operands follow it. -/
structure Instruction.InOrder (i : Instruction) : Prop where
  mnemonic : ∃ name : Text, name ≠ [] ∧ i.text.HasAt i.column name ∧ i.mnemonic = name.lower
  operands : OperandsFrom (i.column + i.mnemonic.length) i.operands

namespace SourceLine

variable {line : SourceLine}

/-- What an instruction keeps of what it is built from. -/
theorem buildInstruction_keeps {mnemonic : Token} {candidates : Candidates} {os : List Operand} :
    Outcome
      (fun i => i.mnemonic = mnemonic.text.lower ∧ i.operands = os ∧
        i.column = (mnemonic.column : Int) ∧ i.text = line.text)
      (fun _ => True) (line.buildInstruction mnemonic candidates os) := by
  unfold buildInstruction
  cases line.chooseFormat mnemonic candidates.formats os with
  | error e => trivial
  | ok f =>
      rw [ok_bind]
      cases line.checkSlots mnemonic f os with
      | error e => trivial
      | ok _ => exact ⟨rfl, rfl, rfl, rfl⟩

/-- An instruction starts with its mnemonic. -/
theorem instruction_inOrder (isa : InstructionSet) {column : Int} {ts : List Token}
    (h : TokensFrom column ts) (hts : TokensIn line.text ts) :
    Outcome (fun i => column ≤ i.column ∧ i.InOrder) (fun _ => True) (line.instruction isa ts) := by
  unfold instruction
  split
  · rename_i text start rest
    obtain ⟨hcolumn, hne, hrest⟩ := h
    simp only at hcolumn hne hrest ⊢
    split
    · trivial
    · obtain ⟨hmnemonic, htokens⟩ := List.forall_mem_cons.1 hts
      refine (operandList_inOrder hrest htokens).bind fun r hr => ?_
      obtain ⟨os, rest'⟩ := r
      simp only
      split
      · refine buildInstruction_keeps.imp (fun i hi => ?_) fun _ _ => trivial
        obtain ⟨hname, hos, hplace, htext⟩ := hi
        refine ⟨hplace ▸ hcolumn, ⟨text, hne (by simp), ?_, hname⟩, ?_⟩
        · rw [htext, hplace]
          exact hmnemonic
        · rw [hos, hplace, hname, Text.length_lower]
          exact hr
      · trivial
  · trivial

end SourceLine

/-! ### Lines -/

/-- A label stands before the end of its definition. -/
theorem labelPart?_indent_lt {t : Text} {part : LabelPart} (h : labelPart? t = some part) :
    part.indent < part.length := by
  unfold labelPart? at h
  simp only at h
  split at h
  · cases h
  · rename_i name _
    split at h
    · rename_i rest hrest
      have hbody : rest.length < (t.trimStart).length := by
        have hle := Text.length_trimStart_le (t.trimStart.drop name.length)
        rw [hrest, List.length_cons, List.length_drop] at hle
        omega
      have hle := Text.length_trimStart_le t
      obtain rfl := Option.some_inj.1 h
      simp only
      omega
    · cases h

/-- The labels of a line follow one another up to the position where its statement starts. -/
theorem labelsFrom_inOrder (isa : InstructionSet) (line : SourceLine) (position : Nat) (t : Text) :
    Outcome
      (fun r => position ≤ r.2.1 ∧ r.1.Pairwise (fun l l' => l.column < l'.column) ∧
        ∀ l ∈ r.1, (position : Int) < l.column ∧ l.column ≤ (r.2.1 : Int))
      (fun _ => True) (labelsFrom isa line position t) := by
  fun_induction labelsFrom isa line position t with
  | case1 position t h => simp [Outcome]
  | case2 position t part h column hreserved => trivial
  | case3 position t part h column hreserved ih =>
      have hpart := labelPart?_indent_lt h
      refine ih.bind ?_
      rintro ⟨labels, stop, rest⟩ ⟨hstop, hordered, hbetween⟩
      simp only at hstop hordered hbetween
      refine ⟨by simp only; omega, List.pairwise_cons.2 ⟨?_, hordered⟩,
        List.forall_mem_cons.2 ⟨?_, ?_⟩⟩
      · intro l hl
        have hl := (hbetween l hl).1
        simp only [column]
        omega
      · simp only [column]
        omega
      · intro l hl
        have hl := hbetween l hl
        simp only
        omega

/-- An instruction stands after the position where its statement starts. -/
theorem statement_inOrder {isa : InstructionSet} (line : SourceLine) {code chunk rest : Text}
    (hcode : code = chunk ++ rest) (hshown : code <+: line.text) (hunbroken : code.Unbroken) :
    Outcome
      (fun s => ∀ i, s = .instruction i → (chunk.length : Int) < i.column ∧ i.InOrder)
      (fun _ => True) (statement isa line code chunk.length rest) := by
  unfold statement
  split
  · rintro i ⟨⟩
  · rintro i ⟨⟩
  · have hdrop : code.drop chunk.length = rest := by rw [hcode, List.drop_left]
    rw [tokenize, hdrop]
    cases hts : scan line.number code chunk.length rest with
    | error e => trivial
    | ok ts =>
        have htokens := (scan_hasAt line.number hunbroken _ _ chunk hcode rfl).of_ok hts
        have hfrom := (scan_tokensFrom _ _ _ _).of_ok hts
        rw [ok_bind]
        refine (SourceLine.instruction_inOrder isa hfrom (htokens.of_isPrefix hshown)).bind ?_
        rintro i hi _ ⟨⟩
        exact ⟨by omega, hi.2⟩

namespace Entry

/-- The line that an entry stands on. -/
def line : Entry → Int
  | label l => l.line
  | instruction i => i.line

/-- The column that an entry starts at. -/
def column : Entry → Int
  | label l => l.column
  | instruction i => i.column

/-- The text of the line that an entry stands on. -/
def text : Entry → Text
  | label l => l.text
  | instruction i => i.text

/-- The entry comes before another: on an earlier line, or on the same line and further left. -/
def Precedes (e e' : Entry) : Prop :=
  e.line < e'.line ∨ e.line = e'.line ∧ e.column < e'.column

theorem ReadIn.line_eq {isa : InstructionSet} {number : Int} {raw : Text} {e : Entry}
    (h : e.ReadIn isa number raw) : e.line = number := by
  cases e with
  | label l => exact Label.ReadIn.line h
  | instruction i => exact h.2

end Entry

/-- The entries of a line are in order. -/
theorem parseLine_inOrder (isa : InstructionSet) (number : Nat) {raw : Text}
    (hraw : raw.Unbroken) :
    Outcome
      (fun l => l.entries.Pairwise (fun e e' => e.column < e'.column) ∧
        ∀ i, .instruction i ∈ l.entries → i.InOrder)
      (fun _ => True) (parseLine isa number raw) := by
  have hshown := raw.code_isPrefix_shown
  have hunbroken := hraw.shown.of_subset hshown.subset
  rw [parseLine_eq]
  cases hread : labelsFrom isa ⟨number, raw.shown⟩ 0 raw.code with
  | error e => trivial
  | ok r =>
      obtain ⟨labels, position, rest⟩ := r
      obtain ⟨-, chunk, hcode, hposition, -⟩ :=
        (labelsFrom_outcome isa ⟨number, raw.shown⟩ 0 raw.code).of_ok hread
      obtain ⟨-, hordered, hbetween⟩ := (labelsFrom_inOrder isa _ _ _).of_ok hread
      simp only [Nat.zero_add] at hcode hposition
      subst hposition
      rw [ok_bind]
      refine (statement_inOrder ⟨number, raw.shown⟩ hcode hshown hunbroken).bind fun s hs => ?_
      have hlabels : (labels.map Entry.label).Pairwise (fun e e' => e.column < e'.column) :=
        List.pairwise_map.2 hordered
      refine ⟨?_, ?_⟩
      · refine List.pairwise_append.2 ⟨hlabels, ?_, ?_⟩
        · cases s <;> simp
        · -- the labels end where the statement starts
          intro e he e' he'
          obtain ⟨l, hl, rfl⟩ := List.mem_map.1 he
          cases s with
          | instruction i =>
              obtain rfl := List.mem_singleton.1 he'
              exact (hbetween l hl).2.trans_lt (hs i rfl).1
          | blank => simp at he'
          | directive name => simp at he'
      · intro i hi
        rcases List.mem_append.1 hi with hi | hi
        · obtain ⟨l, -, hl⟩ := List.mem_map.1 hi
          cases hl
        · cases s with
          | instruction i' =>
              obtain rfl := Entry.instruction.inj (List.mem_singleton.1 hi)
              exact (hs i rfl).2
          | blank => simp at hi
          | directive name => simp at hi

/-! ### Sources -/

/-- Every instruction of a program is in order. -/
theorem parse_inOrder {isa : InstructionSet} {source : Text} {p : Program}
    (h : parse isa source = .ok p) {i : Instruction} (hi : .instruction i ∈ p) : i.InOrder := by
  obtain ⟨ls, hls, rfl⟩ := parse_eq_ok_iff.1 h
  obtain ⟨l, hl, hi⟩ := List.mem_flatMap.1 hi
  obtain ⟨q, hq, hread⟩ := exists_left_of_forall₂ hls hl
  have hraw := Text.unbroken_of_mem_numbered hq
  exact ((parseLine_inOrder isa q.2 hraw).of_ok hread).2 i hi

theorem parseLine_number {isa : InstructionSet} {number : Nat} {raw : Text} {l : ParsedLine}
    (h : parseLine isa number raw = .ok l) : l.number = number := by
  rw [parseLine_eq] at h
  obtain ⟨_, -, h⟩ := bind_eq_ok_iff.1 h
  obtain ⟨s, -, h⟩ := bind_eq_ok_iff.1 h
  rw [← Except.ok.inj h]

/-- The lines of a source are numbered upwards. -/
theorem pairwise_number {isa : InstructionSet} {source : Text} {ls : List ParsedLine}
    (h : List.Forall₂ (fun q l => parseLine isa q.2 q.1 = .ok l) source.numbered ls) :
    ls.Pairwise fun l l' => l.number < l'.number := by
  have hnumbers : List.Forall₂ Eq (source.numbered.map Prod.snd) (ls.map ParsedLine.number) := by
    rw [List.forall₂_map_left_iff, List.forall₂_map_right_iff]
    exact h.imp fun q l hread => (parseLine_number hread).symm
  rw [List.forall₂_eq_eq_eq, Text.numbered, List.zipIdx_map_snd] at hnumbers
  rw [← List.pairwise_map (f := ParsedLine.number) (R := (· < ·)), ← hnumbers]
  exact List.pairwise_lt_range'

/-- **A program is in the order of its source.** -/
theorem parse_ordered {isa : InstructionSet} (hisa : isa.Sound) {source : Text} {p : Program}
    (h : parse isa source = .ok p) : p.Pairwise Entry.Precedes := by
  obtain ⟨ls, hls, rfl⟩ := parse_eq_ok_iff.1 h
  have hline (l : ParsedLine) (hl : l ∈ ls) : ∀ e ∈ l.entries, e.line = l.number := by
    intro e he
    obtain ⟨q, -, hread⟩ := exists_left_of_forall₂ hls hl
    rw [parseLine_number hread]
    exact ((parseLine_outcome hisa q.2 q.1).of_ok hread e he).line_eq
  refine List.pairwise_flatMap.2 ⟨?_, ?_⟩
  · -- on one line, the columns increase
    intro l hl
    obtain ⟨q, hq, hread⟩ := exists_left_of_forall₂ hls hl
    have hordered := ((parseLine_inOrder isa q.2 (Text.unbroken_of_mem_numbered hq)).of_ok hread).1
    refine hordered.imp_of_mem fun he he' hcolumn => Or.inr ⟨?_, hcolumn⟩
    rw [hline l hl _ he, hline l hl _ he']
  · refine (pairwise_number hls).imp_of_mem fun hl hl' hnumber e he e' he' => Or.inl ?_
    rw [hline _ hl e he, hline _ hl' e' he']
    exact_mod_cast hnumber

end ThumbAssembler
