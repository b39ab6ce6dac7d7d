/-
**Printing and reading a program.**

A program is printed with one entry to a line.  Reading the printed text gives the program back,
except for where its entries stand and how they were spelled, and so assembling it gives the same
words.

Main definitions:

* `ThumbAssembler.Entry.Canonical` — an entry that can be printed and read back.

Main results:

* `ThumbAssembler.parseLine_label`, `ThumbAssembler.parseLine_instruction` — the line of a printed
  entry is read back;
* `ThumbAssembler.parse_printed` — the printed text of a program is read back;
* `ThumbAssembler.parse_printed_program` — **printing a program and reading it gives the program
  and its words back**.
-/

import Mathlib
import ThumbAssembler.Proofs.PrintedInstruction

set_option autoImplicit false

namespace ThumbAssembler

/-! ### Lines -/

theorem trimStart_of_isIdentifier {name : Text} (h : IsIdentifier name) (rest : Text) :
    Text.trimStart (name ++ rest) = name ++ rest := by
  obtain ⟨c, run, rfl, hblank, -⟩ := (spelling_of_isIdentifier h).head
  exact List.dropWhile_cons_of_neg (by simp [hblank])

theorem identifier?_append {name rest : Text} (h : IsIdentifier name)
    (hrest : StartsOutside isIdentifierPart rest) : identifier? (name ++ rest) = some name := by
  cases name with
  | nil => exact absurd rfl h.ne_nil
  | cons c run =>
      rw [List.cons_append, identifier?, if_pos h.1, takeWhile_append_of_startsOutside h.2 hrest]

/-- A line that starts with an identifier defines a label if a colon comes next. -/
theorem labelPart?_of_colon {name rest after : Text} (h : IsIdentifier name)
    (hrest : StartsOutside isIdentifierPart rest) (hcolon : Text.trimStart rest = ':' :: after) :
    labelPart? (name ++ rest) =
      some ⟨0, name, (name ++ rest).length - after.length, after⟩ := by
  unfold labelPart?
  simp only [trimStart_of_isIdentifier h, identifier?_append h hrest, List.drop_left, Nat.sub_self,
    hcolon]

/-- It defines none if something else comes next. -/
theorem labelPart?_of_not_colon {name rest : Text} (h : IsIdentifier name)
    (hrest : StartsOutside isIdentifierPart rest)
    (hcolon : (Text.trimStart rest).head? ≠ some ':') : labelPart? (name ++ rest) = none := by
  unfold labelPart?
  simp only [trimStart_of_isIdentifier h, identifier?_append h hrest, List.drop_left]
  split
  · rename_i after hafter
    rw [hafter] at hcolon
    exact absurd rfl hcolon
  · rfl

theorem labelPart?_operandTail {name : Text} (h : IsIdentifier name)
    {contents : List Operand.Content} (hcontents : ∀ c ∈ contents, c.Canonical) :
    labelPart? (name ++ operandTail contents) = none := by
  refine labelPart?_of_not_colon h (startsOutside_operandTail contents) ?_
  cases contents with
  | nil => exact nofun
  | cons c contents =>
      obtain ⟨d, rest, hhead, hblank, hcolon⟩ := (spelling_renderList hcontents).head
      have htrim : Text.trimStart (operandTail (c :: contents)) = d :: rest := by
        rw [operandTail, hhead]
        have hspace : isBlank ' ' = true := by decide
        simp [Text.trimStart, hspace, hblank]
      rw [htrim, List.head?_cons]
      exact fun heq => hcolon (Option.some_inj.1 heq)

theorem labelsFrom_of_none (isa : InstructionSet) (line : SourceLine) (position : Nat) {t : Text}
    (h : labelPart? t = none) : labelsFrom isa line position t = .ok ([], position, t) := by
  rw [labelsFrom]
  split
  · rfl
  · rename_i part hpart
    rw [h] at hpart
    cases hpart

theorem labelsFrom_of_some {isa : InstructionSet} (line : SourceLine) (position : Nat) {t : Text}
    {part : LabelPart} (h : labelPart? t = some part) (hname : isa.isReserved part.name = false) :
    labelsFrom isa line position t = do
      let (labels, stop, rest) ← labelsFrom isa line (position + part.length) part.rest
      return (⟨part.name, line.number, ((position + part.indent + 1 : Nat) : Int), line.text⟩ ::
        labels, stop, rest) := by
  rw [labelsFrom]
  split
  · rename_i hpart
    rw [h] at hpart
    cases hpart
  · rename_i part' hpart
    obtain rfl := Option.some_inj.1 (hpart.symm.trans h)
    simp only [hname, Bool.false_eq_true, if_false]

/-- A reserved name is rejected where it stands. -/
theorem labelsFrom_of_reserved {isa : InstructionSet} (line : SourceLine) (position : Nat)
    {t : Text} {part : LabelPart} (h : labelPart? t = some part)
    (hname : isa.isReserved part.name = true) :
    labelsFrom isa line position t =
      reject (.reservedLabel part.name)
        ⟨line.number, ((position + part.indent + 1 : Nat) : Int), part.name, line.text⟩ := by
  rw [labelsFrom]
  split
  · rename_i hpart
    rw [h] at hpart
    cases hpart
  · rename_i part' hpart
    obtain rfl := Option.some_inj.1 (hpart.symm.trans h)
    rw [if_pos hname]

theorem spelling_label {l : Label} (h : IsIdentifier l.name) : Spelling l.render := by
  have hname := spelling_of_isIdentifier h
  obtain ⟨c, rest, hhead, hc⟩ := hname.head
  refine ⟨hname.plain.append (by decide), ⟨c, ?_⟩, ?_⟩
  · exact ⟨_, by rw [Label.render, hhead]; rfl, hc⟩
  · exact endsOutside_append _ (endsOutside_singleton (by decide)) (by decide)

theorem Instruction.Canonical.spelling {isa : InstructionSet} {i : Instruction}
    (h : i.Canonical isa) : Spelling i.render := by
  have hmnemonic := spelling_of_isIdentifier h.mnemonic
  have hcanonical := h.operands
  rw [h.render_eq]
  cases hcontents : i.operands.map Operand.content with
  | nil => simpa [operandTail] using hmnemonic
  | cons c contents =>
      rw [hcontents] at hcanonical
      have htail := spelling_renderList hcanonical
      obtain ⟨d, rest, hhead, hd⟩ := hmnemonic.head
      have hspace : Text.Plain [' '] := by decide
      refine ⟨hmnemonic.plain.append (hspace.append htail.plain), ⟨d, ?_⟩, ?_⟩
      · exact ⟨_, by rw [hhead]; rfl, hd⟩
      · exact endsOutside_append _ (endsOutside_append [' '] htail.last htail.ne_nil)
          (List.cons_ne_nil _ _)

theorem labelPart?_label {l : Label} (h : IsIdentifier l.name) :
    labelPart? l.render = some ⟨0, l.name, l.render.length, []⟩ := by
  have hcolon : ":".toList = [':'] := rfl
  rw [Label.render, hcolon, labelPart?_of_colon h (startsOutside_cons (by decide)) rfl]
  rfl

/-- The line of a label definition. -/
theorem parseLine_label {isa : InstructionSet} (number : Nat) {l : Label}
    (hname : IsIdentifier l.name) (hreserved : isa.isReserved l.name = false) :
    parseLine isa number l.render = .ok ⟨number, [⟨l.name, number, 1, l.render⟩], .blank⟩ := by
  have hrender := spelling_label hname
  rw [parseLine_of_plain isa number hrender.plain hrender.last,
    labelsFrom_of_some _ _ (labelPart?_label hname) hreserved, labelsFrom_of_none _ _ _ rfl]
  rfl

/-- The line of a label definition with a reserved name. -/
theorem parseLine_label_of_reserved {isa : InstructionSet} (number : Nat) {l : Label}
    (hname : IsIdentifier l.name) (hreserved : isa.isReserved l.name = true) :
    parseLine isa number l.render =
      reject (.reservedLabel l.name) ⟨number, 1, l.name, l.render⟩ := by
  have hrender := spelling_label hname
  rw [parseLine_of_plain isa number hrender.plain hrender.last,
    labelsFrom_of_reserved _ _ (labelPart?_label hname) hreserved]
  rfl

/-- The statement of an instruction, after what the scanner skips. -/
theorem statement_render {isa : InstructionSet} (hisa : isa.Sound) (line : SourceLine)
    {code rest : Text} {position stop : Nat} {i : Instruction} (h : i.Canonical isa)
    (hrest : rest.trimStart = i.render)
    (hscan : Scans line.number code position (code.drop position) [] stop i.render) :
    ∃ j, statement isa line code position rest = .ok (.instruction j) ∧ j.bare = i.bare := by
  obtain ⟨candidates, hlookup, -⟩ := h.format
  obtain ⟨ts, hts, j, hj, hbare⟩ := line.instruction_render line.number code stop h
  -- a directive would start with a full stop, and no mnemonic does
  have hstop : i.render.head? ≠ some '.' := by
    obtain ⟨c, run, hc⟩ := List.exists_cons_of_ne_nil h.mnemonic.ne_nil
    have hmnemonic := hisa.head?_ne_stop hlookup
    rw [h.lower, hc] at hmnemonic
    rw [h.render_eq, hc]
    exact hmnemonic
  refine ⟨j, ?_, hbare⟩
  unfold statement
  rw [hrest]
  split
  · rename_i hnil
    exact absurd hnil h.spelling.ne_nil
  · rename_i rest' hdot
    rw [hdot] at hstop
    exact absurd rfl hstop
  · rw [tokenize, hscan, hts, ok_bind, pure_eq_ok, ok_bind, List.nil_append, hj]
    rfl

theorem Instruction.Canonical.labelPart?_render {isa : InstructionSet} {i : Instruction}
    (h : i.Canonical isa) : labelPart? i.render = none := by
  rw [h.render_eq]
  exact labelPart?_operandTail h.mnemonic h.operands

theorem Instruction.Canonical.trimStart_render {isa : InstructionSet} {i : Instruction}
    (h : i.Canonical isa) : Text.trimStart i.render = i.render := by
  rw [h.render_eq]
  exact trimStart_of_isIdentifier h.mnemonic _

/-- The line of an instruction. -/
theorem parseLine_instruction {isa : InstructionSet} (hisa : isa.Sound) (number : Nat)
    {i : Instruction} (h : i.Canonical isa) :
    ∃ r, parseLine isa number i.render = .ok r ∧
      r.entries.map Entry.bare = [(Entry.instruction i).bare] := by
  have hscan : Scans number i.render 0 (i.render.drop 0) [] 0 i.render := Scans.refl 0 i.render
  obtain ⟨j, hj, hbare⟩ := statement_render hisa ⟨number, i.render⟩ h h.trimStart_render hscan
  refine ⟨⟨number, [], .instruction j⟩, ?_, ?_⟩
  · rw [parseLine_of_plain isa number h.spelling.plain h.spelling.last,
      labelsFrom_of_none _ _ _ h.labelPart?_render, ok_bind]
    simp only [hj]
    rfl
  · simp [ParsedLine.entries, Entry.bare, hbare]

/-! ### Programs -/

/-- The entry is one that can be printed and read back. -/
def Entry.Canonical (isa : InstructionSet) : Entry → Prop
  | label l => IsIdentifier l.name ∧ isa.isReserved l.name = false
  | instruction i => i.Canonical isa

/-- Every entry of a program can be printed and read back, if its numbers can be printed. -/
theorem Entry.canonical_of_parse {isa : InstructionSet} (hisa : isa.Sound) {source : Text}
    {p : Program} (hp : parse isa source = .ok p)
    (hprint : ∀ i, .instruction i ∈ p → ∀ v ∈ i.numbers, isPrintable v = true) {e : Entry}
    (he : e ∈ p) : e.Canonical isa := by
  obtain ⟨q, -, hread⟩ := parse_readIn hisa hp he
  cases e with
  | label l => exact ⟨hread.identifier, hread.unreserved⟩
  | instruction i => exact hread.1.canonical (hprint i he)

/-- The line of a printed entry is read back. -/
theorem Entry.Canonical.parseLine_render {isa : InstructionSet} (hisa : isa.Sound) {e : Entry}
    (h : e.Canonical isa) (number : Nat) :
    ∃ r, parseLine isa number e.render = .ok r ∧ r.entries.map Entry.bare = [e.bare] := by
  cases e with
  | label l => exact ⟨_, parseLine_label number h.1 h.2, rfl⟩
  | instruction i => exact parseLine_instruction hisa number h

theorem Entry.Canonical.spelling {isa : InstructionSet} {e : Entry} (h : e.Canonical isa) :
    Spelling e.render := by
  cases e with
  | label l => exact spelling_label h.1
  | instruction i => exact Instruction.Canonical.spelling h

/-- The lines of printed entries are read back, one after another. -/
theorem parseLines_render {isa : InstructionSet} (hisa : isa.Sound) (number : Nat) {p : Program}
    (h : ∀ e ∈ p, e.Canonical isa) :
    ∃ rs, parseLines isa number (p.map Entry.render) = .ok rs ∧
      Program.bare (rs.flatMap ParsedLine.entries) = p.bare := by
  induction p generalizing number with
  | nil => exact ⟨[], rfl, rfl⟩
  | cons e p ih =>
      obtain ⟨he, hp⟩ := List.forall_mem_cons.1 h
      obtain ⟨r, hr, hentry⟩ := he.parseLine_render hisa number
      obtain ⟨rs, hrs, hentries⟩ := ih (number + 1) hp
      refine ⟨r :: rs, ?_, ?_⟩
      · rw [List.map_cons, parseLines, hr, ok_bind, hrs]
        rfl
      · rw [Program.bare] at hentries ⊢
        rw [List.flatMap_cons, List.map_append, hentry, hentries]
        rfl

/-- **The printed text of a program is read back.** -/
theorem parse_printed {isa : InstructionSet} (hisa : isa.Sound) {p : Program}
    (h : ∀ e ∈ p, e.Canonical isa) :
    ∃ q, parse isa (Text.joined "\n".toList (p.map Entry.render)) = .ok q ∧ q.bare = p.bare := by
  have hlines : Text.lines (Text.joined "\n".toList (p.map Entry.render)) =
      p.map Entry.render := by
    refine Text.lines_joined fun t ht => ?_
    obtain ⟨e, he, rfl⟩ := List.mem_map.1 ht
    have hspelling := (h e he).spelling
    exact ⟨hspelling.ne_nil, Text.isLineBreak_of_plain hspelling.plain⟩
  obtain ⟨rs, hrs, hbare⟩ := parseLines_render hisa 1 h
  refine ⟨_, ?_, hbare⟩
  rw [parse, hlines, hrs]
  rfl

theorem mapM_printed {p : Program}
    (h : ∀ i, .instruction i ∈ p → ∀ v ∈ i.numbers, isPrintable v = true) :
    p.mapM Entry.printed = .ok (p.map Entry.render) := by
  rw [mapM_eq_ok_iff, List.forall₂_map_right_iff, List.forall₂_same]
  intro e he
  cases e with
  | label l => rfl
  | instruction i =>
      have hall : i.numbers.all isPrintable = true := List.all_eq_true.2 (h i he)
      rw [Entry.printed, Instruction.printed, printing, if_pos hall]
      rfl

/-- **Printing a program and reading it gives the program back.**  If the numbers of a program can
be printed, so can the program.  The printed text is read as the same program up to the places of
its entries, and for every target it has the same words as the source, or none if that has none. -/
theorem parse_printed_program {source : Text} {p : Program}
    (hp : parse Thumb.instructionSet source = .ok p)
    (hprint : ∀ i, .instruction i ∈ p → ∀ v ∈ i.numbers, isPrintable v = true) :
    ∃ texts, p.mapM Entry.printed = .ok texts ∧
      (∃ q, parse Thumb.instructionSet (Text.joined "\n".toList texts) = .ok q ∧
        q.bare = p.bare) ∧
      ∀ target : Target,
        (assemble Thumb.instructionSet target.bias
          (Text.joined "\n".toList texts)).toOption.map Assembly.words =
        (assemble Thumb.instructionSet target.bias source).toOption.map Assembly.words := by
  have hisa := Thumb.instructionSet_sound
  obtain ⟨q, hq, hbare⟩ :=
    parse_printed hisa fun e he => Entry.canonical_of_parse hisa hp hprint he
  refine ⟨_, mapM_printed hprint, ⟨q, hq, hbare⟩, fun target => ?_⟩
  rw [toOption_assemble, toOption_assemble, hp, hq]
  calc (q.assembled target.bias).toOption
      = (q.bare.assembled target.bias).toOption := (q.toOption_assembled_bare _).symm
    _ = (p.bare.assembled target.bias).toOption := by rw [hbare]
    _ = (p.assembled target.bias).toOption := p.toOption_assembled_bare _

/-- Two labels on a line, a tab, a comment, a directive, capitals, a register with leading zeros, a
hexadecimal number, a number with a sign and both forms of memory operands. -/
theorem parse_printed_program_all_forms :
    ∃ p q, parse Thumb.instructionSet
        ("Start: .loop:\tMOVS R007, #0x1F @ top\n ldr r0, [SP]\nStr r1,[sp , #0x8]\n" ++
          "  add SP, #-0\nBNE .loop\n.text\nb Start").toList = .ok p ∧
      p.mapM Entry.printed = .ok (["Start:", ".loop:", "movs r7, #31", "ldr r0, [sp]",
        "str r1, [sp, #8]", "add sp, #0", "bne .loop", "b Start"].map String.toList) ∧
      parse Thumb.instructionSet
        ("Start:\n.loop:\nmovs r7, #31\nldr r0, [sp]\nstr r1, [sp, #8]\nadd sp, #0\n" ++
          "bne .loop\nb Start").toList = .ok q ∧
      q.bare = p.bare ∧
      (assemble Thumb.instructionSet 3
        ("Start:\n.loop:\nmovs r7, #31\nldr r0, [sp]\nstr r1, [sp, #8]\nadd sp, #0\n" ++
          "bne .loop\nb Start").toList).toOption.map Assembly.words =
        some [10015, 38912, 37122, 45056, 53753, 59384] := by
  have heval : ((parse Thumb.instructionSet
      ("Start: .loop:\tMOVS R007, #0x1F @ top\n ldr r0, [SP]\nStr r1,[sp , #0x8]\n" ++
        "  add SP, #-0\nBNE .loop\n.text\nb Start").toList).toOption.any fun p =>
      (p.instructions.all fun i => i.numbers.all isPrintable) &&
        (p.mapM Entry.printed).toOption = some (["Start:", ".loop:", "movs r7, #31", "ldr r0, [sp]",
          "str r1, [sp, #8]", "add sp, #0", "bne .loop", "b Start"].map String.toList)) = true := by
    decide +kernel
  have hwords : (assemble Thumb.instructionSet 3
      ("Start: .loop:\tMOVS R007, #0x1F @ top\n ldr r0, [SP]\nStr r1,[sp , #0x8]\n" ++
        "  add SP, #-0\nBNE .loop\n.text\nb Start").toList).toOption.map Assembly.words =
      some [10015, 38912, 37122, 45056, 53753, 59384] := by decide +kernel
  cases hp : parse Thumb.instructionSet
      ("Start: .loop:\tMOVS R007, #0x1F @ top\n ldr r0, [SP]\nStr r1,[sp , #0x8]\n" ++
        "  add SP, #-0\nBNE .loop\n.text\nb Start").toList with
  | error e =>
      rw [hp] at heval
      cases heval
  | ok p =>
      rw [hp] at heval
      obtain ⟨hnumbers, hprinted⟩ := (Bool.and_eq_true _ _).mp heval
      have hprint (i : Instruction) (hi : .instruction i ∈ p) (v : Int) (hv : v ∈ i.numbers) :
          isPrintable v = true :=
        List.all_eq_true.1 (List.all_eq_true.1 hnumbers i (List.mem_filterMap.2 ⟨_, hi, rfl⟩)) v hv
      obtain ⟨texts, htexts, ⟨q, hq, hbare⟩, hassemble⟩ := parse_printed_program hp hprint
      have hsame := of_decide_eq_true hprinted
      rw [htexts] at hsame
      obtain rfl := Option.some_inj.1 hsame
      have hsame_words := hassemble Target.parm
      exact ⟨p, q, rfl, htexts, hq, hbare, hsame_words.trans hwords⟩

end ThumbAssembler
