/-
**Sessions.**

A session assembles one source after another and keeps the result of the last.  Whatever came
before, and whichever of the sources failed at whatever stage, the session is that of the last
source alone; and what it keeps of a source fits together: the program, the symbol table and the
words belong to each other.

Main definitions:

* `ThumbAssembler.Session.after` — a session after a sequence of sources;
* `ThumbAssembler.Assembly.Consistent` — a program, a symbol table and words that belong to each
  other.

Main results:

* `ThumbAssembler.consistent_of_assemble` — what is assembled is consistent;
* `ThumbAssembler.Session.assemble_after` — **earlier sources leave no trace**;
* `ThumbAssembler.Session.after_depends_on_last` — a session after any sequence of sources.
-/

import Mathlib
import ThumbAssembler.Proofs.BranchTargets
import ThumbAssembler.Proofs.LinkedProgram

set_option autoImplicit false

namespace ThumbAssembler

/-! ### Assemblies -/

/-- The program, the symbol table and the words of an assembly belong to each other. -/
structure Assembly.Consistent (a : Assembly) : Prop where
  length_eq : a.words.length = a.program.size
  resolved : ∀ i ∈ a.program.instructions, i.isResolved = true
  /-- Every word is that of the instruction with the same number. -/
  words : ∀ (k : Nat) (i : Instruction), a.program.instructions[k]? = some i →
    ∃ w, a.words[k]? = some w ∧ i.encode = .ok w
  frozen : a.symbols.frozen = true
  /-- The table holds the label definitions of the program in their order. -/
  definitions : a.symbols.definitions.map Prod.snd = a.program.labels
  /-- Every definition and every address is held under its name, and no name twice. -/
  names : a.symbols.definitions.map Prod.fst = a.program.labelNames ∧
    a.symbols.addresses.map Prod.fst = a.program.labelNames ∧ a.program.labelNames.Nodup
  /-- A name stands for its definition and the address of that. -/
  addresses : ∀ address l, (address, .label l) ∈ a.program.addressed →
    a.symbols.definition? l.name = some l ∧ a.symbols.address? l.name = some (address : Int)

namespace Program

theorem map_snd_definitions (p : Program) : p.table.definitions.map Prod.snd = p.labels := by
  rw [table, List.map_map]
  exact List.map_id _

/-- In a table of distinct names, a name stands for its definition. -/
theorem definition?_table {p : Program} (h : p.labelNames.Nodup) {address : Nat} {l : Label}
    (hl : (address, .label l) ∈ p.addressed) : p.table.definition? l.name = some l := by
  rw [← map_fst_definitions] at h
  have hmem : l ∈ p.labels := List.mem_filterMap.2 ⟨_, mem_of_mem_addressed hl, rfl⟩
  exact (Assoc.get?_eq_some_iff h _ _).2 (List.mem_map.2 ⟨l, hmem, rfl⟩)

end Program

/-- **What is assembled is consistent.** -/
theorem consistent_of_assemble {isa : InstructionSet} {bias : Int} {source : Text} {a : Assembly}
    (h : assemble isa bias source = .ok a) : a.Consistent := by
  obtain ⟨p, q, words, -, hnodup, hq, hwords, rfl⟩ := assemble_eq_ok_iff.1 h
  have hlinked := Program.linkedBy_of_walk hq
  have hencode := mapM_eq_ok_iff.1 hwords
  -- the table was made for the program before linking, and linking keeps its labels
  rw [← hlinked.table_eq]
  have hnames : (Program.labelNames q).Nodup := by
    rw [hlinked.labelNames_eq]
    exact hnodup
  exact {
    length_eq := hencode.length_eq.symm
    resolved := fun i hi => hlinked.isResolved hi
    words := fun k i hi => exists_getElem?_of_forall₂ hencode hi
    frozen := rfl
    definitions := Program.map_snd_definitions q
    names := ⟨Program.map_fst_definitions q, Program.map_fst_addresses q, hnames⟩
    addresses := by
      intro address l hl
      obtain ⟨before, after, hq, haddress⟩ := Program.mem_addressed.1 hl
      have hdefines : Program.Defines q l.name (address : Int) :=
        ⟨before, l, after, hq, rfl, by rw [haddress]⟩
      exact ⟨Program.definition?_table hnames hl, (address?_table hnames).2 hdefines⟩ }

/-! ### Sequences of sources -/

namespace Session

variable (isa : InstructionSet)

/-- The session after a sequence of sources, each assembled or not. -/
def after (s : Session) (sources : List Text) : Session :=
  sources.foldl (fun s source => (s.assemble isa source).1) s

theorem after_concat (s : Session) (sources : List Text) (source : Text) :
    s.after isa (sources ++ [source]) = ((s.after isa sources).assemble isa source).1 := by
  rw [after, List.foldl_append]
  rfl

/-- One source changes nothing of a session but what it keeps. -/
theorem assemble_eq_commit (s : Session) (source : Text) :
    (s.assemble isa source).1 = s.commit (s.assemble isa source).1.last := by
  cases h : ThumbAssembler.assemble isa s.target.bias source with
  | ok a =>
      rw [assemble_of_ok h]
      rfl
  | error e =>
      rw [assemble_of_error h]
      rfl

/-- Sources change nothing of a session but what it keeps. -/
theorem after_eq_commit (s : Session) (sources : List Text) :
    s.after isa sources = s.commit (s.after isa sources).last := by
  induction sources using List.reverseRecOn with
  | nil => rfl
  | append_singleton sources source ih =>
      rw [after_concat, assemble_eq_commit, ih]
      rfl

/-- **Earlier sources leave no trace.** -/
theorem assemble_after (s : Session) (sources : List Text) (source : Text) :
    (s.after isa sources).assemble isa source = s.assemble isa source := by
  rw [after_eq_commit]
  exact s.assemble_forgets isa source _

/-- A session that keeps nothing, not even a table that is closed. -/
def KeepsNothing (s : Session) : Prop :=
  s.last.program = [] ∧ s.last.words = [] ∧ s.last.symbols.addresses = [] ∧
    s.last.symbols.definitions = [] ∧ s.last.symbols.frozen = false

/-- A session that is reset keeps nothing. -/
theorem keepsNothing_reset (s : Session) : s.reset.KeepsNothing := ⟨rfl, rfl, rfl, rfl, rfl⟩

/-- What a session keeps of a source, with the words or the fault that it was answered with. -/
theorem keeps_of_assemble (s : Session) (source : Text) :
    Outcome
      (fun words => (s.assemble isa source).1.last.words = words ∧
        (s.assemble isa source).1.last.Consistent)
      (fun _ => (s.assemble isa source).1.KeepsNothing) (s.assemble isa source).2 := by
  cases h : ThumbAssembler.assemble isa s.target.bias source with
  | ok a =>
      rw [assemble_of_ok h]
      exact ⟨rfl, consistent_of_assemble h⟩
  | error e =>
      rw [assemble_of_error h]
      exact s.keepsNothing_reset

/-- **A session after any sequence of sources.**  It is a new session, or else that of the last
source alone, with the same program, symbol table, words, image and listing.  If the last source
failed it keeps nothing; otherwise it keeps the words that it was answered with, and all that it
keeps is consistent. -/
theorem after_depends_on_last (target : Target) (width : RowWidth) (sources : List Text) :
    (sources = [] ∧ (start target width).after isa sources = start target width ∧
      (start target width).KeepsNothing) ∨
    ∃ before source, sources = before ++ [source] ∧
      (start target width).after isa sources = ((start target width).assemble isa source).1 ∧
      ((∃ e, (((start target width).after isa before).assemble isa source).2 = .error e ∧
          ((start target width).after isa sources).KeepsNothing) ∨
        ∃ words, (((start target width).after isa before).assemble isa source).2 = .ok words ∧
          ((start target width).after isa sources).last.words = words ∧
          ((start target width).after isa sources).last.Consistent) := by
  rcases List.eq_nil_or_concat sources with rfl | ⟨before, source, rfl⟩
  · exact Or.inl ⟨rfl, rfl, keepsNothing_reset (start target width)⟩
  · refine Or.inr ⟨before, source, by simp, ?_, ?_⟩
    · rw [List.concat_eq_append, after_concat, assemble_after]
    · have hkeeps := keeps_of_assemble isa ((start target width).after isa before) source
      rw [List.concat_eq_append, after_concat]
      cases hanswer : (((start target width).after isa before).assemble isa source).2 with
      | error e => exact Or.inl ⟨e, rfl, hkeeps.of_error hanswer⟩
      | ok words => exact Or.inr ⟨words, rfl, hkeeps.of_ok hanswer⟩

end Session

end ThumbAssembler
