/-
**Linking in parts and linking again.**

The second pass replaces one reference after another and keeps what it has replaced, also when it
has to stop.  So a program may be linked only up to some reference.  This module says what such a
program looks like, and that nothing is lost by going on from it: addresses do not depend on what
has been replaced, and what has been replaced is passed over.  With a larger symbol table the pass
comes out as it would have from the start, and a program that is fully linked stays as it is,
whatever the bias.

Main definitions:

* `ThumbAssembler.Program.StopsAt` — a program before and after a pass that stopped;
* `ThumbAssembler.SymbolTable.Extends` — a table has all addresses of another.

Main results:

* `ThumbAssembler.linkFrom_stops` — **a pass that stops has linked what comes before**;
* `ThumbAssembler.linkFrom_resume` — **a pass that goes on comes out as from the start**;
* `ThumbAssembler.link_of_isResolved` — a linked program stays as it is;
* `ThumbAssembler.link_stops_and_resumes`, `ThumbAssembler.resolve_resolved` — the same for whole
  programs, and for both passes.
-/

import Mathlib
import ThumbAssembler.Proofs.LinkedProgram
import ThumbAssembler.Thumb

set_option autoImplicit false

namespace ThumbAssembler

/-! ### A pass that stops -/

section StopsAt

variable (bias : Int) (table : SymbolTable)

/-- A program before and after a pass that stopped with a fault.  All entries before some
instruction are linked, and so are its operands before some reference; for this reference there is
no offset.  The reference and what comes after it are as they were. -/
inductive Program.StopsAt (address : Nat) : Program → Fault → Program → Prop
  | intro {before before' after : Program} {i : Instruction} {os os' rest : List Operand}
      {o : Operand} {name : Text} {e : Fault}
      (hbefore : List.Forall₂ (Entry.LinkedBy bias table) (addressedFrom address before) before')
      (hoperands : i.operands = os ++ o :: rest)
      (hos : List.Forall₂ (Operand.LinkedBy bias table (address + size before) i.format) os os')
      (hname : o.content = .label name)
      (hfault : branchOffset bias table (address + size before) i o name = .error e) :
      StopsAt address (before ++ .instruction i :: after) e
        (before' ++ .instruction { i with operands := os' ++ o :: rest } :: after)

end StopsAt

section Pass

variable {bias : Int} {table : SymbolTable} {address : Nat}

/-- The second pass on operands, of which the first is linked. -/
theorem linkOperands_cons {i : Instruction} {o o' : Operand}
    (h : o.LinkedBy bias table address i.format o') (os : List Operand) :
    linkOperands bias table address i (o :: os) =
      (o' :: (linkOperands bias table address i os).1,
        (linkOperands bias table address i os).2) := by
  cases h with
  | kept hlabel =>
      obtain ⟨content, column, text⟩ := o
      cases content with
      | label name => cases hlabel
      | _ => rfl
  | @replaced name target g htarget hfield hfits column text =>
      have hoffset : branchOffset bias table address i ⟨.label name, column, text⟩ name =
          .ok (target - (address + bias)) :=
        branchOffset_eq_ok_iff_fits.2 ⟨target, g, htarget, hfield, hfits, rfl⟩
      simp only [linkOperands, hoffset]

theorem linkOperands_of_linkedBy {i : Instruction} {os os' : List Operand}
    (h : List.Forall₂ (Operand.LinkedBy bias table address i.format) os os') :
    linkOperands bias table address i os = (os', none) := by
  induction h with
  | nil => rfl
  | cons ho _ ih => rw [linkOperands_cons ho, ih]

variable (bias table address) in
/-- The operands as far as the second pass came: all of them are linked, or those before a reference
that has no offset. -/
theorem linkOperands_cases (i : Instruction) (os : List Operand) :
    (∃ os', linkOperands bias table address i os = (os', none) ∧
        List.Forall₂ (Operand.LinkedBy bias table address i.format) os os') ∨
      ∃ before before' o name rest e,
        linkOperands bias table address i os = (before' ++ o :: rest, some e) ∧
        os = before ++ o :: rest ∧
        List.Forall₂ (Operand.LinkedBy bias table address i.format) before before' ∧
        o.content = .label name ∧ branchOffset bias table address i o name = .error e := by
  induction os with
  | nil => exact Or.inl ⟨[], rfl, .nil⟩
  | cons o os ih =>
      cases hlink : linkOperand bias table address i o with
      | error e =>
          obtain ⟨content, column, text⟩ := o
          cases content with
          | label name =>
              have hoffset : branchOffset bias table address i ⟨.label name, column, text⟩ name =
                  .error e := by
                rcases bind_eq_error_iff.1 hlink with h | ⟨offset, -, h⟩
                · exact h
                · cases h
              refine Or.inr ⟨[], [], _, name, os, e, ?_, rfl, .nil, rfl, hoffset⟩
              simp only [linkOperands, hoffset, List.nil_append]
          | _ => cases hlink
      | ok o' =>
          have ho := linkOperand_eq_ok_iff.1 hlink
          rw [linkOperands_cons ho]
          rcases ih with ⟨os', hos', hall⟩ | ⟨before, before', o₁, name, rest, e, hpair, rfl, h⟩
          · exact Or.inl ⟨o' :: os', by rw [hos'], .cons ho hall⟩
          · refine Or.inr ⟨o :: before, o' :: before', o₁, name, rest, e, ?_, rfl, ?_⟩
            · rw [hpair, List.cons_append]
            · exact ⟨.cons ho h.1, h.2⟩

/-- A pass that stops later has linked the entry before. -/
theorem Program.StopsAt.cons {e₀ e₁ : Entry} {p q : Program} {e : Fault}
    (h : StopsAt bias table (address + e₀.size) p e q)
    (he : Entry.LinkedBy bias table (address, e₀) e₁) :
    StopsAt bias table address (e₀ :: p) e (e₁ :: q) := by
  cases h with
  | @intro before before' after i os os' rest o name _ hbefore hoperands hos hname hfault =>
      have hsize : address + e₀.size + size before = address + size (e₀ :: before) := by
        rw [size_cons, Nat.add_assoc]
      rw [hsize] at hos hfault
      exact @intro bias table address (e₀ :: before) (e₁ :: before') after i os os' rest o name e
        (.cons he hbefore) hoperands hos hname hfault

/-- **A pass that stops has linked what comes before.** -/
theorem linkFrom_stops {p : Program} {e : Fault}
    (h : (linkFrom bias table address p).fault = some e) :
    Program.StopsAt bias table address p e (linkFrom bias table address p).program := by
  induction p generalizing address with
  | nil => cases h
  | cons entry p ih =>
      cases entry with
      | label l =>
          simp only [linkFrom] at h ⊢
          exact (ih h).cons (.label address l)
      | instruction i =>
          rcases linkOperands_cases bias table address i i.operands with
            ⟨os', hpair, hall⟩ | ⟨os, os', o, name, rest, e', hpair, hsplit, hall, hname, hfault⟩
          · simp only [linkFrom, hpair] at h ⊢
            exact (ih h).cons (.instruction hall)
          · simp only [linkFrom, hpair, Option.some.injEq] at h ⊢
            subst h
            exact @Program.StopsAt.intro bias table address [] [] p i os os' rest o name e'
              .nil hsplit hall hname hfault

/-! ### A pass that goes on -/

/-- The table has all addresses of the other. -/
def SymbolTable.Extends (table' table : SymbolTable) : Prop :=
  ∀ name target, table.address? name = some target → table'.address? name = some target

variable {table' : SymbolTable}

/-- An operand that is linked with a table is linked alike with a larger one. -/
theorem Operand.LinkedBy.of_extends (h : table'.Extends table) {f : Format} {o o' : Operand}
    (ho : o.LinkedBy bias table address f o') : o.LinkedBy bias table' address f o' := by
  cases ho with
  | kept hlabel => exact .kept hlabel
  | replaced htarget hfield hfits column text =>
      exact .replaced (h _ _ htarget) hfield hfits column text

/-- The pass over some operands does not look at those that the instruction has. -/
theorem linkOperands_with (i : Instruction) (os rest : List Operand) :
    linkOperands bias table address { i with operands := os } rest =
      linkOperands bias table address i rest := by
  induction rest with
  | nil => rfl
  | cons o rest ih =>
      obtain ⟨content, column, text⟩ := o
      cases content with
      | label name =>
          have hoffset (o : Operand) :
              branchOffset bias table address { i with operands := os } o name =
                branchOffset bias table address i o name := rfl
          simp only [linkOperands, hoffset, ih]
      | _ => simp only [linkOperands, ih]

/-- Going on with the operands of an instruction: what has been replaced is passed over, and the
larger table would have put in the same. -/
theorem linkOperands_resume (h : table'.Extends table) {i : Instruction}
    {before before' : List Operand}
    (hall : List.Forall₂ (Operand.LinkedBy bias table address i.format) before before')
    (rest : List Operand) :
    linkOperands bias table' address i (before' ++ rest) =
      linkOperands bias table' address i (before ++ rest) := by
  induction hall with
  | nil => rfl
  | @cons o o' os os' ho _ ih =>
      rw [List.cons_append, List.cons_append]
      -- the first operand is passed over, as it is no reference any more
      have hkept : o'.LinkedBy bias table' address i.format o' := .kept ho.isLabel
      rw [linkOperands_cons hkept, linkOperands_cons (ho.of_extends h), ih]

/-- **A pass that goes on comes out as from the start.** -/
theorem linkFrom_resume (h : table'.Extends table) (p : Program) :
    linkFrom bias table' address (linkFrom bias table address p).program =
      linkFrom bias table' address p := by
  induction p generalizing address with
  | nil => rfl
  | cons entry p ih =>
      cases entry with
      | label l => simp only [linkFrom, ih]
      | instruction i =>
          rcases linkOperands_cases bias table address i i.operands with
            ⟨os', hpair, hall⟩ | ⟨os, os', o, name, rest, e, hpair, hsplit, hall, -⟩
          · -- all operands are linked, with the larger table too
            have hall' := hall.imp fun _ _ ho => ho.of_extends h
            have hagain := linkOperands_resume h hall []
            rw [List.append_nil, List.append_nil] at hagain
            simp only [linkFrom, hpair, linkOperands_with, hagain, linkOperands_of_linkedBy hall',
              ih]
          · have hagain := linkOperands_resume h hall (o :: rest)
            rw [← hsplit] at hagain
            simp only [linkFrom, hpair, linkOperands_with, hagain]

/-! ### Programs that are linked -/

/-- A linked program stays as it is. -/
theorem link_of_isResolved {p : Program} (h : ∀ i ∈ p.instructions, i.isResolved = true)
    (bias : Int) (table : SymbolTable) : link bias table p = ⟨p, none⟩ := by
  refine (link_outcome bias table p).of_ok (mapM_eq_ok_iff.2 ?_)
  conv_rhs => rw [← Program.map_snd_addressed p]
  rw [List.forall₂_map_right_iff, List.forall₂_same]
  rintro ⟨a, e⟩ hmem
  cases e with
  | label l => rfl
  | instruction i =>
      have hi : i ∈ p.instructions :=
        List.mem_filterMap.2 ⟨_, Program.mem_of_mem_addressed hmem, rfl⟩
      refine linkEntry_eq_ok_iff.2 (.instruction (List.forall₂_same.2 fun o ho => .kept ?_))
      simpa using List.all_eq_true.1 (h i hi) o ho

end Pass

/-- **A pass that stops has linked what comes before, and can go on.**  If the second pass stops
with a fault, then the references before some reference are replaced by the distances to their
labels, and this reference and everything else are as they were.  With any table that has the same
addresses and possibly more, the pass over what is left comes out as it does over the program from
the start: with the same program and the same fault or none. -/
theorem link_stops_and_resumes {bias : Int} {table : SymbolTable} {p : Program} {e : Fault}
    (h : (link bias table p).fault = some e) :
    p.StopsAt bias table 0 e (link bias table p).program ∧
      ∀ table' : SymbolTable, table'.Extends table →
        link bias table' (link bias table p).program = link bias table' p :=
  ⟨linkFrom_stops h, fun _ hextends => linkFrom_resume hextends p⟩

/-- An instruction that refers to two labels, the first of which is defined before it. -/
def twoReferences : Program :=
  [.label { name := "near".toList },
   .instruction {
     mnemonic := "b".toList
     format := Thumb.branch
     operands :=
       [⟨.label "near".toList, 3, "near".toList⟩, ⟨.label "far".toList, 9, "far".toList⟩] }]

/-- A table that knows the first of the two labels. -/
def nearTable : SymbolTable :=
  { addresses := [("near".toList, 0)]
    definitions := [("near".toList, { name := "near".toList })] }

/-- A table that knows both labels. -/
def nearFarTable : SymbolTable :=
  { addresses := nearTable.addresses ++ [("far".toList, 5)]
    definitions := nearTable.definitions ++ [("far".toList, { name := "far".toList })] }

/-- The first of two references is replaced, the second is missing from the table; with the label
added, the pass goes on to the end. -/
theorem link_stops_and_resumes_far_missing :
    (link 3 nearTable twoReferences).fault =
        some (.rejected ⟨.undefinedLabel "far".toList, ⟨0, 9, "far".toList, []⟩⟩) ∧
      twoReferences.StopsAt 3 nearTable 0
        (.rejected ⟨.undefinedLabel "far".toList, ⟨0, 9, "far".toList, []⟩⟩)
        (link 3 nearTable twoReferences).program ∧
      nearFarTable.Extends nearTable ∧ (link 3 nearFarTable twoReferences).fault = none ∧
      link 3 nearFarTable (link 3 nearTable twoReferences).program =
        link 3 nearFarTable twoReferences := by
  have hfault : (link 3 nearTable twoReferences).fault =
      some (.rejected ⟨.undefinedLabel "far".toList, ⟨0, 9, "far".toList, []⟩⟩) := by
    decide +kernel
  have hextends : nearFarTable.Extends nearTable := by
    intro name target h
    simp only [SymbolTable.address?, nearFarTable, nearTable, List.cons_append, Assoc.get?] at h ⊢
    split at h
    · rename_i hname
      rwa [if_pos hname]
    · cases h
  obtain ⟨hstops, hresumes⟩ := link_stops_and_resumes hfault
  exact ⟨hfault, hstops, hextends, by decide +kernel, hresumes _ hextends⟩

/-- **A resolved program stays as it is.**  Resolution replaces the references of a program by
distances that the offset fields can hold, and keeps everything else; no reference is left.
Resolving the result, with the same bias or another, changes nothing and gives the same table. -/
theorem resolve_resolved {bias : Int} {p : Program} {table : SymbolTable}
    (h : (resolve bias p).symbols = .ok table) :
    List.Forall₂ (Entry.LinkedBy bias table) p.addressed (resolve bias p).program ∧
      (∀ i ∈ (resolve bias p).program.instructions, i.isResolved = true) ∧
      ∀ bias', resolve bias' (resolve bias p).program = ⟨(resolve bias p).program, .ok table⟩ := by
  obtain ⟨hnodup, rfl, hwalk⟩ := walk_of_resolve h
  have hlinked := Program.linkedBy_of_walk hwalk
  have hresolved (i : Instruction) (hi : i ∈ (resolve bias p).program.instructions) :
      i.isResolved = true := hlinked.isResolved hi
  refine ⟨hlinked, hresolved, fun bias' => ?_⟩
  -- the labels have not moved, so the first pass finds the same table
  have htable := hlinked.table_eq
  have hnames := hlinked.labelNames_eq
  generalize (resolve bias p).program = q at *
  rw [← hnames] at hnodup
  simp only [resolve, collect_of_nodup hnodup, link_of_isResolved hresolved, htable]

/-- A branch forward and one back: after resolution for one processor, resolution for another
changes nothing, though the offsets there would be different. -/
theorem resolve_resolved_other_bias :
    ∃ (p : Program) (table : SymbolTable),
      parse Thumb.instructionSet "top: bne end\nend: b top".toList = .ok p ∧
      (resolve 3 p).symbols = .ok table ∧
      table.toList = [("top".toList, 0), ("end".toList, 1)] ∧
      (resolve 2 p).program ≠ (resolve 3 p).program ∧
      resolve 2 (resolve 3 p).program = ⟨(resolve 3 p).program, .ok table⟩ := by
  have heval : (parse Thumb.instructionSet "top: bne end\nend: b top".toList).toOption.any (fun p =>
      ((resolve 3 p).symbols.toOption.any fun table =>
        table.toList = [("top".toList, 0), ("end".toList, 1)]) &&
      (resolve 2 p).program ≠ (resolve 3 p).program) = true := by decide +kernel
  obtain ⟨p, hp, heval⟩ := exists_ok_of_any heval
  obtain ⟨hresolve, hdiffer⟩ := Bool.and_eq_true_iff.1 heval
  obtain ⟨table, htable, hnames⟩ := exists_ok_of_any hresolve
  exact ⟨p, table, hp, htable, of_decide_eq_true hnames, of_decide_eq_true hdiffer,
    (resolve_resolved htable).2.2 2⟩

end ThumbAssembler
