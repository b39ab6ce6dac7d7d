/-
**The two passes of label resolution.**

The first pass succeeds exactly when all labels have different names, and its table then holds, for
every label, the number of instructions before it; otherwise it stops at the first label whose name
came before.  The second pass is a walk along the program that replaces one operand after another.
With both passes in this form, assembling is a sequence of walks.

Main definitions:

* `ThumbAssembler.Program.table` — the labels of a program with their addresses;
* `ThumbAssembler.Program.Repeats` — where a program first repeats a label;
* `ThumbAssembler.Program.Defines` — a label name stands for an address;
* `ThumbAssembler.linkOperand`, `ThumbAssembler.linkEntry` — the second pass on one operand and on
  one entry.

Main results:

* `ThumbAssembler.collect_eq_ok_iff`, `ThumbAssembler.collect_eq_error_iff` — **the first pass
  succeeds exactly on distinct labels, and else stops at the first repetition**;
* `ThumbAssembler.address?_table` — the address of a name is that of its definition;
* `ThumbAssembler.link_outcome` — the second pass is a walk;
* `ThumbAssembler.assemble_eq` — **assembling is a sequence of walks**.
-/

import Mathlib
import ThumbAssembler.Assembly
import ThumbAssembler.Proofs.FirstFailure

set_option autoImplicit false

namespace ThumbAssembler

/-! ### Addresses -/

namespace Program

theorem labels_append (p q : Program) : labels (p ++ q) = labels p ++ labels q := by
  simp [labels]

/-- The entries at an address are those with that many instructions before them. -/
theorem mem_addressedFrom {address a : Nat} {e : Entry} {p : Program} :
    (a, e) ∈ addressedFrom address p ↔
      ∃ before after, p = before ++ e :: after ∧ a = address + size before := by
  induction p generalizing address with
  | nil => simp [addressedFrom]
  | cons e' p ih =>
      rw [addressedFrom, List.mem_cons, ih]
      constructor
      · rintro (h | ⟨before, after, rfl, rfl⟩)
        · obtain ⟨rfl, rfl⟩ := Prod.mk.inj h
          exact ⟨[], p, rfl, by simp [size, instructions]⟩
        · exact ⟨e' :: before, after, rfl, by rw [size_cons, Nat.add_assoc]⟩
      · rintro ⟨before, after, h, rfl⟩
        cases before with
        | nil =>
            obtain ⟨rfl, rfl⟩ := List.cons.inj h
            exact Or.inl (by simp [size, instructions])
        | cons e'' before =>
            obtain ⟨rfl, rfl⟩ := List.cons.inj h
            exact Or.inr ⟨before, after, rfl, by rw [size_cons, Nat.add_assoc]⟩

theorem mem_of_mem_addressed {a : Nat} {e : Entry} {p : Program} (h : (a, e) ∈ p.addressed) :
    e ∈ p := by
  rw [← map_snd_addressed p]
  exact List.mem_map_of_mem h

theorem mem_addressed {a : Nat} {e : Entry} {p : Program} :
    (a, e) ∈ p.addressed ↔ ∃ before after, p = before ++ e :: after ∧ a = size before := by
  rw [addressed, mem_addressedFrom]
  simp only [Nat.zero_add]

/-- The address of an instruction is its number. -/
theorem mem_addressedFrom_of_getElem? {k : Nat} {i : Instruction} {p : Program}
    (h : p.instructions[k]? = some i) (address : Nat) :
    (address + k, .instruction i) ∈ addressedFrom address p := by
  induction p generalizing address k with
  | nil => simp [instructions] at h
  | cons e p ih =>
      rw [addressedFrom, List.mem_cons]
      cases e with
      | label l => exact Or.inr (ih h address)
      | instruction j =>
          cases k with
          | zero =>
              obtain rfl : j = i := by simpa [instructions, Entry.instruction?] using h
              exact Or.inl rfl
          | succ k =>
              have hrest : instructions p = (instructions (.instruction j :: p)).tail := rfl
              have hk : (instructions p)[k]? = some i := by
                rw [hrest, List.getElem?_tail]
                exact h
              have hmem := ih hk (address + 1)
              rw [Nat.add_assoc, Nat.add_comm 1 k] at hmem
              exact Or.inr hmem

theorem addressed_concat (p : Program) (e : Entry) :
    addressed (p ++ [e]) = addressed p ++ [(size p, e)] := by
  rw [addressed, addressedFrom_append, Nat.zero_add]
  rfl

/-! ### The first pass -/

/-- The name and the address that an entry adds to the symbol table. -/
def symbolOf (x : Nat × Entry) : Option (Text × Int) :=
  x.2.label?.map fun l => (l.name, (x.1 : Int))

/-- The labels of a program with their addresses. -/
def table (p : Program) : SymbolTable :=
  { addresses := p.addressed.filterMap symbolOf
    definitions := p.labels.map fun l => (l.name, l) }

theorem toList_table (p : Program) : p.table.toList = p.addressed.filterMap symbolOf := rfl

/-- The names of the labels that a program defines, in order. -/
def labelNames (p : Program) : List Text := p.labels.map Label.name

theorem labelNames_append (p q : Program) : labelNames (p ++ q) = labelNames p ++ labelNames q := by
  simp [labelNames, labels_append]

@[simp] theorem labelNames_nil : labelNames [] = [] := rfl

@[simp] theorem labelNames_label (l : Label) (p : Program) :
    labelNames (.label l :: p) = l.name :: labelNames p := rfl

@[simp] theorem labelNames_instruction (i : Instruction) (p : Program) :
    labelNames (.instruction i :: p) = labelNames p := rfl

theorem map_fst_addresses (p : Program) : p.table.addresses.map Prod.fst = p.labelNames := by
  have hentries : p.labelNames = (p.addressed.map Prod.snd).filterMap fun e =>
      e.label?.map Label.name := by
    rw [map_snd_addressed, labelNames, labels, List.map_filterMap]
  rw [hentries, table, List.map_filterMap, List.filterMap_map]
  refine List.filterMap_congr fun x _ => ?_
  cases h : x.2.label? <;> simp [symbolOf, h]

theorem map_fst_definitions (p : Program) : p.table.definitions.map Prod.fst = p.labelNames := by
  rw [table, List.map_map, labelNames]
  rfl

theorem definition?_table_eq_none {p : Program} {name : Text} (h : name ∉ p.labelNames) :
    p.table.definition? name = none := by
  rwa [← map_fst_definitions, ← Assoc.get?_isSome_iff, Bool.not_eq_true,
    Option.isSome_eq_false_iff, Option.isNone_iff_eq_none] at h

/-- A name that is defined has a first definition. -/
theorem exists_definition?_table {p : Program} {name : Text} (h : name ∈ p.labelNames) :
    ∃ first ∈ p.labels, first.name = name ∧ p.table.definition? name = some first := by
  rw [← map_fst_definitions, ← Assoc.get?_isSome_iff, Option.isSome_iff_exists] at h
  obtain ⟨first, hfirst⟩ := h
  obtain ⟨l, hl, hpair⟩ := List.mem_map.1 (Assoc.mem_of_get?_eq_some hfirst)
  obtain ⟨rfl, rfl⟩ := Prod.mk.inj hpair
  exact ⟨l, hl, rfl, hfirst⟩

theorem table_concat_instruction (p : Program) (i : Instruction) :
    table (p ++ [.instruction i]) = table p := by
  rw [table, addressed_concat, List.filterMap_append, labels_append]
  simp [symbolOf, labels, Entry.label?, table]

theorem table_concat_label (p : Program) (l : Label) :
    table (p ++ [.label l]) =
      { addresses := p.table.addresses ++ [(l.name, (size p : Int))]
        definitions := p.table.definitions ++ [(l.name, l)] } := by
  rw [table, addressed_concat, List.filterMap_append, labels_append]
  simp [symbolOf, labels, Entry.label?, table]

end Program

open Program in
/-- One step of the first pass: a label with a new name is added at the end. -/
theorem collectEntry_table {p : Program} {e : Entry} (h : (labelNames (p ++ [e])).Nodup) :
    collectEntry p.table (size p, e) = .ok (table (p ++ [e])) := by
  cases e with
  | instruction i => rw [collectEntry, table_concat_instruction]
  | label l =>
      have hnew : l.name ∉ p.labelNames := by
        rw [labelNames_append, List.nodup_append] at h
        exact fun hmem => h.2.2 _ hmem l.name (by simp) rfl
      have haddress : l.name ∉ p.table.addresses.map Prod.fst := by rwa [map_fst_addresses]
      have hdefinition : l.name ∉ p.table.definitions.map Prod.fst := by rwa [map_fst_definitions]
      have hopen : p.table.frozen = false := rfl
      simp only [collectEntry, definition?_table_eq_none hnew, SymbolTable.define_of_open hopen,
        SymbolTable.putAddress, SymbolTable.putDefinition, Assoc.put_of_not_mem _ haddress,
        Assoc.put_of_not_mem _ hdefinition, table_concat_label]
      rfl

/-- The first pass over a program with distinct labels. -/
theorem collect_of_nodup {p : Program} (h : p.labelNames.Nodup) : collect p = .ok p.table := by
  -- the pass works from the front, so the induction adds entries at the end
  induction p using List.reverseRecOn with
  | nil => rfl
  | append_singleton p e ih =>
      have hp : (Program.labelNames p).Nodup := by
        rw [Program.labelNames_append] at h
        exact h.of_append_left
      have hcollect : (Program.addressed p).foldlM collectEntry SymbolTable.empty =
          .ok (Program.table p) := ih hp
      rw [collect, Program.addressed_concat, List.foldlM_append, hcollect, ok_bind,
        List.foldlM_cons, collectEntry_table h]
      rfl

/-- The program first repeats a label at `l`: the labels before it are distinct, and `first` among
them has the same name. -/
structure Program.Repeats (p before : Program) (first l : Label) (after : Program) : Prop where
  split : p = before ++ .label l :: after
  distinct : before.labelNames.Nodup
  first_mem : first ∈ before.labels
  name_eq : first.name = l.name

/-- A program with labels that are not distinct repeats one somewhere first. -/
theorem Program.exists_repeats {p : Program} (h : ¬ p.labelNames.Nodup) :
    ∃ before first l after, p.Repeats before first l after := by
  induction p using List.reverseRecOn with
  | nil => exact absurd List.nodup_nil h
  | append_singleton p e ih =>
      by_cases hp : (labelNames p).Nodup
      · cases e with
        | instruction i =>
            rw [labelNames_append, labelNames_instruction, labelNames_nil, List.append_nil] at h
            exact absurd hp h
        | label l =>
            have hmem : l.name ∈ labelNames p := by
              by_contra hnew
              rw [labelNames_append, List.nodup_append] at h
              refine h ⟨hp, by simp, ?_⟩
              rintro a ha b hb rfl
              obtain rfl : a = l.name := by simpa using hb
              exact hnew ha
            obtain ⟨first, hfirst, hname⟩ := List.mem_map.1 hmem
            exact ⟨p, first, l, [], rfl, hp, hfirst, hname⟩
      · obtain ⟨before, first, l, after, rfl, hdistinct, hfirst, hname⟩ := ih hp
        exact ⟨before, first, l, after ++ [e], by simp, hdistinct, hfirst, hname⟩

/-- The first pass stops at the first repetition, and names the earlier definition. -/
theorem collect_of_repeats {p before after : Program} {first l : Label}
    (h : p.Repeats before first l after) :
    collect p = reject (.duplicateLabel l.name first.line) l.place := by
  obtain ⟨rfl, hdistinct, hmem, hname⟩ := h
  have hl : l.name ∈ before.labelNames := List.mem_map.2 ⟨first, hmem, hname⟩
  obtain ⟨first', hmem', hname', hdefinition⟩ := Program.exists_definition?_table hl
  -- the labels before are distinct, so the table holds the one definition of the name
  obtain rfl : first' = first :=
    List.inj_on_of_nodup_map hdistinct hmem' hmem (hname'.trans hname.symm)
  have hcollect : before.addressed.foldlM collectEntry SymbolTable.empty = .ok before.table :=
    collect_of_nodup hdistinct
  have haddressed : Program.addressed (before ++ .label l :: after) =
      before.addressed ++ (before.size, .label l) :: Program.addressedFrom before.size after := by
    rw [Program.addressed, Program.addressedFrom_append, Nat.zero_add]
    rfl
  rw [collect, haddressed, List.foldlM_append, hcollect, ok_bind, List.foldlM_cons]
  simp only [collectEntry, hdefinition]
  rfl

/-- **The first pass succeeds exactly on distinct labels.** -/
theorem collect_eq_ok_iff {p : Program} {table : SymbolTable} :
    collect p = .ok table ↔ p.labelNames.Nodup ∧ table = p.table := by
  constructor
  · intro h
    by_cases hp : p.labelNames.Nodup
    · rw [collect_of_nodup hp] at h
      exact ⟨hp, (Except.ok.inj h).symm⟩
    · obtain ⟨before, first, l, after, hrepeats⟩ := Program.exists_repeats hp
      rw [collect_of_repeats hrepeats] at h
      cases h
  · rintro ⟨hp, rfl⟩
    exact collect_of_nodup hp

/-- **Else the first pass stops at the first repetition.** -/
theorem collect_eq_error_iff {p : Program} {e : Fault} :
    collect p = .error e ↔
      ∃ before first l after, p.Repeats before first l after ∧
        e = .rejected ⟨.duplicateLabel l.name first.line, l.place⟩ := by
  constructor
  · intro h
    have hp : ¬ p.labelNames.Nodup := by
      intro hp
      rw [collect_of_nodup hp] at h
      cases h
    obtain ⟨before, first, l, after, hrepeats⟩ := Program.exists_repeats hp
    rw [collect_of_repeats hrepeats] at h
    exact ⟨before, first, l, after, hrepeats, (Except.error.inj h).symm⟩
  · rintro ⟨before, first, l, after, hrepeats, rfl⟩
    exact collect_of_repeats hrepeats

/-! ### Addresses of names -/

/-- The name stands for an address: that many instructions precede its definition. -/
def Program.Defines (p : Program) (name : Text) (address : Int) : Prop :=
  ∃ before l after, p = before ++ .label l :: after ∧ l.name = name ∧
    address = Program.size before

/-- **The address of a name is that of its definition.** -/
theorem address?_table {p : Program} (h : p.labelNames.Nodup) {name : Text} {address : Int} :
    p.table.freeze.address? name = some address ↔ p.Defines name address := by
  rw [← Program.map_fst_addresses] at h
  have haddress : p.table.freeze.address? name = some address ↔
      (name, address) ∈ p.addressed.filterMap Program.symbolOf :=
    Assoc.get?_eq_some_iff h name address
  rw [haddress, List.mem_filterMap]
  constructor
  · rintro ⟨⟨a, e⟩, hmem, hsymbol⟩
    obtain ⟨l, hl, hpair⟩ := Option.map_eq_some_iff.1 hsymbol
    obtain ⟨rfl, rfl⟩ := Prod.mk.inj hpair
    cases e with
    | instruction i => cases hl
    | label l' =>
        obtain rfl := Option.some_inj.1 hl
        obtain ⟨before, after, hp, rfl⟩ := Program.mem_addressed.1 hmem
        exact ⟨before, l', after, hp, rfl, rfl⟩
  · rintro ⟨before, l, after, hp, rfl, rfl⟩
    exact ⟨(Program.size before, .label l), Program.mem_addressed.2 ⟨before, after, hp, rfl⟩, rfl⟩

theorem Program.Defines.mem_labelNames {p : Program} {name : Text} {address : Int}
    (h : p.Defines name address) : name ∈ p.labelNames := by
  obtain ⟨before, l, after, rfl, rfl, -⟩ := h
  rw [labelNames_append, labelNames_label]
  simp

theorem Program.Defines.le_size {p : Program} {name : Text} {address : Int}
    (h : p.Defines name address) : 0 ≤ address ∧ address ≤ p.size := by
  obtain ⟨before, l, after, rfl, -, rfl⟩ := h
  rw [size_append]
  omega

/-! ### The second pass -/

/-- The second pass on one operand: a label becomes the offset to it. -/
def linkOperand (bias : Int) (table : SymbolTable) (address : Nat) (i : Instruction)
    (o : Operand) : Except Fault Operand :=
  match o.content with
  | .label name => do
      return { o with content := .immediate (← branchOffset bias table address i o name) }
  | _ => .ok o

/-- The second pass on one entry at its address. -/
def linkEntry (bias : Int) (table : SymbolTable) : Nat × Entry → Except Fault Entry
  | (_, .label l) => .ok (.label l)
  | (address, .instruction i) => do
      return .instruction
        { i with operands := ← i.operands.mapM (linkOperand bias table address i) }

theorem linkOperand_of_not_isLabel {bias : Int} {table : SymbolTable} {address : Nat}
    {i : Instruction} {o : Operand} (h : o.isLabel = false) :
    linkOperand bias table address i o = .ok o := by
  obtain ⟨content, column, text⟩ := o
  cases content with
  | label name => simp [Operand.isLabel, Operand.kind, Operand.Content.kind] at h
  | _ => rfl

/-- The second pass on the operands of an instruction is a walk. -/
theorem linkOperands_outcome (bias : Int) (table : SymbolTable) (address : Nat) (i : Instruction)
    (os : List Operand) :
    Outcome (fun os' => linkOperands bias table address i os = (os', none))
      (fun e => (linkOperands bias table address i os).2 = some e)
      (os.mapM (linkOperand bias table address i)) := by
  induction os with
  | nil => rfl
  | cons o os ih =>
      rw [List.mapM_cons]
      obtain ⟨content, column, text⟩ := o
      cases content with
      | label name =>
          simp only [linkOperand, linkOperands]
          cases branchOffset bias table address i ⟨.label name, column, text⟩ name with
          | error e => rfl
          | ok offset =>
              simp only [ok_bind, pure_eq_ok]
              refine Outcome.bind (ih.imp (fun _ h => h) fun e he => he) fun os' hos' => ?_
              simp [hos', Outcome]
      | _ =>
          simp only [linkOperand, linkOperands, ok_bind]
          refine Outcome.bind (ih.imp (fun _ h => h) fun e he => he) fun os' hos' => ?_
          simp [hos', Outcome]

theorem linkFrom_outcome (bias : Int) (table : SymbolTable) (address : Nat) (p : Program) :
    Outcome (fun q => linkFrom bias table address p = ⟨q, none⟩)
      (fun e => (linkFrom bias table address p).fault = some e)
      ((Program.addressedFrom address p).mapM (linkEntry bias table)) := by
  induction p generalizing address with
  | nil => rfl
  | cons entry p ih =>
      rw [Program.addressedFrom, List.mapM_cons]
      cases entry with
      | label l =>
          simp only [linkEntry, linkFrom, ok_bind]
          refine Outcome.bind ((ih address).imp (fun _ h => h) fun e he => he) fun q hq => ?_
          simp [hq, Outcome]
      | instruction i =>
          have hos := linkOperands_outcome bias table address i i.operands
          simp only [linkEntry]
          cases hwalk : i.operands.mapM (linkOperand bias table address i) with
          | error e =>
              obtain ⟨os, hpair⟩ :
                  ∃ os, linkOperands bias table address i i.operands = (os, some e) :=
                ⟨_, Prod.ext rfl (hos.of_error hwalk)⟩
              simp only [linkFrom, hpair, error_bind]
              rfl
          | ok os' =>
              simp only [linkFrom, hos.of_ok hwalk, ok_bind, pure_eq_ok]
              refine Outcome.bind ((ih (address + 1)).imp (fun _ h => h) fun e he => he)
                fun q hq => ?_
              simp [hq, Outcome]

/-- The second pass is a walk along the program. -/
theorem link_outcome (bias : Int) (table : SymbolTable) (p : Program) :
    Outcome (fun q => link bias table p = ⟨q, none⟩)
      (fun e => (link bias table p).fault = some e)
      (p.addressed.mapM (linkEntry bias table)) :=
  linkFrom_outcome bias table 0 p

/-- **Assembling is a sequence of walks**: along the lines, the labels, the operands and the
instructions. -/
theorem assemble_eq (isa : InstructionSet) (bias : Int) (source : Text) :
    assemble isa bias source = do
      let p ← parse isa source
      let table ← collect p
      let q ← p.addressed.mapM (linkEntry bias table.freeze)
      let words ← Program.encode q
      return ⟨q, table.freeze, words⟩ := by
  unfold assemble
  cases parse isa source with
  | error e => rfl
  | ok p =>
      simp only [ok_bind, resolve]
      cases collect p with
      | error e => rfl
      | ok table =>
          simp only [ok_bind]
          have hlink := link_outcome bias table.freeze p
          cases hwalk : p.addressed.mapM (linkEntry bias table.freeze) with
          | error e =>
              simp only [hlink.of_error hwalk]
              rfl
          | ok q =>
              simp only [hlink.of_ok hwalk]
              rfl

end ThumbAssembler
