/-
**The names of labels are arbitrary.**

Resolution compares the names of labels with each other and prints them in messages; it uses them
for nothing else.  So a program whose labels are given other names, different ones for different
labels, is resolved in step with the original: to the same numbers under the new names, or to the
same point of failure.

Main definitions:

* `ThumbAssembler.Program.rename` — a program with other names for its labels;
* `ThumbAssembler.SymbolTable.rename`, `ThumbAssembler.Fault.rename` — likewise for a symbol table
  and for what a message quotes;
* `ThumbAssembler.Program.names` — the names of labels in a program, defined or referred to;
* `ThumbAssembler.Program.rewritten` — the operands that stand in place of references.

Main results:

* `ThumbAssembler.collect_rename` — the first pass under other names;
* `ThumbAssembler.linkOperands_rename`, `ThumbAssembler.linkFrom_rename` — the second pass, on the
  operands of an instruction and on a program, with what it leaves when it stops;
* `ThumbAssembler.resolve_rename` — **both passes do not depend on the names of labels**.
-/

import Mathlib
import ThumbAssembler.Proofs.LinkedProgram

set_option autoImplicit false

namespace ThumbAssembler

/-! ### Other names -/

section Rename

variable (f : Text → Text)

/-- The content of an operand with another name for a label. -/
def Operand.Content.rename : Operand.Content → Operand.Content
  | .label name => .label (f name)
  | content => content

/-- The operand with another name for a label; its spelling stays. -/
def Operand.rename (o : Operand) : Operand := { o with content := o.content.rename f }

/-- The label definition with another name. -/
def Label.rename (l : Label) : Label := { l with name := f l.name }

/-- The instruction with other names for the labels it refers to. -/
def Instruction.rename (i : Instruction) : Instruction :=
  { i with operands := i.operands.map (Operand.rename f) }

/-- The entry with other names for labels. -/
def Entry.rename : Entry → Entry
  | .label l => .label (l.rename f)
  | .instruction i => .instruction (i.rename f)

/-- The program with other names for its labels. -/
def Program.rename (p : Program) : Program := p.map (Entry.rename f)

/-- The symbol table with other names, in the same order and for the same addresses. -/
def SymbolTable.rename (table : SymbolTable) : SymbolTable :=
  { table with
    addresses := table.addresses.map (Prod.map f id)
    definitions := table.definitions.map (Prod.map f (Label.rename f)) }

/-- The rejection with other names for labels: in the message, and for a repeated label also in what
the message points at. -/
def Rejection.rename (r : Rejection) : Rejection :=
  match r.cause with
  | .duplicateLabel name first =>
      ⟨.duplicateLabel (f name) first, { r.place with token := f r.place.token }⟩
  | .undefinedLabel name => ⟨.undefinedLabel (f name), r.place⟩
  | .branchOutOfRange mnemonic name offset span =>
      ⟨.branchOutOfRange mnemonic (f name) offset span, r.place⟩
  | _ => r

/-- The fault with other names for labels. -/
def Fault.rename : Fault → Fault
  | .rejected r => .rejected (r.rename f)
  | e => e

end Rename

/-- The faults are of one class: rejections of the same kind at the same line and column, or no
rejections and the same. -/
inductive Fault.SameClass : Fault → Fault → Prop
  | rejected {r r' : Rejection} (kind : r'.cause.kind = r.cause.kind)
      (line : r'.place.line = r.place.line) (column : r'.place.column = r.place.column) :
      SameClass (.rejected r) (.rejected r')
  | other {e : Fault} (h : ∀ r, e ≠ .rejected r) : SameClass e e

/-- The name of the label that an operand refers to. -/
def Operand.labelName? (o : Operand) : Option Text :=
  match o.content with
  | .label name => some name
  | _ => none

/-- The names of labels in an entry. -/
def Entry.names : Entry → List Text
  | .label l => [l.name]
  | .instruction i => i.operands.filterMap Operand.labelName?

/-- The names of labels in a program, defined or referred to. -/
def Program.names (p : Program) : List Text := p.flatMap Entry.names

/-- Which operands of an instruction have become something else than a reference, and what. -/
def Instruction.rewritten (i i' : Instruction) : List (Option Operand) :=
  List.zipWith (fun o o' => if o.isLabel ∧ ¬ o'.isLabel then some o' else none)
    i.operands i'.operands

/-- The operands of `q` that stand in place of references of `p`, instruction by instruction. -/
def Program.rewritten (p q : Program) : List (List (Option Operand)) :=
  List.zipWith Instruction.rewritten p.instructions q.instructions

/-! ### What renaming keeps -/

section Keeps

variable {f : Text → Text}

theorem Operand.isLabel_rename (o : Operand) : (o.rename f).isLabel = o.isLabel := by
  obtain ⟨content, column, text⟩ := o
  cases content <;> rfl

theorem Operand.rename_of_not_isLabel {o : Operand} (h : o.isLabel = false) : o.rename f = o := by
  obtain ⟨content, column, text⟩ := o
  cases content with
  | label name => simp [isLabel, kind, Content.kind] at h
  | _ => rfl

theorem Instruction.rename_of_isResolved {i : Instruction} (h : i.isResolved = true) :
    i.rename f = i := by
  have hoperands : i.operands.map (Operand.rename f) = i.operands := by
    refine (List.map_congr_left fun o ho => ?_).trans (List.map_id _)
    exact Operand.rename_of_not_isLabel (by simpa using List.all_eq_true.1 h o ho)
  rw [rename, hoperands]

theorem Entry.size_rename (e : Entry) : (e.rename f).size = e.size := by
  cases e <;> rfl

theorem Fault.sameClass_rename (e : Fault) : e.SameClass (e.rename f) := by
  cases e with
  | rejected r =>
      obtain ⟨cause, place⟩ := r
      cases cause <;> exact .rejected rfl rfl rfl
  | _ => exact .other (by rintro r ⟨⟩)

/-- A rejection under other names. -/
theorem reject_rename {α : Type} {cause cause' : Cause} {place place' : Place}
    (hnumbers : cause'.numbers = cause.numbers)
    (hrename : Rejection.rename f ⟨cause, place⟩ = ⟨cause', place'⟩) :
    (reject cause' place' : Except Fault α) = .error ((rejection cause place).rename f) := by
  unfold reject rejection
  rw [hnumbers]
  split
  · rw [Fault.rename, hrename]
  · rfl

namespace Program

theorem instructions_rename (p : Program) :
    (p.rename f).instructions = p.instructions.map (Instruction.rename f) := by
  induction p with
  | nil => rfl
  | cons e p ih =>
      cases e with
      | label l => exact ih
      | instruction i => exact congrArg (List.cons (i.rename f)) ih

theorem labels_rename (p : Program) : (p.rename f).labels = p.labels.map (Label.rename f) := by
  induction p with
  | nil => rfl
  | cons e p ih =>
      cases e with
      | label l => exact congrArg (List.cons (l.rename f)) ih
      | instruction i => exact ih

theorem labelNames_rename (p : Program) : (p.rename f).labelNames = p.labelNames.map f := by
  rw [labelNames, labelNames, labels_rename, List.map_map, List.map_map]
  rfl

theorem addressedFrom_rename (address : Nat) (p : Program) :
    addressedFrom address (p.rename f) =
      (addressedFrom address p).map (Prod.map id (Entry.rename f)) := by
  induction p generalizing address with
  | nil => rfl
  | cons e p ih =>
      have hrest := ih (address + e.size)
      rw [← e.size_rename (f := f)] at hrest
      rw [rename, List.map_cons, addressedFrom, addressedFrom, List.map_cons]
      rw [rename] at hrest
      rw [hrest, e.size_rename]
      rfl

theorem table_rename (p : Program) : (p.rename f).table = p.table.rename f := by
  have hsymbol (x : Nat × Entry) :
      symbolOf (Prod.map id (Entry.rename f) x) = (symbolOf x).map (Prod.map f id) := by
    obtain ⟨a, e⟩ := x
    cases e <;> rfl
  have haddresses : (p.rename f).table.addresses = (p.table.rename f).addresses := by
    simp only [table, SymbolTable.rename, addressed, addressedFrom_rename, List.filterMap_map,
      List.map_filterMap]
    exact List.filterMap_congr fun x _ => hsymbol x
  have hdefinitions : (p.rename f).table.definitions = (p.table.rename f).definitions := by
    simp only [table, SymbolTable.rename, labels_rename, List.map_map]
    rfl
  exact SymbolTable.mk.injEq .. ▸ ⟨haddresses, hdefinitions, rfl⟩

/-- The same operands have been replaced under other names. -/
theorem rewritten_rename (p q : Program) :
    (p.rename f).rewritten (q.rename f) = p.rewritten q := by
  have hoperand (o o' : Operand) :
      (if (o.rename f).isLabel ∧ ¬ (o'.rename f).isLabel then some (o'.rename f) else none) =
        if o.isLabel ∧ ¬ o'.isLabel then some o' else none := by
    rw [o.isLabel_rename, o'.isLabel_rename]
    split
    · rename_i h
      rw [Operand.rename_of_not_isLabel (by simpa using h.2)]
    · rfl
  have hinstruction (i i' : Instruction) :
      (i.rename f).rewritten (i'.rename f) = i.rewritten i' := by
    simp only [Instruction.rewritten, Instruction.rename, List.zipWith_map, hoperand]
  rw [rewritten, rewritten, instructions_rename, instructions_rename, List.zipWith_map]
  simp only [hinstruction]

theorem labelNames_subset_names (p : Program) : p.labelNames ⊆ p.names := by
  intro name hname
  obtain ⟨l, hl, rfl⟩ := List.mem_map.1 hname
  obtain ⟨e, he, hlabel⟩ := List.mem_filterMap.1 hl
  refine List.mem_flatMap.2 ⟨e, he, ?_⟩
  cases e with
  | label l' =>
      obtain rfl := Option.some_inj.1 hlabel
      exact List.mem_singleton_self _
  | instruction i => cases hlabel

end Program

end Keeps

/-! ### Look-up under other names -/

section LookUp

variable {f : Text → Text}

/-- A name is found under its new name, if no other name in the table has it. -/
theorem SymbolTable.address?_rename {table : SymbolTable} {name : Text}
    (h : ∀ name' ∈ table.addresses.map Prod.fst, f name' = f name → name' = name) :
    (table.rename f).address? (f name) = table.address? name := by
  obtain ⟨addresses, definitions, frozen⟩ := table
  simp only [address?, rename] at h ⊢
  induction addresses with
  | nil => rfl
  | cons symbol addresses ih =>
      obtain ⟨name', address⟩ := symbol
      rw [List.map_cons, List.forall_mem_cons] at h
      by_cases heq : name' = name
      · simp [Assoc.get?, heq]
      · have hne : f name' ≠ f name := fun hf => heq (h.1 hf)
        simpa [Assoc.get?, heq, hne] using ih h.2

end LookUp

/-! ### The two passes -/

section Passes

variable {f : Text → Text}

/-- The first pass under other names: the same addresses, or the same repetition. -/
theorem collect_rename {p : Program}
    (hf : ∀ a ∈ p.labelNames, ∀ b ∈ p.labelNames, f a = f b → a = b) :
    collect (p.rename f) =
      ((collect p).map (SymbolTable.rename f)).mapError (Fault.rename f) := by
  by_cases hnodup : p.labelNames.Nodup
  · have hnodup' : (p.rename f).labelNames.Nodup := by
      rw [Program.labelNames_rename]
      exact hnodup.map_on fun a ha b hb => hf a ha b hb
    rw [collect_of_nodup hnodup, collect_of_nodup hnodup', Program.table_rename]
    rfl
  · obtain ⟨before, first, l, after, hrepeats⟩ := Program.exists_repeats hnodup
    rw [collect_of_repeats hrepeats]
    obtain ⟨rfl, hdistinct, hfirst, hname⟩ := hrepeats
    -- the labels before the repetition stay distinct, so it is the first one under the new names
    have hsub : before.labelNames ⊆ Program.labelNames (before ++ .label l :: after) := by
      rw [Program.labelNames_append]
      exact List.subset_append_left _ _
    have hrepeats' : Program.Repeats (Program.rename f (before ++ .label l :: after))
        (before.rename f) (first.rename f) (l.rename f) (Program.rename f after) :=
      { split := by simp [Program.rename, Entry.rename]
        distinct := by
          rw [Program.labelNames_rename]
          exact hdistinct.map_on fun a ha b hb => hf a (hsub ha) b (hsub hb)
        first_mem := by
          rw [Program.labels_rename]
          exact List.mem_map_of_mem hfirst
        name_eq := congrArg f hname }
    rw [collect_of_repeats hrepeats']
    exact reject_rename rfl rfl

variable (bias : Int) {table : SymbolTable} (address : Nat)

/-- The offset of a branch under other names. -/
theorem branchOffset_rename (i : Instruction) (o : Operand) {name : Text}
    (h : (table.rename f).address? (f name) = table.address? name) :
    branchOffset bias (table.rename f) address (i.rename f) (o.rename f) (f name) =
      (branchOffset bias table address i o name).mapError (Fault.rename f) := by
  have hplace : (i.rename f).place (o.rename f) = i.place o := rfl
  unfold branchOffset
  rw [h, hplace]
  cases table.address? name with
  | none => exact reject_rename rfl rfl
  | some target =>
      simp only [Instruction.rename]
      cases hfield : i.format.field "offset".toList with
      | error e =>
          unfold Format.field at hfield
          split at hfield
          · cases hfield
          · obtain rfl := Except.error.inj hfield
            rfl
      | ok field =>
          simp only [ok_bind]
          cases field.fits (target - (address + bias)) with
          | error d => rfl
          | ok fits =>
              cases fits with
              | true => rfl
              | false =>
                  simp only [liftField, ok_bind, Bool.false_eq_true, if_false]
                  split
                  · cases field.span with
                    | error d => rfl
                    | ok span => exact reject_rename rfl rfl
                  · rfl

/-- The second pass on operands under other names: the same references are replaced, by the same
numbers. -/
theorem linkOperands_rename (i : Instruction) {os : List Operand}
    (h : ∀ name ∈ os.filterMap Operand.labelName?,
      (table.rename f).address? (f name) = table.address? name) :
    linkOperands bias (table.rename f) address (i.rename f) (os.map (Operand.rename f)) =
      Prod.map (List.map (Operand.rename f)) (Option.map (Fault.rename f))
        (linkOperands bias table address i os) := by
  induction os with
  | nil => rfl
  | cons o os ih =>
      obtain ⟨content, column, text⟩ := o
      rw [List.map_cons]
      cases content with
      | label name =>
          rw [List.filterMap_cons, Operand.labelName?, List.forall_mem_cons] at h
          obtain ⟨hname, hos⟩ := h
          have hoffset := branchOffset_rename bias address i ⟨.label name, column, text⟩ hname
          simp only [linkOperands, Operand.rename, Operand.Content.rename] at hoffset ⊢
          rw [hoffset]
          cases branchOffset bias table address i ⟨.label name, column, text⟩ name with
          | error e => rfl
          | ok offset =>
              simp only [Except.mapError, ih hos]
              rfl
      | _ =>
          simp only [linkOperands, Operand.rename, Operand.Content.rename, ih h]
          rfl

/-- The second pass under other names, with what it leaves when it stops. -/
theorem linkFrom_rename {p : Program}
    (h : ∀ name ∈ p.names, (table.rename f).address? (f name) = table.address? name) :
    linkFrom bias (table.rename f) address (p.rename f) =
      ⟨(linkFrom bias table address p).program.rename f,
        (linkFrom bias table address p).fault.map (Fault.rename f)⟩ := by
  induction p generalizing address with
  | nil => rfl
  | cons e p ih =>
      rw [Program.names, List.flatMap_cons, List.forall_mem_append] at h
      obtain ⟨he, hp⟩ := h
      rw [Program.rename, List.map_cons]
      cases e with
      | label l =>
          have hrest := ih address hp
          rw [Program.rename] at hrest
          simp only [Entry.rename, linkFrom, hrest]
          rfl
      | instruction i =>
          have hoperands := linkOperands_rename bias address i he
          have hrest := ih (address + 1) hp
          rw [Program.rename] at hrest
          simp only [Entry.rename, linkFrom, Instruction.rename] at hoperands ⊢
          rw [hoperands]
          cases hlink : linkOperands bias table address i i.operands with
          | mk os fault =>
              cases fault with
              | some e => rfl
              | none =>
                  simp only [Prod.map, Option.map_none, hrest]
                  rfl

/-- Both passes under other names. -/
theorem resolve_rename_eq {p : Program}
    (hf : ∀ a ∈ p.names, ∀ b ∈ p.names, f a = f b → a = b) :
    resolve bias (p.rename f) =
      ⟨(resolve bias p).program.rename f,
        ((resolve bias p).symbols.map (SymbolTable.rename f)).mapError (Fault.rename f)⟩ := by
  have hsub := p.labelNames_subset_names
  have hcollect := collect_rename fun a ha b hb => hf a (hsub ha) b (hsub hb)
  unfold resolve
  rw [hcollect]
  cases htable : collect p with
  | error e => rfl
  | ok table =>
      obtain ⟨-, rfl⟩ := collect_eq_ok_iff.1 htable
      have haddress : ∀ name ∈ p.names,
          (p.table.freeze.rename f).address? (f name) = p.table.freeze.address? name := by
        intro name hname
        refine SymbolTable.address?_rename fun name' hname' heq => ?_
        have hdefined : name' ∈ p.labelNames := by rwa [← Program.map_fst_addresses]
        exact hf name' (hsub hdefined) name hname heq
      have hlink := linkFrom_rename bias 0 haddress
      have hfreeze : (p.table.rename f).freeze = p.table.freeze.rename f := rfl
      simp only [Except.map, Except.mapError, hfreeze, link, hlink]
      cases (linkFrom bias p.table.freeze 0 p).fault <;> rfl

end Passes

/-! ### Resolution -/

/-- How the resolution of a program and that of the program under other names go together: `r` is
the resolution of `p`, and `r'` that of `p` with its labels renamed by `f`. -/
structure Resolution.RenamesTo (f : Text → Text) (p : Program) (r r' : Resolution) : Prop where
  /-- Both succeed, or both fail. -/
  succeeds : (∃ table, r'.symbols = .ok table) ↔ ∃ table, r.symbols = .ok table
  /-- The symbol tables have the same addresses in the same order. -/
  symbols : ∀ table, r.symbols = .ok table → r'.symbols = .ok (table.rename f) ∧
    (table.rename f).toList = table.toList.map (Prod.map f id)
  /-- After success the instructions are the same, and so are their words. -/
  instructions : ∀ table, r.symbols = .ok table →
    r'.program.instructions = r.program.instructions ∧ r'.program.encode = r.program.encode
  /-- A failure is of the same class, at the same line and column. -/
  fault : ∀ e, r.symbols = .error e → ∃ e', r'.symbols = .error e' ∧ e.SameClass e'
  /-- The programs agree up to the names of labels, after success and after a failure. -/
  program : r'.program = r.program.rename f
  /-- The same operands have been replaced, by the same numbers. -/
  rewritten : (p.rename f).rewritten r'.program = p.rewritten r.program

/-- **The names of labels are arbitrary.**  Under other names, different ones for different labels,
a program is resolved alike: to the same operands, and with the same addresses under the new names;
or it fails alike, with the same operands replaced before the failure. -/
theorem resolve_rename (bias : Int) {p : Program} {f : Text → Text}
    (hf : ∀ a ∈ p.names, ∀ b ∈ p.names, f a = f b → a = b) :
    (resolve bias p).RenamesTo f p (resolve bias (p.rename f)) := by
  rw [resolve_rename_eq bias hf]
  refine ⟨?_, ?_, ?_, ?_, rfl, Program.rewritten_rename p _⟩
  · cases (resolve bias p).symbols <;> simp [Except.map, Except.mapError]
  · intro table htable
    rw [htable]
    exact ⟨rfl, rfl⟩
  · intro table htable
    -- a resolved program has no references left, so there is nothing to rename in it
    have hlinked := Program.linkedBy_of_resolve htable
    have hinstructions : ((resolve bias p).program.rename f).instructions =
        (resolve bias p).program.instructions := by
      rw [Program.instructions_rename]
      refine (List.map_congr_left fun i hi => ?_).trans (List.map_id _)
      exact Instruction.rename_of_isResolved (hlinked.isResolved hi)
    exact ⟨hinstructions, by rw [Program.encode, Program.encode, hinstructions]⟩
  · intro e he
    rw [he]
    exact ⟨e.rename f, rfl, e.sameClass_rename⟩

/-- Two labels with their names exchanged: the first branch is linked under either name, and the
second one fails. -/
theorem resolve_rename_exchanged :
    ∃ (p : Program) (f : Text → Text),
      parse Thumb.instructionSet "top: b top\nb stop".toList = .ok p ∧
      p.names = ["top".toList, "top".toList, "stop".toList] ∧
      f "top".toList = "stop".toList ∧ f "stop".toList = "top".toList ∧
      (resolve 3 p).symbols.toOption = none ∧
      p.rewritten (resolve 3 p).program = [[some ⟨.immediate (-3), 8, "top".toList⟩], [none]] ∧
      (resolve 3 p).RenamesTo f p (resolve 3 (p.rename f)) := by
  have heval : (parse Thumb.instructionSet "top: b top\nb stop".toList).toOption.any (fun p =>
      p.names = ["top".toList, "top".toList, "stop".toList] &&
        ((resolve 3 p).symbols.toOption = none &&
          p.rewritten (resolve 3 p).program =
            [[some ⟨.immediate (-3), 8, "top".toList⟩], [none]])) = true := by decide +kernel
  obtain ⟨p, hp, heval⟩ := exists_ok_of_any heval
  simp only [Bool.and_eq_true, decide_eq_true_eq] at heval
  obtain ⟨hnames, hfails, hrewritten⟩ := heval
  refine ⟨p, fun name => if name = "top".toList then "stop".toList else "top".toList, hp, hnames,
    rfl, rfl, hfails, hrewritten, resolve_rename 3 ?_⟩
  rw [hnames]
  decide

end ThumbAssembler
