/-
**Runs of a symbol table.**

A symbol table is defined into and frozen in any order.  Whatever the order, the table is the one
that the definitions before the first freeze make: a later definition is refused and leaves the
table as it was, and a frozen table stays frozen.  Its two dictionaries are written one after the
other, and after every operation they hold the same names in the same order.  So the table lists
every name once, where it was first defined, with the address and the label of its last definition,
and all ways of asking for a name agree on which names there are, whichever dictionary they read.

Main definitions:

* `ThumbAssembler.SymbolTable.Operation` — a definition or a freeze;
* `ThumbAssembler.SymbolTable.perform` — one operation, with its answer;
* `ThumbAssembler.SymbolTable.after` — a table after a sequence of operations;
* `ThumbAssembler.SymbolTable.taken` — the definitions before the first freeze;
* `ThumbAssembler.SymbolTable.InStep` — the two dictionaries hold the same names in the same order;
* `ThumbAssembler.lastDefinition?` — the last definition of a name;
* `ThumbAssembler.HoldsLast` — a dictionary holds the last definitions of names;
* `ThumbAssembler.SymbolTable.Answers` — what a table answers that holds given definitions.

Main results:

* `ThumbAssembler.SymbolTable.after_of_frozen` — **a frozen table never changes**;
* `ThumbAssembler.SymbolTable.after_eq` — only what comes before the first freeze counts;
* `ThumbAssembler.SymbolTable.InStep.perform`, `ThumbAssembler.SymbolTable.InStep.after` — **an
  operation keeps the two dictionaries in step**, and so does a run;
* `ThumbAssembler.HoldsLast.put` — a definition is held: a new name comes last, and a name that is
  there keeps its place;
* `ThumbAssembler.SymbolTable.after_operations` — a table after any sequence of operations.
-/

import Mathlib
import ThumbAssembler.SymbolTable

set_option autoImplicit false

namespace ThumbAssembler

/-! ### Definitions -/

/-- A label and the address that it is defined at. -/
structure Binding where
  label : Label
  address : Int
  deriving DecidableEq, Repr

/-- The name that a binding defines. -/
def Binding.name (b : Binding) : Text := b.label.name

/-- The last of some definitions that defines a name. -/
def lastDefinition? (name : Text) (ds : List Binding) : Option Binding :=
  ds.reverse.find? fun d => d.name = name

theorem lastDefinition?_concat (name : Text) (ds : List Binding) (d : Binding) :
    lastDefinition? name (ds ++ [d]) =
      if d.name = name then some d else lastDefinition? name ds := by
  rw [lastDefinition?, List.reverse_append, List.reverse_singleton, List.singleton_append,
    List.find?_cons]
  by_cases h : d.name = name <;> simp [h, lastDefinition?]

/-- A name has a last definition exactly when it is defined at all. -/
theorem lastDefinition?_isSome_iff (name : Text) (ds : List Binding) :
    (lastDefinition? name ds).isSome = true ↔ name ∈ ds.map Binding.name := by
  simp [lastDefinition?, List.find?_isSome]

/-- One more element comes last among the distinct ones, unless it has come before. -/
theorem eraseDups_concat {α : Type} [BEq α] [LawfulBEq α] [DecidableEq α] (l : List α) (a : α) :
    (l ++ [a]).eraseDups = if a ∈ l then l.eraseDups else l.eraseDups ++ [a] := by
  rw [List.eraseDups_append, List.removeAll]
  by_cases h : a ∈ l
  · simp [h]
  · simp [h, List.eraseDups_cons]

/-! ### One dictionary -/

/-- A dictionary holds some values of definitions: every name once, in order of first definition,
with the value of its last definition. -/
structure HoldsLast {α : Type} (m : List (Text × α)) (value : Binding → α) (ds : List Binding) :
    Prop where
  names_eq : m.map Prod.fst = (ds.map Binding.name).eraseDups
  nodup : (m.map Prod.fst).Nodup
  get?_eq : ∀ name, Assoc.get? name m = (lastDefinition? name ds).map value

namespace HoldsLast

variable {α : Type} {m : List (Text × α)} {value : Binding → α} {ds : List Binding}

theorem nil : HoldsLast [] value [] := ⟨rfl, List.nodup_nil, fun _ => rfl⟩

/-- **A definition is held**: a new name comes last, and a name that is there keeps its place. -/
theorem put (h : HoldsLast m value ds) (d : Binding) :
    HoldsLast (Assoc.put d.name (value d) m) value (ds ++ [d]) := by
  refine ⟨?_, ?_, fun name => ?_⟩
  · simp only [Assoc.keys_put, h.names_eq, List.mem_eraseDups, List.map_append, List.map_singleton,
      eraseDups_concat]
  · rw [Assoc.keys_put]
    split
    · exact h.nodup
    · rename_i hnew
      rw [← List.concat_eq_append]
      exact h.nodup.concat hnew
  · rw [lastDefinition?_concat]
    by_cases hname : d.name = name
    · rw [if_pos hname, ← hname, Assoc.get?_put_self, Option.map_some]
    · rw [if_neg hname, Assoc.get?_put_of_ne hname, h.get?_eq]

/-- A name stands beside a value exactly when its last definition has that value. -/
theorem mem_iff (h : HoldsLast m value ds) (name : Text) (v : α) :
    (name, v) ∈ m ↔ ∃ d, lastDefinition? name ds = some d ∧ value d = v := by
  rw [← Assoc.get?_eq_some_iff h.nodup, h.get?_eq, Option.map_eq_some_iff]

theorem get?_isSome_iff (h : HoldsLast m value ds) (name : Text) :
    (Assoc.get? name m).isSome = true ↔ name ∈ ds.map Binding.name := by
  rw [h.get?_eq, Option.isSome_map, lastDefinition?_isSome_iff]

end HoldsLast

namespace SymbolTable

/-! ### Operations -/

/-- An operation that changes a symbol table. -/
inductive Operation where
  | define (label : Label) (address : Int)
  | freeze
  deriving DecidableEq, Repr

/-- The binding that an operation defines. -/
def Operation.binding? : Operation → Option Binding
  | define label address => some ⟨label, address⟩
  | freeze => none

/-- The table after an operation, and the fault if the operation is refused. -/
def perform (table : SymbolTable) : Operation → SymbolTable × Except Fault Unit
  | .define label address => table.define label address
  | .freeze => (table.freeze, .ok ())

/-- The table after a sequence of operations, each of which may be refused. -/
def after (table : SymbolTable) (ops : List Operation) : SymbolTable :=
  ops.foldl (fun table op => (table.perform op).1) table

/-- The definitions that come before the first freeze. -/
def taken (ops : List Operation) : List Binding :=
  (ops.takeWhile (· ≠ .freeze)).filterMap Operation.binding?

theorem after_cons (table : SymbolTable) (op : Operation) (ops : List Operation) :
    table.after (op :: ops) = (table.perform op).1.after ops := rfl

theorem after_append (table : SymbolTable) (ops ops' : List Operation) :
    table.after (ops ++ ops') = (table.after ops).after ops' := List.foldl_append

/-! ### Freezing -/

theorem perform_of_frozen {table : SymbolTable} (h : table.frozen = true) (op : Operation) :
    (table.perform op).1 = table := by
  cases op with
  | define label address => rw [perform, define_of_frozen h]
  | freeze =>
      obtain ⟨addresses, definitions, frozen⟩ := table
      obtain rfl : frozen = true := h
      rfl

/-- **A frozen table never changes.** -/
theorem after_of_frozen {table : SymbolTable} (h : table.frozen = true) (ops : List Operation) :
    table.after ops = table := by
  induction ops with
  | nil => rfl
  | cons op ops ih => rw [after_cons, perform_of_frozen h, ih]

/-- **Only what comes before the first freeze counts**, apart from the freezing itself. -/
theorem after_eq {table : SymbolTable} (h : table.frozen = false) (ops : List Operation) :
    table.after ops =
      { table.after (ops.takeWhile (· ≠ .freeze)) with frozen := decide (.freeze ∈ ops) } := by
  induction ops generalizing table with
  | nil =>
      obtain ⟨addresses, definitions, frozen⟩ := table
      obtain rfl : frozen = false := h
      rfl
  | cons op ops ih =>
      cases op with
      | define label address =>
          have hopen : (table.perform (.define label address)).1.frozen = false := by
            rw [perform, define_of_open h]
            exact h
          simpa [after_cons] using ih hopen
      | freeze =>
          have hfrozen : (table.perform .freeze).1.frozen = true := rfl
          rw [after_cons, after_of_frozen hfrozen]
          simp [perform, freeze, after]

theorem frozen_after_empty (ops : List Operation) :
    (empty.after ops).frozen = decide (.freeze ∈ ops) := by
  rw [after_eq rfl]

/-! ### The two dictionaries -/

/-- The two dictionaries hold the same names in the same order. -/
def InStep (table : SymbolTable) : Prop :=
  table.addresses.map Prod.fst = table.definitions.map Prod.fst

namespace InStep

variable {table : SymbolTable}

/-- **An operation keeps the two dictionaries in step.** -/
theorem perform (h : table.InStep) (op : Operation) : (table.perform op).1.InStep := by
  cases op with
  | freeze => exact h
  | define label address =>
      cases hfrozen : table.frozen with
      | true => rwa [perform_of_frozen hfrozen]
      | false =>
          have hnames : table.addresses.map Prod.fst = table.definitions.map Prod.fst := h
          -- either both have the name, and it stays in its place, or it comes last in both
          rw [SymbolTable.perform, define_of_open hfrozen]
          simp only [InStep, putDefinition, putAddress, Assoc.keys_put]
          rw [hnames]

/-- **A run keeps the two dictionaries in step.** -/
theorem after (h : table.InStep) (ops : List Operation) : (table.after ops).InStep := by
  induction ops generalizing table with
  | nil => exact h
  | cons op ops ih => exact ih (h.perform op)

end InStep

/-- A table holds some definitions, in both dictionaries. -/
structure Records (table : SymbolTable) (ds : List Binding) : Prop where
  addresses : HoldsLast table.addresses Binding.address ds
  definitions : HoldsLast table.definitions Binding.label ds

/-- A definition is recorded. -/
theorem Records.define {table : SymbolTable} {ds : List Binding} (h : table.Records ds)
    (hopen : table.frozen = false) (label : Label) (address : Int) :
    (table.define label address).1.Records (ds ++ [⟨label, address⟩]) := by
  rw [define_of_open hopen]
  exact ⟨h.addresses.put ⟨label, address⟩, h.definitions.put ⟨label, address⟩⟩

/-- What is defined into a new table is recorded. -/
theorem records_after {ops : List Operation} (h : .freeze ∉ ops) :
    (empty.after ops).Records (ops.filterMap Operation.binding?) := by
  induction ops using List.reverseRecOn with
  | nil => exact ⟨.nil, .nil⟩
  | append_singleton ops op ih =>
      have hbefore : .freeze ∉ ops := fun hmem => h (List.mem_append_left _ hmem)
      have hopen : (empty.after ops).frozen = false := by
        rw [frozen_after_empty, decide_eq_false hbefore]
      cases op with
      | freeze => exact absurd (by simp) h
      | define label address =>
          rw [after_append, List.filterMap_append]
          exact (ih hbefore).define hopen label address

/-! ### What a table answers -/

/-- What a table answers that holds some definitions.  All answers are about the same names: those
that are defined. -/
structure Answers (table : SymbolTable) (ds : List Binding) : Prop where
  /-- Every name is listed once, in order of its first definition. -/
  names_toList : table.toList.map Prod.fst = (ds.map Binding.name).eraseDups
  nodup_toList : (table.toList.map Prod.fst).Nodup
  /-- The address beside a name is that of its last definition. -/
  mem_toList : ∀ name address, (name, address) ∈ table.toList ↔
    ∃ d, lastDefinition? name ds = some d ∧ d.address = address
  address?_eq : ∀ name, table.address? name = (lastDefinition? name ds).map Binding.address
  definition?_eq : ∀ name, table.definition? name = (lastDefinition? name ds).map Binding.label
  contains_iff : ∀ name, table.contains name = true ↔ name ∈ ds.map Binding.name
  address?_isSome_iff : ∀ name, (table.address? name).isSome = true ↔ name ∈ ds.map Binding.name
  definition?_isSome_iff : ∀ name,
    (table.definition? name).isSome = true ↔ name ∈ ds.map Binding.name
  size_eq : table.size = (ds.map Binding.name).eraseDups.length

theorem Records.answers {table : SymbolTable} {ds : List Binding} (h : table.Records ds) :
    table.Answers ds where
  names_toList := h.addresses.names_eq
  nodup_toList := h.addresses.nodup
  mem_toList := h.addresses.mem_iff
  address?_eq := h.addresses.get?_eq
  definition?_eq := h.definitions.get?_eq
  contains_iff := h.addresses.get?_isSome_iff
  address?_isSome_iff := h.addresses.get?_isSome_iff
  definition?_isSome_iff := h.definitions.get?_isSome_iff
  size_eq := by rw [size, ← h.addresses.names_eq, List.length_map]

/-- **A symbol table after any sequence of operations.**  It is the table that the definitions
before the first freeze make, frozen if there is a freeze.  A definition is taken before the first
freeze; after it, it is refused and changes nothing.  A table that is frozen on the way is frozen at
the end.  The two dictionaries hold the same names in the same order.  Every name is listed once, in
order of its first definition, with the address of its last; its definition is the last one; and all
answers agree on the names that are defined. -/
theorem after_operations (ops : List Operation) :
    empty.after ops =
        { empty.after (ops.takeWhile (· ≠ .freeze)) with frozen := decide (.freeze ∈ ops) } ∧
      (∀ before label address later, ops = before ++ .define label address :: later →
        (empty.after before).perform (.define label address) =
          if .freeze ∈ before then
            (empty.after before, .error (.rejected ⟨.frozenTable label.name, {}⟩))
          else (empty.after (before ++ [.define label address]), .ok ())) ∧
      (∀ before later, ops = before ++ later → (empty.after before).frozen = true →
        (empty.after ops).frozen = true) ∧
      (empty.after ops).InStep ∧ (empty.after ops).Answers (taken ops) := by
  have hempty : empty.InStep := rfl
  refine ⟨after_eq rfl ops, ?_, ?_, hempty.after ops, ?_⟩
  · intro before label address later _
    have hfrozen := frozen_after_empty before
    split
    · rename_i hfreeze
      rw [decide_eq_true hfreeze] at hfrozen
      exact define_of_frozen hfrozen label address
    · rename_i hfreeze
      rw [decide_eq_false hfreeze] at hfrozen
      rw [after_append, after_cons, perform, define_of_open hfrozen]
      rfl
  · rintro before later rfl hfrozen
    rw [after_append, after_of_frozen hfrozen, hfrozen]
  · have hrecords : (empty.after (ops.takeWhile (· ≠ .freeze))).Records (taken ops) := by
      refine records_after fun hmem => ?_
      simpa using List.mem_takeWhile_imp hmem
    rw [after_eq rfl]
    exact Records.answers ⟨hrecords.addresses, hrecords.definitions⟩

/-- A name that is defined again keeps its place, and one that comes after the freeze is left
out. -/
example :
    (empty.after [.define { name := "a".toList } 0, .define { name := "b".toList } 1,
      .define { name := "a".toList } 5, .freeze, .define { name := "c".toList } 9]).toList =
      [("a".toList, 5), ("b".toList, 1)] := by decide

end SymbolTable

end ThumbAssembler
