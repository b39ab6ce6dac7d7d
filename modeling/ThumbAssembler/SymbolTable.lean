/-
**Symbol tables.**

A symbol table keeps two dictionaries by label name: the address that a name stands for, and the
definition it was last given.  A definition writes into one after the other, and a look-up reads one
of them: addresses, names and the size come from the first, definitions from the second.  Defining a
name again replaces its values where they stand.  A frozen table takes no more definitions.

Main definitions:

* `ThumbAssembler.SymbolTable` — addresses and definitions in order of first definition, and whether
  the table is frozen;
* `ThumbAssembler.SymbolTable.defining`, `ThumbAssembler.SymbolTable.define` — what a definition
  does, and the table after it;
* `ThumbAssembler.SymbolTable.freeze` — the table, closed to further definitions;
* `ThumbAssembler.SymbolTable.address?`, `ThumbAssembler.SymbolTable.definition?` — look-up.

Main results:

* `ThumbAssembler.SymbolTable.define_of_frozen` — a frozen table refuses a definition and stays as
  it is;
* `ThumbAssembler.SymbolTable.define_of_open` — any other table writes into both dictionaries.
-/

import ThumbAssembler.Procedure
import ThumbAssembler.Program

set_option autoImplicit false

namespace ThumbAssembler

/-- Addresses and definitions by name, each in order of first definition. -/
structure SymbolTable where
  addresses : List (Text × Int) := []
  definitions : List (Text × Label) := []
  frozen : Bool := false
  deriving DecidableEq, Repr

namespace SymbolTable

/-- The table in which nothing is defined. -/
def empty : SymbolTable := {}

/-- The address of a name. -/
def address? (table : SymbolTable) (name : Text) : Option Int := Assoc.get? name table.addresses

/-- The last definition of a name. -/
def definition? (table : SymbolTable) (name : Text) : Option Label :=
  Assoc.get? name table.definitions

/-- The name has an address. -/
def contains (table : SymbolTable) (name : Text) : Bool := (table.address? name).isSome

/-- The number of names that have an address. -/
def size (table : SymbolTable) : Nat := table.addresses.length

/-- Names and addresses, in order of first definition. -/
def toList (table : SymbolTable) : List (Text × Int) := table.addresses

/-- The table with an address for a name. -/
def putAddress (name : Text) (address : Int) (table : SymbolTable) : SymbolTable :=
  { table with addresses := Assoc.put name address table.addresses }

/-- The table with a definition under its name. -/
def putDefinition (label : Label) (table : SymbolTable) : SymbolTable :=
  { table with definitions := Assoc.put label.name label table.definitions }

/-- A definition of a label at an address.  A frozen table refuses; any other writes the address and
then the definition. -/
def defining (label : Label) (address : Int) : Procedure SymbolTable Unit := do
  if (← get).frozen then
    reject (.frozenTable label.name) {}
  modify (putAddress label.name address)
  modify (putDefinition label)

/-- The table after a definition, and the fault if it refuses. -/
def define (table : SymbolTable) (label : Label) (address : Int) :
    SymbolTable × Except Fault Unit :=
  (defining label address).applyTo table

/-- The table, closed to further definitions. -/
def freeze (table : SymbolTable) : SymbolTable := { table with frozen := true }

/-- A frozen table refuses every definition and stays as it is. -/
theorem define_of_frozen {table : SymbolTable} (h : table.frozen = true) (label : Label)
    (address : Int) :
    table.define label address = (table, .error (.rejected ⟨.frozenTable label.name, {}⟩)) := by
  obtain ⟨addresses, definitions, frozen⟩ := table
  obtain rfl : frozen = true := h
  rfl

/-- A table that is not frozen takes every definition. -/
theorem define_of_open {table : SymbolTable} (h : table.frozen = false) (label : Label)
    (address : Int) :
    table.define label address =
      (putDefinition label (putAddress label.name address table), .ok ()) := by
  obtain ⟨addresses, definitions, frozen⟩ := table
  obtain rfl : frozen = false := h
  rfl

end SymbolTable

end ThumbAssembler
