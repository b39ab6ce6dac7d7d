/-
**Assembling a source.**

Assembling reads a source, resolves its labels and encodes its instructions; the first fault of any
stage ends it.  A session assembles one source after another for a fixed target.  It gives up what
it keeps before the first stage and keeps the result after the last, so a source that fails leaves
it with nothing.

Main definitions:

* `ThumbAssembler.Assembly` — a resolved program, its symbol table and its words;
* `ThumbAssembler.assemble` — the assembly of a source;
* `ThumbAssembler.Report` — an image or a diagnostic, with `Report.isOk`, `Report.output`,
  `Report.words` and `Report.diagnostic?`;
* `ThumbAssembler.report` — the report on a source;
* `ThumbAssembler.Session` — a target, a row width and the last assembly;
* `ThumbAssembler.Session.assembling`, `ThumbAssembler.Session.assemble` — what a session does with
  one more source, and the session after it.

Main results:

* `ThumbAssembler.Session.assemble_of_ok`, `ThumbAssembler.Session.assemble_of_error` — what is
  assembled is kept, and after a fault nothing is;
* `ThumbAssembler.Session.assemble_forgets` — a session depends on its last source only.
-/

import ThumbAssembler.Encoding
import ThumbAssembler.Resolution
import ThumbAssembler.Source
import ThumbAssembler.Target
import ThumbAssembler.Thumb

set_option autoImplicit false

namespace ThumbAssembler

/-- A resolved program, its symbol table and its words. -/
structure Assembly where
  program : Program := []
  symbols : SymbolTable := SymbolTable.empty
  words : List Int := []
  deriving DecidableEq, Repr

/-- The assembly of a source for a processor that reads `bias` words ahead of a branch. -/
def assemble (isa : InstructionSet) (bias : Int) (source : Text) : Except Fault Assembly := do
  let p ← parse isa source
  let r := resolve bias p
  let symbols ← r.symbols
  let words ← r.program.encode
  return ⟨r.program, symbols, words⟩

/-! ### Reports -/

/-- An image with its program and words, or a diagnostic. -/
inductive Report where
  | success (output : Text) (program : Program) (words : List Int)
  | failure (d : Diagnostic)
  deriving DecidableEq, Repr

namespace Report

/-- The source was assembled. -/
def isOk : Report → Bool
  | success .. => true
  | failure _ => false

/-- The image; empty if the source was rejected. -/
def output : Report → Text
  | success output _ _ => output
  | failure _ => []

/-- The words; none if the source was rejected. -/
def words : Report → List Int
  | success _ _ words => words
  | failure _ => []

/-- The diagnostic of a source that was rejected. -/
def diagnostic? : Report → Option Diagnostic
  | success .. => none
  | failure d => some d

end Report

/-- The row width that is asked for, or else that of the target. -/
def chosenWidth (target : Target) (width : RowWidth) : RowWidth :=
  match width with
  | some n => some n
  | none => target.rowWidth

/-- The report on a source; a rejection becomes a diagnostic, and other faults remain. -/
def report (isa : InstructionSet) (target : Target) (width : RowWidth) (source : Text) :
    Except Fault Report :=
  match assemble isa target.bias source with
  | .ok a =>
      .ok (.success (image target.header (chosenWidth target width) a.words) a.program a.words)
  | .error (.rejected r) => .ok (.failure r.diagnostic)
  | .error e => .error e

/-- The image of a source. -/
def assembleImage (isa : InstructionSet) (target : Target) (width : RowWidth) (source : Text) :
    Except Fault Text := do
  let a ← assemble isa target.bias source
  return image target.header (chosenWidth target width) a.words

/-! ### Sessions -/

/-- A target, a row width and the assembly of the last source. -/
structure Session where
  target : Target
  width : RowWidth
  last : Assembly := {}
  deriving DecidableEq, Repr

namespace Session

/-- A session that has assembled nothing yet. -/
def start (target : Target) (width : RowWidth) : Session :=
  { target := target, width := chosenWidth target width }

/-- The session without the assembly of its last source. -/
def reset (s : Session) : Session := { s with last := {} }

/-- The session with the assembly of its last source. -/
def commit (a : Assembly) (s : Session) : Session := { s with last := a }

/-- One more source in a session.  The session is reset, the source goes through the stages, and the
result is committed; a fault in a stage leaves the session as it is by then. -/
def assembling (isa : InstructionSet) (source : Text) : Procedure Session (List Int) := do
  modify reset
  let a ← ThumbAssembler.assemble isa (← get).target.bias source
  modify (commit a)
  return a.words

/-- The session after one more source, and its words or the fault. -/
def assemble (s : Session) (isa : InstructionSet) (source : Text) :
    Session × Except Fault (List Int) :=
  (assembling isa source).applyTo s

/-- The image of the last source. -/
def image (s : Session) : Text := ThumbAssembler.image s.target.header s.width s.last.words

/-- The listing of the last source. -/
def listing (s : Session) : Except Fault Text :=
  ThumbAssembler.listing s.last.program s.last.words

section Assemble

open Procedure

variable {s : Session} {isa : InstructionSet} {source : Text}

/-- After the reset, the stages and the commit are left to do. -/
theorem assemble_eq :
    s.assemble isa source =
      applyTo (do
        let a ← ThumbAssembler.assemble isa s.reset.target.bias source
        modify (commit a)
        return a.words) s.reset := by
  rw [assemble, assembling, applyTo_bind_of_ok (applyTo_modify reset s),
    applyTo_bind_of_ok (applyTo_get s.reset)]

/-- What is assembled is kept. -/
theorem assemble_of_ok {a : Assembly}
    (h : ThumbAssembler.assemble isa s.target.bias source = .ok a) :
    s.assemble isa source = (s.reset.commit a, .ok a.words) := by
  have hstages : ThumbAssembler.assemble isa s.reset.target.bias source = .ok a := h
  rw [assemble_eq, hstages, applyTo_bind_of_ok (applyTo_lift _ _),
    applyTo_bind_of_ok (applyTo_modify (commit a) s.reset), applyTo_pure]

/-- After a fault nothing is kept. -/
theorem assemble_of_error {e : Fault}
    (h : ThumbAssembler.assemble isa s.target.bias source = .error e) :
    s.assemble isa source = (s.reset, .error e) := by
  have hstages : ThumbAssembler.assemble isa s.reset.target.bias source = .error e := h
  rw [assemble_eq, hstages, applyTo_bind_of_error (applyTo_lift _ _)]

variable (s isa source)

/-- **A session depends on its last source only.** -/
theorem assemble_forgets (a : Assembly) :
    (s.commit a).assemble isa source = s.assemble isa source := by
  have hreset : (s.commit a).reset = s.reset := rfl
  rw [assemble_eq, hreset, ← assemble_eq]

end Assemble

end Session

end ThumbAssembler
