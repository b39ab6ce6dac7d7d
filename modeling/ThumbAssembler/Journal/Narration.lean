/-
**What assembling a source logs.**

Every stage of assembling tells what it has done: ignored directives, the size of the parsed
program, the address of each label, the number of words, and at the end the success or the reason
of the rejection.  A stage that fails leaves the records made before the failure.

Main definitions:

* `ThumbAssembler.readableLines` — the lines before the first that cannot be read;
* `ThumbAssembler.boundLabels` — the labels before the first that is defined again;
* `ThumbAssembler.narration` — the records of assembling a source.
-/

import ThumbAssembler.Assembly
import ThumbAssembler.Journal.Record

set_option autoImplicit false

namespace ThumbAssembler

/-- The logger of the whole library. -/
def libraryLogger : Text := "parm_asm".toList

/-- The logger of a part of the library. -/
def partLogger (part : String) : Text := libraryLogger ++ '.' :: part.toList

/-- The lines before the first that cannot be read. -/
def readableLines (isa : InstructionSet) : Nat → List Text → List ParsedLine
  | _, [] => []
  | number, raw :: rest =>
      match parseLine isa number raw with
      | .ok line => line :: readableLines isa (number + 1) rest
      | .error _ => []

/-- The record of an ignored directive. -/
def directiveRecord? (line : ParsedLine) : Option Record :=
  match line.statement with
  | .directive name =>
      some ⟨Level.debug, partLogger "parser",
        'L' :: decimal line.number ++ ": ignoring directive ".toList ++ name⟩
  | _ => none

/-- The record of a parsed program. -/
def parsedRecord (p : Program) : Record :=
  ⟨Level.debug, partLogger "parser",
    "Parsed ".toList ++ decimal p.size ++ " instruction(s), ".toList ++
      decimal p.labels.length ++ " label(s)".toList⟩

/-- The labels with their addresses, before the first that is defined again. -/
def boundLabels (seen : List Text) : List (Nat × Entry) → List (Nat × Label)
  | [] => []
  | (_, .instruction _) :: rest => boundLabels seen rest
  | (address, .label l) :: rest =>
      if seen.contains l.name then [] else (address, l) :: boundLabels (l.name :: seen) rest

/-- The record of a label and its address. -/
def labelRecord (bound : Nat × Label) : Record :=
  ⟨Level.debug, partLogger "resolver",
    "Label ".toList ++ bound.2.name ++ " = ".toList ++ decimal bound.1⟩

/-- The record at the end of the first pass. -/
def firstPassRecord (p : Program) : Record :=
  ⟨Level.debug, partLogger "resolver",
    "Pass 1: ".toList ++ decimal p.labels.length ++ " label(s), ".toList ++ decimal p.size ++
      " word(s)".toList⟩

/-- The records of a successful end. -/
def successRecords (target : Target) (a : Assembly) : List Record :=
  [⟨Level.debug, partLogger "encoder",
      "Encoded ".toList ++ decimal a.words.length ++ " word(s)".toList⟩,
   ⟨Level.info, partLogger "assembler",
      "Assembled ".toList ++ decimal a.words.length ++ " instruction(s), ".toList ++
        decimal a.symbols.size ++ " label(s) for target ".toList ++ target.name⟩]

/-- The record of a rejected source; other faults are not logged. -/
def failureRecords : Fault → List Record
  | .rejected r =>
      [⟨Level.debug, partLogger "assembler", "Assembly failed: ".toList ++ r.message⟩]
  | _ => []

/-- The records of the stages after parsing, up to the end or the failure. -/
def stageRecords (p : Program) : List Record :=
  parsedRecord p :: (boundLabels [] p.addressed).map labelRecord ++
    match collect p with
    | .ok _ => [firstPassRecord p]
    | .error _ => []

/-- The records of assembling a source. -/
def narration (isa : InstructionSet) (target : Target) (source : Text) : List Record :=
  (readableLines isa 1 source.lines).filterMap directiveRecord? ++
    (match parse isa source with
      | .ok p => stageRecords p
      | .error _ => []) ++
    match assemble isa target.bias source with
    | .ok a => successRecords target a
    | .error e => failureRecords e

end ThumbAssembler
