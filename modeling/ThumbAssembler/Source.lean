/-
**Source texts.**

A source is read line by line.  A line holds any number of label definitions, then an instruction,
a directive (which starts with a full stop and is ignored) or nothing; a comment may follow.  The
first fault ends the reading.

Main definitions:

* `ThumbAssembler.labelPart?` — the label definition that a text starts with;
* `ThumbAssembler.Statement` — what stands on a line after its labels;
* `ThumbAssembler.ParsedLine` — the labels and the statement of a line;
* `ThumbAssembler.parseLine` — a line of the source;
* `ThumbAssembler.parse` — the program that a source spells.

Main results:

* `ThumbAssembler.labelPart_length` — a label definition uses up part of the line.
-/

import ThumbAssembler.Statement
import ThumbAssembler.Text.Lines

set_option autoImplicit false

namespace ThumbAssembler

/-! ### Label definitions -/

/-- A label definition at the start of a text: the blanks before the name, the name, the number of
characters up to and with the colon, and the text after it. -/
structure LabelPart where
  indent : Nat
  name : Text
  length : Nat
  rest : Text
  deriving DecidableEq, Repr

/-- The identifier that a text starts with. -/
def identifier? (t : Text) : Option Text :=
  match t with
  | c :: rest => if isIdentifierStart c then some (c :: rest.takeWhile isIdentifierPart) else none
  | [] => none

/-- The label definition that a text starts with: an identifier and a colon, with blanks before
either. -/
def labelPart? (t : Text) : Option LabelPart :=
  let body := t.trimStart
  match identifier? body with
  | none => none
  | some name =>
      match Text.trimStart (body.drop name.length) with
      | ':' :: rest => some ⟨t.length - body.length, name, t.length - rest.length, rest⟩
      | _ => none

/-- **A label definition uses up part of the text.** -/
theorem labelPart_length {t : Text} {part : LabelPart} (h : labelPart? t = some part) :
    part.rest.length < t.length := by
  unfold labelPart? at h
  simp only at h
  split at h
  · simp at h
  · rename_i name _
    split at h
    · rename_i rest hrest
      have h₁ := Text.length_trimStart_le t
      have h₂ := Text.length_trimStart_le (t.trimStart.drop name.length)
      rw [hrest] at h₂
      simp only [List.length_cons, List.length_drop] at h₂
      simp only [Option.some.injEq] at h
      subst h
      simp only
      omega
    · simp at h

/-- The labels that the rest of a line defines from a position on, with the position and the text
after them. -/
def labelsFrom (isa : InstructionSet) (line : SourceLine) (position : Nat) (t : Text) :
    Except Fault (List Label × Nat × Text) :=
  match _h : labelPart? t with
  | none => .ok ([], position, t)
  | some part =>
      let column := position + part.indent + 1
      if isa.isReserved part.name then
        reject (.reservedLabel part.name) ⟨line.number, column, part.name, line.text⟩
      else do
        let (labels, stop, rest) ← labelsFrom isa line (position + part.length) part.rest
        return (⟨part.name, line.number, column, line.text⟩ :: labels, stop, rest)
termination_by t.length
decreasing_by exact labelPart_length _h

/-! ### Lines -/

/-- What stands on a line after its labels. -/
inductive Statement where
  | blank
  | directive (name : Text)
  | instruction (i : Instruction)
  deriving DecidableEq, Repr

/-- The labels and the statement of a line. -/
structure ParsedLine where
  number : Nat
  labels : List Label
  statement : Statement
  deriving DecidableEq, Repr

/-- The entries that a line adds to the program. -/
def ParsedLine.entries (l : ParsedLine) : List Entry :=
  l.labels.map Entry.label ++
    match l.statement with
    | .instruction i => [.instruction i]
    | _ => []

/-- The statement that starts at a position of the code part of a line. -/
def statement (isa : InstructionSet) (line : SourceLine) (code : Text) (position : Nat)
    (rest : Text) : Except Fault Statement :=
  match rest.trimStart with
  | [] => .ok .blank
  | '.' :: _ => .ok (.directive rest.firstWord)
  | _ => do
      let tokens ← tokenize line.number code position
      return .instruction (← line.instruction isa tokens)

/-- A line of the source, by its number. -/
def parseLine (isa : InstructionSet) (number : Nat) (raw : Text) : Except Fault ParsedLine := do
  let expanded := raw.expandTabs
  let line : SourceLine := ⟨number, expanded.trimEnd⟩
  let code := (stripComment expanded).trimEnd
  let (labels, position, rest) ← labelsFrom isa line 0 code
  return ⟨number, labels, ← statement isa line code position rest⟩

/-- The lines of the source, the first with the given number. -/
def parseLines (isa : InstructionSet) : Nat → List Text → Except Fault (List ParsedLine)
  | _, [] => .ok []
  | number, raw :: rest => do
      let line ← parseLine isa number raw
      return line :: (← parseLines isa (number + 1) rest)

/-- The program that a source spells. -/
def parse (isa : InstructionSet) (source : Text) : Except Fault Program := do
  return (← parseLines isa 1 source.lines).flatMap ParsedLine.entries

end ThumbAssembler
