/-
**Instructions of the source.**

The grammar of an instruction is a mnemonic followed by operands with commas between them:

    instruction ::= identifier [ operand { "," operand } ]
    operand     ::= immediate | identifier | "[" identifier [ "," immediate ] "]"

Identifiers in operand position are registers, the stack pointer or labels; the identifier in
brackets is the stack pointer.  The shapes of the operands choose a format of the mnemonic, whose
slots may fix an operand's value or tie it to an earlier register.

Main definitions:

* `ThumbAssembler.SourceLine` — the line that an instruction stands on;
* `ThumbAssembler.SourceLine.operand`, `ThumbAssembler.SourceLine.operands` — the operands that a
  token list starts with, and the tokens after them;
* `ThumbAssembler.SourceLine.chooseFormat` — the format with the shapes of the operands;
* `ThumbAssembler.SourceLine.checkSlots` — fixed values and tied registers agree;
* `ThumbAssembler.SourceLine.instruction` — the instruction that a token list spells.

Main results:

* `ThumbAssembler.SourceLine.operand_length` — reading an operand uses up at least one token.
-/

import ThumbAssembler.Program
import ThumbAssembler.Token

set_option autoImplicit false

namespace ThumbAssembler

/-- A line of the source: its number and its text without trailing blanks. -/
structure SourceLine where
  number : Nat
  text : Text
  deriving DecidableEq, Repr

/-- The token that a list starts with; an exhausted list reads as the end of the line. -/
def nextToken : List Token → Token
  | [] => ⟨.endOfLine, [], 0⟩
  | t :: _ => t

namespace SourceLine

/-- The place of a token. -/
def place (line : SourceLine) (t : Token) : Place := ⟨line.number, t.column, t.text, line.text⟩

/-- The place of an operand. -/
def operandPlace (line : SourceLine) (o : Operand) : Place :=
  ⟨line.number, o.column, o.text, line.text⟩

/-- Stops because the next token is not what the grammar requires. -/
def unexpected {α : Type} (line : SourceLine) (what : Expectation) (ts : List Token) :
    Except Fault α :=
  reject (.expected what (nextToken ts).text) (line.place (nextToken ts))

/-- What an identifier in operand position denotes. -/
def identifierOperand (line : SourceLine) (t : Token) : Except Fault Operand :=
  match registerDigits? t.text with
  | some digits =>
      if maxDigits < digits.length then .error (.numeralTooLong digits.length)
      else if isRegisterIndex (digitsValue 10 digits) then
        .ok ⟨.register (digitsValue 10 digits), t.column, t.text⟩
      else reject (.registerOutOfRange t.text (registerCount - 1)) (line.place t)
  | none =>
      if t.text.lower = "sp".toList then .ok ⟨.stackPointer, t.column, t.text⟩
      else if t.text.lower = "pc".toList ∨ t.text.lower = "lr".toList then
        reject (.unsupportedRegister t.text) (line.place t)
      else .ok ⟨.label t.text, t.column, t.text⟩

/-- The end of a bracketed operand: the closing bracket, after `bytes` have been read. -/
def closeBracket (line : SourceLine) (start : Token) (bytes : Int) (ts : List Token) :
    Except Fault (Operand × List Token) :=
  match ts with
  | ⟨.closeBracket, _, column⟩ :: rest =>
      .ok (⟨.stackOffset bytes, start.column, line.text.slice (start.column - 1) column⟩, rest)
  | ts => line.unexpected .closingBracket ts

/-- The part of a bracketed operand after the stack pointer: an offset, or none for zero. -/
def bracketOffset (line : SourceLine) (start : Token) (ts : List Token) :
    Except Fault (Operand × List Token) :=
  match ts with
  | ⟨.comma, _, _⟩ :: ⟨.immediate bytes, _, _⟩ :: rest => line.closeBracket start bytes rest
  | ⟨.comma, _, _⟩ :: rest => line.unexpected .offset rest
  | ts => line.closeBracket start 0 ts

/-- A bracketed operand, after the opening bracket `start`. -/
def bracketOperand (line : SourceLine) (start : Token) (ts : List Token) :
    Except Fault (Operand × List Token) :=
  match ts with
  | ⟨.identifier, base, column⟩ :: rest =>
      if base.lower = "sp".toList then line.bracketOffset start rest
      else reject (.unsupportedBase base) (line.place ⟨.identifier, base, column⟩)
  | ts => line.unexpected .stackPointer ts

/-- The operand that a token list starts with, and the tokens after it. -/
def operand (line : SourceLine) (ts : List Token) : Except Fault (Operand × List Token) :=
  match ts with
  | ⟨.immediate value, text, column⟩ :: rest => .ok (⟨.immediate value, column, text⟩, rest)
  | ⟨.openBracket, text, column⟩ :: rest =>
      line.bracketOperand ⟨.openBracket, text, column⟩ rest
  | ⟨.identifier, text, column⟩ :: rest => do
      return (← line.identifierOperand ⟨.identifier, text, column⟩, rest)
  | ts => line.unexpected .operand ts

/-! ### Reading an operand uses up tokens -/

theorem closeBracket_length {line : SourceLine} {start : Token} {bytes : Int} {ts rest : List Token}
    {o : Operand} (h : line.closeBracket start bytes ts = .ok (o, rest)) :
    rest.length < ts.length := by
  unfold closeBracket at h
  split at h
  · simp only [Except.ok.injEq, Prod.mk.injEq] at h
    simp [← h.2]
  · simp [unexpected, reject] at h

theorem bracketOffset_length {line : SourceLine} {start : Token} {ts rest : List Token}
    {o : Operand} (h : line.bracketOffset start ts = .ok (o, rest)) : rest.length < ts.length := by
  unfold bracketOffset at h
  split at h
  · have := closeBracket_length h
    simp only [List.length_cons]
    omega
  · simp [unexpected, reject] at h
  · exact closeBracket_length h

theorem bracketOperand_length {line : SourceLine} {start : Token} {ts rest : List Token}
    {o : Operand} (h : line.bracketOperand start ts = .ok (o, rest)) : rest.length < ts.length := by
  unfold bracketOperand at h
  split at h
  · split at h
    · have := bracketOffset_length h
      simp only [List.length_cons]
      omega
    · simp [reject] at h
  · simp [unexpected, reject] at h

/-- **Reading an operand uses up at least one token.** -/
theorem operand_length {line : SourceLine} {ts rest : List Token} {o : Operand}
    (h : line.operand ts = .ok (o, rest)) : rest.length < ts.length := by
  unfold operand at h
  split at h
  · simp only [Except.ok.injEq, Prod.mk.injEq] at h
    simp [← h.2]
  · have := bracketOperand_length h
    simp only [List.length_cons]
    omega
  · rename_i text column rest'
    cases hi : line.identifierOperand ⟨.identifier, text, column⟩ with
    | error e => simp [hi, bind, Except.bind] at h
    | ok o' =>
        simp only [hi, bind, Except.bind, pure, Except.pure, Except.ok.injEq, Prod.mk.injEq] at h
        simp [← h.2]
  · simp [unexpected, reject] at h

/-- One or more operands with commas between them, and the tokens after them. -/
def operands (line : SourceLine) (ts : List Token) : Except Fault (List Operand × List Token) :=
  match _h : line.operand ts with
  | .error e => .error e
  | .ok (o, ⟨.comma, _, _⟩ :: rest) => do
      let (os, rest) ← line.operands rest
      return (o :: os, rest)
  | .ok (o, rest) => .ok ([o], rest)
termination_by ts.length
decreasing_by
  have := operand_length _h
  simp only [List.length_cons] at this
  omega

/-- The operands of an instruction: none when the line ends, else one or more. -/
def operandList (line : SourceLine) (ts : List Token) :
    Except Fault (List Operand × List Token) :=
  if (nextToken ts).kind = .endOfLine then .ok ([], ts) else line.operands ts

/-! ### Formats -/

/-- The first format with the shapes of the operands. -/
def chooseFormat (line : SourceLine) (mnemonic : Token) (formats : List Format)
    (os : List Operand) : Except Fault Format :=
  match formats.find? fun f => f.signature = os.map Operand.kind with
  | some f => .ok f
  | none =>
      reject (.operandMismatch mnemonic.text (os.map Operand.kind) (formats.map Format.usage))
        (line.place mnemonic)

/-- The number of an operand, which must have one. -/
def numberOf (o : Operand) : Except Fault Int :=
  match o.value? with
  | some value => .ok value
  | none => .error (.valueless o.kind)

/-- A slot with a fixed value accepts no other. -/
def checkFixed (line : SourceLine) (mnemonic : Token) (slot : Slot) (o : Operand) :
    Except Fault Unit :=
  match slot.fixed with
  | none => .ok ()
  | some required => do
      if (← numberOf o) = required then return ()
      else reject (.fixedOperand mnemonic.text required o.text) (line.operandPlace o)

/-- A tied slot repeats the register that was placed in its field. -/
def checkTie (line : SourceLine) (mnemonic : Token) (usage : Text) (placed : List (Text × Int))
    (slot : Slot) (o : Operand) : Except Fault Unit :=
  match slot.tie with
  | none => .ok ()
  | some field => do
      if some (← numberOf o) = Assoc.get? field placed then return ()
      else reject (.tiedOperand mnemonic.text usage) (line.operandPlace o)

/-- The registers placed in fields so far, after one more operand. -/
def placeRegister (placed : List (Text × Int)) (slot : Slot) (o : Operand) : List (Text × Int) :=
  match slot.field, slot.kind, o.value? with
  | some field, .register, some value => Assoc.put field value placed
  | _, _, _ => placed

/-- Every operand agrees with its slot's fixed value and with the register its slot is tied to. -/
def checkSlotsFrom (line : SourceLine) (mnemonic : Token) (usage : Text)
    (placed : List (Text × Int)) : List (Slot × Operand) → Except Fault Unit
  | [] => .ok ()
  | (slot, o) :: rest => do
      line.checkFixed mnemonic slot o
      line.checkTie mnemonic usage placed slot o
      line.checkSlotsFrom mnemonic usage (placeRegister placed slot o) rest

/-- The operands agree with the fixed values and ties of a format. -/
def checkSlots (line : SourceLine) (mnemonic : Token) (f : Format) (os : List Operand) :
    Except Fault Unit :=
  line.checkSlotsFrom mnemonic f.usage [] (f.slots.zip os)

/-! ### Instructions -/

/-- The instruction with a mnemonic, its candidates and its operands. -/
def buildInstruction (line : SourceLine) (mnemonic : Token) (candidates : Candidates)
    (os : List Operand) : Except Fault Instruction := do
  let f ← line.chooseFormat mnemonic candidates.formats os
  line.checkSlots mnemonic f os
  return {
    mnemonic := mnemonic.text.lower
    format := f
    operands := os
    condition := candidates.condition
    line := line.number
    column := mnemonic.column
    text := line.text }

/-- The instruction that a token list spells. -/
def instruction (isa : InstructionSet) (line : SourceLine) (ts : List Token) :
    Except Fault Instruction :=
  match ts with
  | ⟨.identifier, text, column⟩ :: rest =>
      let mnemonic : Token := ⟨.identifier, text, column⟩
      match isa.lookup text with
      | none => reject (.unknownMnemonic text) (line.place mnemonic)
      | some candidates => do
          let (os, rest) ← line.operandList rest
          if (nextToken rest).kind = .endOfLine then line.buildInstruction mnemonic candidates os
          else line.unexpected .separator rest
  | ts => line.unexpected .mnemonic ts

end SourceLine

end ThumbAssembler
