/-
**Faults and diagnostics.**

Whatever stops the assembler is a fault.  Nearly all faults are rejections of the source: a cause
and the place it concerns.  The other faults are limits of number texts, and formats or operands
that do not provide what an instruction needs.

Main definitions:

* `ThumbAssembler.Kind` — the five kinds of rejections;
* `ThumbAssembler.Place` — a line, a column, the token there and the text of the line;
* `ThumbAssembler.Cause` — why a source is rejected, with its wording `Cause.message`;
* `ThumbAssembler.Rejection` — a cause at a place;
* `ThumbAssembler.Fault` — everything that stops the assembler;
* `ThumbAssembler.reject` — the fault that a cause at a place gives rise to;
* `ThumbAssembler.Diagnostic` — a rejection as it is reported, with its layout
  `Diagnostic.format`.
-/

import ThumbAssembler.Field
import ThumbAssembler.Operand
import ThumbAssembler.Text.Quoted

set_option autoImplicit false

namespace ThumbAssembler

/-! ### Places and kinds -/

/-- The kinds of rejections. -/
inductive Kind where
  | internal | syntactic | undefinedLabel | duplicateLabel | range
  deriving DecidableEq, Repr

/-- How a kind is named in a report. -/
def Kind.name : Kind → Text
  | .internal => "internal".toList
  | .syntactic => "syntax".toList
  | .undefinedLabel => "undefined-label".toList
  | .duplicateLabel => "duplicate-label".toList
  | .range => "range".toList

/-- What a rejection points at.  Line zero stands for no line, column zero for no column. -/
structure Place where
  line : Int := 0
  column : Int := 0
  token : Text := []
  lineText : Text := []
  deriving DecidableEq, Repr

/-! ### Causes -/

/-- What the instruction grammar requires at some point of a line. -/
inductive Expectation where
  | mnemonic | operand | separator | stackPointer | offset | closingBracket
  deriving DecidableEq, Repr

/-- The wording of an expectation. -/
def Expectation.message : Expectation → Text
  | .mnemonic => "Expected a mnemonic".toList
  | .operand => "Expected an operand".toList
  | .separator => "Expected ',' or end of line".toList
  | .stackPointer => "Expected 'sp' after '['".toList
  | .offset => "Expected '#offset'".toList
  | .closingBracket => "Expected ']'".toList

/-- The number that does not fit a field: the offset of a branch, or the value for a named field. -/
inductive Subject where
  | branchOffset
  | fieldValue (name : Text)
  deriving DecidableEq, Repr

/-- The wording of a subject. -/
def Subject.message : Subject → Text
  | .branchOffset => "branch offset".toList
  | .fieldValue name => name ++ " value".toList

/-- Why a source is rejected. -/
inductive Cause where
  | malformedNumeral (numeral : Text)
  | bareNumeral (numeral : Text)
  | unexpectedCharacter (c : Char)
  | reservedLabel (name : Text)
  | expected (what : Expectation) (found : Text)
  | unknownMnemonic (mnemonic : Text)
  | registerOutOfRange (register : Text) (last : Int)
  | unsupportedRegister (register : Text)
  | unsupportedBase (base : Text)
  | operandMismatch (mnemonic : Text) (found : List OperandKind) (usages : List Text)
  | fixedOperand (mnemonic : Text) (required : Int) (found : Text)
  | tiedOperand (mnemonic : Text) (usage : Text)
  | duplicateLabel (name : Text) (firstLine : Int)
  | frozenTable (name : Text)
  | undefinedLabel (name : Text)
  | branchOutOfRange (mnemonic : Text) (label : Text) (offset : Int) (allowed : Field.Span)
  | unresolvedLabel (name : Text)
  | outOfRange (mnemonic : Text) (subject : Subject) (value : Int) (allowed : Field.Span)
  /-- A cause in the caller's own words; the first line belongs to a duplicate label. -/
  | stated (kind : Kind) (message : Text) (firstLine : Int)
  deriving DecidableEq, Repr

namespace Cause

/-- The kind of rejection a cause leads to. -/
def kind : Cause → Kind
  | duplicateLabel .. => .duplicateLabel
  | frozenTable .. => .internal
  | undefinedLabel .. => .undefinedLabel
  | branchOutOfRange .. => .range
  | unresolvedLabel .. => .internal
  | outOfRange .. => .range
  | stated kind .. => kind
  | _ => .syntactic

/-- The token found, or the end of the line when it is empty. -/
def foundText (token : Text) : Text := if token.isEmpty then "end of line".toList else token

/-- The shapes of operands, or a word for their absence. -/
def shapesText (kinds : List OperandKind) : Text :=
  if kinds.isEmpty then "no operands".toList
  else Text.joined ", ".toList (kinds.map OperandKind.describe)

/-- The wording of a cause. -/
def message : Cause → Text
  | malformedNumeral numeral => "Malformed numeral ".toList ++ Text.inQuotes ('#' :: numeral)
  | bareNumeral numeral =>
      "Immediate ".toList ++ Text.inQuotes numeral ++ " needs a '#' prefix".toList
  | unexpectedCharacter c => "Unexpected character ".toList ++ Text.quoted [c]
  | reservedLabel name =>
      Text.inQuotes name ++ " is a register or mnemonic and cannot be a label".toList
  | expected what found =>
      what.message ++ " (got ".toList ++ Text.quoted (foundText found) ++ ")".toList
  | unknownMnemonic mnemonic => "Unknown mnemonic ".toList ++ Text.inQuotes mnemonic
  | registerOutOfRange register last =>
      "Register ".toList ++ Text.inQuotes register ++ " out of range (r0-r".toList ++
        decimal last ++ ")".toList
  | unsupportedRegister register =>
      "Register ".toList ++ Text.inQuotes register ++ " is not supported".toList
  | unsupportedBase base =>
      "Only [sp, #imm] addressing is supported (got base ".toList ++ Text.inQuotes base ++
        ")".toList
  | operandMismatch mnemonic found usages =>
      "Bad operands for ".toList ++ Text.inQuotes mnemonic ++ " (".toList ++ shapesText found ++
        "); expected: ".toList ++ Text.joined "; ".toList usages
  | fixedOperand mnemonic required found =>
      Text.inQuotes mnemonic ++ " only accepts #".toList ++ decimal required ++
        " here (got ".toList ++ found ++ ")".toList
  | tiedOperand mnemonic usage =>
      Text.inQuotes mnemonic ++
        ": operand must repeat the destination register (syntax: ".toList ++ usage ++ ")".toList
  | duplicateLabel name firstLine =>
      "Label ".toList ++ Text.inQuotes name ++ " already defined on line ".toList ++
        decimal firstLine
  | frozenTable name => "Symbol table is frozen; cannot define ".toList ++ Text.inQuotes name
  | undefinedLabel name => "Undefined label ".toList ++ Text.inQuotes name
  | branchOutOfRange mnemonic label offset allowed =>
      mnemonic ++ ": branch to ".toList ++ Text.inQuotes label ++
        " out of range (offset ".toList ++ decimal offset ++ " words, allowed ".toList ++
        allowed.describe ++ ")".toList
  | unresolvedLabel name => "Label ".toList ++ Text.inQuotes name ++ " has not been resolved".toList
  | outOfRange mnemonic subject value allowed =>
      mnemonic ++ ": ".toList ++ subject.message ++ " ".toList ++ decimal value ++
        " out of range (allowed ".toList ++ allowed.describe ++ ")".toList
  | stated _ message _ => message

/-- The numbers in the wording of a cause that need not be short. -/
def numbers : Cause → List Int
  | fixedOperand _ required _ => [required]
  | branchOutOfRange _ _ offset allowed => offset :: allowed.numbers
  | outOfRange _ _ value allowed => value :: allowed.numbers
  | _ => []

/-- The line of the first definition, for a label that is defined again. -/
def firstLine? : Cause → Option Int
  | duplicateLabel _ firstLine => some firstLine
  | stated .duplicateLabel _ firstLine => some firstLine
  | _ => none

end Cause

/-! ### Faults -/

/-- A cause at a place. -/
structure Rejection where
  cause : Cause
  place : Place
  deriving DecidableEq, Repr

/-- Everything that stops the assembler. -/
inductive Fault where
  /-- The source is rejected. -/
  | rejected (r : Rejection)
  /-- A decimal numeral has too many digits to be read. -/
  | numeralTooLong (digits : Nat)
  /-- A number has too many digits to be printed. -/
  | numberTooLong
  /-- A field has no value for an operation. -/
  | field (d : Field.Defect)
  /-- A format has no field of this name. -/
  | missingField (name : Text)
  /-- An operand of this shape has no number. -/
  | valueless (kind : OperandKind)
  /-- A conditional format is used without a condition. -/
  | conditionless
  deriving DecidableEq, Repr

namespace Rejection

/-- The place in front of a message: a line, then a column if there is one. -/
def locationText (p : Place) : Text :=
  if p.line = 0 then []
  else if p.column = 0 then 'L' :: decimal p.line ++ ": ".toList
  else 'L' :: decimal p.line ++ ":".toList ++ decimal p.column ++ ": ".toList

/-- The message of a rejection, after its place. -/
def message (r : Rejection) : Text := locationText r.place ++ r.cause.message

end Rejection

/-- The wording of a limit on the digits of a number. -/
def digitLimitText (detail : Text) : Text :=
  "Exceeds the limit (".toList ++ decimal maxDigits ++
    " digits) for integer string conversion".toList ++ detail ++
    "; use sys.set_int_max_str_digits() to increase the limit".toList

/-- The message of a fault. -/
def Fault.message : Fault → Text
  | .rejected r => r.message
  | .numeralTooLong digits =>
      digitLimitText (": value has ".toList ++ decimal digits ++ " digits".toList)
  | .numberTooLong => digitLimitText []
  | .field d => d.message
  | .missingField name => name
  | .valueless .label => "'LabelOperand' object has no attribute 'value'".toList
  | .valueless _ => "'SpOperand' object has no attribute 'value'".toList
  | .conditionless => "a conditional format needs a condition".toList

/-- The given text, unless one of the numbers it prints is too long. -/
def printing (numbers : List Int) (text : Text) : Except Fault Text :=
  if numbers.all isPrintable then .ok text else .error .numberTooLong

/-- The fault that a cause at a place gives rise to; the message must be printable. -/
def rejection (cause : Cause) (place : Place) : Fault :=
  if cause.numbers.all isPrintable then .rejected ⟨cause, place⟩ else .numberTooLong

/-- Stops with the fault that a cause at a place gives rise to. -/
def reject {α : Type} (cause : Cause) (place : Place) : Except Fault α :=
  .error (rejection cause place)

/-- Operations on fields stop the assembler by their defects. -/
def liftField {α : Type} : Except Field.Defect α → Except Fault α
  | .ok a => .ok a
  | .error d => .error (.field d)

/-! ### Diagnostics -/

/-- A rejection as it is reported. -/
structure Diagnostic where
  kind : Kind
  message : Text
  place : Place
  deriving DecidableEq, Repr

/-- The report of a rejection. -/
def Rejection.diagnostic (r : Rejection) : Diagnostic where
  kind := r.cause.kind
  message := r.cause.message
  place := r.place

namespace Diagnostic

/-- The name of the source, with line and column as far as they are known. -/
def sourceText (filename : Option Text) (p : Place) : Text :=
  let name := match filename with
    | some name => if name.isEmpty then "<input>".toList else name
    | none => "<input>".toList
  name ++
    if p.line = 0 then []
    else ':' :: decimal p.line ++ if p.column = 0 then [] else ':' :: decimal p.column

/-- The line under a quoted source line that marks the token. -/
def caretLine (p : Place) : Text :=
  List.replicate (p.column - 1).toNat ' ' ++ List.replicate (max p.token.length 1) '^'

/-- The layout of a diagnostic: where, which kind, what; then the source line, and a line of carets
under the token. -/
def format (d : Diagnostic) (filename : Option Text) : Text :=
  sourceText filename d.place ++ ": ".toList ++ d.kind.name ++ " error: ".toList ++ d.message ++
    if d.place.lineText.isEmpty then []
    else
      "\n    ".toList ++ d.place.lineText ++
        if d.place.column = 0 then [] else "\n    ".toList ++ caretLine d.place

end Diagnostic

end ThumbAssembler
