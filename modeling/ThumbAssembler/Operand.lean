/-
**Operands.**

An operand is what an instruction acts on, together with where it stands in its line and how it was
written there.

Main definitions:

* `ThumbAssembler.OperandKind` — the five shapes of operands;
* `ThumbAssembler.Operand.Content` — what an operand denotes;
* `ThumbAssembler.Operand` — a content with its column and its spelling;
* `ThumbAssembler.Operand.value?` — the number that an operand stands for, if it has one;
* `ThumbAssembler.Operand.Content.render` — the canonical spelling of a content.
-/

import ThumbAssembler.Text.Number

set_option autoImplicit false

namespace ThumbAssembler

/-- The shapes of operands. -/
inductive OperandKind where
  | register | immediate | label | stackPointer | stackOffset
  deriving DecidableEq, Repr

/-- How a shape is named in messages. -/
def OperandKind.describe : OperandKind → Text
  | .register => "register".toList
  | .immediate => "immediate".toList
  | .label => "label".toList
  | .stackPointer => "sp".toList
  | .stackOffset => "[sp, #imm]".toList

namespace Operand

/-- What an operand denotes: a register by its index, a number, a label by its name, the stack
pointer, or the memory at a number of bytes above the stack pointer. -/
inductive Content where
  | register (index : Int)
  | immediate (value : Int)
  | label (name : Text)
  | stackPointer
  | stackOffset (bytes : Int)
  deriving DecidableEq, Repr

namespace Content

/-- The shape of a content. -/
def kind : Content → OperandKind
  | register _ => .register
  | immediate _ => .immediate
  | label _ => .label
  | stackPointer => .stackPointer
  | stackOffset _ => .stackOffset

/-- The number that a content stands for; labels and the bare stack pointer have none. -/
def value? : Content → Option Int
  | register index => some index
  | immediate value => some value
  | label _ => none
  | stackPointer => none
  | stackOffset bytes => some bytes

/-- The canonical spelling of a content. -/
def render : Content → Text
  | register index => 'r' :: decimal index
  | immediate value => '#' :: decimal value
  | label name => name
  | stackPointer => "sp".toList
  | stackOffset bytes =>
      if bytes = 0 then "[sp]".toList else "[sp, #".toList ++ decimal bytes ++ "]".toList

end Content

end Operand

/-- An operand: its content, its column in the line, and its spelling there. -/
structure Operand where
  content : Operand.Content
  column : Int := 0
  text : Text := []
  deriving DecidableEq, Repr

namespace Operand

/-- The shape of an operand. -/
def kind (o : Operand) : OperandKind := o.content.kind

/-- The number that an operand stands for. -/
def value? (o : Operand) : Option Int := o.content.value?

/-- The canonical spelling of an operand. -/
def render (o : Operand) : Text := o.content.render

/-- The operand is a reference to a label. -/
def isLabel (o : Operand) : Bool := o.kind = .label

end Operand

end ThumbAssembler
