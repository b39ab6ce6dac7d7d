/-
**Letter case.**

Mnemonics and registers are ASCII and are compared without regard to letter case.  Condition names
are compared in upper case, where two letters outside ASCII have an ASCII counterpart: the dotless
i and the long s.

Main definitions:

* `ThumbAssembler.Text.lower` — a text with its ASCII capitals replaced by small letters;
* `ThumbAssembler.Text.upper` — a text with every letter whose capital is an ASCII letter replaced
  by that capital.
-/

import ThumbAssembler.Text.Basic

set_option autoImplicit false

namespace ThumbAssembler

/-- The capital of a letter, when that capital is a single ASCII letter. -/
def upperChar (c : Char) : Char :=
  if c = Char.ofNat 0x131 then 'I' else if c = Char.ofNat 0x17F then 'S' else c.toUpper

namespace Text

/-- The text with its ASCII capitals replaced by small letters. -/
def lower (t : Text) : Text := t.map Char.toLower

/-- The text with every letter that has an ASCII capital replaced by it. -/
def upper (t : Text) : Text := t.map upperChar

@[simp] theorem length_lower (t : Text) : (lower t).length = t.length := by simp [lower]

end Text

end ThumbAssembler
