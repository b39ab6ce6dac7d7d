/-
**Quoted texts.**

A quoted text stands between single quotes, or between double quotes when it holds a single quote
and no double quote.  The quote itself and the backslash are escaped, tab, line feed and carriage
return have a letter of their own, and every other unprintable character is written by its code
point in the shortest of three hexadecimal forms.

Main definitions:

* `ThumbAssembler.Text.quoted` — the quoted form of a text.
-/

import ThumbAssembler.Text.Number
import ThumbAssembler.Text.Printable

set_option autoImplicit false

namespace ThumbAssembler

namespace Text

/-- The mark that encloses a text: double quotes only for a text with a single quote and no double
quote. -/
def quoteMark (t : Text) : Char := if t.contains '\x27' && !t.contains '"' then '"' else '\x27'

/-- An unprintable character by its code point: two, four or eight hexadecimal digits. -/
def escapedCodePoint (n : Nat) : Text :=
  if n < 0x100 then "\\x".toList ++ zeroPadded 16 2 n
  else if n < 0x10000 then "\\u".toList ++ zeroPadded 16 4 n
  else "\\U".toList ++ zeroPadded 16 8 n

/-- One character inside a quoted text. -/
def quotedChar (mark c : Char) : Text :=
  if c = mark ∨ c = '\\' then ['\\', c]
  else if c = '\t' then "\\t".toList
  else if c = '\n' then "\\n".toList
  else if c = '\r' then "\\r".toList
  else if isPrintableChar c then [c]
  else escapedCodePoint c.toNat

/-- The quoted form of a text. -/
def quoted (t : Text) : Text :=
  quoteMark t :: (t.flatMap (quotedChar (quoteMark t)) ++ [quoteMark t])

end Text

end ThumbAssembler
