/-
**Numerals.**

A numeral is an optional sign followed by decimal digits, or by `0x` and hexadecimal digits.  All
digits are ASCII.  A decimal numeral of more than `maxDigits` digits has no value, leading zeros
included; hexadecimal numerals have no limit.

Main definitions:

* `ThumbAssembler.Numeral.splitSign` — the sign of a numeral and what follows it;
* `ThumbAssembler.Numeral.magnitude?` — the base and the digits of a numeral without sign;
* `ThumbAssembler.Numeral.value?` — the integer that a text denotes, if it is a numeral.
-/

import ThumbAssembler.Fault

set_option autoImplicit false

namespace ThumbAssembler

namespace Numeral

/-- An ASCII hexadecimal digit. -/
def isHexDigit (c : Char) : Bool :=
  c.isDigit || ('a' ≤ c && c ≤ 'f') || ('A' ≤ c && c ≤ 'F')

/-- The sign of a numeral and what follows it. -/
def splitSign : Text → Int × Text
  | '-' :: rest => (-1, rest)
  | '+' :: rest => (1, rest)
  | t => (1, t)

/-- The base and the digits of a numeral without sign. -/
def magnitude? (t : Text) : Option (Nat × Text) :=
  if t ≠ [] ∧ t.all Char.isDigit then some (10, t)
  else match t with
    | '0' :: x :: digits =>
        if (x = 'x' ∨ x = 'X') ∧ digits ≠ [] ∧ digits.all isHexDigit then some (16, digits)
        else none
    | _ => none

/-- The integer that a text denotes, or nothing if it is no numeral. -/
def value? (t : Text) : Except Fault (Option Int) :=
  match magnitude? (splitSign t).2 with
  | none => .ok none
  | some (base, digits) =>
      if base = 10 ∧ maxDigits < digits.length then .error (.numeralTooLong digits.length)
      else .ok (some ((splitSign t).1 * digitsValue base digits))

end Numeral

end ThumbAssembler
