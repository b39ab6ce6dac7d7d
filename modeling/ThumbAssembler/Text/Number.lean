/-
**Numbers as text.**

Integers are written in decimal, words and addresses in hexadecimal or binary with leading zeros.
Decimal text has a length limit in both directions: a number of more than `maxDigits` digits is
neither read nor printed.

Main definitions:

* `ThumbAssembler.decimal` — an integer in decimal, with a minus sign when negative;
* `ThumbAssembler.isPrintable` — the integer has at most `maxDigits` decimal digits;
* `ThumbAssembler.zeroPadded` — an integer in a base, filled with zeros to a width in which a minus
  sign counts;
* `ThumbAssembler.digitsValue` — the number that a list of digits denotes in a base.
-/

import ThumbAssembler.Text.Basic

set_option autoImplicit false

namespace ThumbAssembler

/-- The most decimal digits that a number may have to be read or printed. -/
def maxDigits : Nat := 4300

/-- The least natural number with more than `maxDigits` digits. -/
def printLimit : Nat := Nat.pow 10 maxDigits

/-- An integer is printable when it has at most `maxDigits` decimal digits. -/
def isPrintable (n : Int) : Bool := n.natAbs < printLimit

/-- The digits of an integer in a base, after a minus sign when it is negative. -/
def signedDigits (base : Nat) (n : Int) : Text :=
  if n < 0 then '-' :: Nat.toDigits base n.natAbs else Nat.toDigits base n.natAbs

/-- An integer in decimal. -/
def decimal (n : Int) : Text := signedDigits 10 n

/-- An integer in a base, with zeros after the sign up to the width; the sign counts. -/
def zeroPadded (base width : Nat) (n : Int) : Text :=
  if n < 0 then '-' :: (Nat.toDigits base n.natAbs).leftpad (width - 1) '0'
  else (Nat.toDigits base n.natAbs).leftpad width '0'

/-- The value of a digit of base at most sixteen; any other character counts as zero. -/
def digitValue (c : Char) : Nat :=
  if c.isDigit then c.toNat - 48
  else if 'a' ≤ c ∧ c ≤ 'f' then c.toNat - 87
  else if 'A' ≤ c ∧ c ≤ 'F' then c.toNat - 55
  else 0

/-- The number that a list of digits denotes, most significant digit first. -/
def digitsValue (base : Nat) (digits : Text) : Nat :=
  digits.foldl (fun n c => base * n + digitValue c) 0

@[simp] theorem digitsValue_nil (base : Nat) : digitsValue base [] = 0 := rfl

theorem digitsValue_append_one (base : Nat) (digits : Text) (c : Char) :
    digitsValue base (digits ++ [c]) = base * digitsValue base digits + digitValue c := by
  simp [digitsValue]

end ThumbAssembler
