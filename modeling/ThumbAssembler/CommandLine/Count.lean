/-
**Integers on the command line.**

An integer argument may have blanks around it, a sign, decimal digits of any script, and single
underscores between digits.  It has at most `maxDigits` digits.

Main definitions:

* `ThumbAssembler.isPadding` — the blanks that may stand around an integer;
* `ThumbAssembler.digitRun?` — the value of digits with single underscores between them;
* `ThumbAssembler.integer?` — the integer that an argument denotes.
-/

import ThumbAssembler.Text.Blank
import ThumbAssembler.Text.Digit
import ThumbAssembler.Text.Number

set_option autoImplicit false

namespace ThumbAssembler

/-- The blanks that may stand around an integer: all but the four ASCII separators. -/
def isPadding (c : Char) : Bool := isBlank c && !(0x1C ≤ c.toNat && c.toNat ≤ 0x1F)

/-- The digits of a run, in which every underscore stands between two digits. -/
def digitRun? : Text → Option (List Nat)
  | [] => none
  | [c] => (digitOfAnyScript? c).map fun d => [d]
  | c :: '_' :: rest => do return (← digitOfAnyScript? c) :: (← digitRun? rest)
  | c :: rest => do return (← digitOfAnyScript? c) :: (← digitRun? rest)

/-- The number with the given decimal digits, unless they are too many. -/
def boundedValue? (digits : List Nat) : Option Nat :=
  if maxDigits < digits.length then none else some (digits.foldl (fun n d => 10 * n + d) 0)

/-- The text without the padding at either end. -/
def stripPadding (t : Text) : Text :=
  ((t.dropWhile isPadding).reverse.dropWhile isPadding).reverse

/-- The integer that an argument denotes. -/
def integer? (t : Text) : Option Int :=
  match stripPadding t with
  | '-' :: digits => do return -(← boundedValue? (← digitRun? digits))
  | '+' :: digits => do return (← boundedValue? (← digitRun? digits))
  | digits => do return (← boundedValue? (← digitRun? digits))

end ThumbAssembler
