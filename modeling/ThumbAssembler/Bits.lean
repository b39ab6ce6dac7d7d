/-
**Bits of integers.**

Words and field values are integers read as infinite two's complement, so a negative number has
infinitely many leading ones.  Masking with `width` low ones is the remainder modulo the weight of
bit `width`, and shifting is multiplication or floor division by the weight of a bit; only the
bitwise `or`, with which the fields of a word are put together, needs a definition of its own.

Main definitions:

* `ThumbAssembler.Bits.or`, `ThumbAssembler.Bits.and` — bitwise disjunction and conjunction;
* `ThumbAssembler.Bits.bit` — one bit of an integer;
* `ThumbAssembler.Bits.weight` — the number that a single bit stands for;
* `ThumbAssembler.Bits.count` — the number of bits of an integer;
* `ThumbAssembler.Bits.shiftRight` — an integer without its lowest bits.

Main results:

* `ThumbAssembler.Bits.bit_or`, `ThumbAssembler.Bits.bit_and` — both act bit by bit;
* `ThumbAssembler.Bits.or_zero`, `ThumbAssembler.Bits.zero_or` — zero adds no bits;
* `ThumbAssembler.Bits.weight_succ` — each bit weighs twice as much as the one below it;
* `ThumbAssembler.Bits.count_le` — a number below the weight of bit `n` has at most `n` bits;
* `ThumbAssembler.Bits.shiftRight_eq_div` — shifting is floor division by the weight of a bit.
-/

set_option autoImplicit false

namespace ThumbAssembler

namespace Bits

/-- The weight of bit `n`: two to the power of `n`. -/
def weight (n : Nat) : Int := Nat.pow 2 n

theorem weight_succ (n : Nat) : weight (n + 1) = 2 * weight n := by
  have h : Nat.pow 2 (n + 1) = Nat.pow 2 n * 2 := rfl
  simp only [weight, h]
  omega

theorem weight_pos (n : Nat) : 0 < weight n := by
  induction n with
  | zero => decide
  | succ n ih =>
      rw [weight_succ]
      omega

/-- The number of bits of an integer without its sign; zero has none. -/
def count (x : Int) : Nat := if x = 0 then 0 else x.natAbs.log2 + 1

theorem count_le {x : Int} {n : Nat} (h : 0 ≤ x) (hx : x < weight n) : count x ≤ n := by
  unfold count
  split
  · exact Nat.zero_le n
  · rename_i hne
    have hn : x.natAbs ≠ 0 := by omega
    have hlt : x.natAbs < Nat.pow 2 n := by
      have : x < ((Nat.pow 2 n : Nat) : Int) := hx
      omega
    exact (Nat.log2_lt hn).2 hlt

/-- The integer without its `n` lowest bits. -/
def shiftRight (x : Int) (n : Nat) : Int := Int.shiftRight x n

theorem shiftRight_eq_div (x : Int) (n : Nat) : shiftRight x n = x / weight n :=
  Int.shiftRight_eq_div_pow x n

/-- The bits of `a` that are not bits of `b`. -/
def without (a b : Nat) : Nat := a &&& (a ^^^ b)

/-- Bit `i` of an integer. -/
def bit : Int → Nat → Bool
  | .ofNat a, i => a.testBit i
  | .negSucc a, i => !a.testBit i

/-- Bitwise disjunction of two integers. -/
def or : Int → Int → Int
  | .ofNat a, .ofNat b => .ofNat (a ||| b)
  | .ofNat a, .negSucc b => .negSucc (without b a)
  | .negSucc a, .ofNat b => .negSucc (without a b)
  | .negSucc a, .negSucc b => .negSucc (a &&& b)

/-- Bitwise conjunction of two integers. -/
def and : Int → Int → Int
  | .ofNat a, .ofNat b => .ofNat (a &&& b)
  | .ofNat a, .negSucc b => .ofNat (without a b)
  | .negSucc a, .ofNat b => .ofNat (without b a)
  | .negSucc a, .negSucc b => .negSucc (a ||| b)

theorem testBit_without (a b i : Nat) :
    (without a b).testBit i = (a.testBit i && !b.testBit i) := by
  simp only [without, Nat.testBit_and, Nat.testBit_xor]
  cases a.testBit i <;> cases b.testBit i <;> rfl

/-- **Disjunction acts bit by bit.** -/
theorem bit_or (x y : Int) (i : Nat) : bit (or x y) i = (bit x i || bit y i) := by
  cases x <;> cases y <;> simp only [or, bit, Nat.testBit_or, Nat.testBit_and, testBit_without] <;>
    simp [Bool.or_comm]

/-- **Conjunction acts bit by bit.** -/
theorem bit_and (x y : Int) (i : Nat) : bit (and x y) i = (bit x i && bit y i) := by
  cases x <;> cases y <;> simp only [and, bit, Nat.testBit_or, Nat.testBit_and, testBit_without] <;>
    simp [Bool.and_comm]

@[simp] theorem or_zero (x : Int) : or x 0 = x := by
  cases x with
  | ofNat a => simp [or]
  | negSucc a => simp [or, without]

@[simp] theorem zero_or (x : Int) : or 0 x = x := by
  cases x with
  | ofNat a => simp [or]
  | negSucc a => simp [or, without]

end Bits

end ThumbAssembler
