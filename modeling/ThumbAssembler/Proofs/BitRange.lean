/-
**Ranges of bits.**

A field occupies a range of the bits of a word.  This module reads such a range as an unsigned
number, shows that disjunction acts on every range separately, and that a number placed in one range
of an empty word leaves every disjoint range empty.  Integers are infinite two's complement
throughout, so nothing here assumes that a word is not negative.

Main definitions:

* `ThumbAssembler.Bits.window` — the number in a range of bits.

Main results:

* `ThumbAssembler.Bits.eq_of_bit_eq` — an integer is determined by its bits;
* `ThumbAssembler.Bits.bit_window` — the bits of a range;
* `ThumbAssembler.Bits.window_or`, `ThumbAssembler.Bits.or_div` — **disjunction acts on every range
  separately**;
* `ThumbAssembler.Bits.window_mul_weight_self`, `ThumbAssembler.Bits.window_mul_weight_of_disjoint`
  — a number placed in a range is read back there, and leaves the disjoint ranges empty.
-/

import Mathlib
import ThumbAssembler.Bits

set_option autoImplicit false

namespace ThumbAssembler

namespace Bits

/-! ### Weights -/

theorem weight_eq_pow (n : Nat) : weight n = 2 ^ n := by
  induction n with
  | zero => rfl
  | succ n ih => rw [weight_succ, ih, pow_succ, mul_comm]

theorem weight_add (m n : Nat) : weight (m + n) = weight m * weight n := by
  rw [weight_eq_pow, weight_eq_pow, weight_eq_pow, pow_add]

theorem weight_le_weight {m n : Nat} (h : m ≤ n) : weight m ≤ weight n := by
  obtain ⟨k, rfl⟩ := Nat.exists_eq_add_of_le h
  rw [weight_add]
  exact le_mul_of_one_le_right (weight_pos m).le (weight_pos k)

theorem weight_eq_natCast (n : Nat) : weight n = ((2 ^ n : Nat) : Int) := by
  rw [weight_eq_pow]
  push_cast
  rfl

/-! ### Bits as remainders -/

/-- Bit `i` is the parity of the quotient by its weight. -/
theorem bit_eq_decide (x : Int) (i : Nat) : bit x i = decide (x / weight i % 2 = 1) := by
  cases x with
  | ofNat a =>
      rw [bit, Nat.testBit_eq_decide_div_mod_eq, weight_eq_natCast, Int.ofNat_eq_natCast]
      norm_cast
  | negSucc a =>
      have hdiv : Int.negSucc a / weight i = -(((a / 2 ^ i : Nat) : Int) + 1) := by
        rw [Int.negSucc_ediv a (weight_pos i), weight_eq_natCast]
        rfl
      rw [hdiv, bit, Nat.testBit_eq_decide_div_mod_eq, ← decide_not, decide_eq_decide]
      omega

theorem bit_div (x : Int) (n i : Nat) : bit (x / weight n) i = bit x (n + i) := by
  rw [bit_eq_decide, bit_eq_decide, Int.ediv_ediv_of_nonneg (weight_pos n).le, weight_add]

theorem bit_mod (x : Int) (n i : Nat) : bit (x % weight n) i = (decide (i < n) && bit x i) := by
  rw [bit_eq_decide, bit_eq_decide]
  by_cases hi : i < n
  · -- the part that the remainder drops is a multiple of twice the weight of bit `i`
    obtain ⟨k, rfl⟩ : ∃ k, n = i + (k + 1) := ⟨n - i - 1, by omega⟩
    have hsplit : x % weight (i + (k + 1)) =
        x + weight i * (2 * -(weight k * (x / weight (i + (k + 1))))) := by
      rw [Int.emod_def, weight_add, weight_succ]
      ring
    have hdiv : x % weight (i + (k + 1)) / weight i =
        x / weight i + 2 * -(weight k * (x / weight (i + (k + 1)))) := by
      rw [hsplit, Int.add_mul_ediv_left _ _ (weight_pos i).ne']
    simp only [hi, decide_true, Bool.true_and, hdiv, Int.add_mul_emod_self_left]
  · have hnonneg : 0 ≤ x % weight n := Int.emod_nonneg _ (weight_pos n).ne'
    have hlt : x % weight n < weight i :=
      lt_of_lt_of_le (Int.emod_lt_of_pos _ (weight_pos n)) (weight_le_weight (by omega))
    simp [hi, Int.ediv_eq_zero_of_lt hnonneg hlt]

/-- The bits of a natural number end. -/
theorem bit_ofNat_of_lt {a i : Nat} (h : a < 2 ^ i) : bit (Int.ofNat a) i = false :=
  Nat.testBit_lt_two_pow h

/-- The bits of a negative number do not end. -/
theorem bit_negSucc_of_lt {a i : Nat} (h : a < 2 ^ i) : bit (Int.negSucc a) i = true := by
  rw [bit, Nat.testBit_lt_two_pow h]
  rfl

/-- **An integer is determined by its bits.** -/
theorem eq_of_bit_eq {x y : Int} (h : ∀ i, bit x i = bit y i) : x = y := by
  have hfar (a b : Nat) : bit (Int.ofNat a) (a + b) ≠ bit (Int.negSucc b) (a + b) := by
    have ha : a < 2 ^ (a + b) := lt_of_le_of_lt (Nat.le_add_right a b) Nat.lt_two_pow_self
    have hb : b < 2 ^ (a + b) := lt_of_le_of_lt (Nat.le_add_left b a) Nat.lt_two_pow_self
    rw [bit_ofNat_of_lt ha, bit_negSucc_of_lt hb]
    exact Bool.false_ne_true
  cases x with
  | ofNat a =>
      cases y with
      | ofNat b => exact congrArg Int.ofNat (Nat.eq_of_testBit_eq h)
      | negSucc b => exact absurd (h (a + b)) (hfar a b)
  | negSucc a =>
      cases y with
      | ofNat b => exact absurd (h (b + a)).symm (hfar b a)
      | negSucc b =>
          refine congrArg Int.negSucc (Nat.eq_of_testBit_eq fun i => ?_)
          exact Bool.not_inj (h i)

/-! ### Ranges -/

/-- The `count` bits of `x` from bit `low` on, as an unsigned number. -/
def window (x : Int) (low count : Nat) : Int := x / weight low % weight count

theorem bit_window (x : Int) (low count i : Nat) :
    bit (window x low count) i = (decide (i < count) && bit x (low + i)) := by
  rw [window, bit_mod, bit_div]

/-- **Disjunction acts on every range separately.** -/
theorem window_or (x y : Int) (low count : Nat) :
    window (or x y) low count = or (window x low count) (window y low count) := by
  refine eq_of_bit_eq fun i => ?_
  rw [bit_or, bit_window, bit_window, bit_window, bit_or, Bool.and_or_distrib_left]

theorem or_div (x y : Int) (n : Nat) :
    or x y / weight n = or (x / weight n) (y / weight n) := by
  refine eq_of_bit_eq fun i => ?_
  rw [bit_or, bit_div, bit_div, bit_div, bit_or]

theorem or_nonneg {x y : Int} (hx : 0 ≤ x) (hy : 0 ≤ y) : 0 ≤ or x y := by
  obtain ⟨a, rfl⟩ := Int.eq_ofNat_of_zero_le hx
  obtain ⟨b, rfl⟩ := Int.eq_ofNat_of_zero_le hy
  exact Int.natCast_nonneg (a ||| b)

/-- Disjunction does not reach beyond the bits of either side. -/
theorem or_lt_weight {x y : Int} {n : Nat} (hx : 0 ≤ x) (hxn : x < weight n) (hy : 0 ≤ y)
    (hyn : y < weight n) : or x y < weight n := by
  obtain ⟨a, rfl⟩ := Int.eq_ofNat_of_zero_le hx
  obtain ⟨b, rfl⟩ := Int.eq_ofNat_of_zero_le hy
  rw [weight_eq_natCast, Int.ofNat_lt] at hxn hyn
  rw [weight_eq_natCast]
  exact Int.ofNat_lt.2 (Nat.or_lt_two_pow hxn hyn)

/-- A disjunction of many numbers does not reach beyond the bits of any of them. -/
theorem foldl_or_mem_range {n : Nat} {word : Int} {parts : List Int} (hword : 0 ≤ word)
    (hlt : word < weight n) (h : ∀ x ∈ parts, 0 ≤ x ∧ x < weight n) :
    0 ≤ parts.foldl or word ∧ parts.foldl or word < weight n := by
  induction parts generalizing word with
  | nil => exact ⟨hword, hlt⟩
  | cons x parts ih =>
      obtain ⟨hx, hparts⟩ := List.forall_mem_cons.1 h
      exact ih (or_nonneg hword hx.1) (or_lt_weight hword hlt hx.1 hx.2) hparts

/-- Parts below bit `n` do not change the bits from `n` on. -/
theorem foldl_or_div_of_lt {n : Nat} (word : Int) {parts : List Int}
    (h : ∀ x ∈ parts, 0 ≤ x ∧ x < weight n) :
    parts.foldl or word / weight n = word / weight n := by
  induction parts generalizing word with
  | nil => rfl
  | cons x parts ih =>
      obtain ⟨hx, hparts⟩ := List.forall_mem_cons.1 h
      rw [List.foldl_cons, ih _ hparts, or_div, Int.ediv_eq_zero_of_lt hx.1 hx.2, or_zero]

theorem window_mul_weight_self (v : Int) (low count : Nat) :
    window (v * weight low) low count = v % weight count := by
  rw [window, Int.mul_ediv_cancel _ (weight_pos low).ne']

/-- A number placed in a range leaves every disjoint range empty. -/
theorem window_mul_weight_of_disjoint {v : Int} {low count start size : Nat} (hv : 0 ≤ v)
    (hlt : v < weight size) (h : start + size ≤ low ∨ low + count ≤ start) :
    window (v * weight start) low count = 0 := by
  rcases h with h | h
  · have hbelow : v * weight start < weight low :=
      calc v * weight start < weight size * weight start := by
            exact Int.mul_lt_mul_of_pos_right hlt (weight_pos start)
        _ = weight (start + size) := by rw [weight_add, mul_comm]
        _ ≤ weight low := weight_le_weight h
    have hzero : v * weight start / weight low = 0 :=
      Int.ediv_eq_zero_of_lt (mul_nonneg hv (weight_pos start).le) hbelow
    rw [window, hzero, Int.zero_emod]
  · obtain ⟨k, rfl⟩ := Nat.exists_eq_add_of_le h
    have hfactor : v * weight (low + count + k) = v * weight k * weight count * weight low := by
      rw [weight_add, weight_add]
      ring
    rw [window, hfactor, Int.mul_ediv_cancel _ (weight_pos low).ne', Int.mul_emod_left]

end Bits

end ThumbAssembler
