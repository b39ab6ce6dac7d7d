/-
**Numerals and the numbers they denote.**

Decimal text is inverse to reading it: the decimal text of a number that is not too long is a
numeral with that number as its value.  Conversely, the value of a numeral that is not too long can
be printed again.

Main definitions:

* `ThumbAssembler.smallDigits` — the digits up to sixteen, in small letters.

Main results:

* `ThumbAssembler.digitsValue_eq_ofDigits` — digits denote their value in positional notation;
* `ThumbAssembler.digitsValue_toDigits`, `ThumbAssembler.digitsValue_toDigits_of_le` — digits denote
  the number they are the digits of;
* `ThumbAssembler.Numeral.value?_decimal` — **reading the decimal text of a number gives the number
  back**;
* `ThumbAssembler.isPrintable_of_value?` — the value of a numeral within the digit limit can be
  printed.
-/

import Mathlib
import ThumbAssembler.Proofs.FirstFailure
import ThumbAssembler.Numeral

set_option autoImplicit false

namespace ThumbAssembler

/-! ### Digits -/

theorem digitValue_of_isDigit {c : Char} (h : c.isDigit = true) : digitValue c = c.toNat - 48 := by
  rw [digitValue, if_pos h]

theorem digitValue_lt_ten {c : Char} (h : c.isDigit = true) : digitValue c < 10 := by
  rw [digitValue_of_isDigit h]
  have hle : c.toNat ≤ 57 := by
    simp only [Char.isDigit, Bool.and_eq_true, decide_eq_true_eq] at h
    exact h.2
  omega

/-- Decimal digits denote less than the power of ten with one more digit. -/
theorem digitsValue_lt_pow {digits : Text} (h : ∀ c ∈ digits, c.isDigit = true) :
    digitsValue 10 digits < 10 ^ digits.length := by
  induction digits using List.reverseRecOn with
  | nil => simp
  | append_singleton digits c ih =>
      have hinit := ih fun d hd => h d (List.mem_append_left _ hd)
      have hlast := digitValue_lt_ten (h c (by simp))
      rw [digitsValue_append_one, List.length_append, List.length_singleton, pow_succ]
      omega

theorem digitValue_lt_sixteen (c : Char) : digitValue c < 16 := by
  unfold digitValue
  split
  · rename_i h
    have := digitValue_lt_ten h
    rw [digitValue_of_isDigit h] at this
    omega
  · split
    · rename_i h
      have hle : c.toNat ≤ 102 := h.2
      omega
    · split
      · rename_i h
        have hle : c.toNat ≤ 70 := h.2
        omega
      · omega

theorem digitsValue_sixteen_lt_pow (digits : Text) :
    digitsValue 16 digits < 16 ^ digits.length := by
  induction digits using List.reverseRecOn with
  | nil => simp
  | append_singleton digits c ih =>
      have hlast := digitValue_lt_sixteen c
      rw [digitsValue_append_one, List.length_append, List.length_singleton, pow_succ]
      omega

theorem digitValue_digitChar {d : Nat} (h : d < 16) : digitValue (Nat.digitChar d) = d := by
  interval_cases d <;> decide

/-- The digits up to sixteen, in small letters. -/
def smallDigits : Text := "0123456789abcdef".toList

theorem digitChar_mem_smallDigits {base d : Nat} (hd : d < base) (hle : base ≤ 16) :
    Nat.digitChar d ∈ smallDigits.take base := by
  have hall : ∀ b ≤ 16, ∀ d < b, Nat.digitChar d ∈ smallDigits.take b := by decide
  exact hall base hle d hd

/-- The digits of a number in a base up to sixteen are the small digits of this base. -/
theorem mem_smallDigits_of_mem_toDigits {base n : Nat} (hbase : 1 < base) (hle : base ≤ 16)
    {c : Char} (h : c ∈ Nat.toDigits base n) : c ∈ smallDigits.take base := by
  induction n using Nat.strongRecOn with
  | ind n ih =>
      rw [Nat.toDigits_eq_if hbase] at h
      split at h
      · obtain rfl := List.mem_singleton.1 h
        exact digitChar_mem_smallDigits (by omega) hle
      · rcases List.mem_append.1 h with h | h
        · exact ih _ (Nat.div_lt_self (by omega) hbase) h
        · obtain rfl := List.mem_singleton.1 h
          exact digitChar_mem_smallDigits (Nat.mod_lt n (by omega)) hle

theorem isHexDigit_of_mem_smallDigits {c : Char} (h : c ∈ smallDigits) :
    Numeral.isHexDigit c = true := by
  have hall : smallDigits.all Numeral.isHexDigit = true := by decide
  exact List.all_eq_true.1 hall c h

/-- The digits of a number in a base up to sixteen are hexadecimal digits. -/
theorem isHexDigit_of_mem_toDigits {base n : Nat} (hbase : 1 < base) (hle : base ≤ 16) {c : Char}
    (h : c ∈ Nat.toDigits base n) : Numeral.isHexDigit c = true :=
  isHexDigit_of_mem_smallDigits (List.mem_of_mem_take (mem_smallDigits_of_mem_toDigits hbase hle h))

/-- The digits of a number in a base up to sixteen denote it. -/
theorem digitsValue_toDigits_of_le {base : Nat} (hbase : 1 < base) (hle : base ≤ 16) (n : Nat) :
    digitsValue base (Nat.toDigits base n) = n := by
  induction n using Nat.strongRecOn with
  | ind n ih =>
      rw [Nat.toDigits_eq_if hbase]
      split
      · rw [← List.nil_append [_], digitsValue_append_one, digitsValue_nil,
          digitValue_digitChar (by omega), Nat.mul_zero, Nat.zero_add]
      · rw [digitsValue_append_one, ih _ (Nat.div_lt_self (by omega) hbase),
          digitValue_digitChar ((Nat.mod_lt n (by omega)).trans_le hle), Nat.div_add_mod]

/-- Leading zeros do not count. -/
theorem digitsValue_replicate_zero (base k : Nat) (digits : Text) :
    digitsValue base (List.replicate k '0' ++ digits) = digitsValue base digits := by
  have hzero : digitValue '0' = 0 := by decide
  induction k with
  | zero => rfl
  | succ k ih =>
      rw [List.replicate_succ, List.cons_append, ← ih]
      simp only [digitsValue, List.foldl_cons, hzero, Nat.mul_zero, Nat.add_zero]

/-- Decimal digits denote the number they are the digits of. -/
theorem digitsValue_toDigits (n : Nat) : digitsValue 10 (Nat.toDigits 10 n) = n :=
  digitsValue_toDigits_of_le (by norm_num) (by norm_num) n

/-- The value of digits is their value in positional notation, least significant digit first. -/
theorem digitsValue_eq_ofDigits (base : Nat) (digits : Text) :
    digitsValue base digits = Nat.ofDigits base (digits.map digitValue).reverse := by
  induction digits using List.reverseRecOn with
  | nil => rfl
  | append_singleton digits c ih =>
      rw [digitsValue_append_one, ih, List.map_append, List.reverse_append, List.map_singleton,
        List.reverse_singleton, List.singleton_append, Nat.ofDigits_cons, Nat.add_comm]

theorem all_isDigit_toDigits (n : Nat) : (Nat.toDigits 10 n).all Char.isDigit = true :=
  List.all_eq_true.2 fun _ hc => Nat.isDigit_of_mem_toDigits (by norm_num) le_rfl hc

theorem printLimit_eq : printLimit = 10 ^ maxDigits := by
  have hpow (n : Nat) : Nat.pow 10 n = 10 ^ n := Nat.pow_eq
  exact hpow maxDigits

theorem isPrintable_iff {n : Int} : isPrintable n = true ↔ n.natAbs < printLimit := by
  rw [isPrintable, decide_eq_true_eq]

/-- A number that can be printed has few enough digits to be read. -/
theorem length_toDigits_le {n : Nat} (h : n < printLimit) :
    (Nat.toDigits 10 n).length ≤ maxDigits := by
  rw [printLimit_eq] at h
  exact (Nat.length_toDigits_le_iff (by norm_num) (by decide)).2 h

/-! ### Numerals -/

namespace Numeral

theorem splitSign_eq_self {t : Text} (h : ∀ c ∈ t.head?, isHexDigit c = true) :
    splitSign t = (1, t) := by
  unfold splitSign
  split
  · exact absurd (h '-' rfl) (by decide)
  · exact absurd (h '+' rfl) (by decide)
  · rfl

theorem magnitude?_toDigits (n : Nat) :
    magnitude? (Nat.toDigits 10 n) = some (10, Nat.toDigits 10 n) := by
  unfold magnitude?
  exact if_pos ⟨Nat.toDigits_ne_nil, all_isDigit_toDigits n⟩

/-- The sign and the digits of the decimal text of a number. -/
theorem splitSign_decimal (n : Int) :
    splitSign (decimal n) = (if n < 0 then -1 else 1, Nat.toDigits 10 n.natAbs) := by
  unfold decimal signedDigits
  split
  · rfl
  · refine splitSign_eq_self fun c hc => ?_
    exact isHexDigit_of_mem_toDigits (by norm_num) (by norm_num) (List.mem_of_mem_head? hc)

/-- **Reading the decimal text of a number gives the number back.** -/
theorem value?_decimal {n : Int} (h : isPrintable n = true) :
    value? (decimal n) = .ok (some n) := by
  have hlength := length_toDigits_le (isPrintable_iff.1 h)
  have hshort : ¬ (True ∧ maxDigits < (Nat.toDigits 10 n.natAbs).length) := by omega
  have hself : (if n < 0 then -1 else 1) * (n.natAbs : Int) = n := by split <;> omega
  simp only [value?, splitSign_decimal, magnitude?_toDigits, hshort, if_false, digitsValue_toDigits,
    hself]

/-- The base and digits of a numeral: decimal digits, or hexadecimal ones. -/
theorem magnitude?_cases {t digits : Text} {base : Nat} (h : magnitude? t = some (base, digits)) :
    (base = 10 ∧ ∀ c ∈ digits, c.isDigit = true) ∨ base = 16 := by
  unfold magnitude? at h
  split at h
  · rename_i hdigits
    obtain ⟨rfl, rfl⟩ := Prod.mk.inj (Option.some_inj.1 h)
    exact Or.inl ⟨rfl, List.all_eq_true.1 hdigits.2⟩
  · split at h
    · split at h
      · obtain ⟨rfl, -⟩ := Prod.mk.inj (Option.some_inj.1 h)
        exact Or.inr rfl
      · cases h
    · cases h

/-- A numeral has no more digits than characters. -/
theorem length_digits_le {t digits : Text} {base : Nat}
    (h : magnitude? (splitSign t).2 = some (base, digits)) : digits.length ≤ t.length := by
  have hsign : (splitSign t).2.length ≤ t.length := by
    unfold splitSign
    split <;> simp
  have hdigits : digits.length ≤ (splitSign t).2.length := by
    generalize (splitSign t).2 = rest at h
    unfold magnitude? at h
    split at h
    · rw [(Prod.mk.inj (Option.some_inj.1 h)).2]
    · split at h
      · split at h
        · rw [← (Prod.mk.inj (Option.some_inj.1 h)).2]
          simp only [List.length_cons]
          omega
        · cases h
      · cases h
  exact hdigits.trans hsign

/-- The value of a numeral is its sign times the number that its digits denote. -/
theorem value?_eq_some {t : Text} {v : Int} (h : value? t = .ok (some v)) :
    ∃ base digits, magnitude? (splitSign t).2 = some (base, digits) ∧
      v.natAbs = digitsValue base digits := by
  unfold value? at h
  split at h
  · cases h
  · rename_i base digits hmagnitude
    split at h
    · cases h
    · obtain rfl := Option.some_inj.1 (Except.ok.inj h)
      refine ⟨base, digits, hmagnitude, ?_⟩
      have hsign : (splitSign t).1.natAbs = 1 := by
        unfold splitSign
        split <;> rfl
      rw [Int.natAbs_mul, hsign, Nat.one_mul, Int.natAbs_natCast]

/-- A decimal numeral that has a value is not too long to be read. -/
theorem length_le_of_value? {t digits : Text} {v : Option Int} (h : value? t = .ok v)
    (hmagnitude : magnitude? (splitSign t).2 = some (10, digits)) :
    digits.length ≤ maxDigits := by
  unfold value? at h
  simp only [hmagnitude] at h
  split at h
  · cases h
  · rename_i hshort
    exact Nat.le_of_not_lt fun hlong => hshort ⟨trivial, hlong⟩

end Numeral

/-- The value of a numeral within the digit limit can be printed. -/
theorem isPrintable_of_value? {t : Text} {v : Int} (h : Numeral.value? t = .ok (some v))
    (hhexadecimal : ∀ digits, Numeral.magnitude? (Numeral.splitSign t).2 = some (16, digits) →
      digitsValue 16 digits < printLimit) : isPrintable v = true := by
  obtain ⟨base, digits, hmagnitude, hv⟩ := Numeral.value?_eq_some h
  rw [isPrintable_iff, hv]
  rcases Numeral.magnitude?_cases hmagnitude with ⟨rfl, hdigits⟩ | rfl
  · rw [printLimit_eq]
    calc digitsValue 10 digits
        < 10 ^ digits.length := digitsValue_lt_pow hdigits
      _ ≤ 10 ^ maxDigits :=
          Nat.pow_le_pow_right (by norm_num) (Numeral.length_le_of_value? h hmagnitude)
  · exact hhexadecimal digits hmagnitude

end ThumbAssembler
