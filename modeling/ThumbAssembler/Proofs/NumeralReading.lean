/-
**Reading numerals.**

A numeral is an optional sign followed by decimal digits, or by `0x` and hexadecimal digits in
either letter case.  Exactly these texts are read, and what is read is the number that the digits
denote in positional notation, with the sign.  Only decimal numerals can be too long.  So every
number of at most as many digits is read off its decimal text, and every number whatever off its
hexadecimal text, in whichever letter case.

Main definitions:

* `ThumbAssembler.Numeral.Spelled` — a text is a numeral with a sign, a base and digits;
* `ThumbAssembler.Numeral.digitPosition`, `ThumbAssembler.Numeral.positional` — the value of a digit
  and of digits in positional notation;
* `ThumbAssembler.signedHexadecimal` — a number in hexadecimal.

Main results:

* `ThumbAssembler.Numeral.spelled_iff` — the reader finds the sign, the base and the digits;
* `ThumbAssembler.Numeral.value?_of_spelled` — what is read off a numeral;
* `ThumbAssembler.Numeral.value?_eq_none_iff` — what is no numeral;
* `ThumbAssembler.Numeral.value?_of_lower_eq` — the letter case of hexadecimal text does not matter;
* `ThumbAssembler.Numeral.reads_exactly_numerals` — **exactly the numerals are read**, with their
  value.
-/

import Mathlib
import ThumbAssembler.Proofs.CharacterClasses
import ThumbAssembler.Proofs.NumeralLaws

set_option autoImplicit false

namespace ThumbAssembler

/-! ### Ranges of characters -/

/-- What holds of all characters in a range of code points holds of any character in it. -/
theorem of_mem_codePoints {P : Char → Prop} {first count : Nat}
    (hall : ∀ k < count, P (Char.ofNat (first + k))) {c : Char} (hfirst : first ≤ c.toNat)
    (hlast : c.toNat < first + count) : P c := by
  obtain ⟨k, hk⟩ := Nat.exists_eq_add_of_le hfirst
  rw [← Char.ofNat_toNat c, hk]
  exact hall k (by omega)

/-- A character with a given small letter is that letter or its capital. -/
theorem eq_or_eq_toUpper_of_toLower_eq {c d : Char} (h : c.toLower = d) :
    c = d ∨ c = d.toUpper := by
  by_cases hc : c.isUpper = true
  · right
    have hbounds : 65 ≤ c.toNat ∧ c.toNat ≤ 90 := of_decide_eq_true hc
    have hcapital : ∀ k < 26, Char.ofNat (65 + k) = (Char.ofNat (65 + k)).toLower.toUpper := by
      decide
    rw [← h]
    exact of_mem_codePoints (P := fun c => c = c.toLower.toUpper) hcapital hbounds.1 (by omega)
  · left
    rw [← h, Char.toLower_eq_of_not_isUpper hc]

/-- A character with no letter case is the only one with itself as small letter. -/
theorem eq_of_toLower_eq {c d : Char} (h : c.toLower = d) (hd : d.toUpper = d) : c = d := by
  rcases eq_or_eq_toUpper_of_toLower_eq h with heq | heq
  · exact heq
  · exact heq.trans hd

namespace Numeral

/-! ### Digits -/

/-- The decimal digits. -/
def decimalDigits : Text := "0123456789".toList

/-- The hexadecimal digits, in either letter case. -/
def hexadecimalDigits : Text := "0123456789abcdefABCDEF".toList

/-- The value of a digit: its position among the digits, in small letters. -/
def digitPosition (c : Char) : Nat := smallDigits.idxOf c.toLower

/-- The number that digits denote in positional notation, most significant digit first. -/
def positional (base : Nat) (digits : Text) : Nat :=
  Nat.ofDigits base (digits.map digitPosition).reverse

theorem isDigit_iff_mem {c : Char} : c.isDigit = true ↔ c ∈ decimalDigits := by
  constructor
  · intro h
    have hbounds := toNat_of_isDigit h
    have hall : ∀ k < 10, Char.ofNat (48 + k) ∈ decimalDigits := by decide
    exact of_mem_codePoints hall hbounds.1 (by omega)
  · have hall : decimalDigits.all Char.isDigit = true := by decide
    exact List.all_eq_true.1 hall c

theorem mem_hexadecimalDigits_of_mem_decimalDigits {c : Char} (h : c ∈ decimalDigits) :
    c ∈ hexadecimalDigits := by
  have hall : decimalDigits.all (· ∈ hexadecimalDigits) = true := by decide
  simpa using List.all_eq_true.1 hall c h

theorem isHexDigit_iff_mem {c : Char} : isHexDigit c = true ↔ c ∈ hexadecimalDigits := by
  constructor
  · intro h
    simp only [isHexDigit, Bool.or_eq_true, Bool.and_eq_true, decide_eq_true_eq] at h
    rcases h with (h | h) | h
    · exact mem_hexadecimalDigits_of_mem_decimalDigits (isDigit_iff_mem.1 h)
    · have hbounds : 97 ≤ c.toNat ∧ c.toNat ≤ 102 := h
      have hall : ∀ k < 6, Char.ofNat (97 + k) ∈ hexadecimalDigits := by decide
      exact of_mem_codePoints hall hbounds.1 (by omega)
    · have hbounds : 65 ≤ c.toNat ∧ c.toNat ≤ 70 := h
      have hall : ∀ k < 6, Char.ofNat (65 + k) ∈ hexadecimalDigits := by decide
      exact of_mem_codePoints hall hbounds.1 (by omega)
  · have hall : hexadecimalDigits.all isHexDigit = true := by decide
    exact List.all_eq_true.1 hall c

theorem digitValue_eq_digitPosition {c : Char} (h : c ∈ hexadecimalDigits) :
    digitValue c = digitPosition c := by
  have hall : hexadecimalDigits.all (fun c => digitValue c = digitPosition c) = true := by decide
  simpa using List.all_eq_true.1 hall c h

/-- The value of digits is their value in positional notation. -/
theorem digitsValue_eq_positional {digits : Text} (h : ∀ c ∈ digits, c ∈ hexadecimalDigits)
    (base : Nat) : digitsValue base digits = positional base digits := by
  rw [digitsValue_eq_ofDigits, positional,
    List.map_congr_left fun c hc => digitValue_eq_digitPosition (h c hc)]

theorem mem_hexadecimalDigits_of_toLower {c : Char} (h : c.toLower ∈ smallDigits) :
    c ∈ hexadecimalDigits := by
  have hsmall : smallDigits.all (fun d => d ∈ hexadecimalDigits ∧ d.toUpper ∈ hexadecimalDigits) =
    true := by decide
  have hboth : c.toLower ∈ hexadecimalDigits ∧ c.toLower.toUpper ∈ hexadecimalDigits := by
    simpa using List.all_eq_true.1 hsmall _ h
  rcases eq_or_eq_toUpper_of_toLower_eq (c := c) rfl with heq | heq
  · exact heq ▸ hboth.1
  · exact heq ▸ hboth.2

/-- The letter case of digits does not matter. -/
theorem positional_lower (base : Nat) (digits : Text) :
    positional base digits.lower = positional base digits := by
  have hlower (c : Char) : digitPosition c.toLower = digitPosition c := by
    simp [digitPosition]
  rw [positional, Text.lower, List.map_map, positional]
  exact congrArg (fun l => Nat.ofDigits base (List.reverse l))
    (List.map_congr_left fun c _ => hlower c)

/-! ### Numerals -/

/-- A numeral without sign, with its base and its digits. -/
inductive Unsigned : Text → Nat → Text → Prop
  | decimal {digits : Text} : digits ≠ [] → (∀ c ∈ digits, c ∈ decimalDigits) →
      Unsigned digits 10 digits
  | hexadecimal {x : Char} {digits : Text} : x = 'x' ∨ x = 'X' → digits ≠ [] →
      (∀ c ∈ digits, c ∈ hexadecimalDigits) → Unsigned ('0' :: x :: digits) 16 digits

/-- A numeral with its sign, its base and its digits. -/
inductive Spelled : Text → Int → Nat → Text → Prop
  | unsigned {t digits : Text} {base : Nat} : Unsigned t base digits → Spelled t 1 base digits
  | plus {t digits : Text} {base : Nat} : Unsigned t base digits → Spelled ('+' :: t) 1 base digits
  | minus {t digits : Text} {base : Nat} : Unsigned t base digits →
      Spelled ('-' :: t) (-1) base digits

theorem unsigned_iff {t digits : Text} {base : Nat} :
    Unsigned t base digits ↔ magnitude? t = some (base, digits) := by
  constructor
  · intro h
    unfold magnitude?
    cases h with
    | decimal hne hdigits =>
        exact if_pos ⟨hne, List.all_eq_true.2 fun c hc => isDigit_iff_mem.2 (hdigits c hc)⟩
    | @hexadecimal x digits hx hne hdigits =>
        -- the letter after the zero keeps the numeral from being decimal
        have hletter : x.isDigit = false := by rcases hx with rfl | rfl <;> rfl
        have hnot : ¬ ('0' :: x :: digits ≠ [] ∧
            ('0' :: x :: digits).all Char.isDigit = true) := by simp [hletter]
        rw [if_neg hnot]
        exact if_pos ⟨hx, hne,
          List.all_eq_true.2 fun c hc => isHexDigit_iff_mem.2 (hdigits c hc)⟩
  · intro h
    unfold magnitude? at h
    split at h
    · rename_i hdigits
      obtain ⟨rfl, rfl⟩ := Prod.mk.inj (Option.some_inj.1 h)
      exact .decimal hdigits.1 fun c hc =>
        isDigit_iff_mem.1 (List.all_eq_true.1 hdigits.2 c hc)
    · split at h
      · split at h
        · rename_i hdigits
          obtain ⟨rfl, rfl⟩ := Prod.mk.inj (Option.some_inj.1 h)
          exact .hexadecimal hdigits.1 hdigits.2.1 fun c hc =>
            isHexDigit_iff_mem.1 (List.all_eq_true.1 hdigits.2.2 c hc)
        · cases h
      · cases h

namespace Unsigned

variable {t digits : Text} {base : Nat}

theorem splitSign_eq (h : Unsigned t base digits) : splitSign t = (1, t) := by
  refine splitSign_eq_self fun c hc => ?_
  cases h with
  | decimal hne hdigits =>
      have hdigit := isDigit_iff_mem.2 (hdigits c (List.mem_of_mem_head? hc))
      rw [isHexDigit, hdigit, Bool.true_or, Bool.true_or]
  | hexadecimal hx hne hdigits =>
      obtain rfl : '0' = c := by simpa using hc
      rfl

theorem digits_mem (h : Unsigned t base digits) : ∀ c ∈ digits, c ∈ hexadecimalDigits := by
  cases h with
  | decimal hne hdigits =>
      exact fun c hc => mem_hexadecimalDigits_of_mem_decimalDigits (hdigits c hc)
  | hexadecimal hx hne hdigits => exact hdigits

end Unsigned

/-- **The reader finds the sign, the base and the digits of a numeral.** -/
theorem spelled_iff {t digits : Text} {sign : Int} {base : Nat} :
    Spelled t sign base digits ↔
      (splitSign t).1 = sign ∧ Unsigned (splitSign t).2 base digits := by
  constructor
  · intro h
    cases h with
    | unsigned ht =>
        rw [ht.splitSign_eq]
        exact ⟨rfl, ht⟩
    | plus ht => exact ⟨rfl, ht⟩
    | minus ht => exact ⟨rfl, ht⟩
  · rintro ⟨rfl, h⟩
    revert h
    unfold splitSign
    split
    · exact .minus
    · exact .plus
    · exact .unsigned

/-- What is read off a numeral: its value, unless it is decimal and too long. -/
theorem value?_of_spelled {t digits : Text} {sign : Int} {base : Nat}
    (h : Spelled t sign base digits) :
    value? t =
      if base = 10 ∧ maxDigits < digits.length then .error (.numeralTooLong digits.length)
      else .ok (some (sign * positional base digits)) := by
  obtain ⟨rfl, hunsigned⟩ := spelled_iff.1 h
  simp only [value?, unsigned_iff.1 hunsigned, digitsValue_eq_positional hunsigned.digits_mem]

/-- **Nothing is read off a text exactly if it is no numeral.** -/
theorem value?_eq_none_iff (t : Text) :
    value? t = .ok none ↔ ∀ sign base digits, ¬ Spelled t sign base digits := by
  constructor
  · intro h sign base digits hspelled
    rw [value?_of_spelled hspelled] at h
    split at h
    · cases h
    · cases Except.ok.inj h
  · intro h
    cases hmagnitude : magnitude? (splitSign t).2 with
    | none => simp only [value?, hmagnitude]
    | some r => exact absurd (spelled_iff.2 ⟨rfl, unsigned_iff.2 hmagnitude⟩) (h _ r.1 r.2)

end Numeral

/-! ### Numbers as numerals -/

/-- A number in hexadecimal, in small letters. -/
def signedHexadecimal (n : Int) : Text :=
  (if n < 0 then ['-'] else []) ++ '0' :: 'x' :: Nat.toDigits 16 n.natAbs

namespace Numeral

theorem value?_decimal_of_length {n : Int} (h : (Nat.toDigits 10 n.natAbs).length ≤ maxDigits) :
    value? (decimal n) = .ok (some n) := by
  refine value?_decimal (isPrintable_iff.2 ?_)
  rw [printLimit_eq]
  exact (Nat.length_toDigits_le_iff (by norm_num) (by decide)).1 h

/-- Text that is `0x` and the hexadecimal digits of a number, up to letter case, denotes it. -/
theorem exists_unsigned_of_lower_eq {t : Text} {n : Nat}
    (h : t.lower = '0' :: 'x' :: Nat.toDigits 16 n) :
    ∃ digits, Unsigned t 16 digits ∧ positional 16 digits = n := by
  obtain ⟨zero, rest, rfl, hzero, hrest⟩ := List.map_eq_cons_iff.1 h
  obtain ⟨x, digits, rfl, hx, hdigits⟩ := List.map_eq_cons_iff.1 hrest
  have hlower : Text.lower digits = Nat.toDigits 16 n := hdigits
  have hsmall : ∀ c ∈ Text.lower digits, c ∈ smallDigits := fun c hc =>
    mem_smallDigits_of_mem_toDigits (by norm_num) le_rfl (hlower ▸ hc)
  refine ⟨digits, ?_, ?_⟩
  · obtain rfl := eq_of_toLower_eq hzero rfl
    refine .hexadecimal (eq_or_eq_toUpper_of_toLower_eq hx) ?_ fun c hc => ?_
    · rintro rfl
      exact Nat.toDigits_ne_nil hlower.symm
    · exact mem_hexadecimalDigits_of_toLower (hsmall _ (List.mem_map_of_mem hc))
  · have hhex : ∀ c ∈ Nat.toDigits 16 n, c ∈ hexadecimalDigits := fun c hc =>
      isHexDigit_iff_mem.1 (isHexDigit_of_mem_toDigits (by norm_num) le_rfl hc)
    rw [← positional_lower, hlower, ← digitsValue_eq_positional hhex,
      digitsValue_toDigits_of_le (by norm_num) le_rfl]

/-- **A number is read off its hexadecimal text in whichever letter case.** -/
theorem value?_of_lower_eq {n : Int} {t : Text} (h : t.lower = signedHexadecimal n) :
    value? t = .ok (some n) := by
  unfold signedHexadecimal at h
  split at h
  · rename_i hneg
    obtain ⟨mark, rest, rfl, hmark, hrest⟩ := List.map_eq_cons_iff.1 h
    obtain rfl := eq_of_toLower_eq hmark rfl
    obtain ⟨digits, hunsigned, hvalue⟩ := exists_unsigned_of_lower_eq hrest
    rw [value?_of_spelled (.minus hunsigned), hvalue, if_neg (by simp)]
    congr 2
    omega
  · rename_i hneg
    obtain ⟨digits, hunsigned, hvalue⟩ := exists_unsigned_of_lower_eq h
    rw [value?_of_spelled (.unsigned hunsigned), hvalue, if_neg (by simp)]
    congr 2
    omega

/-- **Exactly the numerals are read, with their value.**  Nothing is read off a text that is no
numeral.  A decimal numeral of more than 4300 digits cannot be read; any other numeral has the
signed value of its digits in positional notation.  So a number of at most 4300 digits is read off
its decimal text, and any number off its hexadecimal text in whichever letter case. -/
theorem reads_exactly_numerals :
    (∀ t, value? t = .ok none ↔ ∀ sign base digits, ¬ Spelled t sign base digits) ∧
      (∀ t sign base digits, Spelled t sign base digits →
        value? t =
          if base = 10 ∧ 4300 < digits.length then .error (.numeralTooLong digits.length)
          else .ok (some (sign * positional base digits))) ∧
      (∀ n : Int, (Nat.toDigits 10 n.natAbs).length ≤ 4300 → value? (decimal n) = .ok (some n)) ∧
      ∀ (n : Int) (t : Text), t.lower = signedHexadecimal n → value? t = .ok (some n) :=
  ⟨value?_eq_none_iff, fun _ _ _ _ => value?_of_spelled, fun _ => value?_decimal_of_length,
    fun _ _ => value?_of_lower_eq⟩

/-- A sign, and letters of both cases. -/
example : value? "-0X1f".toList = .ok (some (-31)) := rfl

end Numeral

end ThumbAssembler
