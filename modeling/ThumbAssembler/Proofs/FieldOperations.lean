/-
**Packing and extracting.**

The laws that tie the operations of a field together, for every width, offset and scale, signed or
not, and for words of either sign: a field can hold exactly the values that can be extracted from a
word; a packed value stays within the field's place and is extracted again, whatever else the word
holds outside this place; and packing what was extracted cuts the field's place out of the word.

Checking and extracting need nothing but a mask whose digits can be counted; packing has to move a
pattern up to the field's place besides.  Where there are too many digits the operations say so, and
checking then still gives no wrong answer.

Main definitions:

* `ThumbAssembler.Field.place` — ones at the field's place in a word;
* `ThumbAssembler.Field.Lawful` — the laws of the operations.

Main results:

* `ThumbAssembler.Bits.bit_mul_weight` — the bits of a number that is moved up;
* `ThumbAssembler.Field.bit_place`, `ThumbAssembler.Field.and_place` — conjunction with the place
  cuts out what a word holds in the field;
* `ThumbAssembler.Field.pack_cases`, `ThumbAssembler.Field.fits_cases` — packing and checking give
  the right answer or say that there are too many digits;
* `ThumbAssembler.Field.lawful_or_overflow` — **the laws hold unless the mask has too many digits**.
-/

import Mathlib
import ThumbAssembler.Proofs.FieldLaws
import ThumbAssembler.Proofs.FirstFailure

set_option autoImplicit false

namespace ThumbAssembler

namespace Bits

/-- **The bits of a number that is moved up.** -/
theorem bit_mul_weight (x : Int) (n i : Nat) :
    bit (x * weight n) i = (decide (n ≤ i) && bit x (i - n)) := by
  rw [bit_eq_decide, bit_eq_decide]
  by_cases hi : n ≤ i
  · obtain ⟨k, rfl⟩ := Nat.exists_eq_add_of_le hi
    rw [Nat.add_sub_cancel_left, weight_add, mul_comm x,
      Int.mul_ediv_mul_of_pos _ _ (weight_pos n)]
    simp
  · -- below bit `n` there are only zeros: the quotient is even
    obtain ⟨k, rfl⟩ : ∃ k, n = i + (k + 1) := ⟨n - i - 1, by omega⟩
    have heven : x * weight (i + (k + 1)) / weight i = 2 * (x * weight k) := by
      rw [weight_add, weight_succ, show x * (weight i * (2 * weight k)) =
        2 * (x * weight k) * weight i by ring, Int.mul_ediv_cancel _ (weight_pos i).ne']
    simp [hi, heven]

theorem bit_weight_sub_one (n i : Nat) : bit (weight n - 1) i = decide (i < n) := by
  have hcast : weight n - 1 = Int.ofNat (2 ^ n - 1) := by
    rw [weight_eq_natCast, Int.ofNat_eq_natCast, Nat.cast_sub Nat.one_le_two_pow, Nat.cast_one]
  rw [hcast, bit, Nat.testBit_two_pow_sub_one]

end Bits

namespace Field

/-- Ones at the field's place in a word, and zeros elsewhere. -/
def place (f : Field) : Int := (Bits.weight f.width.toNat - 1) * Bits.weight f.offset.toNat

/-! ### The field's place -/

theorem bit_place (f : Field) (i : Nat) :
    Bits.bit f.place i =
      (decide (f.offset.toNat ≤ i) && decide (i - f.offset.toNat < f.width.toNat)) := by
  rw [place, Bits.bit_mul_weight, Bits.bit_weight_sub_one]

/-- **Conjunction with the place cuts out what a word holds in the field.** -/
theorem and_place (f : Field) (word : Int) :
    Bits.and word f.place = f.read word * Bits.weight f.offset.toNat := by
  refine Bits.eq_of_bit_eq fun i => ?_
  rw [Bits.bit_and, bit_place, Bits.bit_mul_weight, read, Bits.bit_window]
  by_cases hi : f.offset.toNat ≤ i
  · simp [hi, Bool.and_comm]
  · simp [hi]

/-- A packed value has no bit outside the field's place. -/
theorem and_placed_place (f : Field) (v : Int) : Bits.and (f.placed v) f.place = f.placed v := by
  rw [and_place, read_placed_self, placed]

/-- A word without a bit in the field's place holds zero in the field. -/
theorem read_eq_zero_of_and_place {f : Field} {word : Int} (h : Bits.and word f.place = 0) :
    f.read word = 0 := by
  rw [and_place] at h
  exact (mul_eq_zero.1 h).resolve_right (Bits.weight_pos _).ne'

/-! ### Too many digits -/

section Digits

variable {f : Field}

/-- Packing gives a word, or says that the mask has too many digits at the field's place. -/
theorem pack_cases (h : f.WellFormed) (hc : f.Countable) (v : Int) :
    f.pack v = .ok (f.placed v) ∨ (¬ f.Movable ∧ f.pack v = .error .tooManyDigits) := by
  by_cases hm : f.Movable
  · exact Or.inl (pack_eq_placed h hc hm v)
  · rw [pack_eq_shiftLeft h hc]
    exact (shiftLeft_cases h.offset_nonneg _).imp id fun herror => ⟨hm, herror⟩

/-- What is packed, if it can be counted, is the pattern at the field's place. -/
theorem eq_placed_of_pack (h : f.WellFormed) (hc : f.Countable) {v x : Int}
    (hx : f.pack v = .ok x) : x = f.placed v := by
  rcases pack_cases h hc v with hok | ⟨-, herror⟩
  · rw [hok] at hx
    exact (Except.ok.inj hx).symm
  · rw [herror] at hx
    cases hx

/-- A mask that can be counted at the field's place can be moved there. -/
theorem place_eq (h : f.WellFormed) (hc : f.Countable) (hm : f.Movable) :
    (f.mask.bind fun ones => shiftLeft ones f.offset) = .ok f.place := by
  have hpos := Bits.weight_pos f.width.toNat
  have hcount : digitCount (Bits.count (Bits.weight f.width.toNat - 1)) ≤
      digitCount f.width.toNat := digitCount_le (Bits.count_le (by omega) (by omega))
  unfold Movable at hm
  have hmask : f.mask = .ok (Bits.weight f.width.toNat - 1) := by
    rw [mask, powerOfTwo_width h hc, ok_bind, pure_eq_ok]
  rw [hmask]
  exact shiftLeft_eq_ok h.offset_nonneg (by omega)

theorem powerOfTwo_cases {bits : Int} (h : 0 ≤ bits) :
    powerOfTwo bits = .ok (Bits.weight bits.toNat) ∨
      powerOfTwo bits = .error .tooManyDigits := by
  have hcases := shiftLeft_cases h 1
  rwa [one_mul] at hcases

theorem powerOfTwo_half_cases (h : f.WellFormed) :
    powerOfTwo (f.width - 1) = .ok (Bits.weight (f.width.toNat - 1)) ∨
      powerOfTwo (f.width - 1) = .error .tooManyDigits := by
  have hw := h.width_pos
  have hpred : (f.width - 1).toNat = f.width.toNat - 1 := by omega
  rw [← hpred]
  exact powerOfTwo_cases (by omega)

theorem least_cases (h : f.WellFormed) :
    f.least = .ok f.bounds.low ∨ f.least = .error .tooManyDigits := by
  cases hs : f.signed with
  | false => exact Or.inl (by simp [least, bounds, hs])
  | true =>
      rcases powerOfTwo_half_cases h with hok | herror
      · exact Or.inl (by simp [least, bounds, hs, hok])
      · exact Or.inr (by simp [least, hs, herror])

theorem greatest_cases (h : f.WellFormed) :
    f.greatest = .ok f.bounds.high ∨ f.greatest = .error .tooManyDigits := by
  have hw := h.width_pos
  have hwhole : 0 ≤ f.width := by omega
  cases hs : f.signed with
  | false =>
      rcases powerOfTwo_cases hwhole with hok | herror
      · exact Or.inl (by simp [greatest, mask, bounds, hs, hok])
      · exact Or.inr (by simp [greatest, mask, hs, herror])
  | true =>
      rcases powerOfTwo_half_cases h with hok | herror
      · exact Or.inl (by simp [greatest, bounds, hs, hok])
      · exact Or.inr (by simp [greatest, hs, herror])

/-- **Checking gives the right answer, or says that a bound has too many digits.** -/
theorem fits_cases (h : f.WellFormed) (v : Int) :
    f.fits v = .ok (decide (f.Holds v)) ∨ f.fits v = .error .tooManyDigits := by
  unfold fits Holds
  rw [if_neg h.scale_ne_zero]
  by_cases hm : v % f.scale = 0
  · rcases least_cases h with hlow | hlow
    · by_cases hl : f.bounds.low ≤ v
      · rcases greatest_cases h with hhigh | hhigh
        · exact Or.inl (by simp [hm, hlow, hl, hhigh])
        · exact Or.inr (by simp [hm, hlow, hl, hhigh])
      · exact Or.inl (by simp [hm, hlow, hl])
    · exact Or.inr (by simp [hm, hlow])
  · exact Or.inl (by simp [hm])

end Digits

/-! ### The laws -/

/-- The laws of the operations of a field. -/
structure Lawful (f : Field) : Prop where
  /-- Checking always gives an answer, and a field can hold exactly what can be extracted. -/
  fits_total : ∀ v, ∃ answer, f.fits v = .ok answer
  fits_iff : ∀ v, f.fits v = .ok true ↔ ∃ word, f.extract word = .ok v
  /-- Extracting always gives a value, which the field can hold. -/
  extract_fits : ∀ word, ∃ v, f.extract word = .ok v ∧ f.fits v = .ok true
  /-- Packing gives a word unless the mask has too many digits at the field's place. -/
  pack_total : f.Movable → ∀ v, ∃ x, f.pack v = .ok x
  pack_error : ∀ v d, f.pack v = .error d → d = .tooManyDigits
  /-- The field's place is the mask moved up by the offset. -/
  place_eq : f.Movable → (f.mask.bind fun ones => shiftLeft ones f.offset) = .ok f.place
  /-- A packed value has no bit outside the field's place. -/
  pack_inside : ∀ v x, f.pack v = .ok x → ∀ i, Bits.bit x i = true → Bits.bit f.place i = true
  extract_pack : ∀ v x, f.fits v = .ok true → f.pack v = .ok x → f.extract x = .ok v
  /-- Packing what was extracted cuts the field's place out of the word. -/
  pack_extract : ∀ word v x, f.extract word = .ok v → f.pack v = .ok x → x = Bits.and word f.place
  /-- A packed value is extracted from any word that held nothing in the field's place. -/
  extract_or_pack : ∀ word v x, f.fits v = .ok true → f.pack v = .ok x →
    Bits.and word f.place = 0 → f.extract (Bits.or word x) = .ok v

theorem fits_eq_true_iff {f : Field} (h : f.WellFormed) (hc : f.Countable) (v : Int) :
    f.fits v = .ok true ↔ f.Holds v := by
  rw [fits_eq_decide h hc, Except.ok.injEq, decide_eq_true_eq]

theorem WellFormed.lawful {f : Field} (h : f.WellFormed) (hc : f.Countable) : f.Lawful where
  fits_total v := ⟨_, fits_eq_decide h hc v⟩
  fits_iff v := by
    rw [fits_eq_true_iff h hc]
    constructor
    · intro hv
      refine ⟨f.placed v, ?_⟩
      rw [extract_eq_meaning h hc, read_placed_self, meaning_pattern h hv]
    · rintro ⟨word, hword⟩
      rw [extract_eq_meaning h hc, Except.ok.injEq] at hword
      exact hword ▸ holds_meaning h (f.read_nonneg word) (f.read_lt word)
  extract_fits word := by
    refine ⟨_, extract_eq_meaning h hc word, ?_⟩
    exact (fits_eq_true_iff h hc _).2 (holds_meaning h (f.read_nonneg word) (f.read_lt word))
  pack_total hm v := ⟨_, pack_eq_placed h hc hm v⟩
  pack_error v d hd := by
    rcases pack_cases h hc v with hok | ⟨-, herror⟩
    · rw [hok] at hd
      cases hd
    · rw [herror, Except.error.injEq] at hd
      exact hd.symm
  place_eq hm := Field.place_eq h hc hm
  pack_inside v x hx i hi := by
    rw [eq_placed_of_pack h hc hx, ← and_placed_place, Bits.bit_and, Bool.and_eq_true] at hi
    exact hi.2
  extract_pack v x hv hx := by
    rw [fits_eq_true_iff h hc] at hv
    rw [eq_placed_of_pack h hc hx, extract_eq_meaning h hc, read_placed_self,
      meaning_pattern h hv]
  pack_extract word v x hv hx := by
    rw [extract_eq_meaning h hc, Except.ok.injEq] at hv
    rw [eq_placed_of_pack h hc hx, ← hv, placed,
      pattern_meaning h (f.read_nonneg word) (f.read_lt word), and_place]
  extract_or_pack word v x hv hx hword := by
    rw [fits_eq_true_iff h hc] at hv
    rw [eq_placed_of_pack h hc hx, extract_eq_meaning h hc, read_or,
      read_eq_zero_of_and_place hword, Bits.zero_or, read_placed_self, meaning_pattern h hv]

/-- **The laws hold unless the mask has too many digits.**  In that case packing and extracting
always say so, and checking gives the right answer or says so. -/
theorem lawful_or_overflow (f : Field) (hwidth : 1 ≤ f.width) (hoffset : 0 ≤ f.offset)
    (hscale : 1 ≤ f.scale) :
    (f.Countable ∧ f.Lawful) ∨
      (¬ f.Countable ∧ (∀ v, f.pack v = .error .tooManyDigits) ∧
        (∀ word, f.extract word = .error .tooManyDigits) ∧
        ∀ v, f.fits v = .ok (decide (f.Holds v)) ∨ f.fits v = .error .tooManyDigits) := by
  have h : f.WellFormed := ⟨hwidth, hoffset, hscale⟩
  by_cases hc : f.Countable
  · exact Or.inl ⟨hc, h.lawful hc⟩
  · exact Or.inr ⟨hc, pack_eq_error h hc, extract_eq_error h hc, fits_cases h⟩

/-- Seven bits from bit five on, signed, in units of four. -/
def signedQuads : Field :=
  { name := "quads".toList, width := 7, offset := 5, signed := true, scale := 4 }

/-- The least value of a signed field with a scale, below the ones of a negative word. -/
theorem lawful_or_overflow_least_value :
    (1 ≤ signedQuads.width ∧ 0 ≤ signedQuads.offset ∧ 1 ≤ signedQuads.scale) ∧
      signedQuads.fits (-256) = .ok true ∧ Bits.and (-4096) signedQuads.place = 0 ∧
      ∃ x, signedQuads.pack (-256) = .ok x ∧ signedQuads.extract x = .ok (-256) ∧
        signedQuads.extract (Bits.or (-4096) x) = .ok (-256) := by
  have hfits : signedQuads.fits (-256) = .ok true := rfl
  have hword : Bits.and (-4096) signedQuads.place = 0 := by decide
  refine ⟨by decide, hfits, hword, ?_⟩
  rcases lawful_or_overflow signedQuads (by decide) (by decide) (by decide) with
    ⟨-, hlaws⟩ | ⟨huncountable, -⟩
  · obtain ⟨x, hx⟩ := hlaws.pack_total (by decide) (-256)
    exact ⟨x, hx, hlaws.extract_pack _ _ hfits hx, hlaws.extract_or_pack _ _ _ hfits hx hword⟩
  · exact absurd (by decide) huncountable

/-- A field whose mask has more digits than can be counted. -/
def tooWide : Field :=
  { name := "f".toList, width := 1000000000000000000000000000000, offset := 0 }

/-- The laws fail for a field whose mask is too large: nothing can be extracted, checked or
packed. -/
theorem too_wide_field_breaks_laws :
    (1 ≤ tooWide.width ∧ 0 ≤ tooWide.offset ∧ 1 ≤ tooWide.scale) ∧
      (¬ ∃ v, tooWide.extract 1 = .ok v ∧ tooWide.fits v = .ok true) ∧
      tooWide.extract 1 = .error .tooManyDigits ∧
      tooWide.fits 1 = .error .tooManyDigits ∧
      tooWide.pack 1 = .error .tooManyDigits := by
  have hextract : tooWide.extract 1 = .error .tooManyDigits := rfl
  refine ⟨by decide, ?_, hextract, rfl, rfl⟩
  rintro ⟨v, hv, -⟩
  rw [hextract] at hv
  cases hv

end Field

end ThumbAssembler
