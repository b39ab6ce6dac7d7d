/-
**Laws of bit fields.**

The operations of a well-formed field in terms of three plain functions: the pattern of bits that
stands for a value, the pattern that a word holds in the field's place, and the value that a pattern
stands for.  Packing a value that the field can hold and reading the pattern back gives the value
again, signed or not, scaled or not.

Main definitions:

* `ThumbAssembler.Field.Holds` — the values that a field can hold;
* `ThumbAssembler.Field.pattern` — the bits that stand for a value;
* `ThumbAssembler.Field.placed` — these bits at the field's place in an empty word;
* `ThumbAssembler.Field.read` — the bits that a word holds in the field's place;
* `ThumbAssembler.Field.meaning` — the value that a pattern of bits stands for;
* `ThumbAssembler.Field.Disjoint` — two fields share no bit.

Main results:

* `ThumbAssembler.Field.fits_eq_decide`, `ThumbAssembler.Field.pack_eq_placed`,
  `ThumbAssembler.Field.extract_eq_meaning` — what the operations compute;
* `ThumbAssembler.Field.meaning_pattern` — **the pattern of a value stands for it**;
* `ThumbAssembler.Field.pattern_meaning`, `ThumbAssembler.Field.holds_meaning` — every pattern is
  that of the value it stands for, and the field can hold this value;
* `ThumbAssembler.Field.read_placed_self`, `ThumbAssembler.Field.read_placed_of_disjoint` — a placed
  pattern is read back, and disjoint fields do not see it.
-/

import Mathlib
import ThumbAssembler.Field
import ThumbAssembler.Proofs.BitRange

set_option autoImplicit false

namespace ThumbAssembler

namespace Field

/-- The values that a field can hold: the multiples of its scale between its bounds. -/
def Holds (f : Field) (v : Int) : Prop :=
  v % f.scale = 0 ∧ f.bounds.low ≤ v ∧ v ≤ f.bounds.high

instance (f : Field) (v : Int) : Decidable (f.Holds v) :=
  inferInstanceAs (Decidable (v % f.scale = 0 ∧ f.bounds.low ≤ v ∧ v ≤ f.bounds.high))

/-- The bits that stand for a value. -/
def pattern (f : Field) (v : Int) : Int := v / f.scale % Bits.weight f.width.toNat

/-- The bits that stand for a value, at the field's place in an empty word. -/
def placed (f : Field) (v : Int) : Int := f.pattern v * Bits.weight f.offset.toNat

/-- The bits that a word holds in the field's place. -/
def read (f : Field) (word : Int) : Int := Bits.window word f.offset.toNat f.width.toNat

/-- The value that a pattern of bits stands for; in a signed field the upper half of the patterns is
negative. -/
def meaning (f : Field) (bits : Int) : Int :=
  (if f.signed ∧ Bits.weight (f.width.toNat - 1) ≤ bits then bits - Bits.weight f.width.toNat
    else bits) * f.scale

/-- Two fields share no bit. -/
def Disjoint (f g : Field) : Prop :=
  f.offset + f.width ≤ g.offset ∨ g.offset + g.width ≤ f.offset

instance (f g : Field) : Decidable (f.Disjoint g) :=
  inferInstanceAs (Decidable (f.offset + f.width ≤ g.offset ∨ g.offset + g.width ≤ f.offset))

instance : Std.Symm Disjoint := ⟨fun _ _ h => Or.symm h⟩

/-! ### The operations of a well-formed field -/

theorem fits_eq_decide {f : Field} (h : f.WellFormed) (hc : f.Countable) (v : Int) :
    f.fits v = .ok (decide (f.Holds v)) := fits_eq_ok h hc v

theorem pack_eq_placed {f : Field} (h : f.WellFormed) (hc : f.Countable) (hm : f.Movable)
    (v : Int) : f.pack v = .ok (f.placed v) := pack_eq_ok h hc hm v

theorem extract_eq_meaning {f : Field} (h : f.WellFormed) (hc : f.Countable) (word : Int) :
    f.extract word = .ok (f.meaning (f.read word)) := extract_eq_ok h hc word

/-- The weight of the bit above a field is twice the weight of its highest bit. -/
theorem weight_width {f : Field} (h : f.WellFormed) :
    Bits.weight f.width.toNat = 2 * Bits.weight (f.width.toNat - 1) := by
  have hw := h.width_pos
  obtain ⟨n, hn⟩ : ∃ n, f.width.toNat = n + 1 := ⟨f.width.toNat - 1, by omega⟩
  rw [hn, Bits.weight_succ, Nat.add_sub_cancel]

/-- A value that a field can hold is the scale times a number within the field's range. -/
theorem Holds.quotient {f : Field} (h : f.WellFormed) {v : Int} (hv : f.Holds v) :
    v = v / f.scale * f.scale ∧
      (if f.signed then
        -Bits.weight (f.width.toNat - 1) ≤ v / f.scale ∧
          v / f.scale < Bits.weight (f.width.toNat - 1)
      else 0 ≤ v / f.scale ∧ v / f.scale < Bits.weight f.width.toNat) := by
  obtain ⟨hdvd, hlow, hhigh⟩ := hv
  have hscale : 0 < f.scale := h.scale_pos
  have hself : v = v / f.scale * f.scale :=
    (Int.ediv_mul_cancel (Int.dvd_of_emod_eq_zero hdvd)).symm
  refine ⟨hself, ?_⟩
  -- comparing multiples of the scale is comparing quotients
  have hle (a b : Int) (hab : a * f.scale ≤ b * f.scale) : a ≤ b :=
    le_of_mul_le_mul_right hab hscale
  rw [hself] at hlow hhigh
  cases hs : f.signed with
  | true =>
      simp only [bounds, hs, if_true] at hlow hhigh ⊢
      exact ⟨hle _ _ hlow, Int.lt_of_le_sub_one (hle _ _ hhigh)⟩
  | false =>
      simp only [bounds, hs, Bool.false_eq_true, if_false] at hlow hhigh ⊢
      exact ⟨hle 0 _ (by simpa using hlow), Int.lt_of_le_sub_one (hle _ _ hhigh)⟩

/-- **The pattern of a value stands for it.** -/
theorem meaning_pattern {f : Field} (h : f.WellFormed) {v : Int} (hv : f.Holds v) :
    f.meaning (f.pattern v) = v := by
  obtain ⟨hself, hrange⟩ := hv.quotient h
  have hweight := weight_width h
  have hhalf := Bits.weight_pos (f.width.toNat - 1)
  unfold meaning pattern
  generalize hq : v / f.scale = q at hself hrange ⊢
  cases hs : f.signed with
  | false =>
      simp only [hs, Bool.false_eq_true, if_false] at hrange
      simp only [Bool.false_eq_true, false_and, if_false]
      rw [Int.emod_eq_of_lt hrange.1 hrange.2, ← hself]
  | true =>
      simp only [hs, if_true] at hrange
      rcases lt_or_ge q 0 with hneg | hpos
      · -- a negative quotient is stored as its complement in the upper half
        have hmod : q % Bits.weight f.width.toNat = q + Bits.weight f.width.toNat := by
          rw [← Int.add_emod_right, Int.emod_eq_of_lt (by omega) (by omega)]
        rw [hmod, if_pos ⟨rfl, by omega⟩, Int.add_sub_cancel, ← hself]
      · rw [Int.emod_eq_of_lt hpos (by omega), if_neg (by omega), ← hself]

@[simp] theorem meaning_zero (f : Field) : f.meaning 0 = 0 := by
  have hhalf := Bits.weight_pos (f.width.toNat - 1)
  rw [meaning, if_neg (by omega), Int.zero_mul]

/-- Every pattern is that of the value it stands for. -/
theorem pattern_meaning {f : Field} (h : f.WellFormed) {bits : Int} (hbits : 0 ≤ bits)
    (hlt : bits < Bits.weight f.width.toNat) : f.pattern (f.meaning bits) = bits := by
  rw [pattern, meaning, Int.mul_ediv_cancel _ h.scale_ne_zero]
  split
  · rw [Int.sub_emod_right, Int.emod_eq_of_lt hbits hlt]
  · exact Int.emod_eq_of_lt hbits hlt

/-- A field can hold what a pattern of bits stands for. -/
theorem holds_meaning {f : Field} (h : f.WellFormed) {bits : Int} (hbits : 0 ≤ bits)
    (hlt : bits < Bits.weight f.width.toNat) : f.Holds (f.meaning bits) := by
  have hscale : 0 ≤ f.scale := by
    have hpos := h.scale_pos
    omega
  have hweight := weight_width h
  refine ⟨by rw [meaning, Int.mul_emod_left], ?_, ?_⟩
  · cases hs : f.signed with
    | false =>
        simp only [bounds, meaning, hs, Bool.false_eq_true, false_and, if_false]
        exact mul_nonneg hbits hscale
    | true =>
        simp only [bounds, meaning, hs, if_true, true_and]
        refine mul_le_mul_of_nonneg_right ?_ hscale
        split <;> omega
  · cases hs : f.signed with
    | false =>
        simp only [bounds, meaning, hs, Bool.false_eq_true, false_and, if_false]
        exact mul_le_mul_of_nonneg_right (by omega) hscale
    | true =>
        simp only [bounds, meaning, hs, if_true, true_and]
        refine mul_le_mul_of_nonneg_right ?_ hscale
        split <;> omega

/-! ### Placing patterns in words -/

theorem read_nonneg (f : Field) (word : Int) : 0 ≤ f.read word :=
  Int.emod_nonneg _ (Bits.weight_pos _).ne'

theorem read_lt (f : Field) (word : Int) : f.read word < Bits.weight f.width.toNat :=
  Int.emod_lt_of_pos _ (Bits.weight_pos _)

/-- Words that mean the same in a field hold the same bits in it. -/
theorem read_eq_of_meaning_eq {f : Field} (h : f.WellFormed) {x y : Int}
    (hxy : f.meaning (f.read x) = f.meaning (f.read y)) : f.read x = f.read y := by
  rw [← pattern_meaning h (f.read_nonneg x) (f.read_lt x), hxy,
    pattern_meaning h (f.read_nonneg y) (f.read_lt y)]

theorem pattern_nonneg (f : Field) (v : Int) : 0 ≤ f.pattern v :=
  Int.emod_nonneg _ (Bits.weight_pos _).ne'

theorem pattern_lt (f : Field) (v : Int) : f.pattern v < Bits.weight f.width.toNat :=
  Int.emod_lt_of_pos _ (Bits.weight_pos _)

theorem placed_nonneg (f : Field) (v : Int) : 0 ≤ f.placed v :=
  mul_nonneg (f.pattern_nonneg v) (Bits.weight_pos _).le

/-- A placed pattern stays below the bits above its field. -/
theorem placed_lt {f : Field} (h : f.WellFormed) (v : Int) {n : Nat}
    (hn : f.offset + f.width ≤ n) : f.placed v < Bits.weight n := by
  have hw := h.width_pos
  have ho := h.offset_nonneg
  calc f.placed v < Bits.weight f.width.toNat * Bits.weight f.offset.toNat :=
        Int.mul_lt_mul_of_pos_right (f.pattern_lt v) (Bits.weight_pos _)
    _ = Bits.weight (f.width.toNat + f.offset.toNat) := (Bits.weight_add _ _).symm
    _ ≤ Bits.weight n := Bits.weight_le_weight (by omega)

theorem read_placed_self (f : Field) (v : Int) : f.read (f.placed v) = f.pattern v := by
  rw [read, placed, Bits.window_mul_weight_self,
    Int.emod_eq_of_lt (f.pattern_nonneg v) (f.pattern_lt v)]

theorem read_placed_of_disjoint {f g : Field} (hf : f.WellFormed) (hg : g.WellFormed)
    (h : f.Disjoint g) (v : Int) : f.read (g.placed v) = 0 := by
  have hfw := hf.width_pos
  have hfo := hf.offset_nonneg
  have hgw := hg.width_pos
  have hgo := hg.offset_nonneg
  refine Bits.window_mul_weight_of_disjoint (g.pattern_nonneg v) (g.pattern_lt v) ?_
  unfold Disjoint at h
  omega

theorem read_or (f : Field) (x y : Int) : f.read (Bits.or x y) = Bits.or (f.read x) (f.read y) :=
  Bits.window_or x y _ _

/-- Parts that leave a field empty do not change what a word holds in it. -/
theorem read_foldl_or_of_zero (f : Field) (word : Int) {parts : List Int}
    (h : ∀ x ∈ parts, f.read x = 0) : f.read (parts.foldl Bits.or word) = f.read word := by
  induction parts generalizing word with
  | nil => rfl
  | cons x parts ih =>
      obtain ⟨hx, hparts⟩ := List.forall_mem_cons.1 h
      rw [List.foldl_cons, ih _ hparts, read_or, hx, Bits.or_zero]

end Field

end ThumbAssembler
