/-
**Bit fields of a word.**

A field is a run of `width` bits at bit `offset` of a word.  It holds a number in source units
divided by `scale`, as an unsigned number or in two's complement.  The four numbers of a field are
arbitrary integers; an operation that a negative width or offset, a scale of zero, or a number with
too many digits leaves without a value says so by a `Field.Defect`.  A well-formed field has no
defects, unless it is so wide that its mask has too many digits.

The digits of a number are counted, and this limits how far a number can be moved up.  Products need
no such check: for one of them to have too many digits, its factors would have to fill the address
space.  How much memory there is is not modelled; what can be counted is taken to find room.

Main definitions:

* `ThumbAssembler.Field` — a field;
* `ThumbAssembler.Field.Defect` — the ways in which an operation on a field can have no value;
* `ThumbAssembler.Field.shiftLeft`, `ThumbAssembler.Field.shiftRight` — moving a number up or down
  by a number of bits;
* `ThumbAssembler.Field.Span` — the values that a field can hold: bounds and a unit;
* `ThumbAssembler.Field.fits` — the field can hold a value;
* `ThumbAssembler.Field.pack` — a value at the field's place in an empty word;
* `ThumbAssembler.Field.extract` — the value that a word holds in the field;
* `ThumbAssembler.Field.WellFormed` — positive width and scale, and an offset that is not negative;
* `ThumbAssembler.Field.Countable`, `ThumbAssembler.Field.Movable` — the digits of the mask can be
  counted, and also those of the mask at the field's place.

Main results:

* `ThumbAssembler.Field.span_eq_ok`, `ThumbAssembler.Field.fits_eq_ok`,
  `ThumbAssembler.Field.pack_eq_ok`, `ThumbAssembler.Field.extract_eq_ok` — what the operations of a
  well-formed field compute;
* `ThumbAssembler.Field.pack_eq_error`, `ThumbAssembler.Field.extract_eq_error` — what they do if
  the mask has too many digits.
-/

import ThumbAssembler.Bits
import ThumbAssembler.Text.Number

set_option autoImplicit false

namespace ThumbAssembler

/-- A run of bits inside a word.  Values are given in source units, and `scale` divides them. -/
structure Field where
  name : Text
  width : Int
  offset : Int
  signed : Bool := false
  scale : Int := 1
  deriving DecidableEq, Repr

namespace Field

/-- The ways in which an operation on a field can have no value. -/
inductive Defect where
  /-- A width or an offset is negative. -/
  | negativeShift
  /-- A remainder by a scale of zero. -/
  | remainderByZero
  /-- A quotient by a scale of zero. -/
  | quotientByZero
  /-- A number has more digits than can be counted. -/
  | tooManyDigits
  deriving DecidableEq, Repr

/-- The wording of a defect. -/
def Defect.message : Defect → Text
  | .negativeShift => "negative shift count".toList
  | .remainderByZero => "integer modulo by zero".toList
  | .quotientByZero => "integer division or modulo by zero".toList
  | .tooManyDigits => "too many digits in integer".toList

/-- The most digits of thirty bits that can be counted. -/
def digitLimit : Nat := 2305843009213693945

/-- The number of digits of thirty bits that hold a number of bits. -/
def digitCount (bits : Nat) : Nat := (bits + 29) / 30

/-- A value moved up by a number of bits, which must not be negative.  Zero can be moved by any
number of bits; of other values the digits and those moved over must together be countable. -/
def shiftLeft (value bits : Int) : Except Defect Int :=
  if bits < 0 then .error .negativeShift
  else if value = 0 then .ok 0
  else if digitLimit < digitCount (Bits.count value) + digitCount bits.toNat then
    .error .tooManyDigits
  else .ok (value * Bits.weight bits.toNat)

/-- A value moved down by a number of bits, which must not be negative. -/
def shiftRight (value bits : Int) : Except Defect Int :=
  if bits < 0 then .error .negativeShift else .ok (Bits.shiftRight value bits.toNat)

/-- Two to the power of a number of bits. -/
def powerOfTwo (bits : Int) : Except Defect Int := shiftLeft 1 bits

/-- `width` ones. -/
def mask (f : Field) : Except Defect Int := do
  return (← powerOfTwo f.width) - 1

/-- The least value, in source units. -/
def least (f : Field) : Except Defect Int :=
  if f.signed then do
    return -(← powerOfTwo (f.width - 1)) * f.scale
  else .ok 0

/-- The greatest value, in source units. -/
def greatest (f : Field) : Except Defect Int :=
  if f.signed then do
    return ((← powerOfTwo (f.width - 1)) - 1) * f.scale
  else do
    return (← f.mask) * f.scale

/-- The values a field can hold: the multiples of `unit` between two bounds. -/
structure Span where
  low : Int
  high : Int
  unit : Int
  deriving DecidableEq, Repr

/-- The values a field can hold. -/
def span (f : Field) : Except Defect Span := do
  return { low := ← f.least, high := ← f.greatest, unit := f.scale }

/-- The wording of a span; a unit of one goes without saying. -/
def Span.describe (s : Span) : Text :=
  decimal s.low ++ "..".toList ++ decimal s.high ++
    if s.unit > 1 then ", multiple of ".toList ++ decimal s.unit else []

/-- The numbers that the wording of a span prints. -/
def Span.numbers (s : Span) : List Int :=
  [s.low, s.high] ++ if s.unit > 1 then [s.unit] else []

/-- The field can hold the value: a multiple of the scale between the bounds. -/
def fits (f : Field) (value : Int) : Except Defect Bool :=
  if f.scale = 0 then .error .remainderByZero
  else if value % f.scale ≠ 0 then .ok false
  else do
    if (← f.least) ≤ value then
      return value ≤ (← f.greatest)
    else return false

/-- The value at the field's place in an empty word, cut to the field's width. -/
def pack (f : Field) (value : Int) : Except Defect Int :=
  if f.scale = 0 then .error .quotientByZero
  else do
    let modulus ← powerOfTwo f.width
    shiftLeft (value.fdiv f.scale % modulus) f.offset

/-- The value that a word holds in the field, in source units. -/
def extract (f : Field) (word : Int) : Except Defect Int := do
  let shifted ← shiftRight word f.offset
  let modulus ← powerOfTwo f.width
  let raw := shifted % modulus
  if f.signed then
    if raw < (← powerOfTwo (f.width - 1)) then return raw * f.scale
    else return (raw - modulus) * f.scale
  else return raw * f.scale

/-! ### Well-formed fields -/

/-- A field of at least one bit, at a bit of the word, with a positive scale. -/
structure WellFormed (f : Field) : Prop where
  width_pos : 1 ≤ f.width
  offset_nonneg : 0 ≤ f.offset
  scale_pos : 1 ≤ f.scale

instance (f : Field) : Decidable f.WellFormed :=
  decidable_of_iff (1 ≤ f.width ∧ 0 ≤ f.offset ∧ 1 ≤ f.scale)
    ⟨fun ⟨hw, ho, hs⟩ => ⟨hw, ho, hs⟩, fun ⟨hw, ho, hs⟩ => ⟨hw, ho, hs⟩⟩

/-- The digits of two to the power of the width can be counted, and so those of the mask. -/
def Countable (f : Field) : Prop := digitCount f.width.toNat < digitLimit

instance (f : Field) : Decidable f.Countable :=
  inferInstanceAs (Decidable (digitCount f.width.toNat < digitLimit))

/-- The digits of the mask and those below the field's place can together be counted. -/
def Movable (f : Field) : Prop :=
  digitCount f.width.toNat + digitCount f.offset.toNat ≤ digitLimit

instance (f : Field) : Decidable f.Movable :=
  inferInstanceAs
    (Decidable (digitCount f.width.toNat + digitCount f.offset.toNat ≤ digitLimit))

theorem WellFormed.scale_ne_zero {f : Field} (h : f.WellFormed) : f.scale ≠ 0 := by
  have hs := h.scale_pos
  omega

theorem digitCount_le {m n : Nat} (h : m ≤ n) : digitCount m ≤ digitCount n := by
  unfold digitCount
  omega

/-- Moving a value up as far as it can be counted multiplies it by the weight of a bit. -/
theorem shiftLeft_eq_ok {value bits : Int} (h : 0 ≤ bits)
    (hd : digitCount (Bits.count value) + digitCount bits.toNat ≤ digitLimit) :
    shiftLeft value bits = .ok (value * Bits.weight bits.toNat) := by
  by_cases hv : value = 0
  · simp [shiftLeft, hv, Int.not_lt.2 h]
  · simp only [shiftLeft, if_neg (Int.not_lt.2 h), if_neg hv, if_neg (Nat.not_lt.2 hd)]

theorem shiftLeft_eq_error {value bits : Int} (h : 0 ≤ bits) (hv : value ≠ 0)
    (hd : digitLimit < digitCount (Bits.count value) + digitCount bits.toNat) :
    shiftLeft value bits = .error .tooManyDigits := by
  simp only [shiftLeft, if_neg (Int.not_lt.2 h), if_neg hv, if_pos hd]

/-- A value is moved up, or there are too many digits. -/
theorem shiftLeft_cases {bits : Int} (h : 0 ≤ bits) (value : Int) :
    shiftLeft value bits = .ok (value * Bits.weight bits.toNat) ∨
      shiftLeft value bits = .error .tooManyDigits := by
  by_cases hd : digitCount (Bits.count value) + digitCount bits.toNat ≤ digitLimit
  · exact Or.inl (shiftLeft_eq_ok h hd)
  · by_cases hv : value = 0
    · exact Or.inl (by simp [shiftLeft, hv, Int.not_lt.2 h])
    · exact Or.inr (shiftLeft_eq_error h hv (Nat.not_le.1 hd))

theorem shiftRight_eq_ok {bits : Int} (h : 0 ≤ bits) (value : Int) :
    shiftRight value bits = .ok (value / Bits.weight bits.toNat) := by
  simp only [shiftRight, if_neg (Int.not_lt.2 h), Bits.shiftRight_eq_div]

/-- The only digit of one. -/
theorem digitCount_count_one : digitCount (Bits.count 1) = 1 := by decide

theorem powerOfTwo_eq_ok {bits : Int} (h : 0 ≤ bits) (hd : digitCount bits.toNat < digitLimit) :
    powerOfTwo bits = .ok (Bits.weight bits.toNat) := by
  have hsum : digitCount (Bits.count 1) + digitCount bits.toNat ≤ digitLimit := by
    rw [digitCount_count_one]
    omega
  rw [powerOfTwo, shiftLeft_eq_ok h hsum, Int.one_mul]

theorem powerOfTwo_eq_error {bits : Int} (h : 0 ≤ bits) (hd : digitLimit ≤ digitCount bits.toNat) :
    powerOfTwo bits = .error .tooManyDigits := by
  refine shiftLeft_eq_error h (by decide) ?_
  rw [digitCount_count_one]
  omega

/-- Half of the range of a signed field. -/
theorem powerOfTwo_half {f : Field} (h : f.WellFormed) (hc : f.Countable) :
    powerOfTwo (f.width - 1) = .ok (Bits.weight (f.width.toNat - 1)) := by
  have hw := h.width_pos
  have hpred : (f.width - 1).toNat = f.width.toNat - 1 := by omega
  have hd : digitCount (f.width - 1).toNat ≤ digitCount f.width.toNat := digitCount_le (by omega)
  unfold Countable at hc
  rw [powerOfTwo_eq_ok (by omega) (by omega), hpred]

theorem powerOfTwo_width {f : Field} (h : f.WellFormed) (hc : f.Countable) :
    powerOfTwo f.width = .ok (Bits.weight f.width.toNat) := by
  have hw := h.width_pos
  exact powerOfTwo_eq_ok (by omega) hc

/-- The bounds of a well-formed field: as many consecutive multiples of the scale as there are
patterns of `width` bits. -/
def bounds (f : Field) : Span where
  low := if f.signed then -Bits.weight (f.width.toNat - 1) * f.scale else 0
  high :=
    if f.signed then (Bits.weight (f.width.toNat - 1) - 1) * f.scale
    else (Bits.weight f.width.toNat - 1) * f.scale
  unit := f.scale

theorem least_eq_ok {f : Field} (h : f.WellFormed) (hc : f.Countable) :
    f.least = .ok f.bounds.low := by
  have hw := powerOfTwo_half h hc
  cases hs : f.signed <;> simp [least, bounds, hs, hw, bind, Except.bind, pure, Except.pure]

theorem greatest_eq_ok {f : Field} (h : f.WellFormed) (hc : f.Countable) :
    f.greatest = .ok f.bounds.high := by
  have hw := powerOfTwo_half h hc
  have hm := powerOfTwo_width h hc
  cases hs : f.signed <;>
    simp [greatest, mask, bounds, hs, hw, hm, bind, Except.bind, pure, Except.pure]

theorem span_eq_ok {f : Field} (h : f.WellFormed) (hc : f.Countable) : f.span = .ok f.bounds := by
  simp [span, least_eq_ok h hc, greatest_eq_ok h hc, bind, Except.bind, pure, Except.pure, bounds]

/-- A well-formed field holds exactly the multiples of its scale between its bounds. -/
theorem fits_eq_ok {f : Field} (h : f.WellFormed) (hc : f.Countable) (value : Int) :
    f.fits value =
      .ok (decide (value % f.scale = 0 ∧ f.bounds.low ≤ value ∧ value ≤ f.bounds.high)) := by
  have hs := h.scale_ne_zero
  by_cases hm : value % f.scale = 0 <;> by_cases hl : f.bounds.low ≤ value <;>
    simp [fits, hs, hm, hl, least_eq_ok h hc, greatest_eq_ok h hc, bind, Except.bind, pure,
      Except.pure]

/-- Packing moves the low bits of the quotient by the scale up to the field's place. -/
theorem pack_eq_shiftLeft {f : Field} (h : f.WellFormed) (hc : f.Countable) (value : Int) :
    f.pack value = shiftLeft (value / f.scale % Bits.weight f.width.toNat) f.offset := by
  have hw := powerOfTwo_width h hc
  have hd : value.fdiv f.scale = value / f.scale :=
    Int.fdiv_eq_ediv_of_nonneg value (by have := h.scale_pos; omega)
  simp only [pack, if_neg h.scale_ne_zero, hw, hd, bind, Except.bind]

/-- What is packed has at most as many digits as the mask. -/
theorem digitCount_pack_le (f : Field) (value : Int) :
    digitCount (Bits.count (value / f.scale % Bits.weight f.width.toNat)) ≤
      digitCount f.width.toNat := by
  have hpos := Bits.weight_pos f.width.toNat
  exact digitCount_le
    (Bits.count_le (Int.emod_nonneg _ (by omega)) (Int.emod_lt_of_pos _ hpos))

theorem pack_eq_ok {f : Field} (h : f.WellFormed) (hc : f.Countable) (hm : f.Movable)
    (value : Int) :
    f.pack value =
      .ok (value / f.scale % Bits.weight f.width.toNat * Bits.weight f.offset.toNat) := by
  have hcount := f.digitCount_pack_le value
  unfold Movable at hm
  rw [pack_eq_shiftLeft h hc, shiftLeft_eq_ok h.offset_nonneg (by omega)]

theorem extract_eq_ok {f : Field} (h : f.WellFormed) (hc : f.Countable) (word : Int) :
    f.extract word =
      .ok ((let raw := word / Bits.weight f.offset.toNat % Bits.weight f.width.toNat
        if f.signed ∧ Bits.weight (f.width.toNat - 1) ≤ raw then raw - Bits.weight f.width.toNat
        else raw) * f.scale) := by
  have hw := powerOfTwo_half h hc
  have hm := powerOfTwo_width h hc
  have ho := shiftRight_eq_ok h.offset_nonneg word
  cases hs : f.signed with
  | false => simp [extract, hs, hm, ho, bind, Except.bind, pure, Except.pure]
  | true =>
      by_cases hr :
          word / Bits.weight f.offset.toNat % Bits.weight f.width.toNat <
            Bits.weight (f.width.toNat - 1)
      · simp [extract, hs, hm, ho, hw, hr, Int.not_le.2 hr, bind, Except.bind, pure, Except.pure]
      · simp [extract, hs, hm, ho, hw, hr, Int.not_lt.1 hr, bind, Except.bind, pure, Except.pure]

/-! ### Masks with too many digits -/

theorem powerOfTwo_width_eq_error {f : Field} (h : f.WellFormed) (hc : ¬ f.Countable) :
    powerOfTwo f.width = .error .tooManyDigits := by
  have hw := h.width_pos
  exact powerOfTwo_eq_error (by omega) (Nat.not_lt.1 hc)

theorem pack_eq_error {f : Field} (h : f.WellFormed) (hc : ¬ f.Countable) (value : Int) :
    f.pack value = .error .tooManyDigits := by
  simp only [pack, if_neg h.scale_ne_zero, powerOfTwo_width_eq_error h hc, bind, Except.bind]

theorem extract_eq_error {f : Field} (h : f.WellFormed) (hc : ¬ f.Countable) (word : Int) :
    f.extract word = .error .tooManyDigits := by
  simp only [extract, shiftRight_eq_ok h.offset_nonneg, powerOfTwo_width_eq_error h hc, bind,
    Except.bind]

end Field

end ThumbAssembler
