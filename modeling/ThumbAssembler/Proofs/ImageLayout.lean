/-
**How an image is laid out.**

An image is a header, alone if there are no words, and else followed by rows, each on a line of its
own and without a line break at the end.  A word takes four hexadecimal digits in small letters, and
one blank separates two words of a row.  Without a row width there is one row; with a row width all
rows are full but the last, which may be shorter and is never empty.  So the words can be read off
the image.

Main definitions:

* `ThumbAssembler.Text.IsNumeral` — a text is a numeral of a number in a base, in small letters;
* `ThumbAssembler.Filled` — rows of a given width, all of them full but the last.

Main results:

* `ThumbAssembler.isNumeral_zeroPadded`, `ThumbAssembler.length_zeroPadded` — the digits of a number
  and how many there are;
* `ThumbAssembler.filled_rows` — cutting into rows fills all rows but the last;
* `ThumbAssembler.Filled.length_eq` — how many rows there are;
* `ThumbAssembler.image_layout` — **the layout of an image**, and that it determines the words.
-/

import Mathlib
import ThumbAssembler.Proofs.ImageContent

set_option autoImplicit false

namespace ThumbAssembler

/-! ### Numerals -/

/-- The text is a numeral of a number: digits of the base, in small letters, that denote it. -/
structure Text.IsNumeral (base : Nat) (n : Int) (t : Text) : Prop where
  ne_nil : t ≠ []
  digits : ∀ c ∈ t, c ∈ smallDigits.take base
  value : (digitsValue base t : Int) = n

/-- **The digits of a number denote it**, with zeros in front. -/
theorem isNumeral_zeroPadded {base : Nat} (hbase : 1 < base) (hle : base ≤ 16) {n : Int}
    (hn : 0 ≤ n) (width : Nat) : Text.IsNumeral base n (zeroPadded base width n) := by
  rw [zeroPadded, if_neg (Int.not_lt.2 hn), List.leftpad]
  refine ⟨by simp [Nat.toDigits_ne_nil], ?_, ?_⟩
  · intro c hc
    rcases List.mem_append.1 hc with hc | hc
    · rw [List.eq_of_mem_replicate hc]
      exact digitChar_mem_smallDigits (d := 0) (by omega) hle
    · exact mem_smallDigits_of_mem_toDigits hbase hle hc
  · rw [digitsValue_replicate_zero, digitsValue_toDigits_of_le hbase hle]
    omega

/-- A number that has no more digits than the width takes the width exactly. -/
theorem length_zeroPadded {base : Nat} (hbase : 1 < base) {n : Int} (hn : 0 ≤ n) {width : Nat}
    (hwidth : 0 < width) (hlt : n < (base : Int) ^ width) :
    (zeroPadded base width n).length = width := by
  have hdigits : (Nat.toDigits base n.natAbs).length ≤ width := by
    rw [Nat.length_toDigits_le_iff hbase hwidth]
    zify
    rwa [abs_of_nonneg hn]
  rw [zeroPadded, if_neg (Int.not_lt.2 hn), List.leftpad, List.length_append,
    List.length_replicate]
  omega

/-! ### Rows -/

/-- All rows but the last have the width, and the last has at least one element and no more than the
width. -/
def Filled {α : Type} (width : Nat) (rows : List (List α)) : Prop :=
  ∃ full last, rows = full ++ [last] ∧ (∀ row ∈ full, row.length = width) ∧ 1 ≤ last.length ∧
    last.length ≤ width

/-- **Cutting into rows fills all rows but the last.** -/
theorem filled_rows {α : Type} {width : Nat} (hwidth : 1 ≤ width) {l : List α} (h : l ≠ []) :
    Filled width (rows width l) := by
  fun_induction rows width l with
  | case1 => exact absurd rfl h
  | case2 a rest ih =>
      by_cases hrest : rest.drop (width - 1) = []
      · refine ⟨[], a :: rest.take (width - 1), ?_, by simp, by simp, ?_⟩
        · rw [hrest, rows, List.nil_append]
        · rw [List.length_cons, List.length_take]
          omega
      · obtain ⟨full, last, hrows, hfull, hlast⟩ := ih hrest
        have hlong : width - 1 < rest.length := by
          rwa [List.drop_eq_nil_iff, Nat.not_le] at hrest
        refine ⟨(a :: rest.take (width - 1)) :: full, last, by rw [hrows, List.cons_append], ?_,
          hlast⟩
        refine List.forall_mem_cons.2 ⟨?_, hfull⟩
        rw [List.length_cons, List.length_take]
        omega

/-- **How many rows there are.** -/
theorem Filled.length_eq {α : Type} {width : Nat} {rows : List (List α)} (h : Filled width rows) :
    rows.length = rows.flatten.length ⌈/⌉ width := by
  obtain ⟨full, last, rfl, hfull, hlow, hhigh⟩ := h
  have hsum : (full.map List.length).sum = full.length * width := by
    rw [List.map_congr_left hfull, List.map_const', List.sum_replicate, smul_eq_mul]
  have htotal : (full ++ [last]).flatten.length + width - 1 =
      (last.length - 1) + (full.length + 1) * width := by
    rw [List.length_flatten, List.map_append, List.sum_append, hsum, List.map_singleton,
      List.sum_singleton, Nat.add_mul]
    omega
  rw [Nat.ceilDiv_eq_add_pred_div, htotal, Nat.add_mul_div_right _ _ (by omega),
    Nat.div_eq_of_lt (by omega), Nat.zero_add, List.length_append, List.length_singleton]

/-! ### Images -/

theorem imageRows_nil (width : RowWidth) : imageRows width [] = [] := by
  unfold imageRows
  split
  · rfl
  · rw [rows]
  · rfl

theorem imageRows_of_eq_zero {width : RowWidth} (h : width.getD 0 = 0) {words : List Int}
    (hne : words ≠ []) : imageRows width words = [words] := by
  unfold imageRows
  rw [h]
  exact if_neg (by simpa using hne)

theorem imageRows_of_pos {k : Nat} (hk : 1 ≤ k) (words : List Int) :
    imageRows (some (k : Int)) words = rows k words := by
  obtain ⟨n, rfl⟩ := Nat.exists_eq_add_of_le' hk
  rfl

/-- **Images with the same header and row width have the same words.** -/
theorem words_eq_of_image_eq {header : Text} {width : RowWidth} (hwidth : 0 ≤ width.getD 0)
    {words words' : List Int} (h : image header width words' = image header width words) :
    words' = words := by
  rw [image_eq, image_eq, List.append_cancel_left_eq] at h
  have hitems := congrArg (fun body => (Text.items body).map Text.hexadecimal?) h
  simp only [hexadecimal_items_imageBody, flatten_imageRows hwidth] at hitems
  exact List.map_injective_iff.2 (Option.some_injective Int) hitems

/-- **The layout of an image.**  Let words of sixteen bits be laid out under a header, without a row
width (or with zero) or with a positive one.  Without words the image is the header.  Otherwise
there are rows that hold the words in order, and the image is the header and the rows with line
feeds between them; the words of a row are separated by blanks.  Every word is given by four digits
in small letters.  Without a row width there is one row; with `k` words to a row there are as many
rows as the words fill, all of them full but the last, which is not empty.  The image determines the
words. -/
theorem image_layout {words : List Int} (hwords : ∀ w ∈ words, 0 ≤ w ∧ w ≤ 65535) (header : Text)
    {width : RowWidth} (hwidth : 0 ≤ width.getD 0) :
    (words = [] → image header width words = header) ∧
      (words ≠ [] → ∃ rows : List (List Int), rows.flatten = words ∧
        image header width words = header ++ '\n' :: Text.joined "\n".toList
          (rows.map fun row => Text.joined " ".toList (row.map wordText)) ∧
        (width.getD 0 = 0 → rows = [words]) ∧
        ∀ k : Nat, 1 ≤ k → width = some (k : Int) →
          rows.length = words.length ⌈/⌉ k ∧ Filled k rows) ∧
      (∀ w ∈ words, (wordText w).length = 4 ∧ (wordText w).IsNumeral 16 w) ∧
      ∀ words', image header width words' = image header width words → words' = words := by
  refine ⟨?_, ?_, ?_, fun words' => words_eq_of_image_eq hwidth⟩
  · rintro rfl
    rw [image_eq, imageBody, imageRows_nil, List.flatMap_nil, List.append_nil]
  · intro hne
    have hflatten := flatten_imageRows hwidth words
    refine ⟨imageRows width words, hflatten, ?_, fun h => imageRows_of_eq_zero h hne, ?_⟩
    · cases hrows : imageRows width words with
      | nil =>
          rw [hrows] at hflatten
          exact absurd hflatten.symm hne
      | cons row rest =>
          rw [image, hrows, List.map_cons, Text.joined_cons_cons]
          rfl
    · rintro k hk rfl
      have hfilled := filled_rows hk hne
      rw [imageRows_of_pos hk, hfilled.length_eq, flatten_rows]
      exact ⟨rfl, hfilled⟩
  · intro w hw
    obtain ⟨hlow, hhigh⟩ := hwords w hw
    exact ⟨length_zeroPadded (by norm_num) hlow (by norm_num) (by omega),
      isNumeral_zeroPadded (by norm_num) le_rfl hlow 4⟩

/-- Five words with two to a row: the third row is shorter. -/
theorem image_layout_rows_of_two :
    ∃ rows : List (List Int), rows.flatten = [0x2001, 0xe7ff, 0, 10, 0xffff] ∧
      image rawHeader (some 2) [0x2001, 0xe7ff, 0, 10, 0xffff] = rawHeader ++ '\n' ::
        Text.joined "\n".toList
          (rows.map fun row => Text.joined " ".toList (row.map wordText)) ∧
      rows.length = 3 ∧ Filled 2 rows ∧
      image rawHeader (some 2) [0x2001, 0xe7ff, 0, 10, 0xffff] =
        "v2.0 raw\n2001 e7ff\n0000 000a\nffff".toList := by
  have hwords : ∀ w ∈ [0x2001, 0xe7ff, 0, 10, 0xffff], (0 : Int) ≤ w ∧ w ≤ 65535 := by decide
  obtain ⟨-, hrows, -⟩ := @image_layout _ hwords rawHeader (some 2) (by decide)
  obtain ⟨rows, hflatten, himage, -, hfilled⟩ := hrows (by decide)
  obtain ⟨hlength, hfilled⟩ := hfilled 2 (by decide) rfl
  exact ⟨rows, hflatten, himage, hlength.trans (by decide), hfilled, by decide +kernel⟩

end ThumbAssembler
