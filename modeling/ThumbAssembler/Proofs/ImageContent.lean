/-
**What an image holds.**

An image is a header and a body of words in hexadecimal, laid out in rows.  Reading the body back
item by item gives the words in their order, whatever the row width, as long as it is not negative:
a negative row width leaves no rows, and the image loses all words.

Main definitions:

* `ThumbAssembler.Text.items` — the items of a text, separated by white space;
* `ThumbAssembler.Text.hexadecimal?` — the number that hexadecimal digits denote;
* `ThumbAssembler.imageBody` — the part of an image after the header.

Main results:

* `ThumbAssembler.hexadecimal?_wordText` — a word is read back from its digits;
* `ThumbAssembler.flatten_rows` — cutting into rows keeps all elements in order;
* `ThumbAssembler.items_imageBody` — **the items of a body are the words of its rows**;
* `ThumbAssembler.image_holds_words_iff` — an image holds all words exactly if the row width is not
  negative, or there are no words.
-/

import Mathlib
import ThumbAssembler.Proofs.BranchTargets
import ThumbAssembler.Proofs.NumeralLaws
import ThumbAssembler.Proofs.PlaceErasure

set_option autoImplicit false

namespace ThumbAssembler

/-! ### Items -/

namespace Text

/-- The items of a text: its maximal runs of characters that are not blank. -/
def items (t : Text) : List Text := (List.splitOnP isBlank t).filter fun item => !item.isEmpty

theorem items_nil : items [] = [] := rfl

/-- A blank separates items. -/
theorem items_append_blank (s : Text) {c : Char} (hc : isBlank c = true) (t : Text) :
    items (s ++ c :: t) = items s ++ items t := by
  rw [items, List.splitOnP_append_cons s t hc, List.filter_append]
  rfl

/-- A text without blanks is one item. -/
theorem items_of_not_blank {t : Text} (h : ∀ c ∈ t, isBlank c = false) (hne : t ≠ []) :
    items t = [t] := by
  rw [items, List.splitOnP_eq_singleton h]
  simp [hne]

theorem items_joined {c : Char} (hc : isBlank c = true) {parts : List Text}
    (h : ∀ t ∈ parts, (∀ c ∈ t, isBlank c = false) ∧ t ≠ []) :
    items (joined [c] parts) = parts := by
  induction parts with
  | nil => rfl
  | cons t parts ih =>
      obtain ⟨⟨hblank, hne⟩, hparts⟩ := List.forall_mem_cons.1 h
      cases parts with
      | nil =>
          rw [joined_singleton, items_of_not_blank hblank hne]
      | cons u parts =>
          have hjoined : joined [c] (t :: u :: parts) = t ++ c :: joined [c] (u :: parts) :=
            joined_cons_cons _ _ _ _
          rw [hjoined, items_append_blank t hc, items_of_not_blank hblank hne, ih hparts]
          rfl

/-- The number that hexadecimal digits after an optional sign denote. -/
def hexadecimal? (t : Text) : Option Int :=
  let (sign, digits) := Numeral.splitSign t
  if digits ≠ [] ∧ digits.all Numeral.isHexDigit then some (sign * digitsValue 16 digits) else none

end Text

/-! ### Words -/

/-- Hexadecimal digits, filled up with zeros. -/
theorem isHexDigit_of_mem_leftpad {width n : Nat} {c : Char}
    (h : c ∈ (Nat.toDigits 16 n).leftpad width '0') : Numeral.isHexDigit c = true := by
  rcases List.mem_append.1 h with h | h
  · rw [List.eq_of_mem_replicate h]
    decide
  · exact isHexDigit_of_mem_toDigits (by norm_num) le_rfl h

theorem leftpad_toDigits_ne_nil (width n : Nat) : (Nat.toDigits 16 n).leftpad width '0' ≠ [] := by
  simp [List.leftpad, Nat.toDigits_ne_nil]

/-- The digits of a number are read back, with a sign in front or without one. -/
theorem hexadecimal?_leftpad {t : Text} {sign : Int} {width n : Nat}
    (h : Numeral.splitSign t = (sign, (Nat.toDigits 16 n).leftpad width '0')) :
    t.hexadecimal? = some (sign * n) := by
  have hall : ((Nat.toDigits 16 n).leftpad width '0').all Numeral.isHexDigit = true :=
    List.all_eq_true.2 fun c hc => isHexDigit_of_mem_leftpad hc
  have hvalue : digitsValue 16 ((Nat.toDigits 16 n).leftpad width '0') = n := by
    rw [List.leftpad, digitsValue_replicate_zero, digitsValue_toDigits_of_le (by norm_num) le_rfl]
  simp only [Text.hexadecimal?, h, hvalue]
  exact if_pos ⟨leftpad_toDigits_ne_nil width n, hall⟩

/-- **A word is read back from its digits.** -/
theorem hexadecimal?_wordText (w : Int) : (wordText w).hexadecimal? = some w := by
  unfold wordText zeroPadded
  split
  · have hsign : Numeral.splitSign ('-' :: (Nat.toDigits 16 w.natAbs).leftpad 3 '0') =
        (-1, (Nat.toDigits 16 w.natAbs).leftpad 3 '0') := rfl
    rw [hexadecimal?_leftpad hsign]
    congr 1
    omega
  · have hsign : Numeral.splitSign ((Nat.toDigits 16 w.natAbs).leftpad 4 '0') =
        (1, (Nat.toDigits 16 w.natAbs).leftpad 4 '0') :=
      Numeral.splitSign_eq_self fun c hc =>
        isHexDigit_of_mem_leftpad (List.mem_of_mem_head? hc)
    rw [hexadecimal?_leftpad hsign]
    congr 1
    omega

theorem isBlank_of_isHexDigit {c : Char} (h : Numeral.isHexDigit c = true) : isBlank c = false := by
  simp only [Numeral.isHexDigit, Bool.or_eq_true, Bool.and_eq_true, decide_eq_true_eq,
    Char.isDigit] at h
  refine isBlank_eq_false ?_ ?_
  · rcases h with (⟨h, -⟩ | ⟨h, -⟩) | ⟨h, -⟩ <;> exact le_trans (by decide) h
  · rcases h with (⟨-, h⟩ | ⟨-, h⟩) | ⟨-, h⟩ <;> exact le_trans h (by decide)

/-- A word is one item. -/
theorem wordText_item (w : Int) : (∀ c ∈ wordText w, isBlank c = false) ∧ wordText w ≠ [] := by
  unfold wordText zeroPadded
  split
  · refine ⟨List.forall_mem_cons.2 ⟨by decide, fun c hc => ?_⟩, List.cons_ne_nil _ _⟩
    exact isBlank_of_isHexDigit (isHexDigit_of_mem_leftpad hc)
  · exact ⟨fun c hc => isBlank_of_isHexDigit (isHexDigit_of_mem_leftpad hc),
      leftpad_toDigits_ne_nil _ _⟩

/-! ### Rows -/

/-- Cutting into rows keeps all elements in order. -/
theorem flatten_rows {α : Type} (width : Nat) (l : List α) : (rows width l).flatten = l := by
  fun_induction rows width l with
  | case1 => rfl
  | case2 a rest ih => rw [List.flatten_cons, ih, List.cons_append, List.take_append_drop]

/-- The rows of an image hold all words in order, unless the row width is negative. -/
theorem flatten_imageRows {width : RowWidth} (h : 0 ≤ width.getD 0) (words : List Int) :
    (imageRows width words).flatten = words := by
  unfold imageRows
  split
  · split
    · rename_i hempty
      rw [List.isEmpty_iff.1 hempty]
      rfl
    · simp
  · exact flatten_rows _ _
  · rename_i n hwidth
    rw [hwidth] at h
    exact absurd h (by omega)

theorem imageRows_of_neg {width : RowWidth} (h : width.getD 0 < 0) (words : List Int) :
    imageRows width words = [] := by
  unfold imageRows
  split
  · rename_i hwidth
    rw [hwidth] at h
    exact absurd h (by decide)
  · rename_i n hwidth
    rw [hwidth] at h
    exact absurd h (Int.not_lt.2 (Int.natCast_nonneg _))
  · rfl

/-! ### Images -/

/-- The part of an image after the header: every row on a line of its own. -/
def imageBody (width : RowWidth) (words : List Int) : Text :=
  (imageRows width words).flatMap fun row => '\n' :: Text.joined " ".toList (row.map wordText)

theorem joined_cons_eq (separator first : Text) (parts : List Text) :
    Text.joined separator (first :: parts) = first ++ parts.flatMap fun t => separator ++ t := by
  induction parts generalizing first with
  | nil => rw [Text.joined_singleton, List.flatMap_nil, List.append_nil]
  | cons t parts ih =>
      rw [Text.joined_cons_cons, ih, List.flatMap_cons, List.append_assoc]

/-- An image is its header and its body. -/
theorem image_eq (header : Text) (width : RowWidth) (words : List Int) :
    image header width words = header ++ imageBody width words := by
  rw [image, joined_cons_eq, List.flatMap_map]
  rfl

/-- **The items of a body are the words of its rows.** -/
theorem items_imageBody (width : RowWidth) (words : List Int) :
    (imageBody width words).items = (imageRows width words).flatten.map wordText := by
  unfold imageBody
  induction imageRows width words with
  | nil => rfl
  | cons row rest ih =>
      have hrow : Text.items (Text.joined " ".toList (row.map wordText)) = row.map wordText := by
        refine Text.items_joined (by decide) fun t ht => ?_
        obtain ⟨w, -, rfl⟩ := List.mem_map.1 ht
        exact wordText_item w
      have hfeed (s : Text) : Text.items ('\n' :: s) = s.items := Text.items_append_blank [] rfl s
      rw [List.flatMap_cons, List.cons_append, hfeed, List.flatten_cons, List.map_append, ← ih]
      -- the next row, if there is one, starts with the line feed that ends this one
      cases rest with
      | nil => rw [List.flatMap_nil, List.append_nil, hrow, Text.items_nil, List.append_nil]
      | cons next rest =>
          rw [List.flatMap_cons, List.cons_append, Text.items_append_blank _ rfl, hrow, hfeed]

/-- Reading the body back gives the words of its rows. -/
theorem hexadecimal_items_imageBody (width : RowWidth) (words : List Int) :
    (imageBody width words).items.map Text.hexadecimal? =
      (imageRows width words).flatten.map some := by
  rw [items_imageBody, List.map_map]
  exact List.map_congr_left fun w _ => hexadecimal?_wordText w

/-- The report on a source that can be assembled. -/
theorem exists_report_of_assemble {isa : InstructionSet} {target : Target} {source : Text}
    {a : Assembly} (h : assemble isa target.bias source = .ok a) (width : RowWidth) :
    report isa target width source = .ok (.success
      (target.header ++ imageBody (chosenWidth target width) a.words) a.program a.words) := by
  rw [report, h]
  simp only [image_eq]

/-- **When an image holds all words.**  A source that is assembled has one word for each of its
instructions, and the same words for every row width.  The image is the header and a body; the items
of the body, read as hexadecimal numbers, are the words in their order exactly if the row width is
not negative, or there are no words at all.  Under a negative row width the body is empty. -/
theorem image_holds_words_iff {target : Target} {width : RowWidth} {source : Text} {r : Report}
    (h : report Thumb.instructionSet target width source = .ok r) (hok : r.isOk = true) :
    ∃ p body, parse Thumb.instructionSet source = .ok p ∧ r.words.length = p.size ∧
      r.output = target.header ++ body ∧
      (body.items.map Text.hexadecimal? = r.words.map some ↔
        0 ≤ (chosenWidth target width).getD 0 ∨ r.words = []) ∧
      ((chosenWidth target width).getD 0 < 0 → body = []) ∧
      ∀ width', ∃ r', report Thumb.instructionSet target width' source = .ok r' ∧
        r'.isOk = true ∧ r'.words = r.words := by
  obtain ⟨a, ha, -⟩ := exists_assemble_of_report h hok
  obtain ⟨p, q, words, hp, -, hq, hencode, rfl⟩ := assemble_eq_ok_iff.1 ha
  have hreport := exists_report_of_assemble ha
  obtain rfl := Except.ok.inj ((hreport width).symm.trans h)
  refine ⟨p, imageBody (chosenWidth target width) words, hp, (encode_linked hq hencode).1, rfl,
    ?_, ?_, fun width' => ⟨_, hreport width', rfl, rfl⟩⟩
  · rw [hexadecimal_items_imageBody]
    rcases Int.lt_or_le ((chosenWidth target width).getD 0) 0 with hneg | hpos
    · rw [imageRows_of_neg hneg]
      simp only [List.flatten_nil, List.map_nil, Int.not_le.2 hneg, false_or]
      exact eq_comm.trans List.map_eq_nil_iff
    · rw [flatten_imageRows hpos]
      exact iff_of_true rfl (Or.inl hpos)
  · intro hneg
    rw [imageBody, imageRows_of_neg hneg]
    rfl

/-- Three words in rows of two. -/
theorem image_holds_words_iff_rows_of_two :
    ∃ r, report Thumb.instructionSet Target.parm (some 2)
        "movs r0, #1\nb end\nadds r2, r0, r1\nend:".toList = .ok r ∧
      r.isOk = true ∧ r.words = [0x2001, 0xE7FF, 0x1842] ∧
      r.output = "v2.0 raw\n2001 e7ff\n1842".toList ∧
      ∃ body, r.output = Target.parm.header ++ body ∧
        body.items.map Text.hexadecimal? = r.words.map some := by
  obtain ⟨r, hr, htest⟩ : ∃ r, report Thumb.instructionSet Target.parm (some 2)
      "movs r0, #1\nb end\nadds r2, r0, r1\nend:".toList = .ok r ∧
      (r.isOk && decide (r.words = [0x2001, 0xE7FF, 0x1842] ∧
        r.output = "v2.0 raw\n2001 e7ff\n1842".toList)) = true :=
    exists_ok_of_any (by decide +kernel)
  rw [Bool.and_eq_true, decide_eq_true_eq] at htest
  obtain ⟨p, body, -, -, houtput, hitems, -⟩ := image_holds_words_iff hr htest.1
  exact ⟨r, hr, htest.1, htest.2.1, htest.2.2, body, houtput, hitems.2 (Or.inl (by decide))⟩

/-- **A negative row width loses the words.** -/
theorem image_loses_words_of_negative_width :
    ∃ r, report Thumb.instructionSet Target.parm (some (-1)) "movs r0, #1".toList = .ok r ∧
      r.isOk = true ∧ r.words = [0x2001] ∧
      ¬ ∃ body, r.output = Target.parm.header ++ body ∧
        body.items.map Text.hexadecimal? = r.words.map some := by
  obtain ⟨r, hr, htest⟩ : ∃ r,
      report Thumb.instructionSet Target.parm (some (-1)) "movs r0, #1".toList = .ok r ∧
      (r.isOk && decide (r.words = [0x2001] ∧ r.output = Target.parm.header)) = true :=
    exists_ok_of_any (by decide +kernel)
  rw [Bool.and_eq_true, decide_eq_true_eq] at htest
  refine ⟨r, hr, htest.1, htest.2.1, ?_⟩
  rintro ⟨body, houtput, hitems⟩
  obtain rfl : body = [] := by simpa [htest.2.2] using houtput
  rw [htest.2.1] at hitems
  cases hitems

end ThumbAssembler
