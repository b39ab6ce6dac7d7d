/-
**Character classes.**

The classes of characters that the scanner distinguishes, by their code points, and how they exclude
each other.  Whatever may stand in an identifier may stand in a numeral, and nothing that may stand
in a numeral separates tokens, ends a line or starts a comment.

Main definitions:

* `ThumbAssembler.IsIdentifier` — the texts that are identifiers.

Main results:

* `ThumbAssembler.toNat_of_isIdentifierPart` — the code points of identifiers;
* `ThumbAssembler.isNumeralPart_of_isIdentifierPart` — identifiers are made of numeral characters;
* `ThumbAssembler.IsIdentifier.lower` — an identifier in small letters is an identifier;
* `ThumbAssembler.Text.lower_lower` — small letters stay as they are.
-/

import Mathlib
import ThumbAssembler.Source
import ThumbAssembler.Text.Case

set_option autoImplicit false

namespace ThumbAssembler

/-! ### Code points -/

theorem toNat_of_isDigit {c : Char} (h : c.isDigit = true) : 48 ≤ c.toNat ∧ c.toNat ≤ 57 := by
  simp only [Char.isDigit, Bool.and_eq_true, decide_eq_true_eq, ge_iff_le,
    UInt32.le_iff_toNat_le] at h
  exact h

theorem toNat_of_isAlpha {c : Char} (h : c.isAlpha = true) :
    65 ≤ c.toNat ∧ c.toNat ≤ 90 ∨ 97 ≤ c.toNat ∧ c.toNat ≤ 122 := by
  simp only [Char.isAlpha, Char.isUpper, Char.isLower, Bool.or_eq_true, Bool.and_eq_true,
    decide_eq_true_eq, ge_iff_le, UInt32.le_iff_toNat_le] at h
  exact h

theorem toNat_of_isIdentifierStart {c : Char} (h : isIdentifierStart c = true) :
    65 ≤ c.toNat ∧ c.toNat ≤ 90 ∨ 97 ≤ c.toNat ∧ c.toNat ≤ 122 ∨
      c.toNat = 95 ∨ c.toNat = 46 ∨ c.toNat = 36 := by
  simp only [isIdentifierStart, Bool.or_eq_true, decide_eq_true_eq] at h
  rcases h with ((h | rfl) | rfl) | rfl
  · rcases toNat_of_isAlpha h with h | h
    · exact Or.inl h
    · exact Or.inr (Or.inl h)
  all_goals decide

theorem toNat_of_isIdentifierPart {c : Char} (h : isIdentifierPart c = true) :
    48 ≤ c.toNat ∧ c.toNat ≤ 57 ∨ 65 ≤ c.toNat ∧ c.toNat ≤ 90 ∨ 97 ≤ c.toNat ∧ c.toNat ≤ 122 ∨
      c.toNat = 95 ∨ c.toNat = 46 ∨ c.toNat = 36 := by
  simp only [isIdentifierPart, Bool.or_eq_true] at h
  rcases h with h | h
  · exact Or.inr (toNat_of_isIdentifierStart h)
  · exact Or.inl (toNat_of_isDigit h)

theorem ne_of_toNat_ne {c d : Char} (h : c.toNat ≠ d.toNat) : c ≠ d := fun heq => h (heq ▸ rfl)

theorem isIdentifierPart_of_isIdentifierStart {c : Char} (h : isIdentifierStart c = true) :
    isIdentifierPart c = true := by
  rw [isIdentifierPart, h, Bool.true_or]

/-- No character from the exclamation mark to the tilde is blank. -/
theorem isBlank_eq_false {c : Char} (h : 33 ≤ c.toNat) (h' : c.toNat ≤ 126) :
    isBlank c = false := by
  rw [isBlank, Bool.eq_false_iff]
  intro hc
  simp only [blankCodePoints, List.contains_eq_mem, List.mem_cons, List.not_mem_nil, or_false,
    decide_eq_true_eq] at hc
  omega

/-- No character from the space to the tilde ends a line. -/
theorem isLineBreak_eq_false {c : Char} (h : 32 ≤ c.toNat) (h' : c.toNat ≤ 126) :
    isLineBreak c = false := by
  rw [isLineBreak, Bool.eq_false_iff]
  intro hc
  simp only [breakCodePoints, List.contains_eq_mem, List.mem_cons, List.not_mem_nil, or_false,
    decide_eq_true_eq] at hc
  omega

theorem isNumeralPart_of_toNat {c : Char} (h : 33 ≤ c.toNat) (h' : c.toNat ≤ 126)
    (hne : c.toNat ∉ [44, 93, 91, 64, 58]) : isNumeralPart c = true := by
  simp only [List.mem_cons, List.not_mem_nil, or_false, not_or] at hne
  have hcomma : c ≠ ',' := ne_of_toNat_ne hne.1
  have hclose : c ≠ ']' := ne_of_toNat_ne hne.2.1
  have hopen : c ≠ '[' := ne_of_toNat_ne hne.2.2.1
  have hcomment : c ≠ '@' := ne_of_toNat_ne hne.2.2.2.1
  have hcolon : c ≠ ':' := ne_of_toNat_ne hne.2.2.2.2
  simp [isNumeralPart, isBlank_eq_false h h', hcomma, hclose, hopen, hcomment, hcolon]

/-- Identifiers are made of characters that may stand in a numeral. -/
theorem isNumeralPart_of_isIdentifierPart {c : Char} (h : isIdentifierPart c = true) :
    isNumeralPart c = true := by
  have hc := toNat_of_isIdentifierPart h
  refine isNumeralPart_of_toNat (by omega) (by omega) ?_
  simp only [List.mem_cons, List.not_mem_nil, or_false]
  omega

/-! ### Small letters -/

@[simp] theorem Text.lower_lower (t : Text) : t.lower.lower = t.lower := by
  simp [Text.lower]

theorem isIdentifierStart_toLower {c : Char} (h : isIdentifierStart c = true) :
    isIdentifierStart c.toLower = true := by
  simp only [isIdentifierStart, Bool.or_eq_true, decide_eq_true_eq] at h
  rcases h with ((h | rfl) | rfl) | rfl
  · simp [isIdentifierStart, h]
  all_goals decide

theorem toLower_of_isDigit {c : Char} (h : c.isDigit = true) : c.toLower = c := by
  refine Char.toLower_eq_of_not_isUpper fun hupper => ?_
  have hdigit := toNat_of_isDigit h
  have hcapital : 65 ≤ c.toNat := (of_decide_eq_true hupper).1
  omega

theorem isIdentifierPart_toLower {c : Char} (h : isIdentifierPart c = true) :
    isIdentifierPart c.toLower = true := by
  simp only [isIdentifierPart, Bool.or_eq_true] at h ⊢
  rcases h with h | h
  · exact Or.inl (isIdentifierStart_toLower h)
  · rw [toLower_of_isDigit h]
    exact Or.inr h

/-! ### Identifiers -/

/-- An identifier: a character that may start one, and others that may continue it. -/
def IsIdentifier : Text → Prop
  | [] => False
  | c :: rest => isIdentifierStart c = true ∧ ∀ d ∈ rest, isIdentifierPart d = true

theorem IsIdentifier.ne_nil {t : Text} (h : IsIdentifier t) : t ≠ [] := by
  rintro rfl
  exact h

theorem IsIdentifier.part {t : Text} (h : IsIdentifier t) : ∀ c ∈ t, isIdentifierPart c = true := by
  cases t with
  | nil => simp
  | cons c rest =>
      intro d hd
      rcases List.mem_cons.1 hd with rfl | hd
      · exact isIdentifierPart_of_isIdentifierStart h.1
      · exact h.2 d hd

theorem IsIdentifier.lower {t : Text} (h : IsIdentifier t) : IsIdentifier t.lower := by
  cases t with
  | nil => exact h
  | cons c rest =>
      refine ⟨isIdentifierStart_toLower h.1, ?_⟩
      intro d hd
      obtain ⟨e, he, rfl⟩ := List.mem_map.1 hd
      exact isIdentifierPart_toLower (h.2 e he)

end ThumbAssembler
