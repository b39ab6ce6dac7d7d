/-
**Tokens and the text they come from.**

Every identifier and every immediate that the scanner yields stands in the text, as a maximal run of
its characters; and the scanner stops only for a fault of syntax on its line, or for a decimal
numeral with too many digits to be read.

Main definitions:

* `ThumbAssembler.Text.HasImmediate`, `ThumbAssembler.Text.HasIdentifier` — the numerals after a
  number sign, and the identifiers, of a text;
* `ThumbAssembler.Text.WithinDigitLimit` — no numeral of the text is too long to be read or printed;
* `ThumbAssembler.Token.SpelledIn` — a token stands in a text;
* `ThumbAssembler.SyntaxFault` — a rejection for syntax on a line.

Main results:

* `ThumbAssembler.scan_outcome` — **tokens stand in the text, and faults are faults of its line**.
-/

import Mathlib
import ThumbAssembler.Proofs.CharacterClasses
import ThumbAssembler.Proofs.FirstFailure
import ThumbAssembler.Proofs.NumeralLaws
import ThumbAssembler.Token

set_option autoImplicit false

namespace ThumbAssembler

/-! ### Runs of characters -/

/-- A text does not start with a character of the class. -/
def StartsOutside (p : Char → Bool) (t : Text) : Prop := ∀ c ∈ t.head?, p c = false

/-- A text does not end with a character of the class. -/
def EndsOutside (p : Char → Bool) (t : Text) : Prop := ∀ c ∈ t.getLast?, p c = false

theorem startsOutside_dropWhile (p : Char → Bool) (t : Text) :
    StartsOutside p (t.dropWhile p) := by
  intro c hc
  have hnot := List.head?_dropWhile_not p t
  rw [Option.mem_def.1 hc] at hnot
  simpa using hnot

theorem startsOutside_of_imp {p q : Char → Bool} {t : Text} (h : StartsOutside p t)
    (hpq : ∀ c, q c = true → p c = true) : StartsOutside q t := by
  intro c hc
  by_contra hq
  rw [Bool.not_eq_false] at hq
  have hp := h c hc
  rw [hpq c hq] at hp
  cases hp

theorem endsOutside_singleton {p : Char → Bool} {c : Char} (h : p c = false) :
    EndsOutside p [c] := by
  intro d hd
  rw [← Option.some_inj.1 hd]
  exact h

/-! ### Numerals and identifiers of a text -/

namespace Text

/-- The numeral stands in the text right after a number sign, as long as it can be. -/
def HasImmediate (t numeral : Text) : Prop :=
  ∃ before after, t = before ++ '#' :: (numeral ++ after) ∧
    (∀ c ∈ numeral, isNumeralPart c = true) ∧ StartsOutside isNumeralPart after

/-- The identifier stands in the text, as long as it can be. -/
def HasIdentifier (t name : Text) : Prop :=
  IsIdentifier name ∧ ∃ before after, t = before ++ (name ++ after) ∧
    EndsOutside isIdentifierPart before ∧ StartsOutside isIdentifierPart after

/-- No numeral of the text is too long: a decimal one has few enough digits to be read, a
hexadecimal one has a value that can be printed, and the number of a register can be read. -/
structure WithinDigitLimit (t : Text) : Prop where
  decimal : ∀ numeral digits, t.HasImmediate numeral →
    Numeral.magnitude? (Numeral.splitSign numeral).2 = some (10, digits) →
    digits.length ≤ maxDigits
  hexadecimal : ∀ numeral digits, t.HasImmediate numeral →
    Numeral.magnitude? (Numeral.splitSign numeral).2 = some (16, digits) →
    digitsValue 16 digits < printLimit
  register : ∀ name digits, t.HasIdentifier name → registerDigits? name = some digits →
    digits.length ≤ maxDigits

/-- A text with half as many characters as a number may have digits is within the limit. -/
theorem withinDigitLimit_of_length_le {t : Text} (h : 2 * t.length ≤ maxDigits) :
    t.WithinDigitLimit := by
  have himmediate {numeral : Text} (hnumeral : t.HasImmediate numeral) :
      numeral.length ≤ t.length := by
    obtain ⟨before, after, rfl, -⟩ := hnumeral
    simp only [List.length_append, List.length_cons]
    omega
  refine ⟨?_, ?_, ?_⟩
  · intro numeral digits hnumeral hmagnitude
    have h₁ := Numeral.length_digits_le hmagnitude
    have h₂ := himmediate hnumeral
    omega
  · intro numeral digits hnumeral hmagnitude
    have h₁ := Numeral.length_digits_le hmagnitude
    have h₂ := himmediate hnumeral
    rw [printLimit_eq]
    calc digitsValue 16 digits
        < 16 ^ digits.length := digitsValue_sixteen_lt_pow digits
      _ ≤ (10 ^ 2) ^ digits.length := Nat.pow_le_pow_left (by norm_num) _
      _ = 10 ^ (2 * digits.length) := (pow_mul 10 2 _).symm
      _ ≤ 10 ^ maxDigits := Nat.pow_le_pow_right (by norm_num) (by omega)
  · rintro name digits ⟨-, before, after, rfl, -⟩ hdigits
    have hname : digits.length ≤ name.length := by
      unfold registerDigits? at hdigits
      split at hdigits
      · split at hdigits
        · rw [← Option.some_inj.1 hdigits, List.length_cons]
          omega
        · cases hdigits
      · cases hdigits
    simp only [List.length_append] at h
    omega

theorem HasImmediate.append_left {t numeral : Text} (h : t.HasImmediate numeral) (chunk : Text) :
    (chunk ++ t).HasImmediate numeral := by
  obtain ⟨before, after, rfl, hnumeral, hafter⟩ := h
  exact ⟨chunk ++ before, after, by rw [List.append_assoc], hnumeral, hafter⟩

/-- An identifier stays one when the text is continued to the left, unless this lengthens it. -/
theorem HasIdentifier.append_left {t name : Text} (h : t.HasIdentifier name) (chunk : Text)
    (hchunk : EndsOutside isIdentifierPart chunk ∨ StartsOutside isIdentifierStart t) :
    (chunk ++ t).HasIdentifier name := by
  obtain ⟨hname, before, after, rfl, hbefore, hafter⟩ := h
  refine ⟨hname, chunk ++ before, after, by rw [List.append_assoc], ?_, hafter⟩
  cases before with
  | nil =>
      rw [List.append_nil]
      rcases hchunk with hchunk | hstart
      · exact hchunk
      · -- an identifier at the very start of the text contradicts how the text starts
        cases name with
        | nil => exact absurd rfl hname.ne_nil
        | cons c rest =>
            have hc : isIdentifierStart c = false := hstart c (by simp)
            rw [hname.1] at hc
            cases hc
  | cons c before =>
      intro d hd
      refine hbefore d ?_
      rwa [List.getLast?_append_of_ne_nil _ (by simp)] at hd

end Text

/-! ### Scanning -/

/-- The source is rejected for its syntax on a line. -/
def SyntaxFault (line : Int) (e : Fault) : Prop :=
  ∃ r, e = .rejected r ∧ r.cause.kind = .syntactic ∧ r.place.line = line

/-- A cause of syntax that prints no long number gives rise to a fault of syntax. -/
theorem syntaxFault_rejection {cause : Cause} {place : Place} (hkind : cause.kind = .syntactic)
    (hnumbers : cause.numbers.all isPrintable = true) :
    SyntaxFault place.line (rejection cause place) :=
  ⟨⟨cause, place⟩, by rw [rejection, if_pos hnumbers], hkind, rfl⟩

/-- An identifier or an immediate stands in the text. -/
def Token.SpelledIn (t : Token) (text : Text) : Prop :=
  match t.kind with
  | .identifier => text.HasIdentifier t.text
  | .immediate v => ∃ numeral, t.text = '#' :: numeral ∧ text.HasImmediate numeral ∧
      Numeral.value? numeral = .ok (some v)
  | _ => True

/-- A decimal numeral of the text has too many digits to be read. -/
def LongNumeral (text : Text) (e : Fault) : Prop :=
  ∃ numeral digits, e = .numeralTooLong digits.length ∧ text.HasImmediate numeral ∧
    Numeral.magnitude? (Numeral.splitSign numeral).2 = some (10, digits) ∧
    maxDigits < digits.length

/-- A hexadecimal numeral of the text has a value with too many digits to be printed. -/
def LongHexadecimal (text : Text) : Prop :=
  ∃ numeral digits, text.HasImmediate numeral ∧
    Numeral.magnitude? (Numeral.splitSign numeral).2 = some (16, digits) ∧
    printLimit ≤ digitsValue 16 digits

theorem Text.WithinDigitLimit.not_longHexadecimal {text : Text} (h : text.WithinDigitLimit) :
    ¬ LongHexadecimal text := by
  rintro ⟨numeral, digits, hnumeral, hmagnitude, hlong⟩
  exact absurd (h.hexadecimal numeral digits hnumeral hmagnitude) (Nat.not_lt.2 hlong)

theorem value?_outcome (numeral : Text) :
    Outcome (fun _ => True)
      (fun e => ∃ digits, e = .numeralTooLong digits.length ∧
        Numeral.magnitude? (Numeral.splitSign numeral).2 = some (10, digits) ∧
        maxDigits < digits.length)
      (Numeral.value? numeral) := by
  unfold Numeral.value?
  split
  · trivial
  · rename_i base digits hmagnitude
    split
    · rename_i hlong
      obtain ⟨rfl, hlong⟩ := hlong
      exact ⟨digits, rfl, hmagnitude, hlong⟩
    · trivial

/-- A token of the rest of a text is a token of the text, if the two do not run together. -/
theorem Token.SpelledIn.append_left {t : Token} {rest : Text} (h : t.SpelledIn rest) (chunk : Text)
    (hchunk : EndsOutside isIdentifierPart chunk ∨ StartsOutside isIdentifierStart rest) :
    t.SpelledIn (chunk ++ rest) := by
  obtain ⟨kind, text, column⟩ := t
  cases kind with
  | identifier => exact Text.HasIdentifier.append_left h chunk hchunk
  | immediate v =>
      obtain ⟨numeral, htext, hnumeral, hvalue⟩ := h
      exact ⟨numeral, htext, hnumeral.append_left chunk, hvalue⟩
  | _ => trivial

theorem LongNumeral.append_left {rest : Text} {e : Fault} (h : LongNumeral rest e) (chunk : Text) :
    LongNumeral (chunk ++ rest) e := by
  obtain ⟨numeral, digits, he, hnumeral, hmagnitude, hlong⟩ := h
  exact ⟨numeral, digits, he, hnumeral.append_left chunk, hmagnitude, hlong⟩

/-- What a scan of a text can end with. -/
def ScanOutcome (line : Int) (text : Text) : Except Fault (List Token) → Prop :=
  Outcome (fun ts => ∀ t ∈ ts, t.SpelledIn text) (fun e => SyntaxFault line e ∨ LongNumeral text e)

theorem ScanOutcome.append_left {line : Int} {rest : Text} {x : Except Fault (List Token)}
    (h : ScanOutcome line rest x) (chunk : Text)
    (hchunk : EndsOutside isIdentifierPart chunk ∨ StartsOutside isIdentifierStart rest) :
    ScanOutcome line (chunk ++ rest) x := by
  refine Outcome.imp h (fun ts hts t ht => (hts t ht).append_left chunk hchunk) fun e he => ?_
  exact he.imp id fun he => he.append_left chunk

/-- One more token in front of the tokens of the rest. -/
theorem ScanOutcome.cons {line : Int} {text : Text} {x : Except Fault (List Token)} {t : Token}
    (h : ScanOutcome line text x) (ht : t.SpelledIn text) :
    ScanOutcome line text (do return t :: (← x)) :=
  Outcome.bind h fun _ hts => List.forall_mem_cons.2 ⟨ht, hts⟩

theorem isIdentifierPart_of_isSeparator {c : Char} (h : isSeparator c = true) :
    isIdentifierPart c = false := by
  simp only [isSeparator, Bool.or_eq_true, decide_eq_true_eq] at h
  rcases h with ((rfl | rfl) | rfl) | rfl <;> decide

theorem punctuation_cases {c : Char} {kind : TokenKind} (h : punctuation? c = some kind) :
    c = ',' ∧ kind = .comma ∨ c = ':' ∧ kind = .colon ∨ c = '[' ∧ kind = .openBracket ∨
      c = ']' ∧ kind = .closeBracket := by
  unfold punctuation? at h
  split at h
  · exact Or.inl ⟨‹_›, (Option.some_inj.1 h).symm⟩
  · split at h
    · exact Or.inr (Or.inl ⟨‹_›, (Option.some_inj.1 h).symm⟩)
    · split at h
      · exact Or.inr (Or.inr (Or.inl ⟨‹_›, (Option.some_inj.1 h).symm⟩))
      · split at h
        · exact Or.inr (Or.inr (Or.inr ⟨‹_›, (Option.some_inj.1 h).symm⟩))
        · cases h

/-- **Tokens stand in the text, and faults are faults of its line.** -/
theorem scan_outcome (line : Int) (whole : Text) (position : Nat) (rest : Text) :
    ScanOutcome line rest (scan line whole position rest) := by
  fun_induction scan line whole position rest with
  | case1 position =>
      intro t ht
      rw [List.mem_singleton.1 ht]
      trivial
  | case2 position c rest hc ih =>
      have hend := endsOutside_singleton (isIdentifierPart_of_isSeparator hc)
      exact ih.append_left [c] (Or.inl hend)
  | case3 position rest hc =>
      intro t ht
      rw [List.mem_singleton.1 ht]
      trivial
  | case4 position c rest hc hcomment kind hkind ih =>
      have hend : EndsOutside isIdentifierPart [c] := by
        refine endsOutside_singleton ?_
        rcases punctuation_cases hkind with ⟨rfl, -⟩ | ⟨rfl, -⟩ | ⟨rfl, -⟩ | ⟨rfl, -⟩ <;> decide
      refine (ih.append_left [c] (Or.inl hend)).cons ?_
      rcases punctuation_cases hkind with ⟨-, rfl⟩ | ⟨-, rfl⟩ | ⟨-, rfl⟩ | ⟨-, rfl⟩ <;> trivial
  | case5 position rest place numeral hc hcomment hkind ih =>
      have hsplit : '#' :: rest = ('#' :: numeral) ++ rest.dropWhile isNumeralPart := by
        rw [List.cons_append, List.takeWhile_append_dropWhile]
      have hnumeral : Text.HasImmediate ('#' :: rest) numeral :=
        ⟨[], rest.dropWhile isNumeralPart, hsplit, fun c hc => List.mem_takeWhile_imp hc,
          startsOutside_dropWhile _ _⟩
      -- the run is maximal, so no identifier of the rest starts inside it
      have hrest : StartsOutside isIdentifierStart (rest.dropWhile isNumeralPart) :=
        startsOutside_of_imp (startsOutside_dropWhile _ _) fun c hc =>
          isNumeralPart_of_isIdentifierPart (isIdentifierPart_of_isIdentifierStart hc)
      cases hvalue : Numeral.value? numeral with
      | error e =>
          obtain ⟨digits, he, hmagnitude, hlong⟩ := (value?_outcome numeral).of_error hvalue
          exact Or.inr ⟨numeral, digits, he, hnumeral, hmagnitude, hlong⟩
      | ok value =>
          cases value with
          | none => exact Or.inl (syntaxFault_rejection rfl rfl)
          | some v =>
              have hscan := ih.append_left ('#' :: numeral) (Or.inr hrest)
              rw [← hsplit] at hscan
              exact hscan.cons ⟨numeral, rfl, hnumeral, hvalue⟩
  | case6 position c rest hc hcomment hkind hsign hstart name ih =>
      have hsplit : c :: rest = name ++ rest.dropWhile isIdentifierPart := by
        rw [List.cons_append, List.takeWhile_append_dropWhile]
      have hname : Text.HasIdentifier (c :: rest) name :=
        ⟨⟨hstart, fun d hd => List.mem_takeWhile_imp hd⟩, [], rest.dropWhile isIdentifierPart,
          hsplit, by simp [EndsOutside], startsOutside_dropWhile _ _⟩
      have hrest : StartsOutside isIdentifierStart (rest.dropWhile isIdentifierPart) :=
        startsOutside_of_imp (startsOutside_dropWhile _ _) fun c hc =>
          isIdentifierPart_of_isIdentifierStart hc
      have hscan := ih.append_left name (Or.inr hrest)
      rw [← hsplit] at hscan
      exact hscan.cons hname
  | case7 position c rest place hc hcomment hkind hsign hstart hdigit numeral =>
      exact Or.inl (syntaxFault_rejection rfl rfl)
  | case8 position c rest place hc hcomment hkind hsign hstart hdigit =>
      exact Or.inl (syntaxFault_rejection rfl rfl)

end ThumbAssembler
