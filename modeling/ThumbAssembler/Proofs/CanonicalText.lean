/-
**Text that is read as it was written.**

The canonical spelling of a program consists of printable characters without comments, with one
entry to a line.  Such text goes unchanged through the stages before the scanner, and the scanner
takes it apart at the places where it was put together.

Main definitions:

* `ThumbAssembler.Scans` — the scanner takes some tokens off a text;
* `ThumbAssembler.Text.Plain` — only printable ASCII characters, and no comment.

Main results:

* `ThumbAssembler.scans_identifier`, `ThumbAssembler.scans_immediate`,
  `ThumbAssembler.scans_punctuation`, `ThumbAssembler.scans_separator` — the scanner on one token or
  separator;
* `ThumbAssembler.parseLine_of_plain` — a plain line is read as it stands;
* `ThumbAssembler.Text.lines_joined` — **joined lines are cut where they were joined**.
-/

import Mathlib
import ThumbAssembler.Proofs.ParsedProgram

set_option autoImplicit false

namespace ThumbAssembler

/-! ### Runs of characters -/

theorem takeWhile_append_of_startsOutside {p : Char → Bool} {run rest : Text}
    (hrun : ∀ c ∈ run, p c = true) (hrest : StartsOutside p rest) :
    (run ++ rest).takeWhile p = run := by
  rw [List.takeWhile_append_of_pos hrun]
  cases rest with
  | nil => simp
  | cons c rest => simp [hrest c (by simp)]

theorem dropWhile_append_of_startsOutside {p : Char → Bool} {run rest : Text}
    (hrun : ∀ c ∈ run, p c = true) (hrest : StartsOutside p rest) :
    (run ++ rest).dropWhile p = rest := by
  rw [List.dropWhile_append_of_pos hrun]
  cases rest with
  | nil => rfl
  | cons c rest => simp [hrest c (by simp)]

theorem startsOutside_cons {p : Char → Bool} {c : Char} {rest : Text} (h : p c = false) :
    StartsOutside p (c :: rest) := by
  intro d hd
  obtain rfl : c = d := by simpa using hd
  exact h

theorem startsOutside_nil (p : Char → Bool) : StartsOutside p [] := by
  intro c hc
  cases hc

/-! ### The scanner on one token -/

section Scan

variable (line : Int) (whole : Text) {t rest rest' : Text} {ts ts' : List Token}
  {position stop stop' : Nat}

/-- Scanning `t` yields the tokens `ts`, and then what scanning `rest` yields. -/
def Scans (position : Nat) (t : Text) (ts : List Token) (stop : Nat) (rest : Text) : Prop :=
  scan line whole position t = do return ts ++ (← scan line whole stop rest)

variable {line whole}

theorem Scans.refl (position : Nat) (t : Text) : Scans line whole position t [] position t := by
  unfold Scans
  cases scan line whole position t <;> rfl

theorem Scans.trans (h : Scans line whole position t ts stop rest)
    (h' : Scans line whole stop rest ts' stop' rest') :
    Scans line whole position t (ts ++ ts') stop' rest' := by
  unfold Scans at h h' ⊢
  rw [h, h']
  cases scan line whole stop' rest' with
  | error e => rfl
  | ok us => simp

/-- At the end of the text only the mark for it is left. -/
theorem Scans.of_nil (h : Scans line whole position t ts stop []) :
    ∃ column, scan line whole position t = .ok (ts ++ [⟨.endOfLine, [], column⟩]) := by
  refine ⟨stop + 1, ?_⟩
  rw [h, scan]
  rfl

theorem scans_separator {c : Char} (h : isSeparator c = true) :
    Scans line whole position (c :: rest) [] (position + 1) rest := by
  unfold Scans
  rw [scan, if_pos h]
  cases scan line whole (position + 1) rest <;> rfl

theorem scans_punctuation {c : Char} {kind : TokenKind} (h : punctuation? c = some kind) :
    Scans line whole position (c :: rest) [⟨kind, [c], position + 1⟩] (position + 1) rest := by
  have hc : isSeparator c = false ∧ c ≠ commentMark := by
    rcases punctuation_cases h with ⟨rfl, -⟩ | ⟨rfl, -⟩ | ⟨rfl, -⟩ | ⟨rfl, -⟩ <;> decide
  unfold Scans
  rw [scan]
  simp only [hc.1, Bool.false_eq_true, if_false, hc.2, h]
  rfl

theorem not_special_of_isIdentifierStart {c : Char} (h : isIdentifierStart c = true) :
    isSeparator c = false ∧ c ≠ commentMark ∧ punctuation? c = none ∧ c ≠ '#' := by
  have hc := toNat_of_isIdentifierStart h
  have hne (d : Char) (hd : d.toNat ∈ [9, 10, 13, 32, 35, 44, 58, 64, 91, 93]) : c ≠ d := by
    refine ne_of_toNat_ne ?_
    simp only [List.mem_cons, List.not_mem_nil, or_false] at hd
    omega
  have hspace := hne ' ' (by decide)
  have htab := hne '\t' (by decide)
  have hreturn := hne '\r' (by decide)
  have hfeed := hne '\n' (by decide)
  have hcomma := hne ',' (by decide)
  have hcolon := hne ':' (by decide)
  have hopen := hne '[' (by decide)
  have hclose := hne ']' (by decide)
  refine ⟨?_, hne '@' (by decide), ?_, hne '#' (by decide)⟩
  · simp [isSeparator, hspace, htab, hreturn, hfeed]
  · simp [punctuation?, hcomma, hcolon, hopen, hclose]

theorem scans_identifier {name : Text} (hname : IsIdentifier name)
    (hrest : StartsOutside isIdentifierPart rest) :
    Scans line whole position (name ++ rest) [⟨.identifier, name, position + 1⟩]
      (position + name.length) rest := by
  cases name with
  | nil => exact absurd rfl hname.ne_nil
  | cons c run =>
      obtain ⟨hseparator, hcomment, hpunctuation, hsign⟩ :=
        not_special_of_isIdentifierStart hname.1
      unfold Scans
      rw [List.cons_append, scan]
      simp only [hseparator, Bool.false_eq_true, if_false, hcomment, hpunctuation, hsign, hname.1,
        if_true, takeWhile_append_of_startsOutside hname.2 hrest,
        dropWhile_append_of_startsOutside hname.2 hrest]
      rfl

theorem scans_immediate {numeral : Text} {v : Int}
    (hnumeral : ∀ c ∈ numeral, isNumeralPart c = true) (hrest : StartsOutside isNumeralPart rest)
    (hvalue : Numeral.value? numeral = .ok (some v)) :
    Scans line whole position ('#' :: (numeral ++ rest))
      [⟨.immediate v, '#' :: numeral, position + 1⟩] (position + 1 + numeral.length) rest := by
  unfold Scans
  rw [scan]
  simp only [takeWhile_append_of_startsOutside hnumeral hrest,
    dropWhile_append_of_startsOutside hnumeral hrest, hvalue, ok_bind]
  rfl

end Scan

/-! ### Plain text -/

namespace Text

/-- The text consists of printable ASCII characters and has no comment. -/
def Plain (t : Text) : Prop := ∀ c ∈ t, 32 ≤ c.toNat ∧ c.toNat ≤ 126 ∧ c ≠ commentMark

instance (t : Text) : Decidable t.Plain := List.decidableBAll _ t

theorem Plain.append {s t : Text} (hs : Plain s) (ht : Plain t) : Plain (s ++ t) := by
  intro c hc
  rcases List.mem_append.1 hc with hc | hc
  · exact hs c hc
  · exact ht c hc

theorem plain_of_isIdentifierPart {t : Text} (h : ∀ c ∈ t, isIdentifierPart c = true) :
    Plain t := by
  intro c hc
  have hrange := toNat_of_isIdentifierPart (h c hc)
  refine ⟨by omega, by omega, ne_of_toNat_ne ?_⟩
  have hmark : commentMark.toNat = 64 := rfl
  omega

theorem plain_decimal (n : Int) : Plain (decimal n) := by
  have hdigits : Plain (Nat.toDigits 10 n.natAbs) := by
    refine plain_of_isIdentifierPart fun c hc => ?_
    rw [isIdentifierPart, Nat.isDigit_of_mem_toDigits (by norm_num) le_rfl hc, Bool.or_true]
  unfold decimal signedDigits
  split
  · exact Plain.append (s := ['-']) (by decide) hdigits
  · exact hdigits

theorem expandTabsFrom_of_plain {t : Text} (h : Plain t) (column : Nat) :
    expandTabsFrom column t = t := by
  induction t generalizing column with
  | nil => rfl
  | cons c t ih =>
      obtain ⟨hc, ht⟩ := List.forall_mem_cons.1 h
      have htab : c ≠ '\t' := by
        rintro rfl
        exact absurd hc.1 (by decide)
      rw [expandTabsFrom, if_neg htab, ih ht]

theorem stripComment_of_plain {t : Text} (h : Plain t) : stripComment t = t := by
  refine List.takeWhile_eq_self_iff.2 fun c hc => ?_
  exact decide_eq_true (h c hc).2.2

theorem trimEnd_of_endsOutside {t : Text} (h : EndsOutside isBlank t) : t.trimEnd = t := by
  unfold trimEnd
  cases hreverse : t.reverse with
  | nil => simpa using hreverse.symm
  | cons c rest =>
      have hc : isBlank c = false := h c (by simp [← List.head?_reverse, hreverse])
      rw [List.dropWhile_cons_of_neg (by simp [hc]), ← hreverse, List.reverse_reverse]

end Text

/-- **A plain line without trailing blanks is read as it stands.** -/
theorem parseLine_of_plain (isa : InstructionSet) (number : Nat) {raw : Text} (h : raw.Plain)
    (hend : EndsOutside isBlank raw) :
    parseLine isa number raw = do
      let (labels, position, rest) ← labelsFrom isa ⟨number, raw⟩ 0 raw
      return ⟨number, labels, ← statement isa ⟨number, raw⟩ raw position rest⟩ := by
  have hexpand : raw.expandTabs = raw := Text.expandTabsFrom_of_plain h 0
  have htrim : raw.trimEnd = raw := Text.trimEnd_of_endsOutside hend
  simp only [parseLine, hexpand, Text.stripComment_of_plain h, htrim]

namespace Text

/-! ### Joined lines -/

theorem isLineBreak_of_plain {t : Text} (h : Plain t) : ∀ c ∈ t, isLineBreak c = false :=
  fun c hc => isLineBreak_eq_false (h c hc).1 (h c hc).2.1

theorem lines_cons {c : Char} (h : isLineBreak c = false) (t : Text) :
    lines (c :: t) = consLine c (lines t) := by
  have hreturn : c ≠ '\r' := by
    rintro rfl
    exact absurd h (by decide)
  rw [lines]
  · simp [h]
  · intro rest hc
    exact absurd hc hreturn

theorem lines_append_feed {t : Text} (h : ∀ c ∈ t, isLineBreak c = false) (rest : Text) :
    lines (t ++ '\n' :: rest) = t :: lines rest := by
  induction t with
  | nil =>
      rw [List.nil_append, lines]
      · rfl
      · intro _ hc
        exact absurd hc (by decide)
  | cons c t ih =>
      obtain ⟨hc, ht⟩ := List.forall_mem_cons.1 h
      rw [List.cons_append, lines_cons hc, ih ht, consLine]

theorem lines_singleton {t : Text} (h : ∀ c ∈ t, isLineBreak c = false) (hne : t ≠ []) :
    lines t = [t] := by
  induction t with
  | nil => exact absurd rfl hne
  | cons c t ih =>
      obtain ⟨hc, ht⟩ := List.forall_mem_cons.1 h
      rw [lines_cons hc]
      cases t with
      | nil => rfl
      | cons d t => rw [ih ht (by simp), consLine]

/-- **Joined lines are cut where they were joined**, if none of them is empty. -/
theorem lines_joined {texts : List Text}
    (h : ∀ t ∈ texts, t ≠ [] ∧ ∀ c ∈ t, isLineBreak c = false) :
    lines (joined "\n".toList texts) = texts := by
  induction texts with
  | nil => rfl
  | cons t texts ih =>
      obtain ⟨⟨hne, ht⟩, htexts⟩ := List.forall_mem_cons.1 h
      cases texts with
      | nil =>
          rw [joined_singleton, lines_singleton ht hne]
      | cons u texts =>
          have hjoined : joined "\n".toList (t :: u :: texts) =
              t ++ '\n' :: joined "\n".toList (u :: texts) :=
            joined_cons_cons _ _ _ _
          rw [hjoined, lines_append_feed ht, ih htexts]

end Text

end ThumbAssembler
