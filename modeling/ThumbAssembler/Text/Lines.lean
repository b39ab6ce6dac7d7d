/-
**Lines of a text.**

A text is cut into lines at every line break: line feed, carriage return (a pair of both counts
once), vertical tab, form feed, the separators U+001C to U+001E, next line, and the Unicode line
and paragraph separators.  A break at the very end starts no further line.

Main definitions:

* `ThumbAssembler.isLineBreak` — the characters that end a line;
* `ThumbAssembler.Text.lines` — the lines of a text, without their breaks;
* `ThumbAssembler.Text.expandTabs` — a line with every tab replaced by spaces up to the next
  multiple of eight columns;
* `ThumbAssembler.Text.normalizeBreaks` — a text in which every carriage return, alone or before a
  line feed, is a line feed.

Main results:

* `ThumbAssembler.Text.lines_noBreaks` — no line holds a line break.
-/

import ThumbAssembler.Text.Basic

set_option autoImplicit false

namespace ThumbAssembler

/-- The code points that end a line. -/
def breakCodePoints : List Nat :=
  [0x0A, 0x0B, 0x0C, 0x0D, 0x1C, 0x1D, 0x1E, 0x85, 0x2028, 0x2029]

/-- A line break is one of `breakCodePoints`. -/
def isLineBreak (c : Char) : Bool := breakCodePoints.contains c.toNat

namespace Text

/-- Puts a character in front of the first line; with no line yet, it starts one. -/
def consLine (c : Char) : List Text → List Text
  | [] => [[c]]
  | line :: rest => (c :: line) :: rest

/-- The lines of a text, without their breaks. -/
def lines : Text → List Text
  | [] => []
  | '\r' :: '\n' :: rest => [] :: lines rest
  | c :: rest => if isLineBreak c then [] :: lines rest else consLine c (lines rest)

theorem mem_consLine {c d : Char} {ls : List Text} {line : Text} (h : line ∈ consLine c ls)
    (hd : d ∈ line) : d = c ∨ ∃ line' ∈ ls, d ∈ line' := by
  cases ls with
  | nil =>
      simp only [consLine, List.mem_singleton] at h
      subst h
      exact Or.inl (by simpa using hd)
  | cons first rest =>
      simp only [consLine, List.mem_cons] at h
      rcases h with rfl | h
      · rcases List.mem_cons.1 hd with rfl | hd
        · exact Or.inl rfl
        · exact Or.inr ⟨first, by simp, hd⟩
      · exact Or.inr ⟨line, by simp [h], hd⟩

/-- **No line holds a line break.** -/
theorem lines_noBreaks (t : Text) : ∀ line ∈ lines t, ∀ c ∈ line, isLineBreak c = false := by
  fun_induction lines t with
  | case1 => simp
  | case2 rest ih => simpa using ih
  | case3 c rest _ hc ih => simpa using ih
  | case4 c rest _ hc ih =>
      intro line hline d hd
      rcases mem_consLine hline hd with rfl | ⟨line', hmem, hd'⟩
      · simpa using hc
      · exact ih line' hmem d hd'

/-- The distance between two tab stops. -/
def tabWidth : Nat := 8

/-- The rest of a line that starts at the given column, with tabs replaced by spaces. -/
def expandTabsFrom : Nat → Text → Text
  | _, [] => []
  | column, c :: rest =>
      if c = '\t' then
        List.replicate (tabWidth - column % tabWidth) ' ' ++
          expandTabsFrom (column + (tabWidth - column % tabWidth)) rest
      else c :: expandTabsFrom (column + 1) rest

/-- A line with every tab replaced by spaces up to the next tab stop. -/
def expandTabs (line : Text) : Text := expandTabsFrom 0 line

/-- Every carriage return, alone or before a line feed, becomes one line feed. -/
def normalizeBreaks : Text → Text
  | [] => []
  | '\r' :: '\n' :: rest => '\n' :: normalizeBreaks rest
  | c :: rest => (if c = '\r' then '\n' else c) :: normalizeBreaks rest

end Text

end ThumbAssembler
