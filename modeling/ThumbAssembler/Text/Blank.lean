/-
**White space.**

A character is blank when Unicode counts it as white space, or when it is one of the four
separators U+001C to U+001F.

Main definitions:

* `ThumbAssembler.isBlank` — the class of blank characters;
* `ThumbAssembler.Text.trimStart`, `ThumbAssembler.Text.trimEnd` — a text without its leading or
  trailing blanks;
* `ThumbAssembler.Text.firstWord` — the first run of characters that are not blank.

Main results:

* `ThumbAssembler.Text.length_trimStart_le` — trimming never lengthens a text.
-/

import ThumbAssembler.Text.Basic

set_option autoImplicit false

namespace ThumbAssembler

/-- The code points of the blank characters. -/
def blankCodePoints : List Nat :=
  [0x09, 0x0A, 0x0B, 0x0C, 0x0D, 0x1C, 0x1D, 0x1E, 0x1F, 0x20, 0x85, 0xA0, 0x1680,
   0x2000, 0x2001, 0x2002, 0x2003, 0x2004, 0x2005, 0x2006, 0x2007, 0x2008, 0x2009, 0x200A,
   0x2028, 0x2029, 0x202F, 0x205F, 0x3000]

/-- A blank character is one of `blankCodePoints`. -/
def isBlank (c : Char) : Bool := blankCodePoints.contains c.toNat

namespace Text

/-- The text without its leading blanks. -/
def trimStart (t : Text) : Text := t.dropWhile isBlank

/-- The text without its trailing blanks. -/
def trimEnd (t : Text) : Text := (t.reverse.dropWhile isBlank).reverse

/-- The text without blanks at either end. -/
def trim (t : Text) : Text := trimEnd (trimStart t)

/-- The first maximal run of characters that are not blank; empty for a blank text. -/
def firstWord (t : Text) : Text := (trimStart t).takeWhile fun c => !isBlank c

theorem length_dropWhile_le {α : Type} (p : α → Bool) (l : List α) :
    (l.dropWhile p).length ≤ l.length :=
  (List.dropWhile_sublist p).length_le

theorem length_trimStart_le (t : Text) : (trimStart t).length ≤ t.length :=
  length_dropWhile_le isBlank t

end Text

end ThumbAssembler
