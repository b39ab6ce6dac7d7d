/-
**Memory images and listings.**

An image is a header line followed by the words in hexadecimal, all in one row or a fixed number to
a row.  A listing shows every entry of a program with its address and, for instructions, its word.

Main definitions:

* `ThumbAssembler.wordText` — a word as four hexadecimal digits;
* `ThumbAssembler.image` — the image of a list of words;
* `ThumbAssembler.listing` — the listing of a program.
-/

import ThumbAssembler.Program

set_option autoImplicit false

namespace ThumbAssembler

/-- A word as hexadecimal digits, at least four characters wide. -/
def wordText (word : Int) : Text := zeroPadded 16 4 word

/-- A word as binary digits, at least sixteen characters wide. -/
def wordBinary (word : Int) : Text := zeroPadded 2 16 word

/-- The first line of an image, unless a target says otherwise. -/
def rawHeader : Text := "v2.0 raw".toList

/-- Cuts a list into rows of `width` elements, the last of which may be shorter. -/
def rows {α : Type} (width : Nat) (l : List α) : List (List α) :=
  match l with
  | [] => []
  | a :: rest => (a :: rest.take (width - 1)) :: rows width (rest.drop (width - 1))
termination_by l.length
decreasing_by simp only [List.length_drop, List.length_cons]; omega

/-- How many words stand in a row of an image. -/
abbrev RowWidth := Option Int

/-- The rows of an image.  Without a row width, or with zero, all words stand in one row, and there
is no row for no words; a negative row width leaves no rows. -/
def imageRows (width : RowWidth) (words : List Int) : List (List Int) :=
  match width.getD 0 with
  | .ofNat 0 => if words.isEmpty then [] else [words]
  | .ofNat (n + 1) => rows (n + 1) words
  | .negSucc _ => []

/-- The image of a list of words: the header and the rows, without a line break at the end. -/
def image (header : Text) (width : RowWidth) (words : List Int) : Text :=
  Text.joined "\n".toList
    (header :: (imageRows width words).map fun row => Text.joined " ".toList (row.map wordText))

/-! ### Listings -/

/-- An address as four hexadecimal digits. -/
def addressText (address : Nat) : Text := zeroPadded 16 4 address

/-- The two heading lines of a listing. -/
def listingHeading : List Text :=
  ["ADDR  WORD  SOURCE".toList, List.replicate 60 '-']

/-- The line of a label definition. -/
def labelLine (address : Nat) (l : Label) : Text :=
  addressText address ++ List.replicate 8 ' ' ++ l.render

/-- The line of an instruction; a missing word is shown as question marks. -/
def instructionLine (address : Nat) (word : Option Int) (source : Text) : Text :=
  addressText address ++ "  ".toList ++
    (match word with
      | some word => wordText word
      | none => "????".toList) ++
    List.replicate 6 ' ' ++ source

/-- The lines of the entries from an address on, with the words of the instructions. -/
def listingLines : Nat → List Int → List Entry → Except Fault (List Text)
  | _, _, [] => .ok []
  | address, words, .label l :: rest => do
      return labelLine address l :: (← listingLines address words rest)
  | address, words, .instruction i :: rest => do
      let source ← i.printed
      return instructionLine address words.head? source ::
        (← listingLines (address + 1) words.tail rest)

/-- The listing of a program with its words. -/
def listing (p : Program) (words : List Int) : Except Fault Text := do
  return Text.joined "\n".toList (listingHeading ++ (← listingLines 0 words p))

end ThumbAssembler
