/-
**Texts.**

A text is a list of characters, so that scanning and printing are list functions and a column is a
length.  This module holds the few operations that the rest of the library composes texts with.

Main definitions:

* `ThumbAssembler.Text` — a text;
* `ThumbAssembler.Text.inQuotes` — a text between single quotes;
* `ThumbAssembler.Text.joined` — texts with a separator between neighbours;
* `ThumbAssembler.Text.padEnd` — a text filled up with spaces to a width.
-/

set_option autoImplicit false

namespace ThumbAssembler

/-- A text is the list of its characters; its length counts code points. -/
abbrev Text := List Char

namespace Text

/-- The text between two single quotes, unchanged. -/
def inQuotes (t : Text) : Text := '\x27' :: (t ++ ['\x27'])

/-- The texts in order, with the separator between neighbours. -/
def joined (separator : Text) (parts : List Text) : Text := separator.intercalate parts

/-- The text followed by as many spaces as bring it to the given width. -/
def padEnd (width : Nat) (t : Text) : Text := t ++ List.replicate (width - t.length) ' '

/-- The characters from position `start` up to, and without, position `stop`. -/
def slice (start stop : Nat) (t : Text) : Text := (t.take stop).drop start

theorem joined_singleton (separator part : Text) : joined separator [part] = part := by
  simp [joined]

theorem joined_cons_cons (separator first second : Text) (parts : List Text) :
    joined separator (first :: second :: parts) =
      first ++ (separator ++ joined separator (second :: parts)) := by
  simp [joined, List.intercalate]

end Text

end ThumbAssembler
