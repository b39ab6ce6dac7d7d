/-
**UTF-8.**

Source files are UTF-8.  Decoding stops at the first byte sequence that encodes no character and
says which bytes are at fault: a byte that starts nothing, a sequence broken by a byte that does not
continue it, or a sequence that the end of the data cuts short.

Main definitions:

* `ThumbAssembler.Utf8.Defect` — what is wrong with a byte sequence, and where;
* `ThumbAssembler.Utf8.decode` — the text that bytes encode;
* `ThumbAssembler.Utf8.encode` — the bytes of a text.
-/

import ThumbAssembler.Text.Number
import ThumbAssembler.Text.Quoted

set_option autoImplicit false

namespace ThumbAssembler

namespace Utf8

/-- The ways in which bytes can fail to encode a character. -/
inductive Reason where
  | badStart
  | badContinuation
  | cutShort
  deriving DecidableEq, Repr

/-- A byte sequence that encodes no character: its position, its length, its first byte and the
reason. -/
structure Defect where
  position : Nat
  length : Nat
  byte : UInt8
  reason : Reason
  deriving DecidableEq, Repr

/-- The wording of a reason. -/
def Reason.message : Reason → Text
  | .badStart => "invalid start byte".toList
  | .badContinuation => "invalid continuation byte".toList
  | .cutShort => "unexpected end of data".toList

/-- The bytes at fault: a single byte by its value, several by their positions. -/
def Defect.subject (d : Defect) : Text :=
  if d.length = 1 then
    "byte 0x".toList ++ zeroPadded 16 2 d.byte.toNat ++ " in position ".toList ++
      decimal d.position
  else
    "bytes in position ".toList ++ decimal d.position ++ "-".toList ++
      decimal (d.position + d.length - 1)

/-- The wording of a defect. -/
def Defect.message (d : Defect) : Text :=
  "'utf-8' codec can't decode ".toList ++ d.subject ++ ": ".toList ++ d.reason.message

/-- The number of continuation bytes after a start byte, and the interval in which the first of
them lies. -/
def expected? (start : UInt8) : Option (Nat × UInt8 × UInt8) :=
  if start < 0x80 then some (0, 0x80, 0xBF)
  else if start < 0xC2 then none
  else if start < 0xE0 then some (1, 0x80, 0xBF)
  else if start = 0xE0 then some (2, 0xA0, 0xBF)
  else if start = 0xED then some (2, 0x80, 0x9F)
  else if start < 0xF0 then some (2, 0x80, 0xBF)
  else if start = 0xF0 then some (3, 0x90, 0xBF)
  else if start < 0xF4 then some (3, 0x80, 0xBF)
  else if start = 0xF4 then some (3, 0x80, 0x8F)
  else none

/-- The leading bytes that can continue a sequence with `count` bytes owed, the first of them
between `low` and `high`. -/
def continuation : Nat → UInt8 → UInt8 → List UInt8 → List UInt8
  | 0, _, _, _ => []
  | _ + 1, _, _, [] => []
  | count + 1, low, high, b :: rest =>
      if low ≤ b ∧ b ≤ high then b :: continuation count 0x80 0xBF rest else []

/-- The part of a code point that a start byte with `count` continuation bytes carries. -/
def leadBits (count : Nat) (start : UInt8) : Nat :=
  match count with
  | 0 => start.toNat
  | 1 => start.toNat % 32
  | 2 => start.toNat % 16
  | _ => start.toNat % 8

/-- The code point of a start byte and its continuation bytes. -/
def codePoint (start : UInt8) (following : List UInt8) : Nat :=
  following.foldl (fun n b => 64 * n + b.toNat % 64) (leadBits following.length start)

/-- The text that bytes encode, the first of them at the given position. -/
def decodeFrom (position : Nat) (bytes : List UInt8) : Except Defect Text :=
  match bytes with
  | [] => .ok []
  | start :: rest =>
      match expected? start with
      | none => .error ⟨position, 1, start, .badStart⟩
      | some (count, low, high) =>
          let following := continuation count low high rest
          if following.length = count then
            match decodeFrom (position + 1 + count) (rest.drop count) with
            | .ok t => .ok (Char.ofNat (codePoint start following) :: t)
            | .error e => .error e
          else
            .error ⟨position, 1 + following.length, start,
              if following.length = rest.length then .cutShort else .badContinuation⟩
termination_by bytes.length
decreasing_by simp only [List.length_drop, List.length_cons]; omega

/-- The text that bytes encode. -/
def decode (bytes : List UInt8) : Except Defect Text := decodeFrom 0 bytes

/-- The bytes of a text. -/
def encode (t : Text) : List UInt8 := t.flatMap String.utf8EncodeChar

end Utf8

end ThumbAssembler
