/-
**Tokens of a line.**

A line consists of identifiers, immediates (a `#` and a numeral) and punctuation, separated by
spaces, tabs, carriage returns and line feeds.  A comment starts at `@`.  Columns count from one,
and the token list ends with a mark at the column after the last character that was read.

Main definitions:

* `ThumbAssembler.Token` — a token, its spelling and its column;
* `ThumbAssembler.stripComment` — a line up to its comment;
* `ThumbAssembler.scan` — the tokens of the rest of a line;
* `ThumbAssembler.tokenize` — the tokens of a line from a position on.

Main results:

* `ThumbAssembler.length_dropWhile_lt` — a scan step leaves a shorter rest.
-/

import ThumbAssembler.Numeral
import ThumbAssembler.Text.Blank

set_option autoImplicit false

namespace ThumbAssembler

/-- The character that starts a comment. -/
def commentMark : Char := '@'

/-- A line up to its comment. -/
def stripComment (line : Text) : Text := line.takeWhile (· ≠ commentMark)

/-- The sorts of tokens; an immediate carries its value. -/
inductive TokenKind where
  | identifier
  | immediate (value : Int)
  | comma
  | colon
  | openBracket
  | closeBracket
  | endOfLine
  deriving DecidableEq, Repr

/-- A token: its sort, its spelling and its column. -/
structure Token where
  kind : TokenKind
  text : Text
  column : Nat
  deriving DecidableEq, Repr

/-- The name of a sort of tokens. -/
def TokenKind.name : TokenKind → Text
  | identifier => "IDENT".toList
  | immediate _ => "IMMEDIATE".toList
  | comma => "COMMA".toList
  | colon => "COLON".toList
  | openBracket => "LBRACKET".toList
  | closeBracket => "RBRACKET".toList
  | endOfLine => "EOL".toList

/-- The value of an immediate. -/
def TokenKind.value? : TokenKind → Option Int
  | immediate value => some value
  | _ => none

/-- A token as it is shown to a developer. -/
def Token.describe (t : Token) : Text :=
  "Token(".toList ++ t.kind.name ++ ", ".toList ++ Text.quoted t.text ++ ", col ".toList ++
    decimal t.column ++ ")".toList

/-! ### Character classes -/

/-- The characters that separate tokens. -/
def isSeparator (c : Char) : Bool := c = ' ' || c = '\t' || c = '\r' || c = '\n'

/-- The characters that start an identifier. -/
def isIdentifierStart (c : Char) : Bool := c.isAlpha || c = '_' || c = '.' || c = '$'

/-- The characters that continue an identifier. -/
def isIdentifierPart (c : Char) : Bool := isIdentifierStart c || c.isDigit

/-- The sort of a punctuation character. -/
def punctuation? (c : Char) : Option TokenKind :=
  if c = ',' then some .comma
  else if c = ':' then some .colon
  else if c = '[' then some .openBracket
  else if c = ']' then some .closeBracket
  else none

/-- The characters that belong to a numeral: all up to the next blank or delimiter. -/
def isNumeralPart (c : Char) : Bool :=
  !(isBlank c || c = ',' || c = ']' || c = '[' || c = '@' || c = ':')

/-! ### Scanning -/

theorem length_dropWhile_lt (p : Char → Bool) (c : Char) (rest : Text) :
    (rest.dropWhile p).length < (c :: rest).length :=
  Nat.lt_succ_of_le (Text.length_dropWhile_le p rest)

/-- The tokens of `rest`, the part of the line `whole` that starts at the given position. -/
def scan (line : Int) (whole : Text) (position : Nat) (rest : Text) : Except Fault (List Token) :=
  match rest with
  | [] => .ok [⟨.endOfLine, [], position + 1⟩]
  | c :: rest =>
      let place (token : Text) : Place := ⟨line, position + 1, token, whole⟩
      if isSeparator c then scan line whole (position + 1) rest
      else if c = commentMark then .ok [⟨.endOfLine, [], position + 1⟩]
      else match punctuation? c with
        | some kind => do
            return ⟨kind, [c], position + 1⟩ :: (← scan line whole (position + 1) rest)
        | none =>
            if c = '#' then do
              let numeral := rest.takeWhile isNumeralPart
              match ← Numeral.value? numeral with
              | none => reject (.malformedNumeral numeral) (place ('#' :: numeral))
              | some value =>
                  return ⟨.immediate value, '#' :: numeral, position + 1⟩ ::
                    (← scan line whole (position + 1 + numeral.length)
                      (rest.dropWhile isNumeralPart))
            else if isIdentifierStart c then do
              let name := c :: rest.takeWhile isIdentifierPart
              return ⟨.identifier, name, position + 1⟩ ::
                (← scan line whole (position + name.length) (rest.dropWhile isIdentifierPart))
            else if c.isDigit then
              let numeral := c :: rest.takeWhile isNumeralPart
              reject (.bareNumeral numeral) (place numeral)
            else reject (.unexpectedCharacter c) (place [c])
termination_by rest.length
decreasing_by
  all_goals first
    | exact Nat.lt_succ_self _
    | exact length_dropWhile_lt _ _ _

/-- The tokens of a line from position `start` on, which may lie beyond its end. -/
def tokenize (line : Int) (text : Text) (start : Nat) : Except Fault (List Token) :=
  scan line text start (text.drop start)

end ThumbAssembler
