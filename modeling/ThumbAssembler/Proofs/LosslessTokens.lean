/-
**Tokens and gaps make up the line.**

The scanner takes a line apart without losing anything: between the position where it starts and the
position where it ends, every character belongs to exactly one token or is a separator.  Tokens are
as long as they can be, and an immediate has the value that its numeral denotes in positional
notation.  A line that is rejected can be taken apart up to the place of the rejection, and no token
starts there.

Main definitions:

* `ThumbAssembler.Numeral.Denotes` — the integer that a numeral denotes, by positional notation;
* `ThumbAssembler.Lexeme` — the spellings of a sort of tokens, before a given character;
* `ThumbAssembler.Splits` — a piece of a line consists of separators and tokens;
* `ThumbAssembler.TakenApart` — some tokens are a part of a line, with nothing lost;
* `ThumbAssembler.LineEnd` — the position of the comment, or else of the end of a line;
* `ThumbAssembler.Stuck` — no token and no comment starts with a character.

Main results:

* `ThumbAssembler.Numeral.denotes_of_value?`, `ThumbAssembler.Numeral.not_denotes_of_value?` — what
  is read off a numeral is the integer it denotes, and what is no numeral denotes nothing;
* `ThumbAssembler.scan_splits` — what the scanner reads splits into its tokens;
* `ThumbAssembler.Splits.scans` — conversely, what splits into tokens is scanned as these;
* `ThumbAssembler.tokenize_lossless` — **tokenizing loses nothing, and stops only where no token can
  start**.
-/

import Mathlib
import ThumbAssembler.Proofs.CanonicalText
import ThumbAssembler.Proofs.NumeralReading

set_option autoImplicit false

namespace ThumbAssembler

/-! ### The integer that a numeral denotes -/

namespace Numeral

/-- The integer that a numeral denotes: the value of its digits in positional notation, with its
sign. -/
def Denotes (t : Text) (v : Int) : Prop :=
  ∃ sign base digits, Spelled t sign base digits ∧ v = sign * positional base digits

/-- **The value that is read off a numeral is the integer it denotes.** -/
theorem denotes_of_value? {t : Text} {v : Int} (h : value? t = .ok (some v)) : Denotes t v := by
  by_cases hnumeral : ∃ sign base digits, Spelled t sign base digits
  · obtain ⟨sign, base, digits, hspelled⟩ := hnumeral
    rw [value?_of_spelled hspelled] at h
    split at h
    · cases h
    · exact ⟨sign, base, digits, hspelled, (Option.some_inj.1 (Except.ok.inj h)).symm⟩
  · have hnone : value? t = .ok none :=
      (value?_eq_none_iff t).2 fun sign base digits hspelled =>
        hnumeral ⟨sign, base, digits, hspelled⟩
    rw [hnone] at h
    cases Except.ok.inj h

/-- A text without a value denotes nothing. -/
theorem not_denotes_of_value? {t : Text} (h : value? t = .ok none) (v : Int) : ¬ Denotes t v := by
  rintro ⟨sign, base, digits, hspelled, -⟩
  exact (value?_eq_none_iff t).1 h sign base digits hspelled

end Numeral

/-! ### Lexemes -/

/-- The characters that end a numeral: white space and the delimiters. -/
def EndsNumeral (c : Char) : Prop := isBlank c = true ∨ c ∈ [',', '[', ']', '@', ':']

theorem isNumeralPart_eq_false_iff {c : Char} : isNumeralPart c = false ↔ EndsNumeral c := by
  simp only [isNumeralPart, EndsNumeral, Bool.not_eq_false', Bool.or_eq_true, decide_eq_true_eq,
    List.mem_cons, List.not_mem_nil, or_false]
  tauto

theorem isNumeralPart_eq_true_iff {c : Char} : isNumeralPart c = true ↔ ¬ EndsNumeral c := by
  rw [← isNumeralPart_eq_false_iff, Bool.not_eq_false]

theorem isSeparator_iff {c : Char} : isSeparator c = true ↔ c ∈ [' ', '\t', '\r', '\n'] := by
  simp [isSeparator, or_assoc]

/-- The spellings of a sort of tokens, when `next` is the character after the token, if there is
one.  Identifiers and numerals are as long as they can be. -/
inductive Lexeme : TokenKind → Text → Option Char → Prop
  | comma {next : Option Char} : Lexeme .comma [','] next
  | colon {next : Option Char} : Lexeme .colon [':'] next
  | openBracket {next : Option Char} : Lexeme .openBracket ['['] next
  | closeBracket {next : Option Char} : Lexeme .closeBracket [']'] next
  | identifier {name : Text} {next : Option Char} : IsIdentifier name →
      (∀ c ∈ next, isIdentifierPart c = false) → Lexeme .identifier name next
  | immediate {numeral : Text} {v : Int} {next : Option Char} : (∀ c ∈ numeral, ¬ EndsNumeral c) →
      (∀ c ∈ next, EndsNumeral c) → Numeral.value? numeral = .ok (some v) →
      Lexeme (.immediate v) ('#' :: numeral) next

theorem lexeme_punctuation {c : Char} {kind : TokenKind} (h : punctuation? c = some kind)
    (next : Option Char) : Lexeme kind [c] next := by
  rcases punctuation_cases h with ⟨rfl, rfl⟩ | ⟨rfl, rfl⟩ | ⟨rfl, rfl⟩ | ⟨rfl, rfl⟩
  · exact .comma
  · exact .colon
  · exact .openBracket
  · exact .closeBracket

namespace Lexeme

variable {kind : TokenKind} {piece : Text} {next : Option Char}

theorem ne_nil (h : Lexeme kind piece next) : piece ≠ [] := by
  cases h with
  | identifier hname _ => exact hname.ne_nil
  | _ => simp

theorem kind_ne_endOfLine (h : Lexeme kind piece next) : kind ≠ .endOfLine := by
  cases h <;> simp

/-- No comment starts inside a token. -/
theorem ne_commentMark (h : Lexeme kind piece next) : ∀ c ∈ piece, c ≠ commentMark := by
  cases h with
  | identifier hname _ =>
      rintro c hc rfl
      exact absurd (hname.part _ hc) (by decide)
  | immediate hnumeral _ _ =>
      rintro c hc rfl
      rcases List.mem_cons.1 hc with hc | hc
      · exact absurd hc (by decide)
      · exact hnumeral _ hc (Or.inr (by decide))
  | _ => simp [commentMark]

/-- A lexeme stays one when the line ends after it. -/
theorem atEnd (h : Lexeme kind piece next) : Lexeme kind piece none := by
  cases h with
  | comma => exact .comma
  | colon => exact .colon
  | openBracket => exact .openBracket
  | closeBracket => exact .closeBracket
  | identifier hname _ => exact .identifier hname (by simp)
  | immediate hnumeral _ hvalue => exact .immediate hnumeral (by simp) hvalue

theorem scans {rest : Text} (h : Lexeme kind piece rest.head?) (line : Int) (whole : Text)
    (position : Nat) :
    Scans line whole position (piece ++ rest) [⟨kind, piece, position + 1⟩]
      (position + piece.length) rest := by
  cases h with
  | comma => exact scans_punctuation rfl
  | colon => exact scans_punctuation rfl
  | openBracket => exact scans_punctuation rfl
  | closeBracket => exact scans_punctuation rfl
  | identifier hname hnext => exact scans_identifier hname hnext
  | @immediate numeral v _ hnumeral hnext hvalue =>
      have hstop : position + ('#' :: numeral).length = position + 1 + numeral.length := by
        rw [List.length_cons]
        omega
      rw [hstop]
      exact scans_immediate (fun c hc => isNumeralPart_eq_true_iff.2 (hnumeral c hc))
        (fun c hc => isNumeralPart_eq_false_iff.2 (hnext c hc)) hvalue

end Lexeme

/-! ### Pieces that split into tokens -/

/-- The piece at a position splits into separators and the tokens, when `rest` follows it. -/
inductive Splits : Nat → Text → List Token → Text → Prop
  | done {position : Nat} {rest : Text} : Splits position [] [] rest
  | separator {position : Nat} {c : Char} {piece rest : Text} {ts : List Token} :
      isSeparator c = true → Splits (position + 1) piece ts rest →
      Splits position (c :: piece) ts rest
  | token {position : Nat} {kind : TokenKind} {lexeme piece rest : Text} {ts : List Token} :
      Lexeme kind lexeme (piece ++ rest).head? →
      Splits (position + lexeme.length) piece ts rest →
      Splits position (lexeme ++ piece) (⟨kind, lexeme, position + 1⟩ :: ts) rest

namespace Splits

variable {position : Nat} {piece rest : Text} {ts : List Token}

/-- What splits into tokens is scanned as these. -/
theorem scans (h : Splits position piece ts rest) (line : Int) (whole : Text) :
    Scans line whole position (piece ++ rest) ts (position + piece.length) rest := by
  induction h with
  | @done position rest =>
      unfold Scans
      rw [List.nil_append, List.length_nil, Nat.add_zero]
      cases scan line whole position rest <;> rfl
  | @separator position c piece rest ts hc _ ih =>
      have hstop : position + (c :: piece).length = position + 1 + piece.length := by
        rw [List.length_cons]
        omega
      rw [hstop]
      exact (scans_separator hc).trans ih
  | @token position kind lexeme piece rest ts hlexeme _ ih =>
      rw [List.append_assoc, List.length_append, ← Nat.add_assoc]
      exact (hlexeme.scans line whole position).trans ih

/-- The split of a piece remains when the line is cut after it. -/
theorem cut (h : Splits position piece ts rest) : Splits position piece ts [] := by
  induction h with
  | done => exact .done
  | separator hc _ ih => exact .separator hc ih
  | @token position kind lexeme piece rest ts hlexeme _ ih =>
      refine .token ?_ ih
      cases piece with
      | nil => exact hlexeme.atEnd
      | cons c piece => exact hlexeme

/-- There is no comment in what splits into tokens. -/
theorem ne_commentMark (h : Splits position piece ts rest) : ∀ c ∈ piece, c ≠ commentMark := by
  induction h with
  | done => simp
  | separator hc _ ih =>
      refine List.forall_mem_cons.2 ⟨?_, ih⟩
      rintro rfl
      exact absurd hc (by decide)
  | token hlexeme _ ih =>
      exact List.forall_mem_append.2 ⟨hlexeme.ne_commentMark, ih⟩

/-- Every token is a lexeme that stands in the piece at its column. -/
theorem stands (h : Splits position piece ts rest) :
    ∀ t ∈ ts, ∃ before after, piece = before ++ (t.text ++ after) ∧
      t.column = position + before.length + 1 ∧ Lexeme t.kind t.text (after ++ rest).head? := by
  induction h with
  | done => simp
  | @separator position c piece rest ts _ _ ih =>
      intro t ht
      obtain ⟨before, after, rfl, hcolumn, hlexeme⟩ := ih t ht
      refine ⟨c :: before, after, rfl, ?_, hlexeme⟩
      rw [hcolumn, List.length_cons]
      omega
  | @token position kind lexeme piece rest ts hlexeme _ ih =>
      refine List.forall_mem_cons.2 ⟨⟨[], piece, rfl, rfl, hlexeme⟩, fun t ht => ?_⟩
      obtain ⟨before, after, rfl, hcolumn, ht⟩ := ih t ht
      refine ⟨lexeme ++ before, after, by rw [List.append_assoc], ?_, ht⟩
      rw [hcolumn, List.length_append]
      omega

theorem kind_ne_endOfLine (h : Splits position piece ts rest) : ∀ t ∈ ts, t.kind ≠ .endOfLine := by
  intro t ht
  obtain ⟨before, after, -, -, hlexeme⟩ := h.stands t ht
  exact hlexeme.kind_ne_endOfLine

theorem text_ne_nil (h : Splits position piece ts rest) : ∀ t ∈ ts, t.text ≠ [] := by
  intro t ht
  obtain ⟨before, after, -, -, hlexeme⟩ := h.stands t ht
  exact hlexeme.ne_nil

/-- The tokens stay within the piece. -/
theorem bounds (h : Splits position piece ts rest) :
    ∀ t ∈ ts, position < t.column ∧ t.column + t.text.length ≤ position + piece.length + 1 := by
  intro t ht
  obtain ⟨before, after, rfl, hcolumn, -⟩ := h.stands t ht
  rw [hcolumn]
  simp only [List.length_append]
  omega

/-- The tokens come one after the other. -/
theorem ordered (h : Splits position piece ts rest) :
    ts.Pairwise fun t u => t.column + t.text.length ≤ u.column := by
  induction h with
  | done => exact List.Pairwise.nil
  | separator _ _ ih => exact ih
  | @token position kind lexeme piece rest ts _ hrest ih =>
      refine List.Pairwise.cons (fun u hu => ?_) ih
      have hcolumn := (hrest.bounds u hu).1
      simp only
      omega

/-- A character of the piece is a separator or belongs to a token. -/
theorem covered (h : Splits position piece ts rest) (i : Nat) (c : Char) :
    piece[i]? = some c → isSeparator c = true ∨
      ∃ t ∈ ts, t.column ≤ position + i + 1 ∧ position + i + 1 < t.column + t.text.length := by
  induction h generalizing i with
  | done => simp
  | @separator position d piece rest ts hd _ ih =>
      intro hc
      cases i with
      | zero =>
          obtain rfl : d = c := by simpa using hc
          exact Or.inl hd
      | succ i =>
          refine (ih i hc).imp_right fun ⟨t, ht, hle, hlt⟩ => ⟨t, ht, ?_, ?_⟩ <;> omega
  | @token position kind lexeme piece rest ts _ _ ih =>
      intro hc
      rcases Nat.lt_or_ge i lexeme.length with hi | hi
      · refine Or.inr ⟨_, List.mem_cons_self, ?_, ?_⟩ <;> simp only <;> omega
      · rw [List.getElem?_append_right hi] at hc
        refine (ih (i - lexeme.length) hc).imp_right fun ⟨t, ht, hle, hlt⟩ =>
          ⟨t, List.mem_cons_of_mem _ ht, ?_, ?_⟩ <;> omega

end Splits

/-! ### Where the scanner stops -/

/-- No token and no comment starts with the character, and it does not separate tokens; `after` is
what follows it. -/
structure Stuck (c : Char) (after : Text) : Prop where
  separator : c ∉ [' ', '\t', '\r', '\n']
  comment : c ≠ '@'
  punctuation : c ∉ [',', ':', '[', ']']
  identifier : isIdentifierStart c = false
  immediate : c = '#' → ∀ numeral rest v, after = numeral ++ rest →
    (∀ d ∈ numeral, ¬ EndsNumeral d) → (∀ d ∈ rest.head?, EndsNumeral d) →
    ¬ Numeral.Denotes numeral v

theorem punctuation?_eq_none {c : Char} (h : punctuation? c = none) :
    c ∉ [',', ':', '[', ']'] := by
  intro hc
  simp only [List.mem_cons, List.not_mem_nil, or_false] at hc
  rcases hc with rfl | rfl | rfl | rfl <;> cases h

theorem stuck_of_not {c : Char} {after : Text} (hseparator : ¬ isSeparator c = true)
    (hcomment : c ≠ commentMark) (hpunctuation : punctuation? c = none)
    (hstart : ¬ isIdentifierStart c = true)
    (himmediate : c = '#' → Numeral.value? (after.takeWhile isNumeralPart) = .ok none) :
    Stuck c after where
  separator := fun hc => hseparator (isSeparator_iff.2 hc)
  comment := hcomment
  punctuation := punctuation?_eq_none hpunctuation
  identifier := Bool.eq_false_iff.2 hstart
  immediate := by
    intro hc numeral rest v hafter hnumeral hrest
    -- the run up to the delimiter is the one that was read
    have hrun : after.takeWhile isNumeralPart = numeral := by
      rw [hafter]
      exact takeWhile_append_of_startsOutside
        (fun d hd => isNumeralPart_eq_true_iff.2 (hnumeral d hd))
        fun d hd => isNumeralPart_eq_false_iff.2 (hrest d hd)
    rw [← hrun]
    exact Numeral.not_denotes_of_value? (himmediate hc) v

/-- What a scan of a text from a position on ends with, in terms of how the text splits. -/
def SplitOutcome (position : Nat) (t : Text) : Except Fault (List Token) → Prop :=
  Outcome
    (fun ts => ∃ piece rest body, t = piece ++ rest ∧ Splits position piece body rest ∧
      (∀ c ∈ rest.head?, c = commentMark) ∧
      ts = body ++ [⟨.endOfLine, [], position + piece.length + 1⟩])
    (fun e => ∀ r, e = .rejected r → r.cause.kind = .syntactic ∧
      ∃ piece c after body, t = piece ++ c :: after ∧ Splits position piece body (c :: after) ∧
        Stuck c after ∧ r.place.column = position + piece.length + 1)

namespace SplitOutcome

variable {position : Nat} {t : Text} {x : Except Fault (List Token)}

theorem atEnd (h : ∀ c ∈ t.head?, c = commentMark) :
    SplitOutcome position t (.ok [⟨.endOfLine, [], position + 1⟩]) :=
  ⟨[], t, [], rfl, .done, h, rfl⟩

/-- A rejection at a character that starts nothing. -/
theorem stuck {c : Char} {after : Text} {cause : Cause} {place : Place} (h : Stuck c after)
    (hkind : cause.kind = .syntactic) (hcolumn : place.column = position + 1) :
    SplitOutcome position (c :: after) (reject cause place) := by
  intro r hr
  unfold rejection at hr
  split at hr
  · obtain rfl := Fault.rejected.inj hr
    exact ⟨hkind, [], c, after, [], rfl, .done, h, hcolumn⟩
  · cases hr

theorem separator {c : Char} (hc : isSeparator c = true) (h : SplitOutcome (position + 1) t x) :
    SplitOutcome position (c :: t) x := by
  refine Outcome.imp h ?_ ?_
  · rintro ts ⟨piece, rest, body, rfl, hsplits, hend, rfl⟩
    refine ⟨c :: piece, rest, body, rfl, .separator hc hsplits, hend, ?_⟩
    rw [List.length_cons, Nat.add_right_comm position 1, Nat.add_assoc position]
  · intro e he r hr
    obtain ⟨hkind, piece, d, after, body, rfl, hsplits, hstuck, hcolumn⟩ := he r hr
    refine ⟨hkind, c :: piece, d, after, body, rfl, .separator hc hsplits, hstuck, ?_⟩
    rw [hcolumn, List.length_cons]
    omega

theorem token {kind : TokenKind} {lexeme : Text} (hlexeme : Lexeme kind lexeme t.head?)
    (h : SplitOutcome (position + lexeme.length) t x) :
    SplitOutcome position (lexeme ++ t) (do return ⟨kind, lexeme, position + 1⟩ :: (← x)) := by
  cases x with
  | ok ts =>
      obtain ⟨piece, rest, body, rfl, hsplits, hend, rfl⟩ := h
      refine ⟨lexeme ++ piece, rest, _, by rw [List.append_assoc], .token hlexeme hsplits, hend, ?_⟩
      rw [List.length_append, ← Nat.add_assoc]
      rfl
  | error e =>
      intro r hr
      obtain ⟨hkind, piece, c, after, body, rfl, hsplits, hstuck, hcolumn⟩ := h r hr
      refine ⟨hkind, lexeme ++ piece, c, after, _, by rw [List.append_assoc],
        .token hlexeme hsplits, hstuck, ?_⟩
      rw [hcolumn, List.length_append]
      omega

end SplitOutcome

/-- **What the scanner reads splits into its tokens**, up to a comment, the end of the text or a
character that starts nothing. -/
theorem scan_splits (line : Int) (whole : Text) (position : Nat) (t : Text) :
    SplitOutcome position t (scan line whole position t) := by
  fun_induction scan line whole position t with
  | case1 position => exact .atEnd (by simp)
  | case2 position c rest hc ih => exact ih.separator hc
  | case3 position rest hc => exact .atEnd (by simp)
  | case4 position c rest hc hcomment kind hkind ih =>
      exact ih.token (lexeme_punctuation hkind _)
  | case5 position rest place numeral hc hcomment hkind ih =>
      have hsplit : '#' :: rest = ('#' :: numeral) ++ rest.dropWhile isNumeralPart := by
        rw [List.cons_append, List.takeWhile_append_dropWhile]
      cases hvalue : Numeral.value? numeral with
      | error e =>
          obtain ⟨digits, rfl, -⟩ := (value?_outcome numeral).of_error hvalue
          intro r hr
          cases hr
      | ok value =>
          cases value with
          | none =>
              exact .stuck (stuck_of_not hc hcomment hkind (by decide) fun _ => hvalue) rfl rfl
          | some v =>
              have hlexeme : Lexeme (.immediate v) ('#' :: numeral)
                  (rest.dropWhile isNumeralPart).head? :=
                .immediate
                  (fun c hc => isNumeralPart_eq_true_iff.1 (List.mem_takeWhile_imp hc))
                  (fun c hc => isNumeralPart_eq_false_iff.1 (startsOutside_dropWhile _ _ c hc))
                  hvalue
              rw [hsplit]
              refine SplitOutcome.token hlexeme ?_
              rwa [List.length_cons, Nat.add_comm numeral.length, ← Nat.add_assoc]
  | case6 position c rest hc hcomment hkind hsign hstart name ih =>
      have hsplit : c :: rest = name ++ rest.dropWhile isIdentifierPart := by
        rw [List.cons_append, List.takeWhile_append_dropWhile]
      have hlexeme : Lexeme .identifier name (rest.dropWhile isIdentifierPart).head? :=
        .identifier ⟨hstart, fun d hd => List.mem_takeWhile_imp hd⟩ (startsOutside_dropWhile _ _)
      rw [hsplit]
      exact ih.token hlexeme
  | case7 position c rest place hc hcomment hkind hsign hstart hdigit numeral =>
      exact .stuck (stuck_of_not hc hcomment hkind hstart fun h => absurd h hsign) rfl rfl
  | case8 position c rest place hc hcomment hkind hsign hstart hdigit =>
      exact .stuck (stuck_of_not hc hcomment hkind hstart fun h => absurd h hsign) rfl rfl

/-! ### The line as a whole -/

/-- The tokens are the part of the text from `start` to `stop`, with nothing lost: each stands at
its column and is as long as it can be, they come one after the other, and only separators stand
between them. -/
structure TakenApart (text : Text) (start stop : Nat) (body : List Token) : Prop where
  sort : ∀ t ∈ body, t.kind ≠ .endOfLine
  nonempty : ∀ t ∈ body, t.text ≠ []
  slice : ∀ t ∈ body, text.slice (t.column - 1) (t.column - 1 + t.text.length) = t.text
  bounds : ∀ t ∈ body, start < t.column ∧ t.column + t.text.length ≤ stop + 1
  ordered : body.Pairwise fun t u => t.column + t.text.length ≤ u.column
  covered : ∀ k c, start ≤ k → k < stop → text[k]? = some c → c ∈ [' ', '\t', '\r', '\n'] ∨
    ∃ t ∈ body, t.column ≤ k + 1 ∧ k + 1 < t.column + t.text.length
  maximal : ∀ t ∈ body, Lexeme t.kind t.text text[t.column - 1 + t.text.length]?
  denoted : ∀ t ∈ body, ∀ numeral v, t.kind = .immediate v → t.text = '#' :: numeral →
    Numeral.Denotes numeral v

/-- There is no comment between two positions of a text. -/
def NoComment (text : Text) (start stop : Nat) : Prop :=
  ∀ k, start ≤ k → k < stop → text[k]? ≠ some '@'

/-- The position where reading a line from `start` on ends: at the first comment mark, or else at
the end of the text, or where it starts if that lies beyond. -/
inductive LineEnd (text : Text) (start : Nat) : Nat → Prop
  | comment {stop : Nat} : start ≤ stop → text[stop]? = some '@' → NoComment text start stop →
      LineEnd text start stop
  | line : (∀ k, start ≤ k → text[k]? ≠ some '@') → LineEnd text start (max start text.length)

section Split

variable {text piece rest : Text} {start : Nat} {body : List Token}

/-- A position in the part of a text that is read. -/
theorem getElem?_of_drop (hdrop : text.drop start = piece ++ rest) {k : Nat} (hk : start ≤ k) :
    text[k]? = (piece ++ rest)[k - start]? := by
  rw [← hdrop, List.getElem?_drop, Nat.add_sub_cancel' hk]

/-- The character after what splits into tokens. -/
theorem getElem?_after (hdrop : text.drop start = piece ++ rest) :
    text[start + piece.length]? = rest.head? := by
  rw [getElem?_of_drop hdrop (by omega), Nat.add_sub_cancel_left,
    List.getElem?_append_right le_rfl, Nat.sub_self, List.head?_eq_getElem?]

/-- A token stands in the text at its column, and is a lexeme there. -/
theorem Splits.drop_column (h : Splits start piece body rest)
    (hdrop : text.drop start = piece ++ rest) :
    ∀ t ∈ body, ∃ after, text.drop (t.column - 1) = t.text ++ after ∧
      Lexeme t.kind t.text after.head? := by
  intro t ht
  obtain ⟨before, after, rfl, hcolumn, hlexeme⟩ := h.stands t ht
  refine ⟨after ++ rest, ?_, hlexeme⟩
  rw [hcolumn, Nat.add_sub_cancel, ← List.drop_drop, hdrop, List.append_assoc, List.append_assoc,
    List.drop_left]

theorem Splits.takenApart (h : Splits start piece body rest)
    (hdrop : text.drop start = piece ++ rest) :
    TakenApart text start (start + piece.length) body where
  sort := h.kind_ne_endOfLine
  nonempty := h.text_ne_nil
  slice := by
    intro t ht
    obtain ⟨after, hafter, -⟩ := h.drop_column hdrop t ht
    rw [Text.slice, List.drop_take, Nat.add_sub_cancel_left, hafter, List.take_left]
  bounds := h.bounds
  ordered := h.ordered
  covered := by
    intro k c hstart hstop hc
    have hk : k - start < piece.length := by omega
    rw [getElem?_of_drop hdrop hstart, List.getElem?_append_left hk] at hc
    have hcovered := h.covered _ _ hc
    rw [isSeparator_iff, Nat.add_sub_cancel' hstart] at hcovered
    exact hcovered
  maximal := by
    intro t ht
    obtain ⟨after, hafter, hlexeme⟩ := h.drop_column hdrop t ht
    rw [getElem?_after hafter]
    exact hlexeme
  denoted := by
    intro t ht numeral v hkind htext
    obtain ⟨after, -, hlexeme⟩ := h.drop_column hdrop t ht
    rw [hkind, htext] at hlexeme
    cases hlexeme with
    | immediate _ _ hvalue => exact Numeral.denotes_of_value? hvalue

theorem Splits.noComment (h : Splits start piece body rest)
    (hdrop : text.drop start = piece ++ rest) : NoComment text start (start + piece.length) := by
  intro k hstart hstop hc
  have hk : k - start < piece.length := by omega
  rw [getElem?_of_drop hdrop hstart, List.getElem?_append_left hk] at hc
  exact h.ne_commentMark _ (List.mem_of_getElem? hc) rfl

theorem Splits.lineEnd (h : Splits start piece body rest)
    (hdrop : text.drop start = piece ++ rest) (hend : ∀ c ∈ rest.head?, c = commentMark) :
    LineEnd text start (start + piece.length) := by
  cases rest with
  | cons c rest =>
      obtain rfl : c = commentMark := hend c rfl
      exact .comment (by omega) (getElem?_after hdrop) (h.noComment hdrop)
  | nil =>
      -- the whole text is read; if it ends before the start, nothing is
      have hlength : start + piece.length = max start text.length := by
        have hlength := congrArg List.length hdrop
        rw [List.length_drop, List.length_append, List.length_nil] at hlength
        omega
      rw [hlength]
      refine .line fun k hk hc => ?_
      have hlt : k < text.length := (List.getElem?_eq_some_iff.1 hc).1
      exact h.noComment hdrop k hk (by omega) hc

theorem Splits.tokenize_take (h : Splits start piece body rest)
    (hdrop : text.drop start = piece ++ rest) (line : Int) :
    tokenize line (text.take (start + piece.length)) start =
      .ok (body ++ [⟨.endOfLine, [], start + piece.length + 1⟩]) := by
  have hpiece : (text.take (start + piece.length)).drop start = piece ++ [] := by
    rw [List.drop_take, hdrop, Nat.add_sub_cancel_left, List.take_left, List.append_nil]
  rw [tokenize, hpiece, h.cut.scans line _, scan]
  rfl

end Split

/-- **Tokenizing loses nothing, and stops only where no token can start.** -/
theorem tokenize_lossless (line : Int) (text : Text) (start : Nat) :
    (∀ ts, tokenize line text start = .ok ts → ∃ body stop,
      ts = body ++ [⟨.endOfLine, [], stop + 1⟩] ∧ TakenApart text start stop body ∧
      LineEnd text start stop) ∧
    ∀ r, tokenize line text start = .error (.rejected r) → r.cause.kind = .syntactic ∧
      ∃ body stop c, r.place.column = (stop : Nat) + 1 ∧ start ≤ stop ∧ text[stop]? = some c ∧
        Stuck c (text.drop (stop + 1)) ∧ NoComment text start stop ∧
        TakenApart text start stop body ∧
        tokenize line (text.take stop) start = .ok (body ++ [⟨.endOfLine, [], stop + 1⟩]) := by
  have houtcome := scan_splits line text start (text.drop start)
  constructor
  · intro ts hts
    obtain ⟨piece, rest, body, hdrop, hsplits, hend, rfl⟩ := houtcome.of_ok hts
    exact ⟨body, _, rfl, hsplits.takenApart hdrop, hsplits.lineEnd hdrop hend⟩
  · intro r hr
    obtain ⟨hkind, piece, c, after, body, hdrop, hsplits, hstuck, hcolumn⟩ :=
      houtcome.of_error hr r rfl
    have hafter : text.drop (start + piece.length + 1) = after := by
      rw [Nat.add_assoc, ← List.drop_drop, hdrop, ← List.drop_drop, List.drop_left]
      rfl
    refine ⟨hkind, body, start + piece.length, c, by rw [hcolumn]; omega, by omega,
      getElem?_after hdrop, by rwa [hafter], hsplits.noComment hdrop, hsplits.takenApart hdrop,
      hsplits.tokenize_take hdrop line⟩

/-- A line that is read from behind its label up to its comment, and one with a malformed numeral
that can be read up to it. -/
theorem tokenize_lossless_to_comment_or_fault :
    (∃ ts body stop, tokenize 1 "a: str r0,[sp, #-0x1F]@x".toList 2 = .ok ts ∧ ts.length = 9 ∧
      ts = body ++ [⟨.endOfLine, [], stop + 1⟩] ∧
      TakenApart "a: str r0,[sp, #-0x1F]@x".toList 2 stop body ∧
      LineEnd "a: str r0,[sp, #-0x1F]@x".toList 2 stop) ∧
    ∃ body, TakenApart "movs r0, #1x".toList 0 9 body ∧
      tokenize 1 "movs r0, ".toList 0 = .ok (body ++ [⟨.endOfLine, [], 10⟩]) := by
  constructor
  · have heval : (tokenize 1 "a: str r0,[sp, #-0x1F]@x".toList 2).toOption.any
        (fun ts => ts.length = 9) = true := by
      decide +kernel
    obtain ⟨ts, hts, hlength⟩ := exists_ok_of_any heval
    obtain ⟨body, stop, htokens, hapart, hend⟩ := (tokenize_lossless _ _ _).1 ts hts
    exact ⟨ts, body, stop, hts, of_decide_eq_true hlength, htokens, hapart, hend⟩
  · have heval : tokenize 1 "movs r0, #1x".toList 0 =
        .error (.rejected ⟨.malformedNumeral "1x".toList,
          ⟨1, 10, "#1x".toList, "movs r0, #1x".toList⟩⟩) := by
      decide +kernel
    obtain ⟨-, body, stop, c, hcolumn, -, -, -, -, hapart, hcut⟩ :=
      (tokenize_lossless _ _ _).2 _ heval
    obtain rfl : stop = 9 := by
      simp only at hcolumn
      omega
    exact ⟨body, hapart, hcut⟩

end ThumbAssembler
