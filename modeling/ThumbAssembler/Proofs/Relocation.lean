/-
**Relocation.**

A source can be followed by another on new lines.  The first keeps its addresses, and the second
moves up by the number of words of the first.  A branch holds a distance, which the move does not
change, so both sources keep their words.  Only the names of labels may clash.

Main results:

* `ThumbAssembler.Text.lines_append_newline` — the lines of two texts with a line feed between them;
* `ThumbAssembler.exists_parse_append` — the program of two sources, up to places;
* `ThumbAssembler.linkEntry_moved_up` — the second pass on an entry after further instructions;
* `ThumbAssembler.Program.assembled_append` — **the words of two programs, one after the other**;
* `ThumbAssembler.assemble_append` — **the assembly of two sources, one after the other**.
-/

import Mathlib
import ThumbAssembler.Proofs.LineReading

set_option autoImplicit false

namespace ThumbAssembler

/-! ### Lines -/

namespace Text

theorem lines_newline (t : Text) : lines ('\n' :: t) = [] :: lines t :=
  lines_append_feed (t := []) (by simp) t

/-- A break ends a line, if it is not the first half of a pair. -/
theorem lines_break {c : Char} {t : Text} (hpair : ∀ rest, c = '\r' → t ≠ '\n' :: rest)
    (hc : isLineBreak c = true) : lines (c :: t) = [] :: lines t := by
  rw [lines]
  · rw [if_pos hc]
  · exact hpair

theorem lines_ne_nil {t : Text} (h : t ≠ []) : lines t ≠ [] := by
  fun_cases lines t with
  | case1 => exact absurd rfl h
  | case2 rest => simp
  | case3 c rest _ hc => simp
  | case4 c rest _ hc =>
      cases lines rest <;> simp [consLine]

theorem consLine_append (c : Char) {ls : List Text} (h : ls ≠ []) (ls' : List Text) :
    consLine c (ls ++ ls') = consLine c ls ++ ls' := by
  cases ls with
  | nil => exact absurd rfl h
  | cons l ls => rfl

/-- **Two texts with a line feed between them have the lines of both.**  If the
first is empty or ends with a break, the line feed ends an empty line of its own. -/
theorem lines_append_newline (t t' : Text) :
    lines (t ++ '\n' :: t') = lines t ++ lines t' ∨
      lines (t ++ '\n' :: t') = lines t ++ [] :: lines t' := by
  fun_induction lines t with
  | case1 => exact Or.inr (lines_newline t')
  | case2 rest ih =>
      have hlines : lines ('\r' :: '\n' :: rest ++ '\n' :: t') =
          [] :: lines (rest ++ '\n' :: t') := by
        rw [List.cons_append, List.cons_append, lines]
      rw [hlines]
      exact ih.imp (congrArg ([] :: ·)) (congrArg ([] :: ·))
  | case3 c rest hpair hc ih =>
      -- a carriage return at the end makes one break with the line feed
      by_cases hreturn : c = '\r' ∧ rest = []
      · obtain ⟨rfl, rfl⟩ := hreturn
        exact Or.inl (by rw [List.singleton_append, lines]; rfl)
      · have hpair' (rest' : Text) (hr : c = '\r') : rest ++ '\n' :: t' ≠ '\n' :: rest' := by
          intro hn
          cases rest with
          | nil => exact hreturn ⟨hr, rfl⟩
          | cons d rest => exact hpair rest hr (by rw [(List.cons.inj hn).1])
        rw [List.cons_append, lines_break hpair' hc]
        exact ih.imp (congrArg ([] :: ·)) (congrArg ([] :: ·))
  | case4 c rest hpair hc ih =>
      -- the line feed ends the line of `c` if nothing follows `c`
      have hbreak : isLineBreak c = false := by simpa using hc
      rw [List.cons_append, lines_cons hbreak]
      by_cases hrest : rest = []
      · subst hrest
        exact Or.inl (by rw [List.nil_append, lines_newline]; rfl)
      · have hne := lines_ne_nil hrest
        refine ih.imp (fun h => ?_) fun h => ?_
        · rw [h, consLine_append c hne]
        · rw [h, consLine_append c hne]

end Text

/-! ### Reading -/

theorem parseLines_append (isa : InstructionSet) (number : Nat) (raws raws' : List Text) :
    parseLines isa number (raws ++ raws') = do
      let ls ← parseLines isa number raws
      let ls' ← parseLines isa (number + raws.length) raws'
      return ls ++ ls' := by
  simp only [parseLines_eq_mapM, List.zipIdx_append, List.mapM_append]

theorem parseLines_blank (isa : InstructionSet) (number : Nat) :
    parseLines isa number [[]] = .ok [⟨number, [], .blank⟩] := by
  have hlabels := labelsFrom_of_none isa ⟨number, []⟩ 0 (t := []) rfl
  have hline : parseLine isa number [] = .ok ⟨number, [], .blank⟩ := by
    unfold parseLine
    exact bind_eq_ok_iff.2 ⟨_, hlabels, rfl⟩
  rw [parseLines, hline]
  rfl

/-- **The program of two sources, one after the other**, is that of the first and that of the
second, up to places. -/
theorem exists_parse_append {isa : InstructionSet} {source source' : Text} {p p' : Program}
    (h : parse isa source = .ok p) (h' : parse isa source' = .ok p') :
    ∃ q, parse isa (source ++ '\n' :: source') = .ok q ∧ q.bare = Program.bare (p ++ p') := by
  obtain ⟨ls, hls, h⟩ := bind_eq_ok_iff.1 h
  obtain ⟨ls', hls', h'⟩ := bind_eq_ok_iff.1 h'
  obtain rfl := Except.ok.inj h
  obtain rfl := Except.ok.inj h'
  -- the second source is read from the line after the first, or from the one after that
  rcases Text.lines_append_newline source source' with hlines | hlines
  · obtain ⟨ls'', hls'', hbare⟩ := parseLines_bare isa 1 (1 + source.lines.length) hls'
    refine ⟨(ls ++ ls'').flatMap ParsedLine.entries, ?_, ?_⟩
    · rw [parse, hlines, parseLines_append, hls, ok_bind, hls'']
      rfl
    · simp only [Program.bare, List.flatMap_append, List.map_append] at hbare ⊢
      rw [hbare]
  · obtain ⟨ls'', hls'', hbare⟩ := parseLines_bare isa 1 (1 + source.lines.length + 1) hls'
    have hblank := parseLines_blank isa (1 + source.lines.length)
    refine ⟨(ls ++ (⟨1 + source.lines.length, [], .blank⟩ :: ls'')).flatMap ParsedLine.entries,
      ?_, ?_⟩
    · rw [parse, hlines, ← List.singleton_append, parseLines_append, hls, ok_bind,
        parseLines_append, hblank, ok_bind, List.length_singleton, hls'']
      rfl
    · simp only [Program.bare, List.flatMap_append, List.flatMap_cons, List.map_append] at hbare ⊢
      rw [hbare]
      rfl

/-! ### Addresses -/

namespace Program

/-- The addresses of a program that starts further up. -/
theorem addressedFrom_add (k address : Nat) (p : Program) :
    addressedFrom (k + address) p = (addressedFrom address p).map (Prod.map (k + ·) id) := by
  induction p generalizing address with
  | nil => rfl
  | cons e p ih =>
      rw [addressedFrom, addressedFrom, Nat.add_assoc, ih]
      rfl

theorem toList_table_bare (p : Program) : p.bare.table.toList = p.table.toList :=
  p.corresponds_bare.toList_table_eq

/-- The symbol table of two programs, one after the other. -/
theorem toList_table_append (p q : Program) :
    (table (p ++ q)).toList =
      p.table.toList ++ q.table.toList.map fun x => (x.1, x.2 + (p.size : Int)) := by
  simp only [toList_table, addressed, addressedFrom_append, List.filterMap_append]
  rw [Nat.zero_add, ← Nat.add_zero p.size, addressedFrom_add, List.filterMap_map,
    List.map_filterMap]
  refine congrArg _ (List.filterMap_congr fun x _ => ?_)
  obtain ⟨a, e⟩ := x
  cases e with
  | instruction i => rfl
  | label l => simp [symbolOf, Entry.label?, Int.add_comm]

theorem Defines.append_right {p : Program} {name : Text} {address : Int}
    (h : p.Defines name address) (q : Program) : Defines (p ++ q) name address := by
  obtain ⟨before, l, after, rfl, hname, haddress⟩ := h
  exact ⟨before, l, after ++ q, by simp, hname, haddress⟩

theorem Defines.append_left {q : Program} {name : Text} {address : Int} (h : q.Defines name address)
    (p : Program) : Defines (p ++ q) name (address + p.size) := by
  obtain ⟨before, l, after, rfl, hname, rfl⟩ := h
  refine ⟨p ++ before, l, after, by simp, hname, ?_⟩
  rw [size_append]
  omega

end Program

/-! ### Linking -/

section MovedUp

variable {bias : Int} {table table' : SymbolTable} {k address : Nat}

/-- A branch and its label that move up together keep their distance. -/
theorem branchOffset_moved_up
    (h : ∀ name t, table.address? name = some t → table'.address? name = some (t + k))
    {i : Instruction} {o : Operand} {name : Text} {offset : Int}
    (hoffset : branchOffset bias table address i o name = .ok offset) :
    branchOffset bias table' (k + address) i o name = .ok offset := by
  unfold branchOffset at hoffset ⊢
  cases ht : table.address? name with
  | none =>
      rw [ht] at hoffset
      cases hoffset
  | some t =>
      have hdistance : t + k - (((k + address : Nat) : Int) + bias) = t - (address + bias) := by
        omega
      rw [ht] at hoffset
      rw [h name t ht]
      simp only [hdistance]
      exact hoffset

theorem linkOperand_moved_up
    (h : ∀ name t, table.address? name = some t → table'.address? name = some (t + k))
    {i : Instruction} {o o' : Operand} (ho : linkOperand bias table address i o = .ok o') :
    linkOperand bias table' (k + address) i o = .ok o' := by
  obtain ⟨content, column, text⟩ := o
  cases content with
  | label name =>
      obtain ⟨offset, hoffset, ho⟩ := bind_eq_ok_iff.1 ho
      exact bind_eq_ok_iff.2 ⟨offset, branchOffset_moved_up h hoffset, ho⟩
  | _ => exact ho

/-- **The second pass gives the same entry after further instructions**, if all labels move up by
their number. -/
theorem linkEntry_moved_up
    (h : ∀ name t, table.address? name = some t → table'.address? name = some (t + k))
    {e e' : Entry} (he : linkEntry bias table (address, e) = .ok e') :
    linkEntry bias table' (k + address, e) = .ok e' := by
  cases e with
  | label l => exact he
  | instruction i =>
      obtain ⟨os, hos, he⟩ := bind_eq_ok_iff.1 he
      refine bind_eq_ok_iff.2 ⟨os, mapM_eq_ok_iff.2 ?_, he⟩
      exact (mapM_eq_ok_iff.1 hos).imp fun o o' ho => linkOperand_moved_up h ho

end MovedUp

/-! ### Words -/

namespace Program

theorem encode_append (p q : Program) :
    encode (p ++ q) = do
      let words ← encode p
      let words' ← encode q
      return words ++ words' := by
  rw [encode, instructions, List.filterMap_append, List.mapM_append]
  rfl

theorem assembled_eq_ok_iff {bias : Int} {p : Program} {words : List Int} :
    assembled bias p = .ok words ↔
      p.labelNames.Nodup ∧ ∃ q,
        List.Forall₂ (fun x e => linkEntry bias p.table.freeze x = .ok e) p.addressed q ∧
          encode q = .ok words := by
  rw [assembled, bind_eq_ok_iff]
  constructor
  · rintro ⟨table, htable, h⟩
    obtain ⟨hnodup, rfl⟩ := collect_eq_ok_iff.1 htable
    obtain ⟨q, hq, hwords⟩ := bind_eq_ok_iff.1 h
    exact ⟨hnodup, q, mapM_eq_ok_iff.1 hq, hwords⟩
  · rintro ⟨hnodup, q, hq, hwords⟩
    exact ⟨p.table, collect_of_nodup hnodup, bind_eq_ok_iff.2 ⟨q, mapM_eq_ok_iff.2 hq, hwords⟩⟩

/-- **Two programs, one after the other, have the words of the first and of the second.** -/
theorem assembled_append {bias : Int} {p p' : Program} {words words' : List Int}
    (h : p.assembled bias = .ok words) (h' : p'.assembled bias = .ok words')
    (hdisjoint : p.labelNames.Disjoint p'.labelNames) :
    assembled bias (p ++ p') = .ok (words ++ words') := by
  obtain ⟨hnodup, q, hq, hwords⟩ := assembled_eq_ok_iff.1 h
  obtain ⟨hnodup', q', hq', hwords'⟩ := assembled_eq_ok_iff.1 h'
  have hnodup'' : (labelNames (p ++ p')).Nodup := by
    rw [labelNames_append]
    exact hnodup.append hnodup' hdisjoint
  have haddress (name : Text) (t : Int) (ht : p.table.freeze.address? name = some t) :
      (table (p ++ p')).freeze.address? name = some (t + (0 : Nat)) := by
    rw [Int.natCast_zero, Int.add_zero]
    exact (address?_table hnodup'').2 (((address?_table hnodup).1 ht).append_right p')
  have haddress' (name : Text) (t : Int) (ht : p'.table.freeze.address? name = some t) :
      (table (p ++ p')).freeze.address? name = some (t + p.size) :=
    (address?_table hnodup'').2 (((address?_table hnodup').1 ht).append_left p)
  -- the first program stays where it is, and the second moves up by the size of the first
  refine assembled_eq_ok_iff.2 ⟨hnodup'', q ++ q', ?_, ?_⟩
  · rw [addressed, addressedFrom_append]
    refine List.rel_append ?_ ?_
    · refine hq.imp fun x e he => ?_
      have hlink := linkEntry_moved_up haddress he
      rwa [Nat.zero_add] at hlink
    · rw [Nat.zero_add, ← Nat.add_zero p.size, addressedFrom_add, List.forall₂_map_left_iff]
      exact hq'.imp fun x e he => linkEntry_moved_up haddress' he
  · rw [encode_append, hwords, ok_bind, hwords']
    rfl

end Program

/-! ### Sources -/

/-- **The assembly of two sources, one after the other.**  Sources that can be assembled and have no
label in common can be assembled with a line feed between them: the words are those of the first
followed by those of the second, and the symbol table is that of the first followed by that of the
second, whose addresses are greater by the number of words of the first. -/
theorem assemble_append {isa : InstructionSet} {bias : Int} {source source' : Text}
    {a a' : Assembly} (h : assemble isa bias source = .ok a)
    (h' : assemble isa bias source' = .ok a')
    (hdisjoint : (a.symbols.toList.map Prod.fst).Disjoint (a'.symbols.toList.map Prod.fst)) :
    ∃ c, assemble isa bias (source ++ '\n' :: source') = .ok c ∧
      c.words = a.words ++ a'.words ∧
      c.symbols.toList =
        a.symbols.toList ++ a'.symbols.toList.map fun x => (x.1, x.2 + (a.words.length : Int)) := by
  obtain ⟨p, q, words, hp, hnodup, hq, hwords, rfl⟩ := assemble_eq_ok_iff.1 h
  obtain ⟨p', q', words', hp', hnodup', hq', hwords', rfl⟩ := assemble_eq_ok_iff.1 h'
  obtain ⟨r, hr, hbare⟩ := exists_parse_append hp hp'
  have hnames : p.labelNames.Disjoint p'.labelNames := by
    rw [← p.map_fst_addresses, ← p'.map_fst_addresses]
    exact hdisjoint
  have happend := Program.assembled_append
    (Program.assembled_eq_ok_iff.2 ⟨hnodup, q, hq, hwords⟩)
    (Program.assembled_eq_ok_iff.2 ⟨hnodup', q', hq', hwords'⟩) hnames
  -- what is read and the two programs together differ in places only
  have hr' : r.assembled bias = .ok (words ++ words') := by
    rw [← toOption_eq_some_iff, ← Program.toOption_assembled_bare, hbare,
      Program.toOption_assembled_bare, happend]
    rfl
  obtain ⟨hnodup'', s, hs, hwords''⟩ := Program.assembled_eq_ok_iff.1 hr'
  refine ⟨_, assemble_eq_ok_iff.2 ⟨r, s, _, hr, hnodup'', hs, hwords'', rfl⟩, rfl, ?_⟩
  have hsize : words.length = p.size := (encode_linked hq hwords).1
  have hsymbols : r.table.toList = (Program.table (p ++ p')).toList := by
    rw [← Program.toList_table_bare, hbare, Program.toList_table_bare]
  rw [Program.toList_table_append, ← hsize] at hsymbols
  exact hsymbols

/-- Two loops, one after the other: the line feed completes the break at the end of the first. -/
theorem assemble_append_loops :
    ∃ c, assemble Thumb.instructionSet 3
        ("start: movs r0, #7\n\tb start\r".toList ++ '\n' :: "loop: bne loop".toList) = .ok c ∧
      c.words = [0x2007, 0xE7FC, 0xD1FD] ∧
      c.symbols.toList = [("start".toList, 0), ("loop".toList, 2)] := by
  have hfirst : (assemble Thumb.instructionSet 3
      "start: movs r0, #7\n\tb start\r".toList).toOption.any (fun a =>
        a.words = [0x2007, 0xE7FC] && a.symbols.toList = [("start".toList, 0)]) = true := by
    decide +kernel
  have hsecond : (assemble Thumb.instructionSet 3 "loop: bne loop".toList).toOption.any (fun a =>
        a.words = [0xD1FD] && a.symbols.toList = [("loop".toList, 0)]) = true := by
    decide +kernel
  obtain ⟨a, ha, heval⟩ := exists_ok_of_any hfirst
  obtain ⟨a', ha', heval'⟩ := exists_ok_of_any hsecond
  simp only [Bool.and_eq_true, decide_eq_true_eq] at heval heval'
  have hdisjoint : (a.symbols.toList.map Prod.fst).Disjoint (a'.symbols.toList.map Prod.fst) := by
    rw [heval.2, heval'.2, List.disjoint_iff_ne]
    decide
  obtain ⟨c, hc, hwords, hsymbols⟩ := assemble_append ha ha' hdisjoint
  rw [heval.1, heval'.1] at hwords
  rw [heval.1, heval.2, heval'.2] at hsymbols
  exact ⟨c, hc, hwords, hsymbols⟩

end ThumbAssembler
