/-
**Listing, image and print view.**

An assembled program is shown in three ways: the listing has a line for every entry, the image has
the words, and the print command has a row for every instruction.  Each of them counts instructions
on its own.  This module proves that they agree: there is one sequence of views, one for each
instruction, with the address, the word in hexadecimal and in binary and the source text, and all
three are made of it.  The image has the words of the views exactly if its row width is not
negative, or there are no words; a target with a negative row width has an image without words.

Main definitions:

* `ThumbAssembler.View` — how one instruction is shown, with its line and its row;
* `ThumbAssembler.View.Shows` — a view shows the instruction with a given number;
* `ThumbAssembler.instructionLines` — the lines of a listing that belong to instructions.

Main results:

* `ThumbAssembler.listingLines_eq` — the listing finds the word of an instruction at its address;
* `ThumbAssembler.instructionLines_eq` — the lines of the instructions are those of their views;
* `ThumbAssembler.ends_runPrint` — the print command prints the rows of the views;
* `ThumbAssembler.listing_image_print_agree` — **the three views of a program agree**.
-/

import Mathlib
import ThumbAssembler.Proofs.ActionRuns
import ThumbAssembler.Proofs.DiagnosticPlaces
import ThumbAssembler.Proofs.ImageLayout
import ThumbAssembler.Proofs.SessionRuns
import ThumbAssembler.Proofs.UniqueDecoding

set_option autoImplicit false

namespace ThumbAssembler

/-! ### Views -/

/-- How an instruction is shown: its address, its word in hexadecimal and in binary, and its source
text. -/
structure View where
  address : Text
  word : Text
  binary : Text
  source : Text

namespace View

/-- The line of a listing. -/
def line (v : View) : Text :=
  v.address ++ "  ".toList ++ v.word ++ List.replicate 6 ' ' ++ v.source

/-- The row that is printed. -/
def row (v : View) : Text := v.word ++ "  ".toList ++ v.binary ++ "  ".toList ++ v.source

/-- The view of an instruction with its word and its number. -/
def ofPair (x : (Instruction × Int) × Nat) : View :=
  ⟨addressText x.2, wordText x.1.2, wordBinary x.1.2, x.1.1.render⟩

/-- The view shows the instruction number `k` of an assembly: the number in hexadecimal, the word in
four hexadecimal digits and in sixteen binary ones, and the source text. -/
structure Shows (a : Assembly) (k : Nat) (v : View) : Prop where
  address : v.address.IsNumeral 16 k
  word : ∃ w, a.words[k]? = some w ∧ v.word.length = 4 ∧ v.word.IsNumeral 16 w ∧
    v.binary.length = 16 ∧ v.binary.IsNumeral 2 w
  source : ∃ i, a.program.instructions[k]? = some i ∧ v.source = i.render

end View

/-- The views of the instructions of an assembly. -/
def Assembly.views (a : Assembly) : List View :=
  ((a.program.instructions.zip a.words).zipIdx).map View.ofPair

/-! ### What the views show -/

section Shown

variable {bias : Int} {source : Text} {a : Assembly}

/-- A column of the views that depends on the instruction and its word only. -/
theorem Assembly.map_views {α : Type} {column : View → α} {f : Instruction × Int → α}
    (h : ∀ x, column (View.ofPair x) = f x.1) (a : Assembly) :
    a.views.map column = (a.program.instructions.zip a.words).map f := by
  have hpairs : a.views.map column =
      ((a.program.instructions.zip a.words).zipIdx.map Prod.fst).map f := by
    rw [views, List.map_map, List.map_map]
    exact List.map_congr_left fun x _ => h x
  rw [hpairs, List.zipIdx_map_fst]

/-- The instructions of an assembled program can be printed. -/
theorem printed_of_assemble (h : assemble Thumb.instructionSet bias source = .ok a)
    {i : Instruction} (hi : i ∈ a.program.instructions) : i.printed = .ok i.render := by
  obtain ⟨hencode, hnamed⟩ := instructions_of_assemble Thumb.instructionSet_sound h
  obtain ⟨k, hk⟩ := List.mem_iff_getElem?.1 hi
  obtain ⟨w, -, hw⟩ := exists_getElem?_of_forall₂ hencode hk
  exact printed_of_encode (hnamed i hi).1 (hnamed i hi).2 hw

/-- **The words of an assembled program have sixteen bits.** -/
theorem word_range_of_assemble (h : assemble Thumb.instructionSet bias source = .ok a) {w : Int}
    (hw : w ∈ a.words) : 0 ≤ w ∧ w ≤ 65535 := by
  obtain ⟨hencode, hnamed⟩ := instructions_of_assemble Thumb.instructionSet_sound h
  obtain ⟨i, hi, hword⟩ := exists_left_of_forall₂ hencode hw
  have hresolved := (hnamed i hi).2
  obtain ⟨hlow, hhigh, -⟩ :=
    Instruction.word_mem_range hresolved.sound.toWellFormed hresolved.complete hword
  rw [Bits.weight_eq_pow] at hhigh
  exact ⟨hlow, by omega⟩

/-- **The views show the instructions in order.** -/
theorem shows_of_assemble (h : assemble Thumb.instructionSet bias source = .ok a) {k : Nat}
    {v : View} (hv : a.views[k]? = some v) : v.Shows a k := by
  rw [Assembly.views, List.getElem?_map, List.getElem?_zipIdx, Option.map_map,
    Option.map_eq_some_iff] at hv
  obtain ⟨⟨i, w⟩, hpair, hview⟩ := hv
  have hview : v = View.ofPair ((i, w), k) := by simp [← hview]
  subst hview
  obtain ⟨hi, hw⟩ := List.getElem?_zip_eq_some.1 hpair
  obtain ⟨hlow, hhigh⟩ := word_range_of_assemble h (List.mem_of_getElem? hw)
  exact {
    address := isNumeral_zeroPadded (by norm_num) le_rfl (Int.natCast_nonneg k) 4
    word := ⟨w, hw, length_zeroPadded (by norm_num) hlow (by norm_num) (by omega),
      isNumeral_zeroPadded (by norm_num) le_rfl hlow 4,
      length_zeroPadded (by norm_num) hlow (by norm_num) (by omega),
      isNumeral_zeroPadded (by norm_num) (by norm_num) hlow 16⟩
    source := ⟨i, hi, rfl⟩ }

theorem length_views_of_assemble (h : assemble Thumb.instructionSet bias source = .ok a) :
    a.views.length = a.words.length := by
  obtain ⟨hencode, -⟩ := instructions_of_assemble Thumb.instructionSet_sound h
  rw [Assembly.views, List.length_map, List.length_zipIdx, List.length_zip, hencode.length_eq,
    Nat.min_self]

/-- The hexadecimal column of the views has the words in order. -/
theorem map_word_views_of_assemble (h : assemble Thumb.instructionSet bias source = .ok a) :
    a.views.map View.word = a.words.map wordText := by
  obtain ⟨hencode, -⟩ := instructions_of_assemble Thumb.instructionSet_sound h
  rw [Assembly.map_views (f := wordText ∘ Prod.snd) fun _ => rfl, ← List.map_map,
    List.map_snd_zip hencode.length_eq.ge]

end Shown

/-! ### Listings -/

/-- The line of an entry at an address, with the word at this address. -/
def entryLine (words : List Int) : Nat × Entry → Text
  | (address, .label l) => labelLine address l
  | (address, .instruction i) => instructionLine address words[address]? i.render

/-- **The listing finds the word of an instruction at its address.** -/
theorem listingLines_eq (words : List Int) {p : Program}
    (h : ∀ i ∈ p.instructions, i.printed = .ok i.render) (address : Nat) :
    listingLines address (words.drop address) p =
      .ok ((Program.addressedFrom address p).map (entryLine words)) := by
  -- the words that are left are those from the address of the next instruction on
  induction p generalizing address with
  | nil => rfl
  | cons e p ih =>
      cases e with
      | label l =>
          rw [listingLines, ih h address]
          rfl
      | instruction i =>
          obtain ⟨hi, hrest⟩ := List.forall_mem_cons.1 h
          rw [listingLines, hi, ok_bind, List.head?_drop, List.tail_drop, ih hrest (address + 1)]
          rfl

/-- The lines that belong to the instructions of a program, if every entry has one line. -/
def instructionLines (p : Program) (lines : List Text) : List Text :=
  (p.zip lines).filterMap fun x => x.1.instruction?.map fun _ => x.2

/-- **The lines of the instructions are those of their views.** -/
theorem instructionLines_eq (words : List Int) {p : Program} (address : Nat)
    (h : address + p.size ≤ words.length) :
    instructionLines p ((Program.addressedFrom address p).map (entryLine words)) =
      ((p.instructions.zip (words.drop address)).zipIdx address).map
        fun x => (View.ofPair x).line := by
  induction p generalizing address with
  | nil => rfl
  | cons e p ih =>
      rw [Program.size_cons] at h
      cases e with
      | label l => exact ih address (by simpa [Entry.size] using h)
      | instruction i =>
          have hsize : address + 1 + Program.size p ≤ words.length := by
            simp only [Entry.size] at h
            omega
          have hget : words[address]? = some words[address] := List.getElem?_eq_getElem (by omega)
          have hdrop : words.drop address = words[address] :: words.drop (address + 1) :=
            List.drop_eq_getElem_cons (by omega)
          have hlines : instructionLines (.instruction i :: p)
                ((Program.addressedFrom address (.instruction i :: p)).map (entryLine words)) =
              instructionLine address words[address]? i.render ::
                instructionLines p
                  ((Program.addressedFrom (address + 1) p).map (entryLine words)) := rfl
          have hinstructions : Program.instructions (.instruction i :: p) =
              i :: Program.instructions p := rfl
          rw [hlines, ih (address + 1) hsize, hinstructions, hdrop, List.zip_cons_cons,
            List.zipIdx_cons, List.map_cons, hget]
          rfl

/-! ### Lines without line breaks -/

theorem Text.IsNumeral.unbroken {base : Nat} {n : Int} {t : Text} (h : t.IsNumeral base n) :
    t.Unbroken := by
  intro c hc
  exact Text.isLineBreak_of_isHexDigit
    (isHexDigit_of_mem_smallDigits (List.mem_of_mem_take (h.digits c hc)))

theorem Text.unbroken_replicate {c : Char} (h : isLineBreak c = false) (n : Nat) :
    Text.Unbroken (List.replicate n c) := by
  intro d hd
  rwa [List.eq_of_mem_replicate hd]

theorem Operand.unbroken_render {o : Operand} (h : o.isLabel = false) : o.render.Unbroken := by
  obtain ⟨content, column, text⟩ := o
  cases content with
  | register index => exact Text.unbroken_cons.2 ⟨by decide, Text.unbroken_decimal index⟩
  | immediate value => exact Text.unbroken_cons.2 ⟨by decide, Text.unbroken_decimal value⟩
  | label name => cases h
  | stackPointer => exact (by decide : Text.Unbroken "sp".toList)
  | stackOffset bytes =>
      rw [Operand.render, Operand.Content.render]
      split
      · decide
      · rw [Text.unbroken_append, Text.unbroken_append]
        exact ⟨⟨by decide, Text.unbroken_decimal bytes⟩, by decide⟩

theorem Instruction.unbroken_render {i : Instruction} (hmnemonic : IsIdentifier i.mnemonic)
    (hresolved : i.isResolved = true) : i.render.Unbroken := by
  have hname := Text.unbroken_of_isIdentifier hmnemonic
  have hoperands : i.renderOperands.Unbroken := by
    refine Text.unbroken_joined (by decide) fun t ht => ?_
    obtain ⟨o, ho, rfl⟩ := List.mem_map.1 ht
    exact Operand.unbroken_render (by simpa using List.all_eq_true.1 hresolved o ho)
  unfold Instruction.render
  split
  · exact hname
  · rw [Text.unbroken_append, Text.unbroken_append]
    exact ⟨⟨hname, by decide⟩, hoperands⟩

section Lines

variable {bias : Int} {source : Text} {a : Assembly}

/-- The labels of an assembled program are identifiers. -/
theorem isIdentifier_of_mem_labels {isa : InstructionSet} (hisa : isa.Sound)
    (h : assemble isa bias source = .ok a) {l : Label} (hl : l ∈ a.program.labels) :
    IsIdentifier l.name := by
  obtain ⟨p, q, words, hp, -, hq, -, rfl⟩ := assemble_eq_ok_iff.1 h
  rw [(Program.linkedBy_of_walk hq).labels_eq] at hl
  obtain ⟨e, he, hlabel⟩ := List.mem_filterMap.1 hl
  cases e with
  | label l' =>
      obtain rfl : l' = l := Option.some.inj hlabel
      obtain ⟨_, -, hread⟩ := parse_readIn hisa hp he
      exact Label.ReadIn.identifier hread
  | instruction i => cases hlabel

/-- A line of a listing is one line of text. -/
theorem entryLine_of_assemble (h : assemble Thumb.instructionSet bias source = .ok a)
    {x : Nat × Entry} (hx : x ∈ a.program.addressed) :
    entryLine a.words x ≠ [] ∧ (entryLine a.words x).Unbroken := by
  obtain ⟨address, e⟩ := x
  have hmem := Program.mem_of_mem_addressed hx
  have haddress : (addressText address).Unbroken := Text.unbroken_zeroPadded 4 address
  have hspaces (n : Nat) : Text.Unbroken (List.replicate n ' ') :=
    Text.unbroken_replicate (by decide) n
  cases e with
  | label l =>
      have hname := Text.unbroken_of_isIdentifier
        (isIdentifier_of_mem_labels Thumb.instructionSet_sound h
          (List.mem_filterMap.2 ⟨_, hmem, rfl⟩))
      have hcolon : Text.Unbroken ":".toList := by decide
      refine ⟨by simp [entryLine, labelLine], ?_⟩
      simp only [entryLine, labelLine, Label.render, Text.unbroken_append]
      exact ⟨⟨haddress, hspaces 8⟩, hname, hcolon⟩
  | instruction i =>
      have hi : i ∈ a.program.instructions := List.mem_filterMap.2 ⟨_, hmem, rfl⟩
      have hsource := Instruction.unbroken_render
        ((instructions_of_assemble Thumb.instructionSet_sound h).2 i hi).1.identifier
        ((consistent_of_assemble h).resolved i hi)
      refine ⟨by simp [entryLine, instructionLine], ?_⟩
      simp only [entryLine, instructionLine, Text.unbroken_append]
      refine ⟨⟨⟨⟨haddress, by decide⟩, ?_⟩, hspaces 6⟩, hsource⟩
      split
      · rename_i w hw
        obtain ⟨hlow, -⟩ := word_range_of_assemble h (List.mem_of_getElem? hw)
        exact (isNumeral_zeroPadded (by norm_num) le_rfl hlow 4).unbroken
      · decide

end Lines

/-! ### The print command -/

/-- Lines with line feeds between them and one at the end. -/
theorem Text.joined_append_feed {rows : List Text} (h : rows ≠ []) :
    joined "\n".toList rows ++ ['\n'] = rows.flatMap (· ++ ['\n']) := by
  induction rows with
  | nil => exact absurd rfl h
  | cons row rows ih =>
      cases rows with
      | nil => rw [joined_singleton, List.flatMap_cons, List.flatMap_nil, List.append_nil]
      | cons next rows =>
          rw [joined_cons_cons, List.flatMap_cons, ← ih (List.cons_ne_nil _ _)]
          simp

section Print

variable {target : Target} {source : Text} {a : Assembly}

/-- The rows that are printed are those of the views. -/
theorem mapM_snippetRow (h : assemble Thumb.instructionSet target.bias source = .ok a) :
    (a.program.instructions.zip a.words).mapM snippetRow = .ok (a.views.map View.row) := by
  rw [Assembly.map_views (f := fun x => wordText x.2 ++ "  ".toList ++ wordBinary x.2 ++
    "  ".toList ++ x.1.render) fun _ => rfl, mapM_eq_ok_iff]
  refine List.forall₂_map_right_iff.2 (List.forall₂_same.2 fun x hx => ?_)
  rw [snippetRow, printed_of_assemble h (List.of_mem_zip hx).1]
  rfl

/-- A snippet is described by the rows of the views. -/
theorem ends_describeSnippet (h : assemble Thumb.instructionSet target.bias source = .ok a)
    (w : Workspace) :
    (describeSnippet (some target) source).Ends w fun x w' =>
      x = (true, Text.joined "\n".toList (a.views.map View.row)) ∧ w'.output = w.output := by
  refine (Action.Ends.pure (P := fun t w' => t = target ∧ w'.output = w.output)
    ⟨rfl, rfl⟩).bind ?_
  rintro _ w₁ ⟨rfl, hw₁⟩
  refine (ends_assembleLogged (P := fun r w' => r = .success _ a.program a.words ∧
    w'.output = w.output) (exists_report_of_assemble h none)
      ⟨rfl, (w₁.output_logAll _).trans hw₁⟩).bind ?_
  rintro _ w₂ ⟨rfl, hw₂⟩
  refine (Action.ends_compute (P := fun rows w' => rows = a.views.map View.row ∧
    w'.output = w.output) (mapM_snippetRow h) ⟨rfl, hw₂⟩).bind ?_
  rintro _ w₃ ⟨rfl, hw₃⟩
  exact Action.Ends.pure ⟨rfl, hw₃⟩

/-- **The print command prints the rows of the views**, each on a line of its own. -/
theorem ends_runPrint (h : assemble Thumb.instructionSet target.bias source = .ok a)
    (w : Workspace) :
    (runPrint (some target) source).Ends w fun code w' =>
      code = exitOk ∧ w'.output = w.output ++ (a.views.map View.row).flatMap (· ++ ['\n']) := by
  refine (ends_describeSnippet h w).bind ?_
  rintro _ w' ⟨rfl, houtput⟩
  simp only
  cases hviews : a.views with
  | nil => exact Action.Ends.pure ⟨rfl, by simp [houtput]⟩
  | cons v vs =>
      -- a row is not empty, so there is something to print
      have hprint : (!(Text.joined "\n".toList ((v :: vs).map View.row)).isEmpty) = true := by
        rw [List.map_cons, joined_cons_eq]
        simp [View.row]
      rw [if_pos hprint]
      refine (Action.ends_modify (P := fun _ w'' => w''.output = w.output ++
        ((v :: vs).map View.row).flatMap (· ++ ['\n'])) ?_).bind fun _ w'' hw'' =>
          Action.Ends.pure ⟨rfl, hw''⟩
      rw [← Text.joined_append_feed (by simp), houtput, List.append_assoc]

end Print

/-! ### Agreement -/

/-- The lines are those of a listing: one for every entry of the program, for an instruction the
line of its view, and for a label its name with the address that the symbol table has for it. -/
structure Assembly.Lists (a : Assembly) (views : List View) (lines : List Text) : Prop where
  length_eq : lines.length = a.program.length
  instructions : instructionLines a.program lines = views.map View.line
  labels : ∀ (k : Nat) (l : Label), a.program[k]? = some (.label l) →
    ∃ (address : Int) (number : Text), a.symbols.address? l.name = some address ∧
      number.IsNumeral 16 address ∧
      lines[k]? = some (number ++ List.replicate 8 ' ' ++ (l.name ++ ":".toList))

section Agreement

variable {target : Target} {source : Text} {a : Assembly}

theorem lists_of_assemble {bias : Int} (h : assemble Thumb.instructionSet bias source = .ok a) :
    a.Lists a.views (a.program.addressed.map (entryLine a.words)) := by
  have hconsistent := consistent_of_assemble h
  refine ⟨?_, ?_, fun k l hl => ?_⟩
  · rw [List.length_map, ← List.length_map (f := Prod.snd), Program.map_snd_addressed]
  · rw [Program.addressed, instructionLines_eq a.words 0 (by rw [hconsistent.length_eq]; omega),
      List.drop_zero, Assembly.views, List.map_map]
    rfl
  · rw [← Program.map_snd_addressed a.program, List.getElem?_map, Option.map_eq_some_iff] at hl
    obtain ⟨⟨address, e⟩, hx, he⟩ := hl
    obtain rfl : e = .label l := he
    obtain ⟨-, haddress⟩ := hconsistent.addresses address l (List.mem_of_getElem? hx)
    refine ⟨address, addressText address, haddress,
      isNumeral_zeroPadded (by norm_num) le_rfl (Int.natCast_nonneg address) 4, ?_⟩
    rw [List.getElem?_map, hx]
    rfl

/-- **The lines of a listing** are the heading and a line for every entry. -/
theorem exists_listing {bias : Int} (h : assemble Thumb.instructionSet bias source = .ok a) :
    ∃ text, listing a.program a.words = .ok text ∧
      text.lines = listingHeading ++ a.program.addressed.map (entryLine a.words) := by
  have hlines := listingLines_eq a.words (fun i hi => printed_of_assemble h hi) 0
  refine ⟨_, by rw [listing, ← List.drop_zero (l := a.words), hlines, ok_bind]; rfl, ?_⟩
  refine Text.lines_joined fun t ht => ?_
  rcases List.mem_append.1 ht with ht | ht
  · rcases List.mem_pair.1 ht with rfl | rfl
    · exact ⟨by decide, (by decide : Text.Unbroken "ADDR  WORD  SOURCE".toList)⟩
    · exact ⟨by simp, Text.unbroken_replicate (by decide) 60⟩
  · obtain ⟨x, hx, rfl⟩ := List.mem_map.1 ht
    exact entryLine_of_assemble h hx

/-- The body of an image has the words of the views unless the row width is negative. -/
theorem items_imageBody_eq_views_iff {bias : Int}
    (h : assemble Thumb.instructionSet bias source = .ok a) (width : RowWidth) :
    (imageBody width a.words).items = a.views.map View.word ↔
      0 ≤ width.getD 0 ∨ a.words = [] := by
  rw [items_imageBody, map_word_views_of_assemble h]
  constructor
  · intro hitems
    rcases le_or_gt 0 (width.getD 0) with hwidth | hwidth
    · exact Or.inl hwidth
    · rw [imageRows_of_neg hwidth] at hitems
      exact Or.inr (List.map_eq_nil_iff.1 hitems.symm)
  · rintro (hwidth | hwords)
    · rw [flatten_imageRows hwidth]
    · rw [hwords, imageRows_nil]
      rfl

/-- **The three views of a program agree.**  Let a source be assembled for a target.  Then there is
one view for every word, and the view number `k` shows the instruction number `k`.  The listing has
two heading lines and the lines of the entries, with the views in the lines of the instructions.
The image, without a row width of its own, is the header of the target and a body, whose items are
the words of the views exactly if the target has no negative row width, or there are no words.  The
print command prints the rows of the views. -/
theorem listing_image_print_agree
    (h : assemble Thumb.instructionSet target.bias source = .ok a) :
    ∃ (views : List View) (lines : List Text) (text body : Text),
      (views.length = a.words.length ∧
        ∀ (k : Nat) (v : View), views[k]? = some v → v.Shows a k) ∧
      (listing a.program a.words = .ok text ∧ text.lines = listingHeading ++ lines ∧
        a.Lists views lines) ∧
      (report Thumb.instructionSet target none source =
          .ok (.success (target.header ++ body) a.program a.words) ∧
        (body.items = views.map View.word ↔ 0 ≤ target.rowWidth.getD 0 ∨ a.words = [])) ∧
      ∀ w, (runPrint (some target) source).Ends w fun code w' =>
        code = exitOk ∧ w'.output = w.output ++ (views.map View.row).flatMap (· ++ ['\n']) := by
  obtain ⟨text, htext, hlines⟩ := exists_listing h
  exact ⟨a.views, a.program.addressed.map (entryLine a.words), text,
    imageBody target.rowWidth a.words,
    ⟨length_views_of_assemble h, fun _ _ => shows_of_assemble h⟩,
    ⟨htext, hlines, lists_of_assemble h⟩,
    ⟨exists_report_of_assemble h none, items_imageBody_eq_views_iff h target.rowWidth⟩,
    ends_runPrint h⟩

/-- Two labels and two instructions: the labels take no address, and the rows are the lines with the
binary column instead of the address. -/
theorem listing_image_print_agree_loop :
    ∃ a views, assemble Thumb.instructionSet Target.parm.bias
        "start:\nmovs r0, #1\nloop:\nb loop\n".toList = .ok a ∧
      (views : List View).map View.line =
        ["0000  2001      movs r0, #1".toList, "0001  e7fd      b #-3".toList] ∧
      (∀ k v, views[k]? = some v → View.Shows a k v) ∧
      (∃ body, report Thumb.instructionSet Target.parm none
          "start:\nmovs r0, #1\nloop:\nb loop\n".toList =
            .ok (.success (Target.parm.header ++ body) a.program a.words) ∧
        body.items = views.map View.word) ∧
      ∀ w, (runPrint (some Target.parm)
          "start:\nmovs r0, #1\nloop:\nb loop\n".toList).Ends w fun code w' =>
        code = exitOk ∧ w'.output = w.output ++ (views.map View.row).flatMap (· ++ ['\n']) := by
  have heval : ((assemble Thumb.instructionSet Target.parm.bias
      "start:\nmovs r0, #1\nloop:\nb loop\n".toList).toOption.any fun a =>
        decide (((listing a.program a.words).toOption.map fun text =>
          instructionLines a.program (text.lines.drop 2)) =
            some ["0000  2001      movs r0, #1".toList, "0001  e7fd      b #-3".toList])) =
      true := by
    decide +kernel
  obtain ⟨a, ha, htest⟩ := exists_ok_of_any heval
  rw [decide_eq_true_eq] at htest
  obtain ⟨views, lines, text, body, hviews, ⟨htext, hlines, hlists⟩, ⟨hreport, hitems⟩, hprint⟩ :=
    listing_image_print_agree ha
  have hdrop : text.lines.drop 2 = lines := by
    rw [hlines]
    rfl
  rw [htext, Except.toOption, Option.map_some, Option.some.injEq, hdrop, hlists.instructions]
    at htest
  exact ⟨a, views, ha, htest, hviews.2, ⟨body, hreport, hitems.2 (Or.inl (by decide))⟩, hprint⟩

end Agreement

/-- **With a negative row width the image has no words**, while the listing shows them. -/
theorem listing_shows_word_that_image_loses :
    ∃ a, assemble Thumb.instructionSet Target.parm.bias "movs r0, #1".toList = .ok a ∧
      (listing a.program a.words).toOption.map (fun text => text.lines.drop 2) =
        some ["0000  2001      movs r0, #1".toList] ∧
      report Thumb.instructionSet { Target.parm with rowWidth := some (-1) } none
        "movs r0, #1".toList = .ok (.success Target.parm.header a.program a.words) := by
  have heval : ((assemble Thumb.instructionSet Target.parm.bias
      "movs r0, #1".toList).toOption.any fun a =>
        decide ((listing a.program a.words).toOption.map (fun text => text.lines.drop 2) =
          some ["0000  2001      movs r0, #1".toList])) = true := by
    decide +kernel
  obtain ⟨a, ha, htest⟩ := exists_ok_of_any heval
  refine ⟨a, ha, of_decide_eq_true htest, ?_⟩
  rw [report, ha]
  simp only [image_eq, imageBody]
  rw [imageRows_of_neg (by decide), List.flatMap_nil, List.append_nil]

end ThumbAssembler
