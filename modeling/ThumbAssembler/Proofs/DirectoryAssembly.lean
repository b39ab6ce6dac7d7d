/-
**Assembling a directory.**

The source files of a directory are assembled one after the other, each into an image beside it.  A
source that is rejected has its image left as it was, and neither stops nor changes what becomes of
the others: the images depend on the sources alone, and not on the order in which they are taken.

Main definitions:

* `ThumbAssembler.imageOf` — the image of the bytes of a source file, if they are assembled;
* `ThumbAssembler.Readable` — the bytes of a text with short numerals;
* `ThumbAssembler.Disk.Assemblable` — a directory whose sources can be read and images written;
* `ThumbAssembler.Disk.AssembledTo` — a disk after some sources of a directory were assembled;
* `ThumbAssembler.exitFor` — the exit code for some sources of a directory;
* `ThumbAssembler.AssembleCommand.Asks` — a command asks for a target and a row width.

Main results:

* `ThumbAssembler.ends_assembleFile` — a source file is assembled, or leaves the disk as it is;
* `ThumbAssembler.ends_assembleFiles` — **any source files in any order**;
* `ThumbAssembler.Disk.AssembledTo.node?_eq` — the order does not matter;
* `ThumbAssembler.run_assemble_directory` — a run of the program on a directory.
-/

import Mathlib
import ThumbAssembler.Proofs.ActionRuns
import ThumbAssembler.Proofs.ProgramViews
import ThumbAssembler.Proofs.SourceDirectory

set_option autoImplicit false

namespace ThumbAssembler

/-! ### Sources that are assembled -/

/-- The image of the bytes of a source file: that of their text with its line breaks made line
feeds, if the text is assembled. -/
def imageOf (target : Target) (width : RowWidth) (bytes : List UInt8) : Option (List UInt8) :=
  match Utf8.decode bytes with
  | .error _ => none
  | .ok t =>
      match report Thumb.instructionSet target width t.normalizeBreaks with
      | .ok (.success output _ _) => some (Utf8.encode output)
      | _ => none

/-- The bytes are those of a text whose numerals keep within the digit limit, and so do the
distances of its branches. -/
def Readable (target : Target) (bytes : List UInt8) : Prop :=
  ∃ t, Utf8.decode bytes = .ok t ∧
    (∀ raw ∈ t.normalizeBreaks.lines, raw.code.WithinDigitLimit) ∧
    target.bias.natAbs + t.normalizeBreaks.length < printLimit

/-- Short lines have short numerals. -/
theorem readable_of_short {target : Target} {bytes : List UInt8} {t : Text}
    (ht : Utf8.decode bytes = .ok t)
    (hshort : ∀ raw ∈ t.normalizeBreaks.lines, 2 * raw.code.length ≤ maxDigits)
    (hbias : target.bias.natAbs + t.normalizeBreaks.length < printLimit) :
    Readable target bytes :=
  ⟨t, ht, fun raw hraw => Text.withinDigitLimit_of_length_le (hshort raw hraw), hbias⟩

/-- **A source that can be read is assembled or rejected**, and its listing can be printed. -/
theorem Readable.report_cases {target : Target} {bytes : List UInt8} (h : Readable target bytes)
    (width : RowWidth) :
    ∃ t r, Utf8.decode bytes = .ok t ∧
      report Thumb.instructionSet target width t.normalizeBreaks = .ok r ∧
      ((∃ d, r = .failure d ∧ imageOf target width bytes = none) ∨
        ∃ output program words, r = .success output program words ∧
          imageOf target width bytes = some (Utf8.encode output) ∧
          ∃ lines, listing program words = .ok lines) := by
  obtain ⟨t, ht, hlimit, hbias⟩ := h
  cases hassemble : assemble Thumb.instructionSet target.bias t.normalizeBreaks with
  | ok a =>
      have hreport : report Thumb.instructionSet target width t.normalizeBreaks =
          .ok (.success (image target.header (chosenWidth target width) a.words) a.program
            a.words) := by
        rw [report, hassemble]
      obtain ⟨lines, hlines, -⟩ := exists_listing hassemble
      refine ⟨t, _, ht, hreport, Or.inr ⟨_, _, _, rfl, ?_, lines, hlines⟩⟩
      simp only [imageOf, ht, hreport]
  | error e =>
      obtain ⟨r, rfl, -⟩ :=
        rejects_of_assemble_eq_error Thumb.instructionSet_sound hlimit hbias hassemble
      have hreport : report Thumb.instructionSet target width t.normalizeBreaks =
          .ok (.failure r.diagnostic) := by
        rw [report, hassemble]
      refine ⟨t, _, ht, hreport, Or.inl ⟨_, rfl, ?_⟩⟩
      simp only [imageOf, ht, hreport]

/-! ### One source file -/

/-- The location is free for a file: nothing is there, or a file that can be replaced. -/
def Disk.IsFree (d : Disk) (l : Location) : Prop :=
  d.node? l = none ∨ ∃ old, d.node? l = some (.file old)

theorem Disk.write_eq_put {d : Disk} {p : Path} {l : Location} (hl : d.locate p = .ok l)
    (hfree : d.IsFree l) (bytes : List UInt8) : d.write p bytes = .ok (d.put l (.file bytes)) := by
  rw [write, hl, ok_bind]
  rcases hfree with hnone | ⟨old, hold⟩
  · rw [if_neg (by simp [hnone]), updateAt, hnone]
  · rw [if_neg (by simp [hold]), updateAt, hold]

theorem Disk.node?_put_self {d : Disk} {l : Location} (hl : l ≠ []) (n : Node) :
    (d.put l n).node? l = some n := by
  rw [node?, if_neg (by simpa using hl)]
  exact Assoc.get?_put_self l n d.nodes

/-- Writing an image and recording it. -/
theorem ends_writeImage {d : Disk} {w : Workspace} (hw : w.Holds d) {path : Path} {l : Location}
    (hl : d.locate path = .ok l) (hfree : d.IsFree l) (content : List UInt8) (r : Record) :
    (do
      Action.change fun d => d.write path content
      Action.log r
      return exitOk : Action Int).Ends w fun code w' =>
        code = exitOk ∧ w'.Holds (d.put l (.file content)) := by
  have hwrite : w.disk.write path content = .ok (d.put l (.file content)) := by
    rw [hw.disk]
    exact Disk.write_eq_put hl hfree content
  refine (Action.ends_change (P := fun _ w' => w'.Holds (d.put l (.file content))) hwrite
    ⟨rfl, hw.journal⟩).bind fun _ w' hw' => ?_
  refine (Action.ends_modify (P := fun _ w' => w'.Holds (d.put l (.file content)))
    (hw'.log r)).bind fun _ w' hw' => ?_
  exact Action.Ends.pure ⟨rfl, hw'⟩

/-- A source file is assembled into the image, or is rejected and leaves the disk as it is. -/
theorem ends_assembleFile {d : Disk} {w : Workspace} (hw : w.Holds d) {c : AssembleCommand}
    {target : Target} (htarget : c.target = some target) (width : RowWidth) {bytes : List UInt8}
    (hbytes : Readable target bytes) (source : Path) {path : Path} {l : Location}
    (hl : d.locate path = .ok l) (hfree : d.IsFree l) :
    (assembleFile c width source bytes (some path)).Ends w fun code w' =>
      imageOf target width bytes = none ∧ code = exitRejected ∧ w'.Holds d ∨
      ∃ content, imageOf target width bytes = some content ∧ code = exitOk ∧
        w'.Holds (d.put l (.file content)) := by
  obtain ⟨t, r, ht, hreport, hcases⟩ := hbytes.report_cases width
  unfold assembleFile decodeSource
  rw [ht, htarget]
  refine (Action.Ends.pure (P := fun a w' => a = t.normalizeBreaks ∧ w'.Holds d) ⟨rfl, hw⟩).bind ?_
  rintro _ w ⟨rfl, hw⟩
  refine (Action.Ends.pure (P := fun a w' => target = a ∧ w'.Holds d) ⟨rfl, hw⟩).bind ?_
  rintro _ w ⟨rfl, hw⟩
  refine (ends_assembleLogged (P := fun x w' => x = r ∧ w'.Holds d) hreport
    ⟨rfl, hw.logAll _⟩).bind ?_
  rintro _ w ⟨rfl, hw⟩
  rcases hcases with ⟨e, rfl, himage⟩ | ⟨output, program, words, rfl, himage, lines, hlines⟩
  · -- a diagnostic is printed
    refine (Action.ends_modify (P := fun _ w' => w'.Holds d) ⟨hw.disk, hw.journal⟩).bind ?_
    exact fun _ w' hw' => Action.Ends.pure (Or.inl ⟨himage, rfl, hw'⟩)
  · -- the listing is printed if it is asked for, and the image is written
    simp only
    split
    · refine (Action.ends_compute (P := fun _ w' => w'.Holds d) hlines hw).bind fun _ w' hw' => ?_
      refine (Action.ends_modify (P := fun _ w' => w'.Holds d)
        ⟨hw'.disk, hw'.journal⟩).bind fun _ w' hw' => ?_
      exact (ends_writeImage hw' hl hfree _ _).imp fun _ _ h => Or.inr ⟨_, himage, h⟩
    · exact (ends_writeImage hw hl hfree _ _).imp fun _ _ h => Or.inr ⟨_, himage, h⟩

/-! ### Several source files -/

namespace Disk

/-- A directory whose entries can be looked at, whose sources can be read, and whose images can be
written. -/
structure Assemblable (d : Disk) (target : Target) (folder : Path) (l : Location) : Prop where
  isFolder : d.IsFolder folder l
  entries : ∀ name ∈ d.names l, IsSourceName name → folder.Takes name
  readable : ∀ name bytes, d.IsSource l name bytes → Readable target bytes
  /-- At the place of an image there is a file or nothing.  Directories are left out, as no image
  can be written there, and so are devices, which lose or refuse what is written to them. -/
  images : ∀ name bytes, d.IsSource l name bytes →
    folder.Takes (imageName name) ∧ d.IsFree (l ++ [imageName name])

/-- The image of the source of a name in a directory, if it is assembled. -/
def imageIn (d : Disk) (target : Target) (width : RowWidth) (l : Location) (name : Text) :
    Option (List UInt8) :=
  ((d.node? (l ++ [name])).bind Node.bytes?).bind (imageOf target width)

variable {d d' : Disk} {target : Target} {width : RowWidth} {folder : Path} {l : Location}

theorem IsSource.imageIn_eq {name : Text} {bytes : List UInt8} (h : d.IsSource l name bytes) :
    d.imageIn target width l name = imageOf target width bytes := by
  rw [imageIn, h.node]
  rfl

/-- A location is that of an image that the sources of some names have, or of none. -/
theorem isImage_or (d : Disk) (target : Target) (width : RowWidth) (l : Location)
    (names : List Text) (m : Location) :
    (∃ name ∈ names, ∃ content, m = l ++ [imageName name] ∧
      d.imageIn target width l name = some content) ∨
    ∀ name ∈ names, m = l ++ [imageName name] → d.imageIn target width l name = none := by
  by_cases h : ∃ name ∈ names, ∃ content, m = l ++ [imageName name] ∧
      d.imageIn target width l name = some content
  · exact Or.inl h
  · refine Or.inr fun name hname heq => Option.eq_none_iff_forall_ne_some.2 ?_
    exact fun content hcontent => h ⟨name, hname, content, heq, hcontent⟩

/-- A disk after the sources of some names in a directory were assembled, in some order. -/
structure AssembledTo (d : Disk) (target : Target) (width : RowWidth) (l : Location)
    (names : List Text) (d' : Disk) : Prop where
  home : d'.home = d.home
  sources : ∀ name ∈ names, ∃ bytes, d.IsSource l name bytes
  written : ∀ name ∈ names, ∀ content, d.imageIn target width l name = some content →
    d'.node? (l ++ [imageName name]) = some (.file content)
  others : ∀ m, (∀ name ∈ names, m = l ++ [imageName name] → d.imageIn target width l name = none) →
    d'.node? m = d.node? m

namespace AssembledTo

variable {names : List Text} {name : Text}

theorem start (d : Disk) (target : Target) (width : RowWidth) (l : Location) :
    d.AssembledTo target width l [] d :=
  ⟨rfl, by simp, by simp, fun _ _ => rfl⟩

/-- A source that is rejected changes nothing. -/
theorem reject (h : d.AssembledTo target width l names d') {bytes : List UInt8}
    (hname : d.IsSource l name bytes) (himage : imageOf target width bytes = none) :
    d.AssembledTo target width l (name :: names) d' where
  home := h.home
  sources := List.forall_mem_cons.2 ⟨⟨bytes, hname⟩, h.sources⟩
  written := by
    refine List.forall_mem_cons.2 ⟨?_, h.written⟩
    intro content hcontent
    rw [hname.imageIn_eq, himage] at hcontent
    cases hcontent
  others := fun m hm => h.others m (List.forall_mem_cons.1 hm).2

/-- A source that is assembled changes its image. -/
theorem write (h : d.AssembledTo target width l names d') {bytes content : List UInt8}
    (hname : d.IsSource l name bytes) (himage : imageOf target width bytes = some content) :
    d.AssembledTo target width l (name :: names)
      (d'.put (l ++ [imageName name]) (.file content)) where
  home := h.home
  sources := List.forall_mem_cons.2 ⟨⟨bytes, hname⟩, h.sources⟩
  written := by
    intro name' hname' content' hcontent'
    by_cases heq : imageName name = imageName name'
    · -- the same image belongs to the same source
      obtain ⟨bytes', hsource'⟩ := (List.forall_mem_cons.2 ⟨⟨bytes, hname⟩, h.sources⟩ :
        ∀ n ∈ name :: names, ∃ bytes, d.IsSource l n bytes) name' hname'
      obtain rfl := imageName_injective hname.suffix hsource'.suffix heq
      rw [hname.imageIn_eq, himage] at hcontent'
      rw [Option.some_inj.1 hcontent']
      exact node?_put_self (by simp) _
    · rw [node?_put_of_ne (by simpa using heq)]
      rcases List.mem_cons.1 hname' with rfl | hname'
      · exact absurd rfl heq
      · exact h.written name' hname' content' hcontent'
  others := by
    intro m hm
    obtain ⟨hm₀, hm⟩ := List.forall_mem_cons.1 hm
    have hne : l ++ [imageName name] ≠ m := by
      intro heq
      have hnone := hm₀ heq.symm
      rw [hname.imageIn_eq, himage] at hnone
      cases hnone
    rw [node?_put_of_ne hne]
    exact h.others m hm

/-- No image is a source, so the sources are as they were. -/
theorem node?_source (h : d.AssembledTo target width l names d') (hname : IsSourceName name) :
    d'.node? (l ++ [name]) = d.node? (l ++ [name]) := by
  refine h.others _ fun name' _ heq => ?_
  have heq : name = imageName name' := by simpa using heq
  exact absurd heq (hname.ne_imageName name')

/-- A location that could take an image still can. -/
theorem isFree (h : d.AssembledTo target width l names d') {m : Location} (hm : d.IsFree m) :
    d'.IsFree m := by
  rcases isImage_or d target width l names m with ⟨name, hname, content, rfl, hcontent⟩ | hkept
  · exact Or.inr ⟨content, h.written name hname content hcontent⟩
  · rw [IsFree, h.others m hkept]
    exact hm

/-- Images take the place of no directory. -/
theorem keepsDirectories (h : d.AssembledTo target width l names d')
    (hd : d.Assemblable target folder l) : KeepsDirectories d d' where
  home := h.home
  directories := by
    intro m hm
    rw [h.others m fun name hname heq => ?_]
    · exact hm
    · obtain ⟨bytes, hsource⟩ := h.sources name hname
      rcases (hd.images name bytes hsource).2 with hnone | ⟨old, hold⟩
      · rw [heq, hnone] at hm
        cases hm
      · rw [heq, hold] at hm
        cases hm

/-- **The order of the sources does not matter.** -/
theorem node?_eq (h : d.AssembledTo target width l names d') {names' : List Text} {d'' : Disk}
    (h' : d.AssembledTo target width l names' d'') (hsame : ∀ name, name ∈ names ↔ name ∈ names')
    (m : Location) : d''.node? m = d'.node? m := by
  rcases isImage_or d target width l names m with ⟨name, hname, content, rfl, hcontent⟩ | hkept
  · rw [h.written name hname content hcontent,
      h'.written name ((hsame name).1 hname) content hcontent]
  · rw [h.others m hkept, h'.others m fun name hname => hkept name ((hsame name).2 hname)]

end AssembledTo

end Disk

/-- The exit code for the sources of some names: that of a rejection if one of them is rejected. -/
def exitFor (d : Disk) (target : Target) (width : RowWidth) (l : Location) (status : Int)
    (names : List Text) : Int :=
  if names.all fun name => (d.imageIn target width l name).isSome then status else exitRejected

section Files

variable {d : Disk} {target : Target} {width : RowWidth} {folder : Path} {l : Location}
  {c : AssembleCommand}

/-- One more source file is assembled, or is rejected and leaves the disk as it is. -/
theorem ends_assembleFile_child (hd : d.Assemblable target folder l)
    (htarget : c.target = some target) {names : List Text} {d' : Disk} {w : Workspace}
    (h : d.AssembledTo target width l names d') (hw : w.Holds d') {name : Text}
    {bytes : List UInt8} (hname : d.IsSource l name bytes) :
    (assembleFile c width (folder.child name) bytes
      (some ((folder.child name).withSuffix imageSuffix))).Ends w fun code w' =>
        (code = if (d.imageIn target width l name).isSome then exitOk else exitRejected) ∧
        ∃ d'', w'.Holds d'' ∧ d.AssembledTo target width l (name :: names) d'' := by
  obtain ⟨htakes, hfree⟩ := hd.images name bytes hname
  have hfolder := hd.isFolder.mono (h.keepsDirectories hd)
  have hlocate := (Disk.locate_child_eq_ok_iff hfolder).2 ⟨htakes, rfl⟩
  rw [step_of_getLast? (getLast?_imageName name) (by decide)] at hlocate
  rw [Path.withSuffix_child, hname.imageIn_eq]
  refine (ends_assembleFile hw htarget width (hd.readable name bytes hname) _ hlocate
    (h.isFree hfree)).imp ?_
  rintro code w' (⟨himage, rfl, hw'⟩ | ⟨content, himage, rfl, hw'⟩)
  · exact ⟨by rw [himage]; rfl, d', hw', h.reject hname himage⟩
  · exact ⟨by rw [himage]; rfl, _, hw', h.write hname himage⟩

/-- **Any source files in any order.** -/
theorem ends_assembleFiles (hd : d.Assemblable target folder l) (htarget : c.target = some target)
    {names : List Text} (hnames : ∀ name ∈ names, ∃ bytes, d.IsSource l name bytes)
    {done : List Text} {d' : Disk} {w : Workspace} (h : d.AssembledTo target width l done d')
    (hw : w.Holds d') (status : Int) :
    (assembleFiles c width status (names.map folder.child)).Ends w fun code w' =>
      code = exitFor d target width l status names ∧
      ∃ d'', w'.Holds d'' ∧ d.AssembledTo target width l (names.reverse ++ done) d'' := by
  -- the induction is on the files that remain; what was done so far is the invariant
  induction names generalizing done d' w status with
  | nil => exact Action.Ends.pure ⟨rfl, d', hw, h⟩
  | cons name names ih =>
      obtain ⟨⟨bytes, hname⟩, hnames⟩ := List.forall_mem_cons.1 hnames
      have hfolder := hd.isFolder.mono (h.keepsDirectories hd)
      have hfile : w.disk.file? (folder.child name) = .ok (some bytes) := by
        rw [hw.disk, Disk.file?_child hfolder
          (hd.entries name (Disk.mem_names hname.node) hname.suffix) hname.suffix,
          h.node?_source hname.suffix, hname.node]
        rfl
      rw [List.map_cons, assembleFiles]
      refine (Action.ends_ask (P := fun a w' => a = some bytes ∧ w' = w) hfile ⟨rfl, rfl⟩).bind ?_
      rintro _ _ ⟨rfl, rfl⟩
      refine (ends_assembleFile_child hd htarget h hw hname).bind ?_
      rintro code w' ⟨hcode, d'', hw', h'⟩
      refine (ih hnames h' hw' _).imp fun code' w'' h'' => ?_
      obtain ⟨hcode', d₀, hw'', h''⟩ := h''
      refine ⟨?_, d₀, hw'', by simpa using h''⟩
      rw [hcode', hcode]
      cases himage : (d.imageIn target width l name).isSome <;>
        simp [exitFor, himage, exitOk, exitRejected]

/-- All sources of a directory are assembled. -/
theorem ends_assembleDirectory (hd : d.Assemblable target folder l)
    (htarget : c.target = some target) {w : Workspace} (hw : w.Holds d) :
    (assembleDirectory c width folder).Ends w fun code w' =>
      code = exitFor d target width l exitOk (d.sourceNames l) ∧
      ∃ d', w'.Holds d' ∧ d.AssembledTo target width l (d.sourceNames l).reverse d' := by
  have hfiles : sourceFiles w.disk folder = .ok ((d.sourceNames l).map folder.child) := by
    rw [hw.disk]
    exact Disk.sourceFiles_eq hd.isFolder hd.entries
  have hnames : ∀ name ∈ d.sourceNames l, ∃ bytes, d.IsSource l name bytes :=
    fun _ => Disk.mem_sourceNames_iff.1
  have hrun := ends_assembleFiles hd htarget hnames (Disk.AssembledTo.start d target width l) hw
    exitOk
  rw [List.append_nil] at hrun
  unfold assembleDirectory
  refine (Action.ends_ask (P := fun a w' => a = (d.sourceNames l).map folder.child ∧ w' = w) hfiles
    ⟨rfl, rfl⟩).bind ?_
  rintro _ _ ⟨rfl, rfl⟩
  cases hsources : d.sourceNames l with
  | nil =>
      -- without sources there is a warning
      refine (Action.ends_modify (P := fun _ w' => w'.Holds d) (hw.log _)).bind fun _ w' hw' => ?_
      exact Action.Ends.pure ⟨rfl, d, hw', Disk.AssembledTo.start d target width l⟩
  | cons name names =>
      rw [hsources] at hrun
      exact hrun

end Files

/-! ### The program -/

/-- The command asks for a target, a row width of at least one or the usual one, and no output path;
a listing may be asked for or not. -/
structure AssembleCommand.Asks (c : AssembleCommand) (target : Target) (width : RowWidth) :
    Prop where
  target : c.target = some target
  width : c.rowWidth = .absent ∧ width = none ∨ ∃ n, 1 ≤ n ∧ c.rowWidth = .given n ∧ width = some n
  output : c.outputPath = none

theorem Disk.IsFolder.isDirectory {d : Disk} {folder : Path} {l : Location}
    (h : d.IsFolder folder l) : d.isDirectory folder = .ok true := by
  rw [Disk.isDirectory, nodeAt?, h.located]
  simp only [h.directory]
  rfl

theorem ends_runAssemble {d : Disk} {target : Target} {width : RowWidth} {c : AssembleCommand}
    {l : Location} (hd : d.Assemblable target (Path.ofText c.input) l) (hc : c.Asks target width)
    {w : Workspace} (hw : w.Holds d) :
    (runAssemble c).Ends w fun code w' =>
      code = exitFor d target width l exitOk (d.sourceNames l) ∧
      ∃ d', w'.Holds d' ∧ d.AssembledTo target width l (d.sourceNames l).reverse d' := by
  have hdirectory : w.disk.isDirectory (Path.ofText c.input) = .ok true := by
    rw [hw.disk]
    exact hd.isFolder.isDirectory
  have hpath : (assemblePath c width).Ends w fun code w' =>
      code = exitFor d target width l exitOk (d.sourceNames l) ∧
      ∃ d', w'.Holds d' ∧ d.AssembledTo target width l (d.sourceNames l).reverse d' := by
    unfold assemblePath
    refine (Action.ends_ask (P := fun a w' => a = true ∧ w' = w) hdirectory ⟨rfl, rfl⟩).bind ?_
    rintro _ _ ⟨rfl, rfl⟩
    rw [if_pos rfl, if_neg (by rw [hc.output]; simp)]
    exact ends_assembleDirectory hd hc.target hw
  unfold runAssemble
  rcases hc.width with ⟨hwidth, rfl⟩ | ⟨n, hn, hwidth, rfl⟩
  · rw [hwidth]
    exact hpath
  · rw [hwidth]
    simp only
    rw [if_neg (by omega)]
    exact hpath

theorem exitFor_eq_exitOk_iff {d : Disk} {target : Target} {width : RowWidth} {l : Location}
    {names : List Text} : exitFor d target width l exitOk names = exitOk ↔
      ∀ name ∈ names, (d.imageIn target width l name).isSome = true := by
  unfold exitFor
  split
  · rename_i hall
    exact iff_of_true rfl (List.all_eq_true.1 hall)
  · rename_i hall
    exact iff_of_false (by decide) fun h => hall (List.all_eq_true.2 h)

/-- **Assembling a directory.**  The program ends with success exactly if every source of the
directory is assembled, and else with the code of a rejection.  The image beside every source that
is assembled holds what the text of that source is assembled to; the image beside every other source
is as it was, and so is everything else on the disk.  Taking the sources in any other order leads to
the same code and the same disk. -/
theorem run_assemble_directory {args : List Text} {r : Request} {c : AssembleCommand}
    {target : Target} {width : RowWidth} {w : Workspace} {l : Location}
    (hargs : parseRequest args = .ok r) (hcommand : r.command = some (.assemble c))
    (hlog : r.logFile = .absent) (hjournal : w.journal.Fileless) (hc : c.Asks target width)
    (hd : w.disk.Assemblable target (Path.ofText c.input) l) (input : Text) :
    ∃ code w', run args input w = (.exit code, w') ∧
      (code = exitOk ∨ code = exitRejected) ∧
      (code = exitOk ↔ ∀ name bytes, w.disk.IsSource l name bytes →
        (imageOf target width bytes).isSome = true) ∧
      (∀ name bytes content, w.disk.IsSource l name bytes →
        imageOf target width bytes = some content →
        w'.disk.node? (l ++ [imageName name]) = some (.file content)) ∧
      (∀ name bytes, w.disk.IsSource l name bytes → imageOf target width bytes = none →
        w'.disk.node? (l ++ [imageName name]) = w.disk.node? (l ++ [imageName name])) ∧
      (∀ m, (∀ name bytes, w.disk.IsSource l name bytes → m ≠ l ++ [imageName name]) →
        w'.disk.node? m = w.disk.node? m) ∧
      ∀ names : List Text, (∀ name, name ∈ names ↔ ∃ bytes, w.disk.IsSource l name bytes) →
        ∀ v : Workspace, v.disk = w.disk → v.journal.Fileless →
          (assembleFiles c width exitOk (names.map (Path.ofText c.input).child)).Ends v
            fun code' v' => code' = code ∧ ∀ m, v'.disk.node? m = w'.disk.node? m := by
  have hw : w.Holds w.disk := ⟨rfl, hjournal⟩
  have hrequest : (runRequest r (.assemble c) input).Ends w fun code w' =>
      code = exitFor w.disk target width l exitOk (w.disk.sourceNames l) ∧
      ∃ d', w'.Holds d' ∧
        w.disk.AssembledTo target width l (w.disk.sourceNames l).reverse d' := by
    refine (ends_startLogging hw hlog _).bind fun _ w' hw' => ?_
    exact ends_reportingFileErrors (ends_runAssemble hd hc hw')
  obtain ⟨code, w', hrun, hcode, d', hw', hassembled⟩ := hrequest
  have hmem (name : Text) : name ∈ (w.disk.sourceNames l).reverse ↔
      ∃ bytes, w.disk.IsSource l name bytes := by
    rw [List.mem_reverse, Disk.mem_sourceNames_iff]
  have hiff : code = exitOk ↔ ∀ name bytes, w.disk.IsSource l name bytes →
      (imageOf target width bytes).isSome = true := by
    rw [hcode, exitFor_eq_exitOk_iff]
    constructor
    · intro h name bytes hname
      rw [← hname.imageIn_eq]
      exact h name (Disk.mem_sourceNames_iff.2 ⟨bytes, hname⟩)
    · intro h name hname
      obtain ⟨bytes, hname⟩ := Disk.mem_sourceNames_iff.1 hname
      rw [hname.imageIn_eq]
      exact h name bytes hname
  refine ⟨code, w', ?_, ?_, hiff, ?_, ?_, ?_, ?_⟩
  · rw [run, hargs]
    simp only [hcommand, hrun]
  · rw [hcode, exitFor]
    split
    · exact Or.inl rfl
    · exact Or.inr rfl
  · intro name bytes content hname himage
    rw [hw'.disk]
    exact hassembled.written name ((hmem name).2 ⟨bytes, hname⟩) content
      (hname.imageIn_eq.trans himage)
  · -- the image belongs to no other source
    intro name bytes hname himage
    rw [hw'.disk]
    refine hassembled.others _ fun name' hname' heq => ?_
    obtain ⟨bytes', hsource'⟩ := (hmem name').1 hname'
    have heq : imageName name = imageName name' := by simpa using heq
    obtain rfl := imageName_injective hname.suffix hsource'.suffix heq
    exact hname.imageIn_eq.trans himage
  · intro m hm
    rw [hw'.disk]
    refine hassembled.others m fun name hname heq => ?_
    obtain ⟨bytes, hsource⟩ := (hmem name).1 hname
    exact absurd heq (hm name bytes hsource)
  · intro names hnames v hv hv'
    refine (ends_assembleFiles hd hc.target (fun name hname => (hnames name).1 hname)
      (Disk.AssembledTo.start _ target width l) ⟨hv, hv'⟩ exitOk).imp ?_
    rintro code' v' ⟨rfl, d'', hholds, hassembled'⟩
    refine ⟨?_, fun m => ?_⟩
    · have hsame : (names.all fun name => (w.disk.imageIn target width l name).isSome) =
          (w.disk.sourceNames l).all fun name => (w.disk.imageIn target width l name).isSome := by
        rw [Bool.eq_iff_iff, List.all_eq_true, List.all_eq_true]
        simp only [hnames, Disk.mem_sourceNames_iff]
      rw [hcode, exitFor, exitFor, hsame]
    · rw [hholds.disk, hw'.disk]
      refine hassembled.node?_eq hassembled' (fun name => ?_) m
      rw [hmem, List.append_nil, List.mem_reverse, hnames]

/-- A directory with a source that is assembled, a source that is rejected, an old image of that one
and a file of another sort. -/
def mixedDisk : Disk where
  home := []
  nodes :=
    [(["work".toList], .directory),
     (["work".toList, "good.s".toList], .file (Utf8.encode "movs r0, #1\r\nb top\rtop:".toList)),
     (["work".toList, "bad.s".toList], .file (Utf8.encode "movs r0 #1".toList)),
     (["work".toList, "bad.bin".toList], .file [1, 2, 3]),
     (["work".toList, "good.txt".toList], .file [4])]

theorem mixedDisk_sources {name : Text} {bytes : List UInt8}
    (h : mixedDisk.IsSource ["work".toList] name bytes) :
    name = "good.s".toList ∧ bytes = Utf8.encode "movs r0, #1\r\nb top\rtop:".toList ∨
      name = "bad.s".toList ∧ bytes = Utf8.encode "movs r0 #1".toList := by
  have hname : name ∈ ["good.s".toList, "bad.s".toList, "bad.bin".toList, "good.txt".toList] :=
    Disk.mem_names h.node
  have hsuffix := h.suffix
  have hnode := h.node
  simp only [List.mem_cons, List.not_mem_nil, or_false] at hname
  rcases hname with rfl | rfl | rfl | rfl
  · exact Or.inl ⟨rfl, (Node.file.inj (Option.some_inj.1 hnode)).symm⟩
  · exact Or.inr ⟨rfl, (Node.file.inj (Option.some_inj.1 hnode)).symm⟩
  · exact absurd hsuffix (by decide)
  · exact absurd hsuffix (by decide)

theorem mixedDisk_assemblable :
    mixedDisk.Assemblable Target.armv6m (Path.ofText "work".toList) ["work".toList] where
  isFolder := ⟨by decide +kernel, by decide +kernel⟩
  entries := by
    have hnames : ∀ name ∈ mixedDisk.names ["work".toList],
        (Utf8.encode name).length ≤ maxNameBytes ∧
        (Utf8.encode ((Path.ofText "work".toList).child name).render).length < pathByteLimit ∧
        '\x00' ∉ ((Path.ofText "work".toList).child name).render := by decide +kernel
    exact fun name hname _ => ⟨(hnames name hname).1, (hnames name hname).2.1,
      (hnames name hname).2.2⟩
  readable := by
    intro name bytes h
    rcases mixedDisk_sources h with ⟨-, rfl⟩ | ⟨-, rfl⟩
    · exact readable_of_short (t := "movs r0, #1\r\nb top\rtop:".toList) (by decide +kernel)
        (by decide +kernel) (by decide +kernel)
    · exact readable_of_short (t := "movs r0 #1".toList) (by decide +kernel) (by decide +kernel)
        (by decide +kernel)
  images := by
    intro name bytes h
    rcases mixedDisk_sources h with ⟨rfl, -⟩ | ⟨rfl, -⟩
    · exact ⟨⟨by decide +kernel, by decide +kernel, by decide +kernel⟩, Or.inl (by decide +kernel)⟩
    · exact ⟨⟨by decide +kernel, by decide +kernel, by decide +kernel⟩,
        Or.inr ⟨[1, 2, 3], by decide +kernel⟩⟩

/-- The good source gets an image, with two words in a row; the old image of the bad source and the
files that are no images stay; and the exit code is that of a rejection. -/
theorem run_assemble_directory_mixed :
    ∃ w', run ["assemble".toList, "work".toList, "--target".toList, "armv6m".toList,
        "--per-line".toList, "2".toList, "--listing".toList] [] { disk := mixedDisk } =
          (.exit exitRejected, w') ∧
      w'.disk.node? ["work".toList, "good.bin".toList] =
        some (.file (Utf8.encode "v2.0 raw\n2001 e7ff".toList)) ∧
      w'.disk.node? ["work".toList, "bad.bin".toList] = some (.file [1, 2, 3]) ∧
      w'.disk.node? ["work".toList, "good.txt".toList] = some (.file [4]) := by
  have hgood : mixedDisk.IsSource ["work".toList] "good.s".toList
      (Utf8.encode "movs r0, #1\r\nb top\rtop:".toList) := ⟨by decide +kernel, by decide +kernel⟩
  have hbad : mixedDisk.IsSource ["work".toList] "bad.s".toList
      (Utf8.encode "movs r0 #1".toList) := ⟨by decide +kernel, by decide +kernel⟩
  have himage : imageOf Target.armv6m (some 2)
      (Utf8.encode "movs r0, #1\r\nb top\rtop:".toList) =
        some (Utf8.encode "v2.0 raw\n2001 e7ff".toList) := by decide +kernel
  have hnone : imageOf Target.armv6m (some 2) (Utf8.encode "movs r0 #1".toList) = none := by
    decide +kernel
  have hargs : parseRequest ["assemble".toList, "work".toList, "--target".toList,
      "armv6m".toList, "--per-line".toList, "2".toList, "--listing".toList] =
        .ok { command := some (.assemble { input := "work".toList, target := some Target.armv6m,
                                           rowWidth := .given 2, listing := true }) } := rfl
  obtain ⟨code, w', hrun, hcodes, hiff, hwritten, hkept, hothers, -⟩ :=
    run_assemble_directory (w := { disk := mixedDisk }) hargs rfl rfl Journal.fileless_empty
      ⟨rfl, Or.inr ⟨2, by decide, rfl, rfl⟩, rfl⟩ mixedDisk_assemblable []
  have hcode : code = exitRejected := by
    refine hcodes.resolve_left fun hok => ?_
    have hsome := hiff.1 hok _ _ hbad
    rw [hnone] at hsome
    cases hsome
  have hold : mixedDisk.node? ["work".toList, "bad.bin".toList] = some (.file [1, 2, 3]) := by
    decide +kernel
  have hother : mixedDisk.node? ["work".toList, "good.txt".toList] = some (.file [4]) := by
    decide +kernel
  refine ⟨w', hcode ▸ hrun, hwritten _ _ _ hgood himage, (hkept _ _ hbad hnone).trans hold, ?_⟩
  refine (hothers _ fun name bytes hname => ?_).trans hother
  rcases mixedDisk_sources hname with ⟨rfl, -⟩ | ⟨rfl, -⟩ <;> decide +kernel

end ThumbAssembler
