/-
**Directories of sources.**

A source file and its image stand side by side in a directory, under names that differ in their
endings only.  Different sources have different images, and no image is a source; so writing images
touches no source.  Writing files also leaves the directories where they are, so that a path leads
to the same place before and after.

Main definitions:

* `ThumbAssembler.IsSourceName`, `ThumbAssembler.imageName` — the names of sources and of their
  images;
* `ThumbAssembler.Path.Takes` — a directory can be asked for a name;
* `ThumbAssembler.Disk.KeepsDirectories` — no directory of one disk is missing from another;
* `ThumbAssembler.Disk.IsFolder` — a path leads to a directory;
* `ThumbAssembler.Disk.IsSource` — a source file of a directory, with its bytes;
* `ThumbAssembler.Disk.sourceNames` — the names of the sources of a directory.

Main results:

* `ThumbAssembler.imageName_injective`, `ThumbAssembler.IsSourceName.ne_imageName` — **images have
  names of their own**;
* `ThumbAssembler.Disk.locate_child_eq_ok_iff` — where a name in a directory leads to;
* `ThumbAssembler.Disk.KeepsDirectories.locate` — a path keeps leading to the same place;
* `ThumbAssembler.Disk.sourceFiles_eq` — **the source files of a directory are found**.
-/

import Mathlib
import ThumbAssembler.CommandLine.Run
import ThumbAssembler.Proofs.FirstFailure

set_option autoImplicit false

namespace ThumbAssembler

/-! ### Names of sources and images -/

/-- Nothing of a name is lost when it is split. -/
theorem splitSuffix_append (name : Text) : (splitSuffix name).1 ++ (splitSuffix name).2 = name := by
  unfold splitSuffix
  simp only
  split
  · rename_i h
    obtain ⟨-, -, hshorter⟩ := h
    have hsplit := List.takeWhile_append_dropWhile (p := fun c : Char => decide (c ≠ '.'))
      (l := name.reverse)
    generalize name.reverse.takeWhile (fun c => decide (c ≠ '.')) = ending at hsplit hshorter ⊢
    cases hrest : name.reverse.dropWhile (fun c : Char => decide (c ≠ '.')) with
    | nil =>
        have hlength := congrArg List.length hsplit
        rw [hrest, List.append_nil, List.length_reverse] at hlength
        simp only [List.length_reverse] at hshorter
        omega
    | cons c rest =>
        -- the rest starts with the full stop that ended the run
        have hc : c = '.' := by
          have hnot := List.head?_dropWhile_not (fun c : Char => decide (c ≠ '.')) name.reverse
          rw [hrest] at hnot
          simpa using hnot
        have hname : name = rest.reverse ++ '.' :: ending.reverse := by
          have hreverse := congrArg List.reverse hsplit
          rw [hrest, hc, List.reverse_reverse] at hreverse
          simpa using hreverse.symm
        have htake : name.take (name.length - ending.reverse.length - 1) = rest.reverse := by
          have hcount : name.length - ending.reverse.length - 1 = rest.reverse.length := by
            rw [hname]
            simp only [List.length_append, List.length_cons]
            omega
          rw [hcount, hname, List.take_left]
        rw [htake]
        exact hname.symm
  · exact List.append_nil name

/-- The name has the ending of source files. -/
def IsSourceName (name : Text) : Prop := (splitSuffix name).2 = sourceSuffix

instance (name : Text) : Decidable (IsSourceName name) :=
  inferInstanceAs (Decidable ((splitSuffix name).2 = sourceSuffix))

/-- The name of the image of a source. -/
def imageName (name : Text) : Text := (splitSuffix name).1 ++ imageSuffix

theorem IsSourceName.eq_append {name : Text} (h : IsSourceName name) :
    name = (splitSuffix name).1 ++ sourceSuffix := by
  conv_lhs => rw [← splitSuffix_append name, h]

theorem getLast?_imageName (name : Text) : (imageName name).getLast? = some 'n' := by
  rw [imageName, List.getLast?_append_of_ne_nil _ (by decide)]
  rfl

theorem IsSourceName.getLast? {name : Text} (h : IsSourceName name) :
    name.getLast? = some 's' := by
  rw [h.eq_append, List.getLast?_append_of_ne_nil _ (by decide)]
  rfl

/-- **No image is a source.** -/
theorem IsSourceName.ne_imageName {name : Text} (h : IsSourceName name) (name' : Text) :
    name ≠ imageName name' := by
  intro heq
  have hlast := h.getLast?
  rw [heq, getLast?_imageName] at hlast
  exact absurd hlast (by decide)

/-- **Different sources have different images.** -/
theorem imageName_injective {name name' : Text} (h : IsSourceName name) (h' : IsSourceName name')
    (heq : imageName name = imageName name') : name = name' := by
  rw [h.eq_append, h'.eq_append, List.append_cancel_right heq]

theorem step_of_getLast? {name : Text} {c : Char} (h : name.getLast? = some c) (hc : c ≠ '.')
    (l : Location) : Disk.step l name = l ++ [name] := by
  unfold Disk.step
  rw [if_neg]
  rintro rfl
  have hdot : parentPart.getLast? = some '.' := by decide
  exact hc (Option.some_inj.1 (h.symm.trans hdot))

namespace Path

theorem suffix_child (p : Path) (name : Text) : (p.child name).suffix = (splitSuffix name).2 := by
  simp [suffix, child, Path.name]

theorem withSuffix_child (p : Path) (name : Text) :
    (p.child name).withSuffix imageSuffix = p.child (imageName name) := by
  simp [withSuffix, child, Path.name, imageName]

/-- The name can be asked for in the directory that the path leads to: neither it nor the whole path
is too long, and there is no NUL in them. -/
structure Takes (p : Path) (name : Text) : Prop where
  nameBytes : (Utf8.encode name).length ≤ maxNameBytes
  pathBytes : (Utf8.encode (p.child name).render).length < pathByteLimit
  noNull : '\x00' ∉ (p.child name).render

end Path

/-! ### Paths in a directory -/

namespace Disk

variable {d d' : Disk}

theorem walk_concat {l l' : Location} {parts : List Text} (h : d.walk l parts = .ok l')
    (hl' : d.node? l' = some .directory) (name : Text) :
    d.walk l (parts ++ [name]) =
      if maxNameBytes < (Utf8.encode name).length then .error .nameTooLong
      else .ok (step l' name) := by
  induction parts generalizing l with
  | nil =>
      obtain rfl := Except.ok.inj h
      simp only [List.nil_append, walk, hl']
  | cons part parts ih =>
      rw [List.cons_append, walk]
      rw [walk] at h
      split at h
      · cases h
      · split at h
        · cases h
        · rename_i hlength
          rw [if_neg hlength]
          exact ih h
      · cases h

/-- No directory of the first disk is missing from the second, and the working directory is the
same. -/
structure KeepsDirectories (d d' : Disk) : Prop where
  home : d'.home = d.home
  directories : ∀ l, d.node? l = some .directory → d'.node? l = some .directory

theorem KeepsDirectories.walk (h : KeepsDirectories d d') {l l' : Location} {parts : List Text}
    (hwalk : d.walk l parts = .ok l') : d'.walk l parts = .ok l' := by
  induction parts generalizing l with
  | nil => exact hwalk
  | cons part parts ih =>
      rw [Disk.walk] at hwalk ⊢
      split at hwalk
      · cases hwalk
      · rename_i hdirectory
        rw [h.directories l hdirectory]
        split at hwalk
        · cases hwalk
        · rename_i hlength
          rw [if_neg hlength]
          exact ih hwalk
      · cases hwalk

/-- A path keeps leading to the same place. -/
theorem KeepsDirectories.locate (h : KeepsDirectories d d') {p : Path} {l : Location}
    (hlocate : d.locate p = .ok l) : d'.locate p = .ok l := by
  unfold Disk.locate at hlocate ⊢
  split at hlocate
  · cases hlocate
  · rename_i hnull
    rw [if_neg hnull]
    split at hlocate
    · cases hlocate
    · rename_i hlength
      rw [if_neg hlength, h.home]
      split at hlocate
      · rename_i hwalk
        rw [h.walk hwalk]
        exact hlocate
      · cases hlocate

/-- The path leads to a directory. -/
structure IsFolder (d : Disk) (folder : Path) (l : Location) : Prop where
  located : d.locate folder = .ok l
  directory : d.node? l = some .directory

theorem IsFolder.mono {folder : Path} {l : Location} (h : d.IsFolder folder l)
    (hd : KeepsDirectories d d') : d'.IsFolder folder l :=
  ⟨hd.locate h.located, hd.directories l h.directory⟩

/-- Where a name in a directory leads to. -/
theorem locate_child_eq_ok_iff {folder : Path} {l m : Location} (h : d.IsFolder folder l)
    {name : Text} :
    d.locate (folder.child name) = .ok m ↔ folder.Takes name ∧ m = step l name := by
  have hwalk : d.walk (if folder.isAbsolute then [] else d.home) folder.parts = .ok l := by
    have hlocated := h.located
    unfold locate at hlocated
    split at hlocated
    · cases hlocated
    · split at hlocated
      · cases hlocated
      · split at hlocated
        · rename_i hwalk
          obtain rfl := Except.ok.inj hlocated
          exact hwalk
        · cases hlocated
  have hroot : (folder.child name).isAbsolute = folder.isAbsolute := rfl
  have hparts : (folder.child name).parts = folder.parts ++ [name] := rfl
  unfold locate
  rw [hroot, hparts, walk_concat hwalk h.directory]
  constructor
  · intro hm
    split at hm
    · cases hm
    · rename_i hnull
      split at hm
      · cases hm
      · rename_i hlength
        split at hm
        · rename_i hstep
          obtain rfl := Except.ok.inj hm
          split at hstep
          · cases hstep
          · rename_i hbytes
            exact ⟨⟨by omega, by omega, by simpa using hnull⟩, (Except.ok.inj hstep).symm⟩
        · cases hm
  · rintro ⟨htakes, rfl⟩
    rw [if_neg (by simpa using htakes.noNull), if_neg (by have := htakes.pathBytes; omega),
      if_neg (by have := htakes.nameBytes; omega)]

end Disk

/-! ### Source files -/

/-- The bytes of a file. -/
def Node.bytes? : Node → Option (List UInt8)
  | file bytes => some bytes
  | _ => none

theorem Node.bytes?_eq_some_iff {n : Node} {bytes : List UInt8} :
    n.bytes? = some bytes ↔ n = .file bytes := by
  cases n <;> simp [bytes?]

/-- A filter whose tests all have an answer. -/
theorem filterM_map_eq_ok {α β ε : Type} {f : β → Except ε Bool} {g : α → Bool} {h : α → β}
    {l : List α} (hf : ∀ a ∈ l, f (h a) = .ok (g a)) :
    (l.map h).filterM f = .ok ((l.filter g).map h) := by
  have haux : ∀ acc, (l.map h).filterAuxM f acc = .ok (((l.filter g).map h).reverse ++ acc) := by
    induction l with
    | nil => exact fun acc => rfl
    | cons a l ih =>
        obtain ⟨ha, hl⟩ := List.forall_mem_cons.1 hf
        intro acc
        rw [List.map_cons, List.filterAuxM, ha, ok_bind, ih hl]
        cases hg : g a <;> simp [hg]
  rw [List.filterM, haux, ok_bind, List.append_nil, List.reverse_reverse]
  rfl

namespace Disk

variable {d : Disk} {folder : Path} {l : Location} {name : Text}

/-- The directory has a source file of the name, with the given bytes. -/
structure IsSource (d : Disk) (l : Location) (name : Text) (bytes : List UInt8) : Prop where
  suffix : IsSourceName name
  node : d.node? (l ++ [name]) = some (.file bytes)

/-- The bytes that a name in a directory leads to. -/
theorem file?_child (h : d.IsFolder folder l) (htakes : folder.Takes name)
    (hname : IsSourceName name) :
    d.file? (folder.child name) = .ok ((d.node? (l ++ [name])).bind Node.bytes?) := by
  have hlocate := (locate_child_eq_ok_iff h).2 ⟨htakes, rfl⟩
  rw [step_of_getLast? hname.getLast? (by decide)] at hlocate
  rw [file?, nodeAt?, hlocate, ok_bind]
  rcases d.node? (l ++ [name]) with _ | node
  · rfl
  · cases node <;> rfl

/-- The name is that of a source file of the directory. -/
def hasSource (d : Disk) (l : Location) (name : Text) : Bool :=
  decide (IsSourceName name) && ((d.node? (l ++ [name])).bind Node.bytes?).isSome

theorem hasSource_iff : d.hasSource l name = true ↔ ∃ bytes, d.IsSource l name bytes := by
  rw [hasSource, Bool.and_eq_true, decide_eq_true_eq, Option.isSome_iff_exists]
  constructor
  · rintro ⟨hname, bytes, hbytes⟩
    obtain ⟨node, hnode, hfile⟩ := Option.bind_eq_some_iff.1 hbytes
    rw [Node.bytes?_eq_some_iff.1 hfile] at hnode
    exact ⟨bytes, hname, hnode⟩
  · rintro ⟨bytes, hname, hnode⟩
    exact ⟨hname, bytes, by rw [hnode]; rfl⟩

/-- The names of the source files of a directory, in order. -/
def sourceNames (d : Disk) (l : Location) : List Text :=
  ((d.names l).mergeSort Text.precedes).filter (d.hasSource l)

/-- What is in a directory is among its names. -/
theorem mem_names {node : Node} (h : d.node? (l ++ [name]) = some node) : name ∈ d.names l := by
  rw [node?, if_neg (by simp)] at h
  exact List.mem_filterMap.2 ⟨_, Assoc.mem_of_get?_eq_some h, by simp⟩

theorem mem_sourceNames_iff : name ∈ d.sourceNames l ↔ ∃ bytes, d.IsSource l name bytes := by
  rw [sourceNames, List.mem_filter, List.mem_mergeSort, hasSource_iff]
  constructor
  · exact And.right
  · rintro ⟨bytes, h⟩
    exact ⟨mem_names h.node, bytes, h⟩

/-- **The source files of a directory are found.** -/
theorem sourceFiles_eq (h : d.IsFolder folder l)
    (htakes : ∀ name ∈ d.names l, IsSourceName name → folder.Takes name) :
    sourceFiles d folder = .ok ((d.sourceNames l).map folder.child) := by
  rw [sourceFiles, h.located, ok_bind]
  refine filterM_map_eq_ok fun name hname => ?_
  rw [List.mem_mergeSort] at hname
  rw [Path.suffix_child]
  by_cases hsource : (splitSuffix name).2 = sourceSuffix
  · rw [if_pos hsource, file?_child h (htakes name hname hsource) hsource, ok_bind, hasSource,
      decide_eq_true (show IsSourceName name from hsource), Bool.true_and]
    rfl
  · rw [if_neg hsource, hasSource, decide_eq_false (show ¬ IsSourceName name from hsource),
      Bool.false_and]
    rfl

end Disk

end ThumbAssembler
