/-
**What a source can do without.**

Blank lines, directives and comments add nothing to a program.  Putting in such a line moves the
lines below it down by one, and nothing else: the source is assembled to the same words, or rejected
for the same cause at the same spot, with line numbers that have moved along.  Putting a comment at
the end of a line does not even do that, and only shows in the text of the line.

Main definitions:

* `ThumbAssembler.Text.Spells` — a source consists of the given lines;
* `ThumbAssembler.Text.Inert` — a blank line, a comment or a directive;
* `ThumbAssembler.SameVerdict` — two reports that agree but for their diagnostics;
* `ThumbAssembler.Diagnostic.MovesDown`, `ThumbAssembler.Diagnostic.SameSpot` — how the diagnostics
  of the two sources compare.

Main results:

* `ThumbAssembler.Text.spells_joined` — a source can be put together from any lines;
* `ThumbAssembler.entriesFrom_of_inert` — an inert line adds no entries;
* `ThumbAssembler.Text.code_append_comment` — a comment is no part of the code;
* `ThumbAssembler.report_of_inert_text` — **inert lines and comments do not matter**.
-/

import Mathlib
import ThumbAssembler.Proofs.LineReading
import ThumbAssembler.Proofs.Placement

set_option autoImplicit false

namespace ThumbAssembler

/-! ### Sources given by their lines -/

namespace Text

/-- The source consists of these lines; an empty last line may be counted or not. -/
def Spells (source : Text) (raws : List Text) : Prop :=
  source.lines = raws ∨ source.lines ++ [[]] = raws

/-- Lines with line feeds between them spell these lines. -/
theorem spells_joined {raws : List Text} (h : ∀ raw ∈ raws, raw.Unbroken) :
    (joined "\n".toList raws).Spells raws := by
  induction raws with
  | nil => exact Or.inl rfl
  | cons raw raws ih =>
      obtain ⟨hraw, hraws⟩ := List.forall_mem_cons.1 h
      cases raws with
      | nil =>
          rw [joined_singleton]
          by_cases hne : raw = []
          · exact Or.inr (by rw [hne]; rfl)
          · exact Or.inl (lines_singleton hraw hne)
      | cons raw' raws =>
          have hjoined : joined "\n".toList (raw :: raw' :: raws) =
              raw ++ '\n' :: joined "\n".toList (raw' :: raws) :=
            joined_cons_cons _ _ _ _
          rw [hjoined, Spells, lines_append_feed hraw]
          exact (ih hraws).imp (congrArg (raw :: ·)) (congrArg (raw :: ·))

end Text

theorem entriesFrom_append (isa : InstructionSet) (number : Nat) (raws raws' : List Text) :
    entriesFrom isa number (raws ++ raws') = do
      let p ← entriesFrom isa number raws
      let q ← entriesFrom isa (number + raws.length) raws'
      return p ++ q := by
  induction raws generalizing number with
  | nil =>
      rw [List.nil_append, List.length_nil, Nat.add_zero]
      cases entriesFrom isa number raws' <;> rfl
  | cons raw raws ih =>
      rw [List.cons_append, entriesFrom_cons, entriesFrom_cons, List.length_cons,
        Nat.add_comm raws.length, ← Nat.add_assoc]
      cases parseLine isa number raw with
      | error e => rfl
      | ok l =>
          rw [ok_bind, ok_bind, ih]
          cases entriesFrom isa (number + 1) raws with
          | error e => rfl
          | ok p =>
              simp only [ok_bind]
              cases entriesFrom isa (number + 1 + raws.length) raws' with
              | error e => rfl
              | ok q => simp only [ok_bind, pure_eq_ok, List.append_assoc]

/-! ### Lines that add nothing -/

namespace Text

/-- The line is blank or a directive, after its comment has been removed: it has nothing but blanks,
or starts with a full stop after blanks and defines no label. -/
def Inert (raw : Text) : Prop :=
  (stripComment raw).trimStart = [] ∨
    (stripComment raw).trimStart.head? = some '.' ∧ labelPart? (stripComment raw) = none

instance (raw : Text) : Decidable raw.Inert := inferInstanceAs (Decidable (_ ∨ _))

theorem expandTabsFrom_append (column : Nat) (s t : Text) :
    ∃ column', expandTabsFrom column (s ++ t) =
      expandTabsFrom column s ++ expandTabsFrom column' t := by
  induction s generalizing column with
  | nil => exact ⟨column, rfl⟩
  | cons c s ih =>
      rw [List.cons_append, expandTabsFrom, expandTabsFrom]
      split
      · obtain ⟨column', hs⟩ := ih (column + (tabWidth - column % tabWidth))
        exact ⟨column', by rw [hs, List.append_assoc]⟩
      · obtain ⟨column', hs⟩ := ih (column + 1)
        exact ⟨column', by rw [hs, List.cons_append]⟩

theorem isBlank_of_mem_expandTabsFrom {t : Text} (h : ∀ c ∈ t, isBlank c = true) {column : Nat} :
    ∀ c ∈ expandTabsFrom column t, isBlank c = true := by
  intro c hc
  rcases mem_expandTabsFrom hc with rfl | hc
  · decide
  · exact h c hc

/-- Removing a comment and expanding tabs can be done in either order. -/
theorem stripComment_expandTabsFrom (column : Nat) (t : Text) :
    stripComment (expandTabsFrom column t) = expandTabsFrom column (stripComment t) := by
  induction t generalizing column with
  | nil => rfl
  | cons c t ih =>
      by_cases hcomment : c = commentMark
      · subst hcomment
        rfl
      · have hcons : stripComment (c :: t) = c :: stripComment t :=
          List.takeWhile_cons_of_pos (by simpa using hcomment)
        rw [hcons, expandTabsFrom, expandTabsFrom]
        split
        · rw [← ih]
          refine List.takeWhile_append_of_pos fun d hd => ?_
          rw [List.eq_of_mem_replicate hd]
          decide
        · rw [← ih]
          exact List.takeWhile_cons_of_pos (by simpa using hcomment)

/-- Expanding tabs does not change what comes first after blanks. -/
theorem head?_trimStart_expandTabsFrom (column : Nat) (t : Text) :
    (expandTabsFrom column t).trimStart.head? = t.trimStart.head? := by
  induction t generalizing column with
  | nil => rfl
  | cons c t ih =>
      rw [expandTabsFrom]
      split
      · rename_i htab
        subst htab
        have hspaces : ∀ d ∈ List.replicate (tabWidth - column % tabWidth) ' ',
            isBlank d = true := by
          intro d hd
          rw [List.eq_of_mem_replicate hd]
          decide
        have htab : trimStart ('\t' :: t) = trimStart t :=
          List.dropWhile_cons_of_pos (by decide)
        rw [trimStart, List.dropWhile_append_of_pos hspaces, htab]
        exact ih _
      · by_cases hblank : isBlank c = true
        · rw [trimStart, trimStart, List.dropWhile_cons_of_pos hblank,
            List.dropWhile_cons_of_pos hblank]
          exact ih _
        · rw [trimStart, trimStart, List.dropWhile_cons_of_neg hblank,
            List.dropWhile_cons_of_neg hblank]
          rfl

/-- Expanding tabs does not lengthen the name that comes before. -/
theorem startsOutside_expandTabsFrom {t : Text} (h : StartsOutside isIdentifierPart t)
    (column : Nat) : StartsOutside isIdentifierPart (expandTabsFrom column t) := by
  cases t with
  | nil => exact h
  | cons c t =>
      rw [expandTabsFrom]
      split
      · have hstop : tabWidth - column % tabWidth = (tabWidth - column % tabWidth - 1) + 1 := by
          have hcolumn := Nat.mod_lt column (show 0 < tabWidth by decide)
          omega
        rw [hstop, List.replicate_succ]
        exact startsOutside_cons (by decide)
      · exact startsOutside_cons (h c rfl)

theorem startsOutside_of_isPrefix {p : Char → Bool} {s t : Text} (h : StartsOutside p t)
    (hs : s <+: t) : StartsOutside p s := by
  obtain ⟨rest, rfl⟩ := hs
  cases s with
  | nil => exact startsOutside_nil p
  | cons c s => exact startsOutside_cons (h c rfl)

/-- What comes first after blanks stays first when the text goes on. -/
theorem head?_trimStart_of_isPrefix {s t : Text} (hs : s <+: t) {c : Char}
    (h : s.trimStart.head? = some c) : t.trimStart.head? = some c := by
  obtain ⟨rest, rfl⟩ := hs
  have hne : s.dropWhile isBlank ≠ [] := by
    intro hnil
    rw [trimStart, hnil] at h
    cases h
  rw [trimStart, List.dropWhile_append, if_neg (by simpa using hne),
    List.head?_append_of_ne_nil _ hne]
  exact h

theorem trimEnd_append {s : Text} (hs : EndsOutside isBlank s) (t : Text) :
    trimEnd (s ++ t) = s ++ trimEnd t := by
  have hself : (s.reverse.dropWhile isBlank).reverse = s := trimEnd_of_endsOutside hs
  rw [trimEnd, trimEnd, List.reverse_append, List.dropWhile_append]
  split
  · rename_i hblank
    rw [List.isEmpty_iff.1 hblank, List.reverse_nil, List.append_nil, hself]
  · rw [List.reverse_append, List.reverse_reverse]

/-- Blanks in front do not make a label definition. -/
theorem labelPart?_trimStart_eq_none_iff {t : Text} :
    labelPart? t.trimStart = none ↔ labelPart? t = none := by
  have htrim : t.trimStart.trimStart = t.trimStart := List.dropWhile_idempotent isBlank t
  unfold labelPart?
  rw [htrim]
  simp only
  split
  · exact Iff.rfl
  · split
    · simp
    · exact Iff.rfl

/-- The code of a line without label, from its text before the comment. -/
theorem code_of_identifier {raw indent name rest : Text}
    (h : stripComment raw = indent ++ (name ++ rest)) (hindent : ∀ c ∈ indent, isBlank c = true)
    (hname : IsIdentifier name) (hrest : StartsOutside isIdentifierPart rest)
    (hcolon : (trimStart rest).head? ≠ some ':') :
    raw.code.trimStart.head? = name.head? ∧ labelPart? raw.code = none := by
  obtain ⟨column, hcolumn⟩ := expandTabsFrom_append 0 indent (name ++ rest)
  obtain ⟨column', hcolumn'⟩ := expandTabsFrom_append column name rest
  have hlast : EndsOutside isBlank (expandTabsFrom 0 indent ++ name) :=
    endsOutside_append _ (spelling_of_isIdentifier hname).last hname.ne_nil
  have hcode : raw.code =
      expandTabsFrom 0 indent ++ (name ++ trimEnd (expandTabsFrom column' rest)) := by
    rw [code, expandTabs, stripComment_expandTabsFrom, h, hcolumn, hcolumn',
      expandTabsFrom_of_plain (plain_of_isIdentifierPart hname.part), ← List.append_assoc,
      trimEnd_append hlast, List.append_assoc]
  have htrim : raw.code.trimStart = name ++ trimEnd (expandTabsFrom column' rest) := by
    rw [hcode, trimStart, List.dropWhile_append_of_pos (isBlank_of_mem_expandTabsFrom hindent)]
    exact trimStart_of_isIdentifier hname _
  have hpart : trimEnd (expandTabsFrom column' rest) <+: expandTabsFrom column' rest :=
    trimEnd_isPrefix _
  refine ⟨?_, labelPart?_trimStart_eq_none_iff.1 ?_⟩
  · rw [htrim, List.head?_append_of_ne_nil _ hname.ne_nil]
  · rw [htrim]
    refine labelPart?_of_not_colon hname
      (startsOutside_of_isPrefix (startsOutside_expandTabsFrom hrest _) hpart) fun hnext => ?_
    have hfirst := head?_trimStart_of_isPrefix hpart hnext
    rw [head?_trimStart_expandTabsFrom] at hfirst
    exact hcolon hfirst

/-- **An inert line has no label, and its code is blank or a directive.** -/
theorem Inert.code {raw : Text} (h : raw.Inert) :
    labelPart? raw.code = none ∧
      (raw.code.trimStart = [] ∨ raw.code.trimStart.head? = some '.') := by
  rcases h with hblank | ⟨hstop, hlabel⟩
  · have hall : ∀ c ∈ expandTabsFrom 0 (stripComment raw), isBlank c = true :=
      isBlank_of_mem_expandTabsFrom (List.dropWhile_eq_nil_iff.1 hblank)
    have hcode : raw.code = [] := by
      rw [Text.code, expandTabs, stripComment_expandTabsFrom, trimEnd, List.reverse_eq_nil_iff,
        List.dropWhile_eq_nil_iff]
      exact fun c hc => hall c (List.mem_reverse.1 hc)
    rw [hcode]
    exact ⟨rfl, Or.inl rfl⟩
  · obtain ⟨tail, htail⟩ : ∃ tail, (stripComment raw).trimStart = '.' :: tail := by
      cases htrim : (stripComment raw).trimStart with
      | nil => rw [htrim] at hstop; cases hstop
      | cons c tail =>
          rw [htrim] at hstop
          exact ⟨tail, by rw [Option.some_inj.1 hstop]⟩
    have hname : IsIdentifier ('.' :: tail.takeWhile isIdentifierPart) :=
      ⟨by decide, fun c hc => (List.mem_takeWhile_imp hc)⟩
    have hrest := startsOutside_dropWhile isIdentifierPart tail
    have hsplit : (stripComment raw).trimStart =
        ('.' :: tail.takeWhile isIdentifierPart) ++ tail.dropWhile isIdentifierPart := by
      rw [htail, List.cons_append, List.takeWhile_append_dropWhile]
    have hcolon : (trimStart (tail.dropWhile isIdentifierPart)).head? ≠ some ':' := by
      intro hhead
      obtain ⟨after, hafter⟩ : ∃ after, trimStart (tail.dropWhile isIdentifierPart) =
          ':' :: after := List.head?_eq_some_iff.1 hhead
      rw [← labelPart?_trimStart_eq_none_iff, hsplit,
        labelPart?_of_colon hname hrest hafter] at hlabel
      cases hlabel
    have hraw : stripComment raw = (stripComment raw).takeWhile isBlank ++
        (('.' :: tail.takeWhile isIdentifierPart) ++ tail.dropWhile isIdentifierPart) := by
      rw [← hsplit]
      exact List.takeWhile_append_dropWhile.symm
    obtain ⟨hhead, hnone⟩ := code_of_identifier hraw (fun c hc => List.mem_takeWhile_imp hc) hname
      hrest hcolon
    exact ⟨hnone, Or.inr hhead⟩

theorem stripComment_append_comment (raw comment : Text) :
    stripComment (raw ++ commentMark :: comment) = stripComment raw := by
  induction raw with
  | nil => rfl
  | cons c raw ih =>
      unfold stripComment at ih ⊢
      rw [List.cons_append, List.takeWhile_cons, List.takeWhile_cons, ih]

/-- **A comment is no part of the code.** -/
theorem code_append_comment (raw comment : Text) :
    (raw ++ commentMark :: comment).code = raw.code := by
  rw [code, code, expandTabs, expandTabs, stripComment_expandTabsFrom, stripComment_expandTabsFrom,
    stripComment_append_comment]

end Text

/-- An inert line adds no entries. -/
theorem entriesFrom_of_inert (isa : InstructionSet) (number : Nat) {raw : Text} (h : raw.Inert)
    (raws : List Text) :
    entriesFrom isa number (raw :: raws) = entriesFrom isa (number + 1) raws := by
  obtain ⟨hlabel, hcode⟩ := h.code
  obtain ⟨l, hl, hentries⟩ : ∃ l, parseLine isa number raw = .ok l ∧ l.entries = [] := by
    rw [parseLine_eq, labelsFrom_of_none isa _ 0 hlabel, ok_bind]
    simp only [statement]
    rcases hcode with hblank | hstop
    · rw [hblank]
      exact ⟨_, rfl, rfl⟩
    · obtain ⟨rest, hrest⟩ := List.head?_eq_some_iff.1 hstop
      rw [hrest]
      exact ⟨_, rfl, rfl⟩
  rw [entriesFrom_cons, hl, ok_bind, hentries]
  cases entriesFrom isa (number + 1) raws <;> rfl

/-- A source has the entries of its lines. -/
theorem parse_of_spells (isa : InstructionSet) {source : Text} {raws : List Text}
    (h : source.Spells raws) : parse isa source = entriesFrom isa 1 raws := by
  rcases h with rfl | rfl
  · rfl
  · have hblank : entriesFrom isa (1 + source.lines.length) [[]] = .ok [] :=
      entriesFrom_of_inert isa _ (Or.inl rfl) []
    rw [entriesFrom_append, hblank]
    cases hp : entriesFrom isa 1 source.lines with
    | error e => exact hp
    | ok p =>
        rw [ok_bind, ok_bind, List.append_nil]
        exact hp

/-! ### Reports -/

/-- Where a line stands after another has been put in below the first `k` lines. -/
def lineBelow (k : Nat) (line : Int) : Int := if line ≤ k then line else line + 1

/-- Two sources are assembled to the same words and the same image, or rejected with diagnostics
that compare as given, or stopped by the same fault that is no rejection. -/
def SameVerdict (compare : Diagnostic → Diagnostic → Prop) :
    Except Fault Report → Except Fault Report → Prop
  | .ok (.success output _ words), .ok (.success output' _ words') =>
      output' = output ∧ words' = words
  | .ok (.failure d), .ok (.failure d') => compare d d'
  | .error e, .error e' => e' = e
  | _, _ => False

theorem SameVerdict.exists_of_failure {compare : Diagnostic → Diagnostic → Prop}
    {x y : Except Fault Report} (h : SameVerdict compare x y) {d : Diagnostic}
    (hx : x = .ok (.failure d)) : ∃ d', y = .ok (.failure d') ∧ compare d d' := by
  subst hx
  cases y with
  | error e => exact h.elim
  | ok r =>
      cases r with
      | success output program words => exact h.elim
      | failure d' => exact ⟨d', rfl, h⟩

/-- The diagnostic that results when a line is put in below the first `k` lines: the line numbers
move along, the one in the message for a repeated label too, and all else stays. -/
structure Diagnostic.MovesDown (k : Nat) (d d' : Diagnostic) : Prop where
  kind : d'.kind = d.kind
  line : d'.place.line = lineBelow k d.place.line
  column : d'.place.column = d.place.column
  token : d'.place.token = d.place.token
  lineText : d'.place.lineText = d.place.lineText
  message : d.kind ≠ .duplicateLabel ∧ d'.message = d.message ∨
    d.kind = .duplicateLabel ∧ ∃ name first, d.message = (Cause.duplicateLabel name first).message ∧
      d'.message = (Cause.duplicateLabel name (lineBelow k first)).message

/-- The diagnostics differ at most in the text of the line. -/
structure Diagnostic.SameSpot (d d' : Diagnostic) : Prop where
  kind : d'.kind = d.kind
  message : d'.message = d.message
  line : d'.place.line = d.place.line
  column : d'.place.column = d.place.column
  token : d'.place.token = d.place.token

/-- Sources that are read alike have the same verdict. -/
theorem report_sameVerdict {m : Correspondence} (isa : InstructionSet) (target : Target)
    (width : RowWidth) {compare : Diagnostic → Diagnostic → Prop}
    (hcompare : ∀ r r' : Rejection, r.cause.Corresponds m r'.cause →
      r.place.Corresponds m r'.place → compare r.diagnostic r'.diagnostic) {source source' : Text}
    (h : Together m (Program.Corresponds m) (parse isa source) (parse isa source')) :
    SameVerdict compare (report isa target width source) (report isa target width source') := by
  unfold report
  rcases (assemble_together isa target.bias h).ok_or_error with
    ⟨a, a', ha, ha', hwords⟩ | ⟨e, e', he, he', hfault⟩
  · rw [ha, ha']
    exact ⟨congrArg (image target.header (chosenWidth target width)) hwords, hwords⟩
  · rw [he, he']
    cases hfault with
    | @rejected r r' hcause hplace => exact hcompare r r' hcause hplace
    | other hother =>
        cases e with
        | rejected r => exact absurd rfl (hother r)
        | _ => exact rfl

/-! ### Lines that move down -/

/-- All lines but the first `k` have moved down by one. -/
def Correspondence.below (k : Nat) : Correspondence where
  line := fun line line' => line' = lineBelow k line
  spot := Eq
  text := Eq

theorem kind_ne_duplicateLabel {cause : Cause} (h : cause.firstLine? = none) :
    cause.kind ≠ .duplicateLabel := by
  cases cause with
  | duplicateLabel name first => cases h
  | stated kind message first =>
      rintro rfl
      cases h
  | _ => exact Kind.noConfusion

theorem movesDown_of_corresponds {k : Nat} {r r' : Rejection}
    (hcause : r.cause.Corresponds (.below k) r'.cause)
    (hplace : r.place.Corresponds (.below k) r'.place) :
    r.diagnostic.MovesDown k r'.diagnostic := by
  obtain ⟨cause, place⟩ := r
  obtain ⟨cause', place'⟩ := r'
  obtain ⟨hcolumn, htoken⟩ := Prod.mk.inj hplace.spot
  have hkind : cause'.kind = cause.kind := by
    cases hcause with
    | same _ => rfl
    | duplicateLabel _ => rfl
  refine ⟨hkind, hplace.line, hcolumn.symm, htoken.symm, hplace.lineText.symm, ?_⟩
  cases hcause with
  | same h => exact Or.inl ⟨kind_ne_duplicateLabel h, rfl⟩
  | @duplicateLabel name first first' h =>
      have hfirst : first' = lineBelow k first := h
      exact Or.inr ⟨rfl, name, first, rfl, by rw [← hfirst]; rfl⟩

/-- A source with an inert line more is read alike, with the lines below moved down. -/
theorem parse_insert_inert (isa : InstructionSet) {source source' raw : Text}
    {before after : List Text} (hraw : raw.Inert) (h : source.Spells (before ++ after))
    (h' : source'.Spells (before ++ raw :: after)) :
    Together (.below before.length) (Program.Corresponds (.below before.length))
      (parse isa source) (parse isa source') := by
  rw [parse_of_spells isa h, parse_of_spells isa h', entriesFrom_append, entriesFrom_append,
    entriesFrom_of_inert isa _ hraw]
  have habove : ∀ k < before.length, ∀ text, SourceLine.Corresponds (.below before.length)
      ⟨1 + k, text⟩ ⟨1 + k, text⟩ := by
    intro k hk text column token
    have hline : ((1 + k : Nat) : Int) ≤ before.length := by omega
    exact ⟨(if_pos hline).symm, rfl, rfl⟩
  have hbelow : ∀ k < after.length, ∀ text, SourceLine.Corresponds (.below before.length)
      ⟨1 + before.length + k, text⟩ ⟨1 + before.length + 1 + k, text⟩ := by
    intro k _ text column token
    refine ⟨?_, rfl, rfl⟩
    have hline : ¬((1 + before.length + k : Nat) : Int) ≤ before.length := by omega
    show ((1 + before.length + 1 + k : Nat) : Int)
      = lineBelow before.length ((1 + before.length + k : Nat) : Int)
    rw [lineBelow, if_neg hline]
    omega
  refine (entriesFrom_together isa habove).bind fun p p' hp => ?_
  exact (entriesFrom_together isa hbelow).bind fun q q' hq => List.rel_append hp hq

/-! ### Comments -/

/-- Lines and spots are the same; the texts of the lines may differ. -/
def Correspondence.upToText : Correspondence where
  line := Eq
  spot := Eq
  text := fun _ _ => True

theorem sameSpot_of_corresponds {r r' : Rejection} (hcause : r.cause.Corresponds .upToText r'.cause)
    (hplace : r.place.Corresponds .upToText r'.place) :
    r.diagnostic.SameSpot r'.diagnostic := by
  obtain ⟨cause, place⟩ := r
  obtain ⟨cause', place'⟩ := r'
  obtain ⟨hcolumn, htoken⟩ := Prod.mk.inj hplace.spot
  obtain rfl : cause' = cause := by
    cases hcause with
    | same _ => rfl
    | @duplicateLabel name first first' h => rw [show first = first' from h]
  exact ⟨rfl, rfl, hplace.line.symm, hcolumn.symm, htoken.symm⟩

/-- A source with a comment more is read alike. -/
theorem parse_append_comment (isa : InstructionSet) {source source' raw comment : Text}
    {before after : List Text} (h : source.Spells (before ++ raw :: after))
    (h' : source'.Spells (before ++ (raw ++ commentMark :: comment) :: after)) :
    Together .upToText (Program.Corresponds .upToText) (parse isa source) (parse isa source') := by
  have hsame : ∀ number (text text' : Text),
      SourceLine.Corresponds .upToText ⟨number, text⟩ ⟨number, text'⟩ :=
    fun _ _ _ _ _ => ⟨rfl, rfl, trivial⟩
  rw [parse_of_spells isa h, parse_of_spells isa h', entriesFrom_append, entriesFrom_append,
    entriesFrom_cons, entriesFrom_cons]
  refine (entriesFrom_together isa fun _ _ _ => hsame _ _ _).bind fun p p' hp => ?_
  have hline : Text.ReadAlike .upToText (1 + before.length) (1 + before.length) raw
      (raw ++ commentMark :: comment) :=
    ⟨Text.code_append_comment raw comment, hsame _ _ _, hsame _ _ _⟩
  refine Together.bind (R := Program.Corresponds .upToText) ?_ fun q q' hq => List.rel_append hp hq
  refine (parseLine_together isa hline).bind fun l l' hl => ?_
  exact (entriesFrom_together isa fun _ _ _ => hsame _ _ _).bind fun q q' hq =>
    List.rel_append hl hq

/-- **Inert lines and comments do not matter.**  A source in which a blank line, a comment or a
directive is put in, after the lines `before`, is assembled to the same words and the same image, or
rejected with the diagnostic that has moved down.  A source in which a comment is put at the end of
a line is assembled to the same words and the same image, or rejected at the same spot with the same
message. -/
theorem report_of_inert_text (isa : InstructionSet) (target : Target) (width : RowWidth)
    (before after : List Text) (source source' : Text) :
    (∀ raw : Text, raw.Inert → source.Spells (before ++ after) →
      source'.Spells (before ++ raw :: after) →
      SameVerdict (Diagnostic.MovesDown before.length) (report isa target width source)
        (report isa target width source')) ∧
    (∀ raw comment : Text, source.Spells (before ++ raw :: after) →
      source'.Spells (before ++ (raw ++ '@' :: comment) :: after) →
      SameVerdict Diagnostic.SameSpot (report isa target width source)
        (report isa target width source')) := by
  constructor
  · intro raw hraw h h'
    exact report_sameVerdict isa target width (fun _ _ => movesDown_of_corresponds)
      (parse_insert_inert isa hraw h h')
  · intro raw comment h h'
    exact report_sameVerdict isa target width (fun _ _ => sameSpot_of_corresponds)
      (parse_append_comment isa h h')

/-- A repeated label moves down with the directive that is put in above it, and is reported where it
was when a comment follows it. -/
theorem report_of_inert_text_repeated_label :
    ∃ d d' d'', report Thumb.instructionSet Target.parm none
        (Text.joined "\n".toList ["L: movs r0, #1".toList, "L: b L".toList]) = .ok (.failure d) ∧
      report Thumb.instructionSet Target.parm none (Text.joined "\n".toList
        ["\t.align 2 @ x".toList, "L: movs r0, #1".toList, "L: b L".toList]) = .ok (.failure d') ∧
      report Thumb.instructionSet Target.parm none (Text.joined "\n".toList
        ["L: movs r0, #1".toList, "L: b L@ : [".toList]) = .ok (.failure d'') ∧
      d.message = "Label 'L' already defined on line 1".toList ∧ d.place.line = 2 ∧
      d.MovesDown 0 d' ∧ d.SameSpot d'' := by
  have hsource : Text.Spells _ ["L: movs r0, #1".toList, "L: b L".toList] :=
    Text.spells_joined (by decide)
  obtain ⟨r, hr, htest⟩ := exists_ok_of_any (show (report Thumb.instructionSet Target.parm none
    (Text.joined "\n".toList ["L: movs r0, #1".toList, "L: b L".toList])).toOption.any
      (fun r => r.diagnostic?.any fun d =>
        decide (d.message = "Label 'L' already defined on line 1".toList) &&
          decide (d.place.line = 2)) = true by decide +kernel)
  cases r with
  | success output program words => cases htest
  | failure d =>
      simp only [Report.diagnostic?, Option.any_some, Bool.and_eq_true, decide_eq_true_eq] at htest
      obtain ⟨d', hd', hmoves⟩ := ((report_of_inert_text Thumb.instructionSet Target.parm none []
        ["L: movs r0, #1".toList, "L: b L".toList] _ _).1 "\t.align 2 @ x".toList
        (by decide +kernel) hsource (Text.spells_joined (by decide))).exists_of_failure hr
      obtain ⟨d'', hd'', hspot⟩ := ((report_of_inert_text Thumb.instructionSet Target.parm none
        ["L: movs r0, #1".toList] [] _ _).2 "L: b L".toList " : [".toList hsource
        (Text.spells_joined (by decide))).exists_of_failure hr
      exact ⟨d, d', d'', hr, hd', hd'', htest.1, htest.2, hmoves, hspot⟩

end ThumbAssembler
