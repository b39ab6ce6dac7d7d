/-
**Programs that differ in their places only.**

Entries carry the line, the column and the text that they were read from.  Faults show these places,
and nothing else uses them.  So two programs whose entries agree up to their places fare alike: both
passes and the encoder succeed on both, with the same words, or stop on both for the same cause at
corresponding places.  How places correspond is a parameter.

Main definitions:

* `ThumbAssembler.Correspondence` — how lines, tokens and texts of two places correspond;
* `ThumbAssembler.Fault.Corresponds` — faults for the same cause at corresponding places;
* `ThumbAssembler.Program.Corresponds` — programs that differ in their places only;
* `ThumbAssembler.Together` — computations that succeed together or fail together;
* `ThumbAssembler.Program.assembled` — the words of a program.

Main results:

* `ThumbAssembler.Together.bind`, `ThumbAssembler.Together.mapM` — sequences and walks;
* `ThumbAssembler.Instruction.encode_together` — the word of an instruction;
* `ThumbAssembler.collect_together`, `ThumbAssembler.linkEntry_together` — the two passes;
* `ThumbAssembler.Program.assembled_together` — **corresponding programs have the same words, or
  corresponding faults**;
* `ThumbAssembler.assemble_together` — sources that are read alike.
-/

import Mathlib
import ThumbAssembler.Proofs.BranchTargets

set_option autoImplicit false

namespace ThumbAssembler

/-! ### Corresponding places -/

/-- How two places correspond: the numbers of their lines, their columns with the tokens there, and
the texts of their lines. -/
structure Correspondence where
  line : Int → Int → Prop
  spot : Int × Text → Int × Text → Prop
  text : Text → Text → Prop

/-- All places correspond. -/
def Correspondence.any : Correspondence where
  line := fun _ _ => True
  spot := fun _ _ => True
  text := fun _ _ => True

variable {m : Correspondence}

/-- The parts of two places correspond. -/
structure Place.Corresponds (m : Correspondence) (p p' : Place) : Prop where
  line : m.line p.line p'.line
  spot : m.spot (p.column, p.token) (p'.column, p'.token)
  lineText : m.text p.lineText p'.lineText

/-- The causes are the same; the line of an earlier definition may be another. -/
inductive Cause.Corresponds (m : Correspondence) : Cause → Cause → Prop
  | same {cause : Cause} (h : cause.firstLine? = none) : Corresponds m cause cause
  | duplicateLabel {name : Text} {first first' : Int} (h : m.line first first') :
      Corresponds m (.duplicateLabel name first) (.duplicateLabel name first')

/-- The faults are rejections for the same cause at corresponding places, or no rejections and the
same. -/
inductive Fault.Corresponds (m : Correspondence) : Fault → Fault → Prop
  | rejected {r r' : Rejection} (cause : r.cause.Corresponds m r'.cause)
      (place : r.place.Corresponds m r'.place) : Corresponds m (.rejected r) (.rejected r')
  | other {e : Fault} (h : ∀ r, e ≠ .rejected r) : Corresponds m e e

theorem Cause.Corresponds.numbers_eq {cause cause' : Cause} (h : cause.Corresponds m cause') :
    cause'.numbers = cause.numbers := by
  cases h with
  | same h => rfl
  | duplicateLabel h => rfl

theorem corresponds_rejection {cause cause' : Cause} (hcause : cause.Corresponds m cause')
    {place place' : Place} (hplace : place.Corresponds m place') :
    (rejection cause place).Corresponds m (rejection cause' place') := by
  unfold rejection
  rw [hcause.numbers_eq]
  split
  · exact .rejected hcause hplace
  · exact .other (by rintro r ⟨⟩)

/-! ### Computations that succeed or fail together -/

/-- A list that corresponds to one with a marked element has a corresponding element there. -/
theorem exists_split_of_forall₂ {α β : Type} {R : α → β → Prop} {before after : List α} {a : α}
    {l' : List β} (h : List.Forall₂ R (before ++ a :: after) l') :
    ∃ before' a' after', l' = before' ++ a' :: after' ∧ List.Forall₂ R before before' ∧ R a a' ∧
      List.Forall₂ R after after' := by
  induction before generalizing l' with
  | nil =>
      obtain ⟨a', after', ha, hafter, rfl⟩ := List.forall₂_cons_left_iff.1 h
      exact ⟨[], a', after', rfl, .nil, ha, hafter⟩
  | cons b before ih =>
      obtain ⟨b', rest', hb, hrest, rfl⟩ := List.forall₂_cons_left_iff.1 h
      obtain ⟨before', a', after', rfl, hbefore, ha, hafter⟩ := ih hrest
      exact ⟨b' :: before', a', after', rfl, .cons hb hbefore, ha, hafter⟩

section Together

variable {α β γ δ : Type} {R R' : α → β → Prop} {S : γ → δ → Prop}

/-- Both computations succeed, with related results, or both stop at corresponding faults. -/
def Together (m : Correspondence) (R : α → β → Prop) : Except Fault α → Except Fault β → Prop
  | .ok a, .ok b => R a b
  | .error e, .error e' => e.Corresponds m e'
  | _, _ => False

/-- The computation is not stopped by a rejection. -/
def NeverRejects : Except Fault α → Prop := Outcome (fun _ => True) fun e => ∀ r, e ≠ .rejected r

theorem together_reject {cause cause' : Cause} (hcause : cause.Corresponds m cause')
    {place place' : Place} (hplace : place.Corresponds m place') :
    Together m R (reject cause place) (reject cause' place') :=
  corresponds_rejection hcause hplace

theorem NeverRejects.together {x : Except Fault α} (h : NeverRejects x) : Together m Eq x x := by
  cases x with
  | ok a => exact (rfl : a = a)
  | error e => exact .other h

namespace Together

variable {x : Except Fault α} {x' : Except Fault β}

/-- The two ways in which computations go together. -/
theorem ok_or_error (hx : Together m R x x') :
    (∃ a b, x = .ok a ∧ x' = .ok b ∧ R a b) ∨
      ∃ e e', x = .error e ∧ x' = .error e' ∧ e.Corresponds m e' := by
  cases x with
  | error e =>
      cases x' with
      | error e' => exact Or.inr ⟨e, e', rfl, rfl, hx⟩
      | ok b => exact hx.elim
  | ok a =>
      cases x' with
      | error e' => exact hx.elim
      | ok b => exact Or.inl ⟨a, b, rfl, rfl, hx⟩

theorem bind {f : α → Except Fault γ} {f' : β → Except Fault δ} (hx : Together m R x x')
    (h : ∀ a b, R a b → Together m S (f a) (f' b)) : Together m S (x >>= f) (x' >>= f') := by
  rcases hx.ok_or_error with ⟨a, b, rfl, rfl, hab⟩ | ⟨e, e', rfl, rfl, he⟩
  · exact h a b hab
  · exact he

theorem imp (hx : Together m R x x') (h : ∀ a b, R a b → R' a b) : Together m R' x x' := by
  rcases hx.ok_or_error with ⟨a, b, rfl, rfl, hab⟩ | ⟨e, e', rfl, rfl, he⟩
  · exact h a b hab
  · exact he

theorem exists_of_ok (hx : Together m R x x') {a : α} (ha : x = .ok a) :
    ∃ b, x' = .ok b ∧ R a b := by
  subst ha
  cases x' with
  | error e' => exact hx.elim
  | ok b => exact ⟨b, rfl, hx⟩

/-- Computations that go together have a result together. -/
theorem toOption_eq {x x' : Except Fault α} (hx : Together m Eq x x') :
    x'.toOption = x.toOption := by
  rcases hx.ok_or_error with ⟨a, b, rfl, rfl, rfl⟩ | ⟨e, e', rfl, rfl, -⟩
  · rfl
  · rfl

/-- Walks along corresponding lists go together if their steps do. -/
theorem mapM {f : α → Except Fault γ} {f' : β → Except Fault δ}
    (h : ∀ a b, R a b → Together m S (f a) (f' b)) {l : List α} {l' : List β}
    (hl : List.Forall₂ R l l') : Together m (List.Forall₂ S) (l.mapM f) (l'.mapM f') := by
  induction hl with
  | nil => exact .nil
  | cons hab _ ih =>
      rw [List.mapM_cons, List.mapM_cons]
      exact (h _ _ hab).bind fun c d hcd => ih.bind fun cs ds hcds => .cons hcd hcds

end Together

end Together

theorem neverRejects_liftField {α : Type} (x : Except Field.Defect α) :
    NeverRejects (liftField x) := by
  cases x with
  | ok a => trivial
  | error d => rintro r ⟨⟩

theorem neverRejects_field (f : Format) (name : Text) : NeverRejects (f.field name) := by
  unfold Format.field
  split
  · trivial
  · rintro r ⟨⟩

/-- A number that does not fit a field stops both computations at corresponding places. -/
theorem together_fitting {α : Type} (f : Field) (v : Int) {x x' : Except Fault α}
    (hx : Together m Eq x x') {cause : Field.Span → Cause}
    (hcause : ∀ span, (cause span).firstLine? = none) {place place' : Place}
    (hplace : place.Corresponds m place') :
    Together m Eq
      (do
        if ← liftField (f.fits v) then x
        else if isPrintable v then
          let span ← liftField f.span
          reject (cause span) place
        else .error .numberTooLong)
      (do
        if ← liftField (f.fits v) then x'
        else if isPrintable v then
          let span ← liftField f.span
          reject (cause span) place'
        else .error .numberTooLong) := by
  refine (neverRejects_liftField _).together.bind ?_
  rintro fits _ rfl
  cases fits with
  | true =>
      simp only [if_true]
      exact hx
  | false =>
      simp only [Bool.false_eq_true, if_false]
      cases isPrintable v with
      | true =>
          refine (neverRejects_liftField _).together.bind ?_
          rintro span _ rfl
          exact together_reject (.same (hcause span)) hplace
      | false => exact Fault.Corresponds.other (by rintro r ⟨⟩)

/-! ### Corresponding entries -/

/-- The label definitions agree up to their places. -/
structure Label.Corresponds (m : Correspondence) (l l' : Label) : Prop where
  name : l'.name = l.name
  place : l.place.Corresponds m l'.place

/-- The operands denote the same, at corresponding spots. -/
structure Operand.Corresponds (m : Correspondence) (o o' : Operand) : Prop where
  content : o'.content = o.content
  spot : m.spot (o.column, o.text) (o'.column, o'.text)

/-- The instructions agree up to their places. -/
structure Instruction.Corresponds (m : Correspondence) (i i' : Instruction) : Prop where
  mnemonic : i'.mnemonic = i.mnemonic
  format : i'.format = i.format
  condition : i'.condition = i.condition
  operands : List.Forall₂ (Operand.Corresponds m) i.operands i'.operands
  line : m.line i.line i'.line
  text : m.text i.text i'.text

/-- The entries agree up to their places. -/
inductive Entry.Corresponds (m : Correspondence) : Entry → Entry → Prop
  | label {l l' : Label} (h : l.Corresponds m l') : Corresponds m (.label l) (.label l')
  | instruction {i i' : Instruction} (h : i.Corresponds m i') :
      Corresponds m (.instruction i) (.instruction i')

/-- The programs agree up to the places of their entries. -/
def Program.Corresponds (m : Correspondence) (p p' : Program) : Prop :=
  List.Forall₂ (Entry.Corresponds m) p p'

theorem Instruction.Corresponds.place {i i' : Instruction} (h : i.Corresponds m i')
    {o o' : Operand} (ho : o.Corresponds m o') : (i.place o).Corresponds m (i'.place o') :=
  ⟨h.line, ho.spot, h.text⟩

theorem Entry.Corresponds.size_eq {e e' : Entry} (h : e.Corresponds m e') : e'.size = e.size := by
  cases h with
  | label h => rfl
  | instruction h => rfl

namespace Program.Corresponds

variable {p p' : Program}

/-- Corresponding entries have the same address. -/
theorem addressedFrom (h : p.Corresponds m p') (address : Nat) :
    List.Forall₂ (fun x x' => x'.1 = x.1 ∧ Entry.Corresponds m x.2 x'.2)
      (Program.addressedFrom address p) (Program.addressedFrom address p') := by
  induction h generalizing address with
  | nil => exact .nil
  | cons he _ ih =>
      rw [Program.addressedFrom, Program.addressedFrom, he.size_eq]
      exact .cons ⟨rfl, he⟩ (ih _)

theorem instructions (h : p.Corresponds m p') :
    List.Forall₂ (Instruction.Corresponds m) p.instructions p'.instructions := by
  induction h with
  | nil => exact .nil
  | cons he _ ih =>
      cases he with
      | label _ => exact ih
      | instruction hi => exact .cons hi ih

theorem labelNames_eq (h : p.Corresponds m p') : p'.labelNames = p.labelNames := by
  induction h with
  | nil => rfl
  | cons he _ ih =>
      cases he with
      | label hl => rw [Program.labelNames_label, Program.labelNames_label, hl.name, ih]
      | instruction _ => exact ih

/-- Corresponding programs have the same names at the same addresses. -/
theorem toList_table_eq (h : p.Corresponds m p') : p'.table.toList = p.table.toList := by
  have haddressed := h.addressedFrom 0
  have hsymbol (x x' : Nat × Entry) (hx : x'.1 = x.1 ∧ Entry.Corresponds m x.2 x'.2) :
      Program.symbolOf x' = Program.symbolOf x := by
    obtain ⟨a, e⟩ := x
    obtain ⟨a', e'⟩ := x'
    obtain ⟨rfl, he⟩ := hx
    cases he with
    | label hl => simp only [Program.symbolOf, Entry.label?, Option.map_some, hl.name]
    | instruction _ => rfl
  rw [Program.toList_table, Program.toList_table]
  unfold Program.addressed
  generalize Program.addressedFrom 0 p = xs, Program.addressedFrom 0 p' = xs' at haddressed
  induction haddressed with
  | nil => rfl
  | cons hx _ ih => rw [List.filterMap_cons, List.filterMap_cons, hsymbol _ _ hx, ih]

theorem address?_eq (h : p.Corresponds m p') (name : Text) :
    p'.table.freeze.address? name = p.table.freeze.address? name :=
  congrArg (Assoc.get? name) h.toList_table_eq

/-- An earlier label of the first program has its counterpart in the second. -/
theorem exists_label (h : p.Corresponds m p') {l : Label} (hl : l ∈ p.labels) :
    ∃ l' ∈ p'.labels, l.Corresponds m l' := by
  induction h with
  | nil => cases hl
  | cons he _ ih =>
      cases he with
      | instruction _ => exact ih hl
      | label hhead =>
          rcases List.mem_cons.1 hl with rfl | hl
          · exact ⟨_, List.mem_cons_self, hhead⟩
          · obtain ⟨l', hl', hcorresponds⟩ := ih hl
            exact ⟨l', List.mem_cons_of_mem _ hl', hcorresponds⟩

end Program.Corresponds

/-! ### Words of instructions -/

namespace Instruction

variable {i i' : Instruction}

theorem fieldValue_together (h : i.Corresponds m i') (field : Text) {o o' : Operand}
    (ho : o.Corresponds m o') :
    Together m Eq (i.fieldValue field o) (i'.fieldValue field o') := by
  have hlabel : o'.isLabel = o.isLabel := by rw [Operand.isLabel, Operand.kind, ho.content]; rfl
  have hvalue : o'.value? = o.value? := by rw [Operand.value?, ho.content]; rfl
  have hkind : o'.kind = o.kind := by rw [Operand.kind, ho.content]; rfl
  have hrender : o'.render = o.render := by rw [Operand.render, ho.content]; rfl
  unfold fieldValue
  rw [hlabel, hvalue, hkind, hrender, h.format]
  split
  · exact together_reject (.same rfl) (h.place ho)
  · refine (neverRejects_field _ _).together.bind ?_
    rintro f _ rfl
    cases o.value? with
    | some v => exact (rfl : (f, v) = (f, v))
    | none => exact Fault.Corresponds.other (by rintro r ⟨⟩)

theorem packOperand_together (h : i.Corresponds m i') (field : Text) {o o' : Operand}
    (ho : o.Corresponds m o') :
    Together m Eq (i.packOperand field o) (i'.packOperand field o') := by
  have hsubject : i'.subject field = i.subject field := by rw [subject, subject, h.format]
  unfold packOperand
  rw [h.mnemonic, hsubject]
  refine (fieldValue_together h field ho).bind ?_
  rintro ⟨f, v⟩ _ rfl
  exact together_fitting f v (neverRejects_liftField _).together (fun _ => rfl) (h.place ho)

theorem encodeSlots_together (h : i.Corresponds m i') (slots : List Slot) {os os' : List Operand}
    (hos : List.Forall₂ (Operand.Corresponds m) os os') (word : Int) :
    Together m Eq (i.encodeSlots word (slots.zip os)) (i'.encodeSlots word (slots.zip os')) := by
  induction hos generalizing slots word with
  | nil =>
      rw [List.zip_nil_right]
      exact (rfl : word = word)
  | cons ho _ ih =>
      cases slots with
      | nil => exact (rfl : word = word)
      | cons slot slots =>
          rw [List.zip_cons_cons, List.zip_cons_cons, encodeSlots, encodeSlots]
          cases slot.field with
          | none => exact ih slots word
          | some field =>
              refine (packOperand_together h field ho).bind ?_
              rintro bits _ rfl
              exact ih slots _

theorem neverRejects_conditionBits (i : Instruction) : NeverRejects i.conditionBits := by
  unfold conditionBits
  split
  · refine Outcome.bind (neverRejects_field _ _) fun f _ => ?_
    split
    · exact neverRejects_liftField _
    · rintro r ⟨⟩
  · trivial

/-- The word of an instruction does not depend on its place. -/
theorem encode_together (h : i.Corresponds m i') : Together m Eq i.encode i'.encode := by
  have hcondition : i'.conditionBits = i.conditionBits := by
    rw [conditionBits, conditionBits, h.format, h.condition]
  unfold encode
  rw [h.format, hcondition]
  refine (neverRejects_liftField _).together.bind ?_
  rintro opcode _ rfl
  refine (neverRejects_conditionBits i).together.bind ?_
  rintro condition _ rfl
  exact encodeSlots_together h _ h.operands _

end Instruction

/-! ### The two passes -/

/-- The first pass succeeds on both programs, or both repeat a label at corresponding places. -/
theorem collect_together {p p' : Program} (h : p.Corresponds m p') :
    Together m (fun table table' => table = p.table ∧ table' = p'.table) (collect p)
      (collect p') := by
  by_cases hnodup : p.labelNames.Nodup
  · have hnodup' : p'.labelNames.Nodup := by rwa [h.labelNames_eq]
    rw [collect_of_nodup hnodup, collect_of_nodup hnodup']
    exact ⟨rfl, rfl⟩
  · obtain ⟨before, first, l, after, hrepeats⟩ := Program.exists_repeats hnodup
    rw [collect_of_repeats hrepeats]
    obtain ⟨rfl, hdistinct, hfirst, hname⟩ := hrepeats
    -- the second program repeats the corresponding label, and defines it first where the first does
    obtain ⟨before', e', after', rfl, hbefore, he, -⟩ := exists_split_of_forall₂ h
    obtain ⟨first', hfirst', hcorresponds⟩ := Program.Corresponds.exists_label hbefore hfirst
    cases he with
    | @label _ l' hl =>
        have hrepeats' :
            Program.Repeats (before' ++ .label l' :: after') before' first' l' after' :=
          { split := rfl
            distinct := by rwa [Program.Corresponds.labelNames_eq hbefore]
            first_mem := hfirst'
            name_eq := by rw [hcorresponds.name, hl.name, hname] }
        rw [collect_of_repeats hrepeats', hl.name]
        exact together_reject (.duplicateLabel hcorresponds.place.line) hl.place

section Link

variable (bias : Int) {table table' : SymbolTable} (address : Nat) {i i' : Instruction}

theorem branchOffset_together (htable : ∀ name, table'.address? name = table.address? name)
    (h : i.Corresponds m i') {o o' : Operand} (ho : o.Corresponds m o') (name : Text) :
    Together m Eq (branchOffset bias table address i o name)
      (branchOffset bias table' address i' o' name) := by
  unfold branchOffset
  rw [htable, h.format, h.mnemonic]
  cases table.address? name with
  | none => exact together_reject (.same rfl) (h.place ho)
  | some target =>
      refine (neverRejects_field _ _).together.bind ?_
      rintro field _ rfl
      refine together_fitting field _ ?_ (fun _ => rfl) (h.place ho)
      exact (rfl : target - (address + bias) = target - (address + bias))

theorem linkOperand_together (htable : ∀ name, table'.address? name = table.address? name)
    (h : i.Corresponds m i') {o o' : Operand} (ho : o.Corresponds m o') :
    Together m (Operand.Corresponds m) (linkOperand bias table address i o)
      (linkOperand bias table' address i' o') := by
  unfold linkOperand
  rw [ho.content]
  cases o.content with
  | label name =>
      refine (branchOffset_together bias address htable h ho name).bind ?_
      rintro offset _ rfl
      exact ⟨rfl, ho.spot⟩
  | _ => exact ho

/-- The second pass on corresponding entries at the same address. -/
theorem linkEntry_together (htable : ∀ name, table'.address? name = table.address? name)
    {x x' : Nat × Entry} (h : x'.1 = x.1 ∧ Entry.Corresponds m x.2 x'.2) :
    Together m (Entry.Corresponds m) (linkEntry bias table x) (linkEntry bias table' x') := by
  obtain ⟨a, e⟩ := x
  obtain ⟨a', e'⟩ := x'
  obtain ⟨rfl, he⟩ := h
  cases he with
  | label hl => exact Entry.Corresponds.label hl
  | instruction hi =>
      have hoperands := Together.mapM
        (fun _ _ ho => linkOperand_together bias a' htable hi ho) hi.operands
      refine hoperands.bind fun os os' hos => ?_
      exact Entry.Corresponds.instruction
        ⟨hi.mnemonic, hi.format, hi.condition, hos, hi.line, hi.text⟩

end Link

/-! ### Words of programs -/

namespace Program

/-- The words of a program, after both passes. -/
def assembled (bias : Int) (p : Program) : Except Fault (List Int) := do
  let table ← collect p
  let q ← p.addressed.mapM (linkEntry bias table.freeze)
  encode q

theorem encode_together {p p' : Program} (h : p.Corresponds m p') :
    Together m Eq (encode p) (encode p') :=
  (Together.mapM (fun _ _ hi => Instruction.encode_together hi) h.instructions).imp
    fun _ _ hwords => List.forall₂_eq_eq_eq ▸ hwords

/-- **Corresponding programs have the same words, or corresponding faults.** -/
theorem assembled_together (bias : Int) {p p' : Program} (h : p.Corresponds m p') :
    Together m Eq (assembled bias p) (assembled bias p') := by
  refine (collect_together h).bind ?_
  rintro _ _ ⟨rfl, rfl⟩
  refine Together.bind (Together.mapM ?_ (h.addressedFrom 0)) fun q q' hq => encode_together hq
  exact fun x x' hx => linkEntry_together bias h.address?_eq hx

end Program

section Assemble

variable (isa : InstructionSet) (bias : Int)

/-- Assembling a source is reading it and assembling the program. -/
theorem words_assemble (source : Text) :
    (do return (← assemble isa bias source).words) = (do (← parse isa source).assembled bias) := by
  rw [assemble_eq]
  cases parse isa source with
  | error e => rfl
  | ok p =>
      simp only [ok_bind, Program.assembled]
      cases collect p with
      | error e => rfl
      | ok table =>
          simp only [ok_bind]
          cases p.addressed.mapM (linkEntry bias table.freeze) with
          | error e => rfl
          | ok q =>
              simp only [ok_bind]
              cases Program.encode q <;> rfl

/-- Sources that are read alike are assembled to the same words, or stopped at corresponding
places. -/
theorem assemble_together {source source' : Text}
    (h : Together m (Program.Corresponds m) (parse isa source) (parse isa source')) :
    Together m (fun a a' => a'.words = a.words) (assemble isa bias source)
      (assemble isa bias source') := by
  have hwords := h.bind fun p p' hp => Program.assembled_together bias hp
  rw [← words_assemble, ← words_assemble] at hwords
  cases ha : assemble isa bias source with
  | error e =>
      rw [ha] at hwords
      cases ha' : assemble isa bias source' with
      | error e' => rwa [ha'] at hwords
      | ok a' => rw [ha'] at hwords; exact hwords.elim
  | ok a =>
      rw [ha] at hwords
      cases ha' : assemble isa bias source' with
      | error e' => rw [ha'] at hwords; exact hwords.elim
      | ok a' => rw [ha'] at hwords; exact Eq.symm hwords

end Assemble

end ThumbAssembler
