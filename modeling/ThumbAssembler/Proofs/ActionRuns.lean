/-
**Runs of actions.**

An action runs in a workspace and either stops or ends with a value.  This module says what it takes
for an action to end, and follows the disk through it: unless some logger writes to a file, only a
change of the disk changes the disk.

Main definitions:

* `ThumbAssembler.Action.Ends` — an action ends, with a value and a workspace of a given property;
* `ThumbAssembler.Journal.Fileless` — no logger writes to a file;
* `ThumbAssembler.Workspace.Holds` — a workspace with a given disk that no logger writes to.

Main results:

* `ThumbAssembler.Action.Ends.bind` — one action after the other;
* `ThumbAssembler.Workspace.Holds.log` — **making a record leaves the disk as it is**;
* `ThumbAssembler.Workspace.output_log` — and prints nothing;
* `ThumbAssembler.ends_startLogging` — so does setting up logging without a log file.
-/

import Mathlib
import ThumbAssembler.CommandLine.Run

set_option autoImplicit false

namespace ThumbAssembler

/-! ### Actions that end -/

namespace Action

/-- The action ends, and its value and the workspace after it have the property. -/
def Ends {α : Type} (x : Action α) (w : Workspace) (P : α → Workspace → Prop) : Prop :=
  ∃ a w', x.run.run w = (.ok a, w') ∧ P a w'

variable {α β : Type} {w : Workspace} {P : α → Workspace → Prop} {Q : β → Workspace → Prop}

theorem Ends.pure {a : α} (h : P a w) : Ends (Pure.pure a) w P := ⟨a, w, rfl, h⟩

/-- One action after the other. -/
theorem Ends.bind {x : Action α} {f : α → Action β} (h : Ends x w P)
    (hf : ∀ a w', P a w' → Ends (f a) w' Q) : Ends (x >>= f) w Q := by
  obtain ⟨a, w', hx, ha⟩ := h
  obtain ⟨b, w'', hf, hb⟩ := hf a w' ha
  refine ⟨b, w'', ?_, hb⟩
  rw [ExceptT.run_bind, StateT.run_bind, hx]
  exact hf

theorem Ends.imp {x : Action α} {P' : α → Workspace → Prop} (h : Ends x w P)
    (hP : ∀ a w', P a w' → P' a w') : Ends x w P' := by
  obtain ⟨a, w', hx, ha⟩ := h
  exact ⟨a, w', hx, hP a w' ha⟩

theorem ends_modify {P : Unit → Workspace → Prop} {f : Workspace → Workspace} (h : P () (f w)) :
    Ends (modify f) w P := ⟨(), f w, rfl, h⟩

/-- A question about the disk ends if it has an answer. -/
theorem ends_ask {question : Disk → Except FileFailure α} {a : α}
    (hanswer : question w.disk = .ok a) (h : P a w) : Ends (ask question) w P := by
  have hget : Ends (get : Action Workspace) w fun s w' => s = w ∧ w' = w := ⟨w, w, rfl, rfl, rfl⟩
  refine hget.bind ?_
  rintro _ _ ⟨rfl, rfl⟩
  rw [hanswer]
  exact Ends.pure h

/-- A change of the disk ends if it can be made. -/
theorem ends_change {P : Unit → Workspace → Prop} {f : Disk → Except FileFailure Disk} {d : Disk}
    (hchange : f w.disk = .ok d) (h : P () { w with disk := d }) : Ends (change f) w P :=
  Ends.bind (P := fun d' w' => d' = d ∧ w' = w) (ends_ask hchange ⟨rfl, rfl⟩)
    (by rintro _ _ ⟨rfl, rfl⟩; exact ends_modify h)

theorem ends_compute {x : Except Fault α} {a : α} (hx : x = .ok a) (h : P a w) :
    Ends (compute x) w P := by
  subst hx
  exact Ends.pure h

end Action

/-- An action that ends meets no error of the file system to report. -/
theorem ends_reportingFileErrors {x : Action Int} {w : Workspace} {P : Int → Workspace → Prop}
    (h : x.Ends w P) : (reportingFileErrors x).Ends w P := by
  obtain ⟨a, w', hx, ha⟩ := h
  refine ⟨a, w', ?_, ha⟩
  unfold reportingFileErrors
  rw [ExceptT.run_tryCatch, StateT.run_bind, hx]
  rfl

/-! ### Loggers without log files -/

/-- The handler writes to no file. -/
def Handler.Fileless (h : Handler) : Prop := ∀ l, h.channel ≠ .file l

namespace Journal

/-- No logger writes to a file. -/
def Fileless (j : Journal) : Prop := ∀ entry ∈ j.loggers, ∀ h ∈ entry.2.handlers, h.Fileless

theorem fileless_empty : Fileless {} := by simp [Fileless]

variable {j : Journal}

theorem Fileless.logger (h : j.Fileless) (name : Text) :
    ∀ g ∈ (j.logger name).handlers, g.Fileless := by
  unfold Journal.logger
  cases hget : Assoc.get? name j.loggers with
  | none =>
      rw [Option.getD_none]
      split <;> simp [rootDefault]
  | some l => exact h _ (Assoc.mem_of_get?_eq_some hget)

theorem handlers_adopt (new : Text) (entry : Text × Logger) :
    (adopt new entry).2.handlers = entry.2.handlers := by
  unfold adopt
  split <;> rfl

/-- A new logger has no handlers, and leaves the others theirs. -/
theorem Fileless.meet (h : j.Fileless) (k : Text) : (j.meet k).Fileless := by
  unfold Journal.meet
  split
  · exact h
  · intro entry hentry
    rcases List.mem_append.1 hentry with hentry | hentry
    · obtain ⟨entry', hentry', rfl⟩ := List.mem_map.1 hentry
      rw [handlers_adopt]
      exact h entry' hentry'
    · rw [List.mem_singleton.1 hentry]
      simp

theorem Fileless.after (h : j.Fileless) (r : Record) : (j.after r).Fileless := h.meet _

theorem Fileless.configure (h : j.Fileless) (name : Text) (level : Int) {handlers : List Handler}
    (hhandlers : ∀ g ∈ handlers, g.Fileless) : (j.configure name level handlers).Fileless := by
  intro entry hentry
  rcases Assoc.mem_put hentry with rfl | hentry
  · exact hhandlers
  · exact h.meet _ entry hentry

theorem Fileless.chain (h : j.Fileless) (k : Text) :
    ∀ l ∈ j.chain k, ∀ g ∈ l.handlers, g.Fileless := by
  fun_induction Journal.chain j k with
  | case1 k hlength ih => exact List.forall_mem_cons.2 ⟨h.logger k, ih⟩
  | case2 k hlength => exact List.forall_mem_singleton.2 (h.logger k)

theorem fileless_handlersOf {loggers : List Logger}
    (h : ∀ l ∈ loggers, ∀ g ∈ l.handlers, g.Fileless) : ∀ g ∈ handlersOf loggers, g.Fileless := by
  induction loggers with
  | nil => simp [handlersOf]
  | cons l loggers ih =>
      obtain ⟨hl, hloggers⟩ := List.forall_mem_cons.1 h
      intro g hg
      rcases List.mem_append.1 hg with hg | hg
      · exact hl g hg
      · split at hg
        · exact ih hloggers g hg
        · simp at hg

/-- No record goes to a file. -/
theorem Fileless.deliveries (h : j.Fileless) (r : Record) :
    ∀ l, Delivery.to (.file l) ∉ j.deliveries r := by
  intro l hl
  unfold Journal.deliveries at hl
  split at hl
  · simp only at hl
    split at hl
    · split at hl <;> simp at hl
    · obtain ⟨g, hg, hchannel⟩ := List.mem_map.1 hl
      have hg := fileless_handlersOf (h.chain _) g (List.mem_filter.1 hg).1
      exact hg l (Delivery.to.inj hchannel)
  · simp at hl

end Journal

/-! ### Workspaces -/

namespace Workspace

/-- The workspace has the disk, and no logger writes to it. -/
structure Holds (d : Disk) (w : Workspace) : Prop where
  disk : w.disk = d
  journal : w.journal.Fileless

variable {d : Disk} {w : Workspace}

theorem disk_deliver {delivery : Journal.Delivery} (h : ∀ l, delivery ≠ .to (.file l)) (r : Record)
    (w : Workspace) : (w.deliver r delivery).disk = w.disk ∧
      (w.deliver r delivery).journal = w.journal := by
  rcases delivery with channel | _
  · cases channel with
    | file l => exact absurd rfl (h l)
    | panel => exact ⟨rfl, rfl⟩
    | stream => exact ⟨rfl, rfl⟩
  · exact ⟨rfl, rfl⟩

theorem Holds.deliver (h : w.Holds d) {deliveries : List Journal.Delivery} {r : Record}
    (hdeliveries : ∀ l, .to (.file l) ∉ deliveries) :
    (deliveries.foldl (Workspace.deliver r) w).Holds d := by
  induction deliveries generalizing w with
  | nil => exact h
  | cons delivery deliveries ih =>
      obtain ⟨hdisk, hjournal⟩ := disk_deliver
        (fun l hl => hdeliveries l (hl ▸ List.mem_cons_self)) r w
      refine ih ⟨hdisk.trans h.disk, hjournal ▸ h.journal⟩ fun l hl => ?_
      exact hdeliveries l (List.mem_cons_of_mem _ hl)

/-- **Making a record leaves the disk as it is.** -/
theorem Holds.log (h : w.Holds d) (r : Record) : (w.log r).Holds d := by
  have hjournal := h.journal.after r
  exact Holds.deliver (w := { w with journal := w.journal.after r }) ⟨h.disk, hjournal⟩
    (hjournal.deliveries r)

theorem Holds.logAll (h : w.Holds d) (rs : List Record) : (rs.foldl Workspace.log w).Holds d := by
  induction rs generalizing w with
  | nil => exact h
  | cons r rs ih => exact ih (h.log r)

/-- **Records are not printed.** -/
theorem output_log (w : Workspace) (r : Record) : (w.log r).output = w.output := by
  have hdeliver (w : Workspace) (ds : List Journal.Delivery) :
      (ds.foldl (Workspace.deliver r) w).output = w.output := by
    induction ds generalizing w with
    | nil => rfl
    | cons d ds ih =>
        rw [List.foldl_cons, ih]
        unfold Workspace.deliver
        split <;> rfl
  exact hdeliver _ _

theorem output_logAll (w : Workspace) (rs : List Record) :
    (rs.foldl Workspace.log w).output = w.output := by
  induction rs generalizing w with
  | nil => rfl
  | cons r rs ih => rw [List.foldl_cons, ih, output_log]

end Workspace

/-- A report ends with the records of its source made. -/
theorem ends_assembleLogged {target : Target} {width : RowWidth} {source : Text} {r : Report}
    {w : Workspace} {P : Report → Workspace → Prop}
    (hr : report Thumb.instructionSet target width source = .ok r)
    (h : P r ((narration Thumb.instructionSet target source).foldl Workspace.log w)) :
    (assembleLogged target width source).Ends w P := by
  refine (Action.ends_modify (P := fun _ w' => P r w') h).bind fun _ w' hw' => ?_
  exact Action.ends_compute hr hw'

theorem ends_setUpLogging {d : Disk} {w : Workspace} (h : w.Holds d) {s : LogSetup}
    (hlog : s.logFile = none) : (setUpLogging s).Ends w fun _ w' => w'.Holds d := by
  have hnone : ∀ g ∈ ([] : List Handler), g.Fileless := by simp
  have hcleared := h.journal.configure s.name s.level hnone
  have hconsole : ∀ g ∈ [(⟨if s.panel then .panel else .stream, s.consoleLevel⟩ : Handler)],
      g.Fileless := by
    rw [List.forall_mem_singleton]
    intro l
    simp only
    split <;> simp
  unfold setUpLogging LogSetup.handlers
  rw [hlog]
  refine (Action.ends_modify (P := fun _ w' => w'.Holds d)
    ⟨h.disk, hcleared⟩).bind fun _ w' hw' => ?_
  refine (Action.Ends.pure (P := fun handlers w'' => (∀ g ∈ handlers, g.Fileless) ∧ w''.Holds d)
    ⟨hconsole, hw'⟩).bind fun handlers w'' hw'' => ?_
  refine (Action.ends_modify (P := fun _ w' => w'.Holds d)
    ⟨hw''.2.disk, hw''.2.journal.configure _ _ hw''.1⟩).bind fun _ w' hw' => ?_
  exact Action.ends_modify (hw'.log _)

/-- Setting up logging without a log file leaves the disk as it is. -/
theorem ends_startLogging {d : Disk} {w : Workspace} (h : w.Holds d) {r : Request}
    (hlog : r.logFile = .absent) (c : Command) :
    (startLogging r c).Ends w fun _ w' => w'.Holds d := by
  unfold startLogging Request.logPath
  rw [hlog]
  refine (Action.Ends.pure (P := fun path w' => path = none ∧ w' = w) ⟨rfl, rfl⟩).bind ?_
  rintro _ _ ⟨rfl, rfl⟩
  refine (ends_setUpLogging h rfl).bind fun _ w' hw' => ?_
  exact Action.ends_modify (hw'.log _)

end ThumbAssembler
