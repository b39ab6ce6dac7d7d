/-
**Changes of a state that may fail.**

A procedure reads and changes a state, and may stop with a fault.  What it changed before the fault
remains, so whether a procedure that fails leaves the state as it was depends on the order of its
steps.

Main definitions:

* `ThumbAssembler.Procedure` — a change of a state that may stop with a fault;
* `ThumbAssembler.Procedure.applyTo` — the state after a procedure, and its value or the fault.

Main results:

* `ThumbAssembler.Procedure.applyTo_bind_of_ok`, `ThumbAssembler.Procedure.applyTo_bind_of_error` —
  one procedure after the other, and one that is cut off by a fault.
-/

import ThumbAssembler.Fault

set_option autoImplicit false

namespace ThumbAssembler

/-- A change of a state that may stop with a fault; what was changed before the fault remains. -/
abbrev Procedure (σ : Type) := ExceptT Fault (StateM σ)

namespace Procedure

variable {σ α β : Type}

/-- The state after a procedure, and its value or the fault that stopped it. -/
def applyTo (x : Procedure σ α) (s : σ) : σ × Except Fault α := (x.run.run s).swap

@[simp] theorem applyTo_pure (a : α) (s : σ) : applyTo (pure a) s = (s, .ok a) := rfl

@[simp] theorem applyTo_get (s : σ) : applyTo get s = (s, .ok s) := rfl

@[simp] theorem applyTo_modify (f : σ → σ) (s : σ) : applyTo (modify f) s = (f s, .ok ⟨⟩) := rfl

/-- A computation leaves the state as it is. -/
@[simp] theorem applyTo_lift (r : Except Fault α) (s : σ) : applyTo (liftM r) s = (s, r) := rfl

theorem run_eq {x : Procedure σ α} {s s' : σ} {r : Except Fault α} (h : x.applyTo s = (s', r)) :
    x.run.run s = (r, s') := by
  rw [← Prod.swap_swap (x.run.run s)]
  exact congrArg Prod.swap h

/-- What comes after a procedure starts from the state that it leaves. -/
theorem applyTo_bind_of_ok {x : Procedure σ α} {s s' : σ} {a : α}
    (h : x.applyTo s = (s', .ok a)) (f : α → Procedure σ β) :
    (x >>= f).applyTo s = (f a).applyTo s' := by
  rw [applyTo, ExceptT.run_bind, StateT.run_bind, run_eq h]
  rfl

/-- A fault cuts off what comes after it, and leaves the state as it is by then. -/
theorem applyTo_bind_of_error {x : Procedure σ α} {s s' : σ} {e : Fault}
    (h : x.applyTo s = (s', .error e)) (f : α → Procedure σ β) :
    (x >>= f).applyTo s = (s', .error e) := by
  rw [applyTo, ExceptT.run_bind, StateT.run_bind, run_eq h]
  rfl

end Procedure

end ThumbAssembler
