/-
**Computations that stop at the first failure.**

Every stage of the assembler walks a list and stops at the first element that it cannot handle.
This module says once what such a walk does: it succeeds exactly when every element does, and it
fails exactly with the failure of an element before which all others succeed.

Main definitions:

* `ThumbAssembler.Outcome` — what is known of a computation: one property of its result, another of
  the failure that stopped it.

Main results:

* `ThumbAssembler.Outcome.bind` — what is known of a sequence of two steps;
* `ThumbAssembler.bind_eq_ok_iff`, `ThumbAssembler.bind_eq_error_iff` — a sequence of two steps;
* `ThumbAssembler.mapM_eq_ok_iff` — **a walk succeeds exactly when every element does**;
* `ThumbAssembler.mapM_eq_error_iff` — **a walk fails exactly at its first failing element**.
-/

import Mathlib

set_option autoImplicit false

namespace ThumbAssembler

variable {ε α β : Type}

/-! ### Two steps -/

theorem bind_eq_ok_iff {x : Except ε α} {f : α → Except ε β} {b : β} :
    (x >>= f) = .ok b ↔ ∃ a, x = .ok a ∧ f a = .ok b := by
  cases x <;> simp [bind, Except.bind]

theorem bind_eq_error_iff {x : Except ε α} {f : α → Except ε β} {e : ε} :
    (x >>= f) = .error e ↔ x = .error e ∨ ∃ a, x = .ok a ∧ f a = .error e := by
  cases x <;> simp [bind, Except.bind]

@[simp] theorem ok_bind (a : α) (f : α → Except ε β) : (Except.ok a >>= f) = f a := rfl

@[simp] theorem error_bind (e : ε) (f : α → Except ε β) :
    ((Except.error e : Except ε α) >>= f) = .error e := rfl

@[simp] theorem pure_eq_ok (a : α) : (pure a : Except ε α) = .ok a := rfl

/-! ### Results -/

theorem toOption_eq_some_iff {x : Except ε α} {a : α} : x.toOption = some a ↔ x = .ok a := by
  cases x <;> simp [Except.toOption]

/-- A test that a result passes says that there is a result. -/
theorem exists_ok_of_any {x : Except ε α} {test : α → Bool}
    (h : x.toOption.any test = true) : ∃ a, x = .ok a ∧ test a = true := by
  cases x with
  | ok a => exact ⟨a, rfl, h⟩
  | error e => cases h

/-! ### Outcomes -/

/-- `P` holds of the result of a computation, or `E` of the failure that stopped it. -/
def Outcome (P : α → Prop) (E : ε → Prop) : Except ε α → Prop
  | .ok a => P a
  | .error e => E e

namespace Outcome

variable {P : α → Prop} {Q : β → Prop} {E E' : ε → Prop}

theorem bind {x : Except ε α} {f : α → Except ε β} (hx : Outcome P E x)
    (hf : ∀ a, P a → Outcome Q E (f a)) : Outcome Q E (x >>= f) := by
  cases x with
  | ok a => exact hf a hx
  | error e => exact hx

theorem of_ok {x : Except ε α} (h : Outcome P E x) {a : α} (hx : x = .ok a) : P a := by
  subst hx
  exact h

theorem of_error {x : Except ε α} (h : Outcome P E x) {e : ε} (hx : x = .error e) : E e := by
  subst hx
  exact h

theorem imp {P' : α → Prop} {x : Except ε α} (h : Outcome P E x) (hP : ∀ a, P a → P' a)
    (hE : ∀ e, E e → E' e) : Outcome P' E' x := by
  cases x with
  | ok a => exact hP a h
  | error e => exact hE e h

end Outcome

/-! ### Walks along a list -/

/-- Two relations that agree on the elements of a list relate it to the same lists. -/
theorem forall₂_congr_of_mem {R S : α → β → Prop} {l : List α} {bs : List β}
    (h : ∀ a ∈ l, ∀ b, R a b ↔ S a b) : List.Forall₂ R l bs ↔ List.Forall₂ S l bs := by
  induction l generalizing bs with
  | nil => rw [List.forall₂_nil_left_iff, List.forall₂_nil_left_iff]
  | cons a l ih =>
      obtain ⟨ha, hl⟩ := List.forall_mem_cons.1 h
      simp only [List.forall₂_cons_left_iff, ha, ih hl]

theorem exists_left_of_forall₂ {R : α → β → Prop} {l : List α} {bs : List β}
    (h : List.Forall₂ R l bs) {b : β} (hb : b ∈ bs) : ∃ a ∈ l, R a b := by
  induction h with
  | nil => simp at hb
  | cons hab _ ih =>
      rcases List.mem_cons.1 hb with rfl | hb
      · exact ⟨_, List.mem_cons_self, hab⟩
      · obtain ⟨a, ha, hab⟩ := ih hb
        exact ⟨a, List.mem_cons_of_mem _ ha, hab⟩

/-- Related lists have related elements in the same places. -/
theorem exists_getElem?_of_forall₂ {R : α → β → Prop} {l : List α} {bs : List β}
    (h : List.Forall₂ R l bs) {k : Nat} {a : α} (ha : l[k]? = some a) :
    ∃ b, bs[k]? = some b ∧ R a b := by
  induction h generalizing k with
  | nil => simp at ha
  | cons hab _ ih =>
      cases k with
      | zero =>
          obtain rfl := Option.some_inj.1 ha
          exact ⟨_, rfl, hab⟩
      | succ k => exact ih ha

/-- **A walk succeeds exactly when every element does.** -/
theorem mapM_eq_ok_iff {f : α → Except ε β} {l : List α} {bs : List β} :
    l.mapM f = .ok bs ↔ List.Forall₂ (fun a b => f a = .ok b) l bs := by
  induction l generalizing bs with
  | nil =>
      rw [List.mapM_nil, pure_eq_ok, List.forall₂_nil_left_iff, Except.ok.injEq]
      exact eq_comm
  | cons a l ih =>
      rw [List.mapM_cons, bind_eq_ok_iff, List.forall₂_cons_left_iff]
      constructor
      · rintro ⟨b, hb, h⟩
        obtain ⟨bs', hbs', h⟩ := bind_eq_ok_iff.1 h
        exact ⟨b, bs', hb, ih.1 hbs', (Except.ok.inj h).symm⟩
      · rintro ⟨b, bs', hb, hbs', rfl⟩
        exact ⟨b, hb, by rw [ih.2 hbs']; rfl⟩

theorem exists_mapM_eq_ok_iff {f : α → Except ε β} {l : List α} :
    (∃ bs, l.mapM f = .ok bs) ↔ ∀ a ∈ l, ∃ b, f a = .ok b := by
  induction l with
  | nil => simp
  | cons a l ih =>
      rw [List.forall_mem_cons, ← ih]
      constructor
      · rintro ⟨bs, h⟩
        obtain ⟨b, hb, h⟩ := bind_eq_ok_iff.1 (List.mapM_cons (m := Except ε) ▸ h)
        obtain ⟨bs', hbs', -⟩ := bind_eq_ok_iff.1 h
        exact ⟨⟨b, hb⟩, ⟨bs', hbs'⟩⟩
      · rintro ⟨⟨b, hb⟩, ⟨bs, hbs⟩⟩
        exact ⟨b :: bs, by rw [List.mapM_cons, hb, ok_bind, hbs]; rfl⟩

/-- **A walk fails exactly at its first failing element.** -/
theorem mapM_eq_error_iff {f : α → Except ε β} {l : List α} {e : ε} :
    l.mapM f = .error e ↔
      ∃ before a after, l = before ++ a :: after ∧ (∀ x ∈ before, ∃ b, f x = .ok b) ∧
        f a = .error e := by
  induction l with
  | nil => simp
  | cons x l ih =>
      rw [List.mapM_cons, bind_eq_error_iff]
      constructor
      · rintro (hx | ⟨b, hb, h⟩)
        · exact ⟨[], x, l, rfl, by simp, hx⟩
        · rcases bind_eq_error_iff.1 h with h | ⟨bs, -, h⟩
          · obtain ⟨before, a, after, rfl, hbefore, ha⟩ := ih.1 h
            exact ⟨x :: before, a, after, rfl, List.forall_mem_cons.2 ⟨⟨b, hb⟩, hbefore⟩, ha⟩
          · cases h
      · rintro ⟨before, a, after, hl, hbefore, ha⟩
        cases before with
        | nil =>
            obtain ⟨rfl, -⟩ := List.cons.inj hl
            exact Or.inl ha
        | cons y before =>
            obtain ⟨rfl, rfl⟩ := List.cons.inj hl
            obtain ⟨⟨b, hb⟩, hbefore⟩ := List.forall_mem_cons.1 hbefore
            have hrest := ih.2 ⟨before, a, after, rfl, hbefore, ha⟩
            exact Or.inr ⟨b, hb, by rw [hrest, error_bind]⟩

end ThumbAssembler
