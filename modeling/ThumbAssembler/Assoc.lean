/-
**Association lists in order of first insertion.**

A list of pairs serves as a finite map that remembers the order in which its keys first came:
putting a value under a key that is present replaces the value where it stands.

Main definitions:

* `ThumbAssembler.Assoc.get?` — the value under a key;
* `ThumbAssembler.Assoc.put` — the map with a value under a key.

Main results:

* `ThumbAssembler.Assoc.get?_put_self`, `ThumbAssembler.Assoc.get?_put_of_ne` — a value that is put
  is found under its key, and other keys keep theirs;
* `ThumbAssembler.Assoc.keys_put` — a present key keeps its place, and a new one comes last;
* `ThumbAssembler.Assoc.get?_eq_some_iff` — with distinct keys, a value is found under a key exactly
  when the pair is in the list.
-/

set_option autoImplicit false

namespace ThumbAssembler

namespace Assoc

variable {κ α : Type} [DecidableEq κ]

/-- The value under a key. -/
def get? (k : κ) : List (κ × α) → Option α
  | [] => none
  | (k', v) :: rest => if k' = k then some v else get? k rest

/-- The map with `v` under `k`. -/
def put (k : κ) (v : α) : List (κ × α) → List (κ × α)
  | [] => [(k, v)]
  | (k', v') :: rest => if k' = k then (k', v) :: rest else (k', v') :: put k v rest

@[simp] theorem get?_put_self (k : κ) (v : α) (m : List (κ × α)) : get? k (put k v m) = some v := by
  induction m with
  | nil => simp [put, get?]
  | cons p rest ih =>
      by_cases h : p.1 = k
      · simp [put, get?, h]
      · simp [put, get?, h, ih]

theorem get?_put_of_ne {k k' : κ} (h : k ≠ k') (v : α) (m : List (κ × α)) :
    get? k' (put k v m) = get? k' m := by
  induction m with
  | nil => simp [put, get?, h]
  | cons p rest ih =>
      obtain ⟨key, value⟩ := p
      by_cases hp : key = k
      · subst hp
        simp [put, get?, h]
      · by_cases hq : key = k'
        · subst hq
          simp [put, get?, hp]
        · simp [put, get?, hp, hq, ih]

/-- **A present key keeps its place, and a new one comes last.** -/
theorem keys_put (k : κ) (v : α) (m : List (κ × α)) :
    (put k v m).map Prod.fst =
      if k ∈ m.map Prod.fst then m.map Prod.fst else m.map Prod.fst ++ [k] := by
  induction m with
  | nil => simp [put]
  | cons p rest ih =>
      by_cases hp : p.1 = k
      · simp [put, hp]
      · have hp' : k ≠ p.1 := fun h => hp h.symm
        by_cases hk : k ∈ rest.map Prod.fst
        · simp only [put, hp, if_false, List.map_cons, ih, hk, if_true, List.mem_cons, hp',
            false_or]
        · simp only [put, hp, if_false, List.map_cons, ih, hk, List.mem_cons, hp', or_self,
            List.cons_append]

/-- A key is present exactly when a value is found under it. -/
theorem get?_isSome_iff (k : κ) (m : List (κ × α)) :
    (get? k m).isSome = true ↔ k ∈ m.map Prod.fst := by
  induction m with
  | nil => simp [get?]
  | cons p rest ih =>
      by_cases hp : p.1 = k
      · simp [get?, hp]
      · have hp' : k ≠ p.1 := fun h => hp h.symm
        simp [get?, hp, hp', ih]

theorem mem_of_get?_eq_some {k : κ} {v : α} {m : List (κ × α)} (h : get? k m = some v) :
    (k, v) ∈ m := by
  induction m with
  | nil => simp [get?] at h
  | cons p rest ih =>
      obtain ⟨key, value⟩ := p
      by_cases hp : key = k
      · rw [get?, if_pos hp, Option.some_inj] at h
        rw [hp, h]
        exact List.mem_cons_self
      · rw [get?, if_neg hp] at h
        exact List.mem_cons_of_mem _ (ih h)

/-- A pair of the new map is the one that was put or an old one. -/
theorem mem_put {k : κ} {v : α} {m : List (κ × α)} {p : κ × α} (h : p ∈ put k v m) :
    p = (k, v) ∨ p ∈ m := by
  induction m with
  | nil => exact Or.inl (by simpa [put] using h)
  | cons q rest ih =>
      by_cases hq : q.1 = k
      · rw [put, if_pos hq] at h
        rcases List.mem_cons.1 h with rfl | h
        · exact Or.inl (by rw [hq])
        · exact Or.inr (List.mem_cons_of_mem _ h)
      · rw [put, if_neg hq] at h
        rcases List.mem_cons.1 h with rfl | h
        · exact Or.inr List.mem_cons_self
        · exact (ih h).imp id (List.mem_cons_of_mem _)

theorem put_of_not_mem {k : κ} (v : α) {m : List (κ × α)} (h : k ∉ m.map Prod.fst) :
    put k v m = m ++ [(k, v)] := by
  induction m with
  | nil => rfl
  | cons p rest ih =>
      rw [List.map_cons, List.mem_cons, not_or] at h
      rw [put, if_neg (Ne.symm h.1), ih h.2, List.cons_append]

/-- With distinct keys, a value is found under a key exactly when the pair is in the list. -/
theorem get?_eq_some_iff {m : List (κ × α)} (h : (m.map Prod.fst).Nodup) (k : κ) (v : α) :
    get? k m = some v ↔ (k, v) ∈ m := by
  induction m with
  | nil => simp [get?]
  | cons p rest ih =>
      obtain ⟨key, value⟩ := p
      rw [List.map_cons, List.nodup_cons] at h
      by_cases hp : key = k
      · subst hp
        have hnot : (key, v) ∉ rest := fun hm => h.1 (List.mem_map.2 ⟨(key, v), hm, rfl⟩)
        simp only [get?, if_true, Option.some.injEq, List.mem_cons, Prod.mk.injEq, true_and, hnot,
          or_false]
        exact eq_comm
      · have hp' : ¬ k = key := fun hk => hp hk.symm
        simp only [get?, if_neg hp, ih h.2, List.mem_cons, Prod.mk.injEq, hp', false_and, false_or]

end Assoc

end ThumbAssembler
