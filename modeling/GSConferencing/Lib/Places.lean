import Mathlib

/-!
# Things in places

Every place holds a list of things, and every thing should be in exactly one place, once.

* `Exact.of_perm`, `Exact.move`: things that move between two places stay in exactly one.
* `Exact.not_dropped`: a thing that is dropped is lost.
* `slots_update`: what a row of slots holds when one of them is filled or emptied.
-/

namespace GSConferencing.Lib.Places

variable {π β : Type*}

/-! ## Slots -/

/-- What a row of slots holds. -/
def slots {n : ℕ} (f : Fin n → Option β) : List β := (List.finRange n).filterMap f

theorem mem_slots {n : ℕ} {f : Fin n → Option β} {b : β} : b ∈ slots f ↔ ∃ i, f i = some b := by
  simp only [slots, List.mem_filterMap, List.mem_finRange, true_and]

/-- **A slot that is filled** adds its thing to what the others hold. -/
theorem slots_update {n : ℕ} (f : Fin n → Option β) (i : Fin n) (o : Option β) :
    (slots (Function.update f i o)).Perm (o.toList ++ slots (Function.update f i none)) := by
  obtain ⟨l₁, l₂, hl⟩ := List.append_of_mem (List.mem_finRange i)
  have hnd : (l₁ ++ i :: l₂).Nodup := hl ▸ List.nodup_finRange n
  have hmid : i ∉ l₁ ++ l₂ := (List.nodup_cons.mp (List.nodup_middle.mp hnd)).1
  rw [List.mem_append, not_or] at hmid
  have hother : ∀ (o' : Option β) (l : List (Fin n)), i ∉ l →
      l.filterMap (Function.update f i o') = l.filterMap f := by
    intro o' l hi
    refine List.filterMap_congr fun j hj => Function.update_of_ne ?_ _ _
    rintro rfl
    exact hi hj
  have hslots : ∀ o' : Option β, slots (Function.update f i o') =
      l₁.filterMap f ++ (o'.toList ++ l₂.filterMap f) := by
    intro o'
    rw [slots, hl, List.filterMap_append, hother o' l₁ hmid.1, List.filterMap_cons,
      Function.update_self, hother o' l₂ hmid.2]
    cases o' <;> rfl
  rw [hslots, hslots, Option.toList_none, List.nil_append, ← List.append_assoc, ← List.append_assoc]
  exact List.perm_append_comm.append_right _

/-! ## Exactly one place -/

variable [DecidableEq β]

/-- Every thing is in exactly one place, once. -/
def Exact (h : π → List β) : Prop := ∀ b, ∃ p, (h p).count b = 1 ∧ ∀ q, q ≠ p → b ∉ h q

theorem not_exact_of_lost {h : π → List β} {b : β} (hb : ∀ p, b ∉ h p) : ¬ Exact h := by
  intro hx
  obtain ⟨p, hp, -⟩ := hx b
  exact hb p (List.count_pos_iff.mp (by omega))

/-- A thing that is held at `p` is nowhere else. -/
theorem Exact.not_mem {h : π → List β} (hx : Exact h) {b : β} {p q : π} (hp : b ∈ h p)
    (hq : q ≠ p) : b ∉ h q := by
  obtain ⟨r, -, hr⟩ := hx b
  have hrp : r = p := by
    by_contra hne
    exact hr p (Ne.symm hne) hp
  exact hr q (hrp ▸ hq)

/-- **What moves between two places** stays in exactly one. -/
theorem Exact.of_perm {h h' : π → List β} (hx : Exact h) {p q : π} (hpq : p ≠ q)
    (hperm : (h' p ++ h' q).Perm (h p ++ h q)) (hrest : ∀ r, r ≠ p → r ≠ q → h' r = h r) :
    Exact h' := by
  intro b
  have hcount := hperm.count_eq b
  rw [List.count_append, List.count_append] at hcount
  obtain ⟨r, hr, hother⟩ := hx b
  have hzero : ∀ s, s ≠ r → (h s).count b = 0 := fun s hs =>
    List.count_eq_zero_of_not_mem (hother s hs)
  by_cases hrpq : r = p ∨ r = q
  · -- `b` is in one of the two places, and stays in one of them
    have hsum : (h' p).count b + (h' q).count b = 1 := by
      rcases hrpq with rfl | rfl
      · rw [hcount, hr, hzero q (Ne.symm hpq)]
      · rw [hcount, hr, hzero p hpq]
    have hout : ∀ s, s ≠ p → s ≠ q → b ∉ h' s := by
      intro s hsp hsq
      rw [hrest s hsp hsq]
      refine hother s ?_
      rintro rfl
      exact hrpq.elim hsp hsq
    by_cases hp : (h' p).count b = 1
    · refine ⟨p, hp, fun s hs => ?_⟩
      by_cases hsq : s = q
      · rw [hsq]
        exact List.count_eq_zero.mp (by omega)
      · exact hout s hs hsq
    · refine ⟨q, by omega, fun s hs => ?_⟩
      by_cases hsp : s = p
      · rw [hsp]
        exact List.count_eq_zero.mp (by omega)
      · exact hout s hsp hs
  · rw [not_or] at hrpq
    rw [hzero p (Ne.symm hrpq.1), hzero q (Ne.symm hrpq.2)] at hcount
    refine ⟨r, by rw [hrest r hrpq.1 hrpq.2, hr], fun s hs => ?_⟩
    by_cases hsp : s = p
    · rw [hsp]
      exact List.count_eq_zero.mp (by omega)
    by_cases hsq : s = q
    · rw [hsq]
      exact List.count_eq_zero.mp (by omega)
    · rw [hrest s hsp hsq]
      exact hother s hs

/-! ## Moves -/

variable [DecidableEq π] {h : π → List β} {p q : π} {b : β} {l l' : List β}

/-- **A move** of one thing. -/
theorem Exact.move (hx : Exact h) (hpq : p ≠ q) (hp : (h p).Perm (b :: l))
    (hq : l'.Perm (b :: h q)) : Exact (Function.update (Function.update h p l) q l') := by
  refine hx.of_perm hpq ?_ fun r hrp hrq => ?_
  · rw [Function.update_of_ne hpq, Function.update_self, Function.update_self]
    calc List.Perm (l ++ l') (l ++ b :: h q) := hq.append_left l
      List.Perm _ (b :: l ++ h q) := List.perm_middle
      List.Perm _ (h p ++ h q) := hp.symm.append_right (h q)
  · rw [Function.update_of_ne hrq, Function.update_of_ne hrp]

/-- **A thing that takes the place of another,** which moves on. -/
theorem Exact.replace {r : π} {c : β} {m l'' : List β} (hx : Exact h) (hpq : p ≠ q) (hpr : p ≠ r)
    (hqr : q ≠ r) (hp : (h p).Perm (b :: l)) (hq : (h q).Perm (c :: m)) (hq' : l'.Perm (b :: m))
    (hr : l''.Perm (c :: h r)) :
    Exact (Function.update (Function.update (Function.update h p l) q l') r l'') := by
  have h₁ := hx.move hqr hq hr
  have hp₁ : Function.update (Function.update h q m) r l'' p = h p := by
    rw [Function.update_of_ne hpr, Function.update_of_ne hpq]
  have hq₁ : Function.update (Function.update h q m) r l'' q = m := by
    rw [Function.update_of_ne hqr, Function.update_self]
  have h₂ := h₁.move hpq (hp₁ ▸ hp) (hq₁ ▸ hq')
  rwa [Function.update_comm hpr.symm, Function.update_comm hqr.symm, Function.update_comm hpq.symm,
    Function.update_idem] at h₂

/-- **A thing that is dropped** is lost. -/
theorem Exact.not_dropped (hx : Exact h) (hp : h p = [b]) : ¬ Exact (Function.update h p []) := by
  refine not_exact_of_lost (b := b) fun q => ?_
  by_cases hq : q = p
  · subst hq
    rw [Function.update_self]
    exact List.not_mem_nil
  · rw [Function.update_of_ne hq]
    exact hx.not_mem (p := p) (hp ▸ List.mem_singleton_self b) hq

end GSConferencing.Lib.Places
