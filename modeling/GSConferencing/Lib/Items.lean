import Mathlib

/-!
# Keys with values

A list of keys and a function that gives each key its value: how the number of keys whose value has a
property, and the text that lists the values, change when the value of one key does.

* `countP_update`: the count loses the old value and gains the new one.
* `intercalate_map_inj`: two texts that list the same keys are equal only if the values are, when
  all but one are known to be.
* `intercalate_concat`: a text that is built up entry by entry.
-/

namespace GSConferencing.Lib.Items

variable {κ β α : Type*}

/-! ## Counts -/

section Count

variable [DecidableEq κ] {l : List κ} {d : κ} (f : κ → β) (x : β) (p : β → Bool)

/-- A key that is not in the list does not count. -/
theorem countP_update_of_notMem (hd : d ∉ l) :
    (l.countP fun a => p (Function.update f d x a)) = l.countP fun a => p (f a) := by
  refine List.countP_congr fun a ha => ?_
  have hne : a ≠ d := by
    rintro rfl
    exact hd ha
  rw [Function.update_of_ne hne]

/-- **One value changes.** -/
theorem countP_update (hnd : l.Nodup) (hd : d ∈ l) :
    (l.countP fun a => p (Function.update f d x a)) + (if p (f d) = true then 1 else 0) =
      (l.countP fun a => p (f a)) + (if p x = true then 1 else 0) := by
  induction l with
  | nil => exact absurd hd List.not_mem_nil
  | cons a l ih =>
    obtain ⟨ha, hnd⟩ := List.nodup_cons.mp hnd
    rw [List.countP_cons, List.countP_cons]
    by_cases had : a = d
    · subst had
      rw [countP_update_of_notMem f x p ha, Function.update_self]
      omega
    · rw [Function.update_of_ne had]
      have h := ih hnd ((List.mem_cons.mp hd).resolve_left (Ne.symm had))
      omega

end Count

/-! ## Texts -/

/-- What stands around one entry does not depend on it. -/
theorem intercalate_around (sep : List α) (us vs : List (List α)) :
    ∃ P S, ∀ w, sep.intercalate (us ++ w :: vs) = P ++ (w ++ S) := by
  induction us with
  | nil =>
    cases vs with
    | nil => exact ⟨[], [], fun w => by simp [List.intercalate]⟩
    | cons v vs => exact ⟨[], sep ++ sep.intercalate (v :: vs), fun w => by
        simp [List.intercalate]⟩
  | cons u us ih =>
    obtain ⟨P, S, h⟩ := ih
    refine ⟨u ++ (sep ++ P), S, fun w => ?_⟩
    have hcons : sep.intercalate (u :: (us ++ w :: vs)) =
        u ++ (sep ++ sep.intercalate (us ++ w :: vs)) := by
      cases us with
      | nil => simp [List.intercalate]
      | cons u' us => simp [List.intercalate]
    rw [List.cons_append, hcons, h w]
    simp only [List.append_assoc]

/-- **Two texts that list the same keys,** whose values are the same for all keys but one. -/
theorem intercalate_map_inj {sep : List α} {l : List κ} {f g : κ → List α} {d : κ}
    (hnd : l.Nodup) (hd : d ∈ l) (hother : ∀ a ≠ d, f a = g a)
    (h : sep.intercalate (l.map f) = sep.intercalate (l.map g)) : f d = g d := by
  obtain ⟨l₁, l₂, rfl⟩ := List.append_of_mem hd
  obtain ⟨-, hnd₂, hdis⟩ := List.nodup_append.mp hnd
  have h₁ : l₁.map f = l₁.map g := List.map_congr_left fun a ha => by
    refine hother a fun had => ?_
    exact hdis a ha d List.mem_cons_self had
  have h₂ : l₂.map f = l₂.map g := List.map_congr_left fun a ha => by
    refine hother a fun had => ?_
    subst had
    exact (List.nodup_cons.mp hnd₂).1 ha
  rw [List.map_append, List.map_append, List.map_cons, List.map_cons, h₁, h₂] at h
  obtain ⟨P, S, hPS⟩ := intercalate_around sep (l₁.map g) (l₂.map g)
  rw [hPS, hPS] at h
  exact List.append_cancel_right (List.append_cancel_left h)

/-- The text that grows by one entry: the first one has no separator before it. -/
theorem intercalate_concat (sep : List α) {ws : List (List α)} (w : List α) :
    sep.intercalate (ws ++ [w]) =
      if ws = [] then w else sep.intercalate ws ++ (sep ++ w) := by
  induction ws with
  | nil => simp [List.intercalate]
  | cons v ws ih =>
    rw [if_neg (List.cons_ne_nil v ws)]
    cases ws with
    | nil => simp [List.intercalate, List.intersperse]
    | cons v' ws =>
      rw [if_neg (List.cons_ne_nil v' ws)] at ih
      have hcons : ∀ us : List (List α), sep.intercalate (v :: v' :: us) =
          v ++ (sep ++ sep.intercalate (v' :: us)) := by
        intro us
        simp [List.intercalate, List.intersperse]
      rw [List.cons_append, List.cons_append, hcons, hcons, ← List.cons_append, ih]
      simp only [List.append_assoc]

/-- No text lists an entry that is not empty and is empty itself. -/
theorem intercalate_eq_nil {sep : List α} {ws : List (List α)} (hne : ∀ w ∈ ws, w ≠ []) :
    sep.intercalate ws = [] ↔ ws = [] := by
  constructor
  · intro h
    by_contra hws
    obtain ⟨w, us, rfl⟩ := List.exists_cons_of_ne_nil hws
    obtain ⟨P, S, hPS⟩ := intercalate_around sep [] us
    have hw := hPS w
    rw [List.nil_append, h] at hw
    exact hne w List.mem_cons_self (List.append_eq_nil_iff.mp
      (List.append_eq_nil_iff.mp hw.symm).2).1
  · rintro rfl
    rfl

/-- The text before the first separator, and the text after it. -/
theorem append_cons_inj {a : α} {us vs us' vs' : List α} (hu : a ∉ us) (hv : a ∉ vs)
    (h : us ++ a :: us' = vs ++ a :: vs') : us = vs ∧ us' = vs' := by
  induction us generalizing vs with
  | nil =>
    cases vs with
    | nil => exact ⟨rfl, (List.cons.inj h).2⟩
    | cons v vs => exact absurd ((List.cons.inj h).1 ▸ List.mem_cons_self) hv
  | cons u us ih =>
    cases vs with
    | nil => exact absurd ((List.cons.inj h).1 ▸ List.mem_cons_self) hu
    | cons v vs =>
      obtain ⟨rfl, htail⟩ := List.cons.inj h
      obtain ⟨rfl, hrest⟩ := ih (fun hm => hu (List.mem_cons_of_mem _ hm))
        (fun hm => hv (List.mem_cons_of_mem _ hm)) htail
      exact ⟨rfl, hrest⟩

end GSConferencing.Lib.Items
