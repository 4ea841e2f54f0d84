import Mathlib

/-!
# Lists with keys

`under key val k l` are the values that a list has under a key.  Two lists whose values agree under
every key have the same values, up to their order.

* `perm_of_keys`: agreement under every key.
* `perm_iff_at`: agreement under every key but one leaves it to that key.
* `extra_eq_nil`: values that only one of the lists has.
-/

namespace GSConferencing.Lib.ByKey

variable {α α' β κ : Type*} [DecidableEq κ]

/-- The values under a key. -/
def under (key : α → κ) (val : α → β) (k : κ) (l : List α) : List β :=
  (l.filter fun a => key a = k).map val

variable {key : α → κ} {val : α → β} {key' : α' → κ} {val' : α' → β} {l : List α} {l' : List α'}

@[simp] theorem under_nil (k : κ) : under key val k [] = [] := rfl

theorem under_cons (k : κ) (a : α) (l : List α) :
    under key val k (a :: l) = if key a = k then val a :: under key val k l else under key val k l := by
  unfold under
  rw [List.filter_cons]
  by_cases h : key a = k
  · rw [if_pos (decide_eq_true h), if_pos h, List.map_cons]
  · rw [if_neg (by simpa using h), if_neg h]

theorem under_append (k : κ) (l₁ l₂ : List α) :
    under key val k (l₁ ++ l₂) = under key val k l₁ ++ under key val k l₂ := by
  unfold under
  rw [List.filter_append, List.map_append]

theorem under_eq_nil {k : κ} : under key val k l = [] ↔ ∀ a ∈ l, key a ≠ k := by
  unfold under
  rw [List.map_eq_nil_iff, List.filter_eq_nil_iff]
  simp only [decide_eq_true_eq, ne_eq]

theorem under_filter (p : α → Bool) (k : κ) (l : List α) :
    under key val k (l.filter p) = ((l.filter fun a => key a = k).filter p).map val := by
  unfold under
  rw [List.filter_comm]

/-- The pairs of keys and values. -/
theorem count_pair [DecidableEq β] (k : κ) (b : β) (l : List α) :
    (l.map fun a => (key a, val a)).count (k, b) = (under key val k l).count b := by
  induction l with
  | nil => rfl
  | cons a l ih =>
    rw [List.map_cons, List.count_cons, ih, under_cons]
    by_cases hk : key a = k
    · rw [if_pos hk, List.count_cons]
      simp [hk]
    · rw [if_neg hk, if_neg (by simp [hk]), Nat.add_zero]

/-- **Lists that agree under every key.** -/
theorem perm_of_keys (h : ∀ k, under key val k l = under key' val' k l') :
    (l.map val).Perm (l'.map val') := by
  classical
  have hpairs : (l.map fun a => (key a, val a)).Perm (l'.map fun a => (key' a, val' a)) := by
    rw [List.perm_iff_count]
    rintro ⟨k, b⟩
    rw [count_pair, count_pair, h k]
  have hvals := hpairs.map Prod.snd
  rw [List.map_map, List.map_map] at hvals
  exact hvals

/-- The values under a key, and those under the others. -/
theorem split_key (key : α → κ) (val : α → β) (k₀ : κ) (l : List α) :
    (l.map val).Perm (under key val k₀ l ++ (l.filter fun a => key a ≠ k₀).map val) := by
  unfold under
  rw [← List.map_append]
  refine List.Perm.map val ?_
  have hperm := (List.filter_append_perm (fun a => decide (key a = k₀)) l).symm
  simpa only [ne_eq, decide_not] using hperm

theorem under_other (key : α → κ) (val : α → β) (k k₀ : κ) (l : List α) :
    under key val k (l.filter fun a => key a ≠ k₀) = if k = k₀ then [] else under key val k l := by
  by_cases hk : k = k₀
  · rw [if_pos hk, under_eq_nil]
    intro a ha
    rw [hk]
    exact of_decide_eq_true (List.mem_filter.mp ha).2
  · rw [if_neg hk]
    unfold under
    rw [List.filter_filter]
    refine congrArg (List.map val) (List.filter_congr fun a _ => ?_)
    by_cases ha : key a = k
    · simp [ha, hk]
    · simp [ha]

/-- **Lists that agree under every key but one.** -/
theorem perm_iff_at (k₀ : κ) (h : ∀ k ≠ k₀, under key val k l = under key' val' k l') :
    (l.map val).Perm (l'.map val') ↔ (under key val k₀ l).Perm (under key' val' k₀ l') := by
  have hrest : ((l.filter fun a => key a ≠ k₀).map val).Perm
      ((l'.filter fun a => key' a ≠ k₀).map val') := by
    refine @perm_of_keys _ _ _ _ _ key val key' val' _ _ fun k => ?_
    rw [under_other, under_other]
    by_cases hk : k = k₀
    · rw [if_pos hk, if_pos hk]
    · rw [if_neg hk, if_neg hk, h k hk]
  rw [(split_key key val k₀ l).congr_left, (split_key key' val' k₀ l').congr_right,
    (hrest.append_left _).congr_left, List.perm_append_right_iff]

/-- A list with the values of another and more under some keys has the same values only if there are
no more. -/
theorem extra_eq_nil {extra : κ → List β}
    (h : ∀ k, under key val k l = under key' val' k l' ++ extra k)
    (hperm : (l.map val).Perm (l'.map val')) (k : κ) : extra k = [] := by
  classical
  have hle : (l'.map fun a => (key' a, val' a)).Subperm (l.map fun a => (key a, val a)) := by
    rw [List.subperm_ext_iff]
    rintro ⟨k, b⟩ -
    rw [count_pair, count_pair, h k, List.count_append]
    exact Nat.le_add_right _ _
  have hlen : (l.map fun a => (key a, val a)).length ≤ (l'.map fun a => (key' a, val' a)).length := by
    have := hperm.length_eq
    rw [List.length_map, List.length_map] at this ⊢
    exact this.le
  have hpairs := hle.perm_of_length_le hlen
  refine List.eq_nil_iff_forall_not_mem.mpr fun b hb => ?_
  have hcount := hpairs.count_eq (k, b)
  rw [count_pair, count_pair, h k, List.count_append] at hcount
  have hpos := List.count_pos_iff.mpr hb
  omega

end GSConferencing.Lib.ByKey
