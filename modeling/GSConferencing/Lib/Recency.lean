import Mathlib

/-!
# The order of the last visits

Things are put on a stack, where each is once: what is put again moves to the top, and anything may
be removed.  The histories are lists of operations, newest first.

* `Stack log l`: the list holds what was put and not removed since, the last put first.
* `Stack.put`, `Stack.remove`: what an operation does to it; `Stack.unique`: there is one such list.
* `Stack.head_iff`: what is on top.
-/

namespace GSConferencing.Lib.Recency

variable {α : Type*} [DecidableEq α]

inductive Op (α : Type*) where
  | put (a : α)
  | remove (a : α)

/-- It was put, and not removed since. -/
def Put : List (Op α) → α → Prop
  | [], _ => False
  | .put b :: log, a => a = b ∨ Put log a
  | .remove b :: log, a => a ≠ b ∧ Put log a

/-- When it was put the last time. -/
def lastPut : List (Op α) → α → ℕ
  | [], _ => 0
  | .put b :: log, a => if a = b then log.length + 1 else lastPut log a
  | .remove _ :: log, a => lastPut log a

/-- **The stack** after a history. -/
structure Stack (log : List (Op α)) (l : List α) : Prop where
  nodup : l.Nodup
  mem : ∀ a, a ∈ l ↔ Put log a
  sorted : l.Pairwise fun a b => lastPut log b < lastPut log a

variable {log : List (Op α)} {l l' : List α} {a b : α}

theorem lastPut_le (log : List (Op α)) (a : α) : lastPut log a ≤ log.length := by
  induction log with
  | nil => exact le_rfl
  | cons o log ih =>
    cases o with
    | put b =>
      rw [lastPut]
      split_ifs
      · exact le_rfl
      · exact ih.trans (Nat.le_succ _)
    | remove b => exact ih.trans (Nat.le_succ _)

theorem stack_nil : Stack ([] : List (Op α)) [] where
  nodup := List.nodup_nil
  mem := fun _ => ⟨fun h => absurd h List.not_mem_nil, False.elim⟩
  sorted := List.Pairwise.nil

/-- **Put:** it is on top, and nowhere else. -/
theorem Stack.put (h : Stack log l) (a : α) : Stack (.put a :: log) (a :: l.erase a) where
  nodup := List.nodup_cons.mpr ⟨h.nodup.not_mem_erase, h.nodup.erase a⟩
  mem := fun b => by
    rw [List.mem_cons, Put, ← h.mem]
    refine or_congr_right' fun hne => ?_
    rw [List.mem_erase_of_ne hne]
  sorted := by
    have hother : ∀ b ∈ l.erase a, lastPut (.put a :: log) b = lastPut log b := by
      intro b hb
      have hne : b ≠ a := fun heq => h.nodup.not_mem_erase (heq ▸ hb)
      rw [lastPut, if_neg hne]
    refine List.pairwise_cons.mpr ⟨fun b hb => ?_, ?_⟩
    · rw [hother b hb, lastPut, if_pos rfl]
      exact Nat.lt_succ_of_le (lastPut_le log b)
    · refine (h.sorted.sublist List.erase_sublist).imp_of_mem fun {b c} hb hc hlt => ?_
      rwa [hother b hb, hother c hc]

/-- **Remove,** from any place. -/
theorem Stack.remove (h : Stack log l) (a : α) : Stack (.remove a :: log) (l.erase a) where
  nodup := h.nodup.erase a
  mem := fun b => by rw [h.nodup.mem_erase_iff, Put, h.mem]
  sorted := h.sorted.sublist List.erase_sublist

/-- There is one such list. -/
theorem Stack.unique (h : Stack log l) (h' : Stack log l') : l = l' := by
  have hperm : l.Perm l' := (List.perm_ext_iff_of_nodup h.nodup h'.nodup).mpr fun a =>
    (h.mem a).trans (h'.mem a).symm
  exact hperm.eq_of_pairwise (fun a b _ _ hab hba => absurd hab hba.asymm) h.sorted h'.sorted

/-- Put last, of all that has not been removed. -/
def Latest (log : List (Op α)) (a : α) : Prop :=
  Put log a ∧ ∀ b, Put log b → lastPut log b ≤ lastPut log a

/-- **What is on top.** -/
theorem Stack.head_iff (h : Stack log l) : l.head? = some a ↔ Latest log a := by
  cases l with
  | nil =>
    refine ⟨nofun, fun hl => ?_⟩
    exact absurd ((h.mem a).mpr hl.1) List.not_mem_nil
  | cons c l =>
    have htop := (List.pairwise_cons.mp h.sorted).1
    rw [List.head?_cons, Option.some.injEq]
    constructor
    · rintro rfl
      refine ⟨(h.mem c).mp List.mem_cons_self, fun b hb => ?_⟩
      rcases List.mem_cons.mp ((h.mem b).mpr hb) with rfl | hb
      · exact le_rfl
      · exact (htop b hb).le
    · rintro ⟨hput, hlast⟩
      rcases List.mem_cons.mp ((h.mem a).mpr hput) with heq | ha
      · exact heq.symm
      · exact absurd (hlast c ((h.mem c).mp List.mem_cons_self)) (htop a ha).not_ge

end GSConferencing.Lib.Recency
