import Mathlib

/-!
# Tables of records and their tallies

A table is a list; `tally w l` is the sum of the weights `w` of its entries.

* `tally_set`, `tally_append`: what a write to one entry and a new entry do to it.
* `tally_pos_iff`, `tally_eq_zero_iff`: the entries that have a weight at all.
* `perm_of_tally`: lists that agree for every weight have the same entries, equally often.
-/

namespace GSConferencing.Lib.Tally

variable {α β : Type*} {w : β → ℕ} {l l' : List β} {i : ℕ} {a b : β}

/-- The sum of the weights. -/
def tally (w : β → ℕ) (l : List β) : ℕ := (l.map w).sum

@[simp] theorem tally_nil (w : β → ℕ) : tally w [] = 0 := rfl

@[simp] theorem tally_cons (w : β → ℕ) (a : β) (l : List β) :
    tally w (a :: l) = w a + tally w l := by
  simp [tally]

@[simp] theorem tally_append (w : β → ℕ) (l l' : List β) :
    tally w (l ++ l') = tally w l + tally w l' := by
  simp [tally]

/-- **One entry is written:** its old weight goes, its new one comes. -/
theorem tally_set (w : β → ℕ) (h : l[i]? = some a) (b : β) :
    tally w (l.set i b) + w a = tally w l + w b := by
  induction l generalizing i with
  | nil => simp at h
  | cons x l ih =>
    cases i with
    | zero =>
      obtain rfl : x = a := by simpa using h
      simp only [List.set_cons_zero, tally_cons]
      omega
    | succ i =>
      have hset := ih (i := i) (by simpa using h)
      simp only [List.set_cons_succ, tally_cons]
      omega

theorem tally_eq_zero_iff : tally w l = 0 ↔ ∀ a ∈ l, w a = 0 := by
  simp [tally, List.sum_eq_zero_iff]

theorem tally_pos_iff : 0 < tally w l ↔ ∃ a ∈ l, 0 < w a := by
  rw [Nat.pos_iff_ne_zero, Ne, tally_eq_zero_iff]
  push Not
  exact exists_congr fun a => and_congr_right fun _ => Nat.pos_iff_ne_zero.symm

theorem tally_flatMap (w : α → ℕ) (g : β → List α) (l : List β) :
    tally w (l.flatMap g) = tally (fun b => tally w (g b)) l := by
  induction l with
  | nil => rfl
  | cons b l ih => rw [List.flatMap_cons, tally_append, ih, tally_cons]

theorem tally_eq_count [DecidableEq β] (a : β) (l : List β) :
    tally (fun b => if b = a then 1 else 0) l = l.count a := by
  induction l with
  | nil => rfl
  | cons b l ih =>
    rw [tally_cons, ih, List.count_cons, Nat.add_comm]
    simp [beq_iff_eq]

/-- **The same tallies,** the same entries. -/
theorem perm_of_tally (h : ∀ w, tally w l = tally w l') : l.Perm l' := by
  classical
  rw [List.perm_iff_count]
  intro a
  rw [← tally_eq_count, ← tally_eq_count, h]

theorem tally_perm (h : l.Perm l') (w : β → ℕ) : tally w l = tally w l' :=
  (h.map w).sum_eq

end GSConferencing.Lib.Tally
