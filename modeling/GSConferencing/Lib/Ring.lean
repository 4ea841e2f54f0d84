import Mathlib

/-!
# Places of a ring

A ring of `n` places; the places used are those from `a` on, `dist n a b` many, up to the place
`b`.  `place k i` is the place that a mask picks in a ring of `2 ^ k` places; `exists_place`: a turn
from a place on comes by every other one.
-/

namespace GSConferencing.Lib.Ring

/-- The place `i & mask`. -/
def place (k i : ℕ) : Fin (2 ^ k) :=
  ⟨i &&& (2 ^ k - 1), by
    rw [Nat.and_two_pow_sub_one_eq_mod]
    exact Nat.mod_lt _ (Nat.two_pow_pos k)⟩

theorem place_val (k i : ℕ) : (place k i).val = i % 2 ^ k := Nat.and_two_pow_sub_one_eq_mod i k

theorem place_self {k : ℕ} (a : Fin (2 ^ k)) : place k a.val = a :=
  Fin.ext ((place_val k a.val).trans (Nat.mod_eq_of_lt a.isLt))

variable {n a b i : ℕ}

/-- One turn at most. -/
theorem mod_turn {x : ℕ} (h : x < 2 * n) : x % n = if x < n then x else x - n := by
  split_ifs with hx
  · exact Nat.mod_eq_of_lt hx
  · rw [Nat.mod_eq_sub_mod (not_lt.mp hx), Nat.mod_eq_of_lt (by omega)]

/-- The number of places from `a` on up to `b`. -/
def dist (n a b : ℕ) : ℕ := (b + n - a) % n

theorem dist_eq (ha : a < n) (hb : b < n) : dist n a b = if a ≤ b then b - a else b + n - a := by
  unfold dist
  rw [mod_turn (by omega)]
  split_ifs <;> omega

theorem dist_lt (hn : 0 < n) : dist n a b < n := Nat.mod_lt _ hn

theorem dist_self (ha : a < n) : dist n a a = 0 := by
  rw [dist_eq ha ha, if_pos le_rfl, Nat.sub_self]

/-- No place is used only if the ends are equal. -/
theorem dist_pos (ha : a < n) (hb : b < n) (h : a ≠ b) : 0 < dist n a b := by
  rw [dist_eq ha hb]
  split_ifs <;> omega

/-- The place after the last one that is used. -/
theorem add_dist (ha : a < n) (hb : b < n) : (a + dist n a b) % n = b := by
  rw [dist_eq ha hb]
  split_ifs
  · rw [Nat.add_sub_cancel' (by omega), Nat.mod_eq_of_lt hb]
  · rw [mod_turn (by omega), if_neg (by omega)]
    omega

/-- It is none of them. -/
theorem add_ne (ha : a < n) (hb : b < n) (hi : i < dist n a b) : (a + i) % n ≠ b := by
  rw [dist_eq ha hb] at hi
  rw [mod_turn (by split_ifs at hi <;> omega)]
  split_ifs at hi ⊢ <;> omega

/-- One more place is used. -/
theorem dist_succ (ha : a < n) (hb : b < n) (h : (b + 1) % n ≠ a) :
    dist n a ((b + 1) % n) = dist n a b + 1 := by
  have hb' : (b + 1) % n < n := Nat.mod_lt _ (by omega)
  rw [dist_eq ha hb', dist_eq ha hb]
  rw [mod_turn (by omega)] at h ⊢
  split_ifs at h ⊢ <;> omega

/-- One place less is used. -/
theorem dist_pred (ha : a < n) (hb : b < n) (h : a ≠ b) :
    dist n ((a + 1) % n) b + 1 = dist n a b := by
  have ha' : (a + 1) % n < n := Nat.mod_lt _ (by omega)
  rw [dist_eq ha' hb, dist_eq ha hb]
  rw [mod_turn (by omega)]
  split_ifs <;> omega

/-! ## A turn -/

section Turn
variable {k : ℕ}

/-- The place after a place. -/
theorem place_succ (k i : ℕ) : place k ((place k i).val + 1) = place k (i + 1) := by
  refine Fin.ext ?_
  rw [place_val, place_val, place_val, Nat.mod_add_mod]

/-- After a whole turn the place is the same. -/
theorem place_turn (a : Fin (2 ^ k)) : place k (a.val + 2 ^ k) = a := by
  refine Fin.ext ?_
  rw [place_val, Nat.add_mod_right, Nat.mod_eq_of_lt a.isLt]

/-- Before the turn is over it is another one. -/
theorem place_add_ne (a : Fin (2 ^ k)) {j : ℕ} (hpos : 0 < j) (hj : j < 2 ^ k) :
    place k (a.val + j) ≠ a := by
  intro h
  have hval := congrArg Fin.val h
  have ha := a.isLt
  rw [place_val, mod_turn (by omega)] at hval
  split_ifs at hval <;> omega

/-- **A turn** comes by every other place. -/
theorem exists_place {a b : Fin (2 ^ k)} (h : a ≠ b) :
    ∃ j < 2 ^ k - 1, place k (a.val + 1 + j) = b := by
  have hpos := dist_pos a.isLt b.isLt fun h' => h (Fin.ext h')
  have hlt : dist (2 ^ k) a b < 2 ^ k := dist_lt (Nat.two_pow_pos k)
  refine ⟨dist (2 ^ k) a b - 1, by omega, Fin.ext ?_⟩
  rw [place_val, Nat.add_assoc, Nat.add_sub_cancel' hpos]
  exact add_dist a.isLt b.isLt

end Turn

end GSConferencing.Lib.Ring
