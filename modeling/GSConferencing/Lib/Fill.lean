import Mathlib

/-!
# Filling an array

An array of `n` cells that is filled from its beginning, with the number of cells in use beside it.
`push` writes one cell more, and has no result where that lies beyond the end.

* `contents_push`: what one more cell adds.
* `foldlM_push`: a list is stored as a whole, or is too long.
-/

namespace GSConferencing.Lib.Fill

variable {α : Type*} {n : ℕ}

/-- The cells, of which the first `used` are in use. -/
structure Filled (α : Type*) (n : ℕ) where
  cells : Fin n → α
  used : ℕ

namespace Filled

/-- Nothing is in use, whatever the cells hold. -/
def empty (cells : Fin n → α) : Filled α n := ⟨cells, 0⟩

/-- `a[used++] = x`. -/
def push (a : Filled α n) (x : α) : Option (Filled α n) :=
  if h : a.used < n then some ⟨Function.update a.cells ⟨a.used, h⟩ x, a.used + 1⟩ else none

/-- The cells in use. -/
def contents (a : Filled α n) : List α := ((List.finRange n).take a.used).map a.cells

end Filled

open Filled

variable {a a' : Filled α n} {x : α}

@[simp] theorem contents_empty (cells : Fin n → α) : (empty cells).contents = [] := rfl

theorem push_eq_none : a.push x = none ↔ n ≤ a.used := by
  unfold push
  split
  · next h => exact iff_of_false (fun h' => Option.some_ne_none _ h') (not_le.mpr h)
  · next h => exact iff_of_true rfl (not_lt.mp h)

theorem used_push (h : a.push x = some a') : a'.used = a.used + 1 ∧ a.used < n := by
  unfold push at h
  split at h
  · next hlt =>
    cases h
    exact ⟨rfl, hlt⟩
  · cases h

/-- **One more cell** in use. -/
theorem contents_push (h : a.push x = some a') : a'.contents = a.contents ++ [x] := by
  unfold push at h
  split at h
  · next hlt =>
    cases h
    have hget : (List.finRange n)[a.used]? = some ⟨a.used, hlt⟩ := by
      rw [List.getElem?_eq_getElem (by rwa [List.length_finRange]), List.getElem_finRange]
      rfl
    have hold : ((List.finRange n).take a.used).map (Function.update a.cells ⟨a.used, hlt⟩ x) =
        ((List.finRange n).take a.used).map a.cells := by
      refine List.map_congr_left fun i hi => Function.update_of_ne ?_ _ _
      rintro rfl
      obtain ⟨j, hj, heq⟩ := List.getElem_of_mem hi
      rw [List.getElem_take, List.getElem_finRange] at heq
      have hjlt := (List.length_take_le a.used (List.finRange n)).trans_lt' hj
      exact absurd (congrArg Fin.val heq) hjlt.ne
    show ((List.finRange n).take (a.used + 1)).map _ = ((List.finRange n).take a.used).map _ ++ [x]
    rw [List.take_add_one, hget, Option.toList_some, List.map_append, hold]
    simp only [List.map_singleton, Function.update_self]
  · cases h

/-- **A list that is stored:** one element after the other, if all have room. -/
theorem foldlM_push (l : List α) (a : Filled α n) (ha : a.used ≤ n) :
    (n < a.used + l.length → l.foldlM push a = none) ∧
    (a.used + l.length ≤ n →
      ∃ a', l.foldlM push a = some a' ∧ a'.contents = a.contents ++ l) := by
  induction l generalizing a with
  | nil => exact ⟨fun h => absurd h (not_lt.mpr ha), fun _ => ⟨a, rfl, (List.append_nil _).symm⟩⟩
  | cons x l ih =>
    rw [List.length_cons, List.foldlM_cons]
    cases hx : a.push x with
    | none =>
      have hfull := push_eq_none.mp hx
      exact ⟨fun _ => rfl, fun h => by omega⟩
    | some a₁ =>
      obtain ⟨hused, hlt⟩ := used_push hx
      obtain ⟨hlong, hfits⟩ := ih a₁ (by omega)
      refine ⟨fun h => hlong (by omega), fun h => ?_⟩
      obtain ⟨a', ha', hcont⟩ := hfits (by omega)
      refine ⟨a', ha', ?_⟩
      rw [hcont, contents_push hx, List.append_assoc, List.singleton_append]

end GSConferencing.Lib.Fill
