import Mathlib

/-!
# Tables of slots

A table `f : ι → β` holds something in the slots where `p` is true.

* `occupied p f`: how many slots hold something; `occupied_take` and `occupied_release` say what
  one write does to it.
* `Apart p f`: nothing is held twice; it is kept when something new is held, and when a slot is
  given back.
-/

namespace GSConferencing.Lib.Slots

variable {ι β : Type*} {p : β → Prop} {f : ι → β} {i : ι} {b : β}

/-! ## Counting -/

section Count
variable [Fintype ι] [DecidablePred p]

/-- The number of slots that hold something. -/
def occupied (p : β → Prop) [DecidablePred p] (f : ι → β) : ℕ :=
  (Finset.univ.filter fun i => p (f i)).card

theorem occupied_pos : 0 < occupied p f ↔ ∃ i, p (f i) := by
  simp [occupied, Finset.card_pos, Finset.Nonempty]

theorem occupied_eq_zero : occupied p f = 0 ↔ ∀ i, ¬ p (f i) := by
  simp [occupied, Finset.filter_eq_empty_iff]

theorem occupied_le (p : β → Prop) [DecidablePred p] (f : ι → β) : occupied p f ≤ Fintype.card ι :=
  Finset.card_le_univ _

variable [DecidableEq ι]

theorem filter_update_of_pos (hb : p b) :
    (Finset.univ.filter fun j => p (Function.update f i b j)) =
      insert i (Finset.univ.filter fun j => p (f j)) := by
  ext j
  by_cases hj : j = i
  · simp [hj, hb]
  · simp [hj]

theorem filter_update_of_neg (hb : ¬ p b) :
    (Finset.univ.filter fun j => p (Function.update f i b j)) =
      (Finset.univ.filter fun j => p (f j)).erase i := by
  ext j
  by_cases hj : j = i
  · simp [hj, hb]
  · simp [hj]

/-- A free slot is taken. -/
theorem occupied_take (hi : ¬ p (f i)) (hb : p b) :
    occupied p (Function.update f i b) = occupied p f + 1 := by
  rw [occupied, filter_update_of_pos hb]
  exact Finset.card_insert_of_notMem (by simpa using hi)

/-- A slot is given back. -/
theorem occupied_release (hi : p (f i)) (hb : ¬ p b) :
    occupied p (Function.update f i b) + 1 = occupied p f := by
  rw [occupied, filter_update_of_neg hb]
  exact Finset.card_erase_add_one (by simpa using hi)

end Count

/-! ## No repetition -/

/-- Nothing is held in two slots. -/
def Apart (p : β → Prop) (f : ι → β) : Prop := ∀ i j, p (f i) → f i = f j → i = j

/-- Slots are given back. -/
theorem Apart.cleared {g : ι → β} (h : Apart p f) (hg : ∀ i, g i = f i ∨ ¬ p (g i)) :
    Apart p g := by
  intro i j hi hij
  have hj : p (g j) := hij ▸ hi
  have hgi := (hg i).resolve_right (not_not.mpr hi)
  have hgj := (hg j).resolve_right (not_not.mpr hj)
  exact h i j (hgi ▸ hi) (hgi.symm.trans (hij.trans hgj))

variable [DecidableEq ι]

/-- Something new is held. -/
theorem Apart.take (h : Apart p f) (hb : ∀ j, f j ≠ b) : Apart p (Function.update f i b) := by
  intro j k hj hjk
  by_cases hji : j = i
  · by_cases hki : k = i
    · rw [hji, hki]
    · rw [hji, Function.update_self, Function.update_of_ne hki] at hjk
      exact absurd hjk.symm (hb k)
  · rw [Function.update_of_ne hji] at hj hjk
    by_cases hki : k = i
    · rw [hki, Function.update_self] at hjk
      exact absurd hjk (hb j)
    · rw [Function.update_of_ne hki] at hjk
      exact h j k hj hjk

end GSConferencing.Lib.Slots
