import GSConferencing.Lib.Ring

/-!
# The newest items of a history

A memory of fixed size that forgets the oldest item: `window n z l` is what it holds after the
items of `l`, newest first, have been added to `n` copies of `z`.

* `window_cons`: one item more.
* `mem_window_map`: a memory that keeps part `f x` of every item holds the parts of the items in the
  window.
* `ringItems_write`: a ring that is written at the place of its oldest item is a window.
-/

namespace GSConferencing.Lib.Window

open GSConferencing.Lib.Ring

variable {α : Type*} {n : ℕ} {x z : α} {l : List α}

/-- The `n` newest items of `l`, after which the memory still has its first items `z`. -/
def window (n : ℕ) (z : α) (l : List α) : List α := (l ++ List.replicate n z).take n

theorem window_nil : window n z [] = List.replicate n z := by
  simp [window]

/-- One item more: the oldest one is forgotten. -/
theorem window_cons : window n z (x :: l) = (x :: window n z l).take n := by
  unfold window
  rw [List.cons_append]
  cases n with
  | zero => rfl
  | succ n => rw [List.take_succ_cons, List.take_succ_cons, List.take_take,
      Nat.min_eq_left (Nat.le_succ n)]

theorem window_map {β : Type*} (f : α → β) : window n (f z) (l.map f) = (window n z l).map f := by
  rw [window, window, List.map_take, List.map_append, List.map_replicate]

theorem mem_window_map {β : Type*} {f : α → β} {y : β} :
    y ∈ window n (f z) (l.map f) ↔ ∃ x ∈ window n z l, f x = y := by
  rw [window_map, List.mem_map]

/-- What is in the window has been added, or was there at first. -/
theorem mem_of_mem_window (h : x ∈ window n z l) : x ∈ l ∨ x = z :=
  (List.mem_append.mp (List.mem_of_mem_take h)).imp_right List.eq_of_mem_replicate

/-- The last item of a window that is full. -/
theorem getElem?_window {i : ℕ} (hi : i < n) :
    (window n none (l.map some))[i]? = some l[i]? := by
  rw [window, List.getElem?_take_of_lt hi]
  by_cases hlt : i < l.length
  · rw [List.getElem?_append_left (by rwa [List.length_map]), List.getElem?_map,
      List.getElem?_eq_getElem hlt]
    rfl
  · rw [List.getElem?_append_right (by rw [List.length_map]; omega), List.length_map,
      List.getElem?_replicate, if_pos (by omega), List.getElem?_eq_none (by omega)]

theorem mem_take_iff : x ∈ l.take n ↔ ∃ i < n, l[i]? = some x := by
  rw [List.mem_iff_getElem?]
  constructor
  · rintro ⟨i, hi⟩
    by_cases hlt : i < n
    · exact ⟨i, hlt, by rwa [List.getElem?_take_of_lt hlt] at hi⟩
    · rw [List.getElem?_eq_none (by rw [List.length_take]; omega)] at hi
      cases hi
  · rintro ⟨i, hlt, hi⟩
    exact ⟨i, by rwa [List.getElem?_take_of_lt hlt]⟩

/-- What a window of pointers points to. -/
theorem some_mem_window : some x ∈ window n none (l.map some) ↔ x ∈ l.take n := by
  have htake : (window n none (l.map some)).take n = window n none (l.map some) := by
    rw [window, List.take_take, Nat.min_self]
  rw [← htake, mem_take_iff, mem_take_iff]
  refine exists_congr fun i => and_congr_right fun hi => ?_
  rw [getElem?_window hi, Option.some.injEq]

/-! ## A ring -/

section Items
variable {k : ℕ} {f : Fin (2 ^ k) → α} {pos : Fin (2 ^ k)}

/-- The items at the `m` places from `pos` on, the last one first. -/
def ringItems (f : Fin (2 ^ k) → α) (pos : Fin (2 ^ k)) (m : ℕ) : List α :=
  (List.range m).reverse.map fun i => f (place k (pos.val + i))

theorem ringItems_succ (f : Fin (2 ^ k) → α) (pos : Fin (2 ^ k)) (m : ℕ) :
    ringItems f pos (m + 1) = f (place k (pos.val + m)) :: ringItems f pos m := by
  rw [ringItems, List.range_succ, List.reverse_append, List.reverse_singleton, List.map_append]
  rfl

theorem ringItems_const (z : α) (pos : Fin (2 ^ k)) :
    ringItems (fun _ => z) pos (2 ^ k) = window (2 ^ k) z [] := by
  rw [window_nil, ringItems, List.map_const', List.length_reverse, List.length_range]

/-- All places are looked at. -/
theorem mem_ringItems {x : α} : x ∈ ringItems f pos (2 ^ k) ↔ ∃ i, f i = x := by
  rw [ringItems, List.mem_map]
  constructor
  · rintro ⟨i, -, h⟩
    exact ⟨_, h⟩
  · rintro ⟨i, rfl⟩
    refine ⟨dist (2 ^ k) pos i, ?_, ?_⟩
    · rw [List.mem_reverse, List.mem_range]
      exact dist_lt (Nat.two_pow_pos k)
    · exact congrArg f (Fin.ext ((place_val k _).trans (add_dist pos.isLt i.isLt)))

/-- The oldest item is at `pos`. -/
theorem getElem?_ringItems (f : Fin (2 ^ k) → α) (pos : Fin (2 ^ k)) :
    (ringItems f pos (2 ^ k))[2 ^ k - 1]? = some (f pos) := by
  have hpos := Nat.two_pow_pos k
  rw [ringItems, List.getElem?_map, List.getElem?_reverse (by rw [List.length_range]; omega),
    List.length_range, List.getElem?_range (by omega), Option.map_some,
    show 2 ^ k - 1 - (2 ^ k - 1) = 0 by omega, Nat.add_zero, place_self]

/-- **A new item** is written over the oldest one. -/
theorem ringItems_write (f : Fin (2 ^ k) → α) (pos : Fin (2 ^ k)) (x : α) :
    ringItems (Function.update f pos x) (place k (pos.val + 1)) (2 ^ k) =
      (x :: ringItems f pos (2 ^ k)).take (2 ^ k) := by
  obtain ⟨m, hm⟩ := Nat.exists_eq_succ_of_ne_zero (Nat.two_pow_pos k).ne'
  have hlt := pos.isLt
  have hplace : ∀ i, place k ((place k (pos.val + 1)).val + i) = place k (pos.val + (i + 1)) := by
    intro i
    refine Fin.ext ?_
    rw [place_val, place_val, place_val, Nat.mod_add_mod, Nat.add_assoc, Nat.add_comm 1 i]
  have hnew : place k (pos.val + (m + 1)) = pos := by
    refine Fin.ext ?_
    rw [place_val, ← Nat.succ_eq_add_one, ← hm, Nat.add_mod_right, Nat.mod_eq_of_lt hlt]
  have hold : ∀ i < m, place k (pos.val + (i + 1)) ≠ pos := by
    intro i hi h
    have hval := congrArg Fin.val h
    rw [place_val, mod_turn (by omega)] at hval
    split_ifs at hval <;> omega
  suffices h : ∀ n, n = m + 1 → ringItems (Function.update f pos x) (place k (pos.val + 1)) n =
      (x :: ringItems f pos n).take n from h _ hm
  rintro _ rfl
  rw [ringItems_succ, hplace, hnew, Function.update_self, List.take_succ_cons]
  congr 1
  have hrange : (List.range (m + 1)).reverse = ((List.range m).map Nat.succ).reverse ++ [0] := by
    rw [List.range_succ_eq_map, List.reverse_cons]
  rw [ringItems, ringItems, hrange, List.map_append, ← List.map_reverse, List.map_map,
    List.take_left' (by rw [List.length_map, List.length_reverse, List.length_range])]
  refine List.map_congr_left fun i hi => ?_
  rw [hplace, Function.update_of_ne (hold i (List.mem_range.mp (List.mem_reverse.mp hi)))]
  rfl

end Items

end GSConferencing.Lib.Window
