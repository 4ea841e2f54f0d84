import Mathlib

/-!
# A block of memory

A block of memory is a list; `overwrite mem off src` is the block after `src` was copied into it.

* `getElem?_overwrite_in`, `getElem?_overwrite_out`: what a place holds after the copy.
* `part_overwrite`: copying behind a part of the block makes that part longer; `part_overwrite_out`:
  a part beside the copy stays.

Where a block's end does not matter it is a function; `store` copies into it.

* `front_store`: copying behind the front of it makes the front longer.
-/

namespace GSConferencing.Lib.Memory

variable {α : Type*}

/-- `src` copied over `mem` at `off`. -/
def overwrite (mem : List α) (off : ℕ) (src : List α) : List α :=
  mem.take off ++ src ++ mem.drop (off + src.length)

theorem length_overwrite {mem src : List α} {off : ℕ} (h : off + src.length ≤ mem.length) :
    (overwrite mem off src).length = mem.length := by
  simp only [overwrite, List.length_append, List.length_take, List.length_drop]
  omega

theorem getElem?_overwrite_in {mem src : List α} {off j : ℕ} (h : off + src.length ≤ mem.length)
    (hj : j < src.length) : (overwrite mem off src)[off + j]? = src[j]? := by
  have hlen : (mem.take off).length = off := by
    rw [List.length_take]
    omega
  rw [overwrite, List.append_assoc, List.getElem?_append_right (by omega), hlen,
    Nat.add_sub_cancel_left, List.getElem?_append_left hj]

theorem getElem?_overwrite_out {mem src : List α} {off j : ℕ} (h : off + src.length ≤ mem.length)
    (hj : j < off ∨ off + src.length ≤ j) : (overwrite mem off src)[j]? = mem[j]? := by
  have hlen : (mem.take off).length = off := by
    rw [List.length_take]
    omega
  rcases hj with hj | hj
  · rw [overwrite, List.append_assoc, List.getElem?_append_left (by omega),
      List.getElem?_take_of_lt hj]
  · rw [overwrite, List.getElem?_append_right (by rw [List.length_append]; omega),
      List.length_append, hlen, List.getElem?_drop]
    congr 1
    omega

/-- The front of a block, after the copy of something shorter. -/
theorem take_overwrite_zero {mem src : List α} {n : ℕ} (h : src.length ≤ n) :
    (overwrite mem 0 src).take n = src ++ (mem.take n).drop src.length := by
  rw [overwrite, List.take_zero, List.nil_append, Nat.zero_add, List.take_append,
    List.take_of_length_le h, List.drop_take]

/-- `n` elements from `start` on. -/
def part (mem : List α) (start n : ℕ) : List α := (mem.drop start).take n

@[simp] theorem part_zero (mem : List α) (start : ℕ) : part mem start 0 = [] := List.take_zero

theorem length_part {mem : List α} {start n : ℕ} (h : start + n ≤ mem.length) :
    (part mem start n).length = n := by
  rw [part, List.length_take, List.length_drop]
  omega

/-- A part of a part at its beginning. -/
theorem part_take {mem : List α} {start n k : ℕ} (h : k ≤ n) :
    (part mem start n).take k = part mem start k := by
  rw [part, List.take_take, Nat.min_eq_left h, part]

/-- What is behind it. -/
theorem part_drop (mem : List α) (start n k : ℕ) :
    (part mem start n).drop k = part mem (start + k) (n - k) := by
  rw [part, List.drop_take, List.drop_drop, part]

/-- **A copy right behind a part.** -/
theorem part_overwrite {mem src : List α} {start n : ℕ} (h : start + n + src.length ≤ mem.length) :
    part (overwrite mem (start + n) src) start (n + src.length) = part mem start n ++ src := by
  have hlen : (mem.take (start + n)).length = start + n := by
    rw [List.length_take]
    omega
  have hpart : (mem.take (start + n)).drop start = part mem start n := by
    rw [List.drop_take, Nat.add_sub_cancel_left, part]
  have hn : (part mem start n).length = n := length_part (by omega)
  rw [overwrite, part, List.append_assoc, List.drop_append_of_le_length (by omega), hpart,
    ← List.append_assoc, List.take_left' (by rw [List.length_append, hn])]

theorem getElem?_part (mem : List α) (start n j : ℕ) :
    (part mem start n)[j]? = if j < n then mem[start + j]? else none := by
  rw [part, List.getElem?_take, List.getElem?_drop]

/-- What was copied. -/
theorem part_overwrite_self {mem src : List α} {off : ℕ} (h : off + src.length ≤ mem.length) :
    part (overwrite mem off src) off src.length = src := by
  have hfit : off + 0 + src.length ≤ mem.length := h
  have hpart := part_overwrite hfit
  rwa [Nat.zero_add, Nat.add_zero, part_zero, List.nil_append] at hpart

/-- **A part beside the copy.** -/
theorem part_overwrite_out {mem src : List α} {off start n : ℕ}
    (h : off + src.length ≤ mem.length) (hout : start + n ≤ off ∨ off + src.length ≤ start) :
    part (overwrite mem off src) start n = part mem start n := by
  refine List.ext_getElem? fun j => ?_
  rw [getElem?_part, getElem?_part]
  split
  · exact getElem?_overwrite_out h (by omega)
  · rfl

/-- The first element of a part. -/
theorem part_succ {mem : List α} {start : ℕ} {x : α} (h : mem[start]? = some x) (n : ℕ) :
    part mem start (n + 1) = x :: part mem (start + 1) n := by
  obtain ⟨hlt, rfl⟩ := List.getElem?_eq_some_iff.mp h
  rw [part, List.drop_eq_getElem_cons hlt, List.take_succ_cons, part]

@[simp] theorem overwrite_nil (mem : List α) (off : ℕ) : overwrite mem off [] = mem := by
  rw [overwrite, List.append_nil, List.length_nil, Nat.add_zero, List.take_append_drop]

/-- **A copy right behind a copy.** -/
theorem overwrite_overwrite {mem src src' : List α} {off : ℕ}
    (h : off + src.length ≤ mem.length) :
    overwrite (overwrite mem off src) (off + src.length) src' =
      overwrite mem off (src ++ src') := by
  have hlen : (mem.take off ++ src).length = off + src.length := by
    rw [List.length_append, List.length_take]
    omega
  have hdrop : (mem.take off ++ src ++ mem.drop (off + src.length)).drop
      (off + src.length + src'.length) = mem.drop (off + (src ++ src').length) := by
    rw [← List.drop_drop, List.drop_left' hlen, List.drop_drop, List.length_append, Nat.add_assoc]
  unfold overwrite
  rw [List.take_left' hlen, hdrop, ← List.append_assoc (mem.take off)]

/-- A copy over a copy. -/
theorem overwrite_again {mem src src' : List α} {off : ℕ} (h : off + src.length ≤ mem.length)
    (hlen : src.length = src'.length) :
    overwrite (overwrite mem off src) off src' = overwrite mem off src' := by
  have htake : (mem.take off).length = off := by
    rw [List.length_take]
    omega
  have hdrop : (overwrite mem off src).drop (off + src'.length) = mem.drop (off + src'.length) := by
    rw [overwrite, ← hlen, List.drop_left' (by rw [List.length_append, htake])]
  have hfront : (overwrite mem off src).take off = mem.take off := by
    rw [overwrite, List.append_assoc, List.take_left' htake]
  rw [overwrite, hdrop, hfront, overwrite]

/-- A part is copied to where it is. -/
theorem overwrite_part {mem : List α} {off n : ℕ} (h : off + n ≤ mem.length) :
    overwrite mem off (part mem off n) = mem := by
  rw [overwrite, length_part h, part, List.append_assoc, ← List.drop_drop, List.take_append_drop,
    List.take_append_drop]

theorem set_eq_overwrite {mem : List α} {off : ℕ} (h : off < mem.length) (x : α) :
    mem.set off x = overwrite mem off [x] := by
  rw [overwrite, List.set_eq_take_append_cons_drop, if_pos h, List.append_assoc,
    List.singleton_append, List.length_singleton]

theorem drop_overwrite {mem src : List α} {off n : ℕ} (h : off + src.length ≤ mem.length)
    (hn : off + src.length ≤ n) : (overwrite mem off src).drop n = mem.drop n := by
  refine List.ext_getElem? fun j => ?_
  rw [List.getElem?_drop, List.getElem?_drop, getElem?_overwrite_out h (by omega)]

/-! ## A block without an end -/

section Store
variable (mem : ℕ → α)

/-- `src` copied over `mem` at `off`. -/
def store (off : ℕ) (src : List α) (i : ℕ) : α :=
  if off ≤ i then src.getD (i - off) (mem i) else mem i

/-- The first `n` elements. -/
def front (n : ℕ) : List α := (List.range n).map mem

theorem length_front (n : ℕ) : (front mem n).length = n := by
  rw [front, List.length_map, List.length_range]

/-- **A copy right behind the front.** -/
theorem front_store (n : ℕ) (src : List α) :
    front (store mem n src) (n + src.length) = front mem n ++ src := by
  refine List.ext_getElem? fun i => ?_
  rw [front, List.getElem?_map]
  rcases Nat.lt_or_ge i n with hlt | hge
  · rw [List.getElem?_append_left (by rwa [length_front]), front, List.getElem?_map,
      List.getElem?_range hlt, List.getElem?_range (by omega), Option.map_some, Option.map_some,
      store, if_neg (by omega)]
  · rw [List.getElem?_append_right (by rwa [length_front]), length_front]
    rcases Nat.lt_or_ge (i - n) src.length with hin | hout
    · rw [List.getElem?_range (by omega), Option.map_some, store, if_pos hge,
        List.getD_eq_getElem _ _ hin, List.getElem?_eq_getElem hin]
    · rw [List.getElem?_eq_none (by rw [List.length_range]; omega), Option.map_none,
        List.getElem?_eq_none hout]

end Store

end GSConferencing.Lib.Memory
