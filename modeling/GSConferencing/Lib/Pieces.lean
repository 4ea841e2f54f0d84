import GSConferencing.Lib.Memory

/-!
# A list in pieces

A list of length `len` is cut into pieces of `k` elements, the last one shorter; `count k len` is
their number.  The pieces are put into a memory one by one.

* `sum_eq_iff`: different pieces make up `len` elements exactly when they are all the pieces.
* `Filled.put`, `Filled.eq_take`: a memory that got all the pieces starts with the list.
-/

namespace GSConferencing.Lib.Pieces

open GSConferencing.Lib.Memory

variable {α : Type*} {k len : ℕ}

/-- The number of pieces. -/
def count (k len : ℕ) : ℕ := len / k + if len % k = 0 then 0 else 1

/-- The size of the `i`th piece. -/
def size (k len i : ℕ) : ℕ := min k (len - k * i)

/-- The `i`th piece. -/
def piece (k : ℕ) (l : List α) (i : ℕ) : List α := (l.drop (k * i)).take k

theorem length_piece (k : ℕ) (l : List α) (i : ℕ) : (piece k l i).length = size k l.length i := by
  simp only [piece, size, List.length_take, List.length_drop]

theorem getElem?_piece (l : List α) {i j : ℕ} (h : j < k) :
    (piece k l i)[j]? = l[k * i + j]? := by
  rw [piece, List.getElem?_take_of_lt h, List.getElem?_drop]

theorem lt_count_iff (hk : 0 < k) {i : ℕ} : i < count k len ↔ k * i < len := by
  have hdiv := Nat.div_add_mod len k
  have hmod := Nat.mod_lt len hk
  unfold count
  constructor
  · intro h
    by_contra hn
    have hle : len / k ≤ i := Nat.div_le_of_le_mul (not_lt.mp hn)
    split_ifs at h with h0
    · omega
    · obtain rfl : i = len / k := by omega
      omega
  · intro h
    by_contra hn
    split_ifs at hn with h0
    · have := Nat.mul_le_mul_left k (not_lt.mp hn)
      rw [Nat.add_zero] at this
      omega
    · have := Nat.mul_le_mul_left k (not_lt.mp hn)
      rw [Nat.mul_add] at this
      omega

theorem size_pos (hk : 0 < k) {i : ℕ} (h : i < count k len) : 0 < size k len i := by
  have := (lt_count_iff hk).mp h
  unfold size
  omega

theorem place_add_size_le (hk : 0 < k) {i : ℕ} (h : i < count k len) :
    k * i + size k len i ≤ len := by
  have := (lt_count_iff hk).mp h
  unfold size
  omega

/-- Before the last piece all are full. -/
theorem size_of_lt_div {i : ℕ} (h : i < len / k) : size k len i = k := by
  have h' : k * (i + 1) ≤ len :=
    (Nat.mul_le_mul_left k h).trans (Nat.mul_div_le len k)
  rw [Nat.mul_add] at h'
  unfold size
  omega

/-- The last piece, when it is not full. -/
theorem size_div (hk : 0 < k) : size k len (len / k) = len % k := by
  have hdiv := Nat.div_add_mod len k
  have hmod := Nat.mod_lt len hk
  unfold size
  omega

/-! ## Counting -/

theorem sum_size_range (k len n : ℕ) : ∑ i ∈ Finset.range n, size k len i = min (k * n) len := by
  induction n with
  | zero => simp
  | succ n ih =>
    rw [Finset.sum_range_succ, ih, size, Nat.mul_add]
    omega

theorem sum_size (hk : 0 < k) : ∑ i ∈ Finset.range (count k len), size k len i = len := by
  have h := mt (lt_count_iff hk).mpr (lt_irrefl (count k len))
  rw [sum_size_range]
  omega

theorem sum_map_size {c : List ℕ} (hc : c.Nodup) :
    (c.map (size k len)).sum = ∑ i ∈ c.toFinset, size k len i :=
  (List.sum_toFinset (size k len) hc).symm

theorem sum_le (hk : 0 < k) {c : List ℕ} (hc : c.Nodup) (hlt : ∀ i ∈ c, i < count k len) :
    (c.map (size k len)).sum ≤ len := by
  rw [sum_map_size hc]
  refine (Finset.sum_le_sum_of_subset fun i hi => ?_).trans_eq (sum_size hk)
  exact Finset.mem_range.mpr (hlt i (List.mem_toFinset.mp hi))

/-- **Different pieces have `len` elements** exactly when none is missing. -/
theorem sum_eq_iff (hk : 0 < k) {c : List ℕ} (hc : c.Nodup) (hlt : ∀ i ∈ c, i < count k len) :
    (c.map (size k len)).sum = len ↔ ∀ i < count k len, i ∈ c := by
  have hsub : c.toFinset ⊆ Finset.range (count k len) := fun i hi =>
    Finset.mem_range.mpr (hlt i (List.mem_toFinset.mp hi))
  rw [sum_map_size hc]
  constructor
  · intro h i hi
    by_contra hn
    have hlt := Finset.sum_lt_sum_of_subset hsub (Finset.mem_range.mpr hi)
      (mt List.mem_toFinset.mp hn) (size_pos hk hi) (fun _ _ _ => Nat.zero_le _)
    rw [h, sum_size hk] at hlt
    exact lt_irrefl _ hlt
  · intro h
    have heq : c.toFinset = Finset.range (count k len) :=
      hsub.antisymm fun i hi => List.mem_toFinset.mpr (h i (Finset.mem_range.mp hi))
    rw [heq, sum_size hk]

/-! ## Putting the pieces into a memory -/

/-- The memory holds the pieces `c` of `l`, each at its place. -/
def Filled (k : ℕ) (l : List α) (c : List ℕ) (mem : List α) : Prop :=
  ∀ i ∈ c, ∀ j < size k l.length i, mem[k * i + j]? = l[k * i + j]?

theorem filled_nil (k : ℕ) (l mem : List α) : Filled k l [] mem := fun _ hi => nomatch hi

/-- A memory may grow. -/
theorem Filled.append {l mem : List α} {c : List ℕ} (h : Filled k l c mem)
    (hk : 0 < k) (hlt : ∀ i ∈ c, i < count k l.length) (ext : List α) :
    Filled k l c (mem ++ ext) := by
  intro i hi j hj
  have hin := place_add_size_le hk (hlt i hi)
  have heq := h i hi j hj
  rw [List.getElem?_eq_getElem (by omega : k * i + j < l.length)] at heq ⊢
  have hmem := (List.getElem?_eq_some_iff.mp heq).1
  rw [List.getElem?_append_left hmem, heq]

/-- **One more piece.** -/
theorem Filled.put {l mem : List α} {c : List ℕ} (h : Filled k l c mem) {i : ℕ}
    (hi : i ∉ c) (hfit : k * i + (piece k l i).length ≤ mem.length) :
    Filled k l (i :: c) (overwrite mem (k * i) (piece k l i)) := by
  intro i' hi' j hj
  have hjk : j < k := lt_of_lt_of_le hj (min_le_left _ _)
  rcases List.mem_cons.mp hi' with rfl | hi'
  · rw [getElem?_overwrite_in hfit (by rw [length_piece]; exact hj), getElem?_piece l hjk]
  · have hsz : (piece k l i).length ≤ k := by
      rw [length_piece]
      exact min_le_left _ _
    rw [getElem?_overwrite_out hfit, h i' hi' j hj]
    rcases Nat.lt_or_gt_of_ne (fun heq : i' = i => hi (heq ▸ hi')) with hlt | hgt
    · have := Nat.mul_le_mul_left k hlt
      rw [Nat.mul_succ] at this
      omega
    · have := Nat.mul_le_mul_left k hgt
      rw [Nat.mul_succ] at this
      omega

/-- **All the pieces** give back the list. -/
theorem Filled.eq_take {l mem : List α} {c : List ℕ} (h : Filled k l c mem) (hk : 0 < k)
    (hall : ∀ i < count k l.length, i ∈ c) : mem.take l.length = l := by
  refine List.ext_getElem? fun p => ?_
  by_cases hp : p < l.length
  · have hmod := Nat.mod_lt p hk
    have hdiv := Nat.div_add_mod p k
    have hi : p / k < count k l.length := (lt_count_iff hk).mpr (by omega)
    have := h (p / k) (hall _ hi) (p % k) (by unfold size; omega)
    rw [hdiv] at this
    rw [List.getElem?_take_of_lt hp, this]
  · rw [List.getElem?_eq_none ((List.length_take_le _ _).trans (not_lt.mp hp)),
      List.getElem?_eq_none (not_lt.mp hp)]

end GSConferencing.Lib.Pieces
