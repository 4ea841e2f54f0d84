import GSConferencing.Lib.Pieces

/-!
# A stream in blocks

The elements of a stream are collected into blocks of `k`; `rest k l` are those that do not fill a
block yet.

* `blocks_cons`, `rest_cons`: what happens to a block at the front.
* `blocks_append`: a stream in two parts; `blocks_short`, `blocks_fill`: the second part is at most
  what the block has room for.
* `piece_range'`, `rest_range'`: the blocks of a stream of numbers are numbers in a row.
* `getElem?_flatMap_range`: blocks that are put in a row.
-/

namespace GSConferencing.Lib.Blocks

open GSConferencing.Lib.Pieces

variable {α β : Type*} {k : ℕ}

/-- The full blocks of a list. -/
def blocks (k : ℕ) (l : List α) : List (List α) := (List.range (l.length / k)).map (piece k l)

/-- What is left after the full blocks. -/
def rest (k : ℕ) (l : List α) : List α := l.drop (k * (l.length / k))

theorem length_rest (k : ℕ) (l : List α) : (rest k l).length = l.length % k := by
  rw [rest, List.length_drop, ← Nat.mod_eq_sub]

theorem mem_blocks {l b : List α} : b ∈ blocks k l ↔ ∃ i < l.length / k, piece k l i = b := by
  simp only [blocks, List.mem_map, List.mem_range]

theorem blocks_of_lt {l : List α} (h : l.length < k) : blocks k l = [] := by
  rw [blocks, Nat.div_eq_of_lt h, List.range_zero, List.map_nil]

theorem rest_of_lt {l : List α} (h : l.length < k) : rest k l = l := by
  rw [rest, Nat.div_eq_of_lt h, Nat.mul_zero, List.drop_zero]

/-- A block at the front comes out first. -/
theorem blocks_cons (hk : 0 < k) {b : List α} (hb : b.length = k) (l : List α) :
    blocks k (b ++ l) = b :: blocks k l := by
  have hdiv : (b ++ l).length / k = l.length / k + 1 := by
    rw [List.length_append, hb, Nat.add_div_left _ hk]
  have hfirst : piece k (b ++ l) 0 = b := by
    rw [piece, Nat.mul_zero, List.drop_zero, List.take_append_of_le_length hb.ge,
      List.take_of_length_le hb.le]
  have hnext : ∀ i, piece k (b ++ l) (i + 1) = piece k l i := fun i => by
    have : k * (i + 1) = b.length + k * i := by rw [hb, Nat.mul_succ, Nat.add_comm]
    rw [piece, this, List.drop_length_add_append, piece]
  rw [blocks, hdiv, List.range_succ_eq_map, List.map_cons, List.map_map, hfirst]
  exact congrArg _ (List.map_congr_left fun i _ => hnext i)

theorem rest_cons (hk : 0 < k) {b : List α} (hb : b.length = k) (l : List α) :
    rest k (b ++ l) = rest k l := by
  have hdrop : k * ((b ++ l).length / k) = b.length + k * (l.length / k) := by
    rw [List.length_append, hb, Nat.add_div_left _ hk, Nat.mul_succ, Nat.add_comm]
  rw [rest, hdrop, List.drop_length_add_append, rest]

/-! ## A stream that goes on -/

/-- **The blocks of a longer stream** are the ones so far, and those of what was left over with what
has come. -/
theorem blocks_append (hk : 0 < k) (l m : List α) :
    blocks k (l ++ m) = blocks k l ++ blocks k (rest k l ++ m) ∧
      rest k (l ++ m) = rest k (rest k l ++ m) := by
  by_cases hlt : l.length < k
  · rw [blocks_of_lt hlt, rest_of_lt hlt, List.nil_append]
    exact ⟨rfl, rfl⟩
  · have hb : (l.take k).length = k := List.length_take_of_le (Nat.le_of_not_lt hlt)
    have hsplit : l = l.take k ++ l.drop k := (List.take_append_drop k l).symm
    have hshort : (l.drop k).length < l.length := by
      rw [List.length_drop]
      omega
    obtain ⟨hblocks, hrest⟩ := blocks_append hk (l.drop k) m
    rw [hsplit, List.append_assoc, blocks_cons hk hb, rest_cons hk hb, blocks_cons hk hb,
      rest_cons hk hb, hblocks, hrest]
    exact ⟨rfl, rfl⟩
termination_by l.length

variable {l p : List α}

/-- A part that does not fill the block. -/
theorem blocks_short (hk : 0 < k) (h : (rest k l ++ p).length < k) :
    blocks k (l ++ p) = blocks k l ∧ rest k (l ++ p) = rest k l ++ p := by
  obtain ⟨hblocks, hrest⟩ := blocks_append hk l p
  rw [hblocks, hrest, blocks_of_lt h, rest_of_lt h, List.append_nil]
  exact ⟨rfl, rfl⟩

/-- **A part that fills the block.** -/
theorem blocks_fill (hk : 0 < k) (h : (rest k l ++ p).length = k) :
    blocks k (l ++ p) = blocks k l ++ [rest k l ++ p] ∧ rest k (l ++ p) = [] := by
  obtain ⟨hblocks, hrest⟩ := blocks_append hk l p
  have hone := blocks_cons hk h []
  have hnone := rest_cons hk h []
  rw [List.append_nil] at hone hnone
  rw [hblocks, hrest, hone, hnone, blocks_of_lt (l := []) hk, rest_of_lt (l := []) hk]
  exact ⟨rfl, rfl⟩

/-! ## Renamed elements, numbers in a row -/

theorem piece_map (f : α → β) (l : List α) (i : ℕ) : piece k (l.map f) i = (piece k l i).map f := by
  rw [piece, piece, List.map_take, List.map_drop]

theorem rest_map (f : α → β) (l : List α) : rest k (l.map f) = (rest k l).map f := by
  rw [rest, rest, List.length_map, List.map_drop]

theorem piece_range' {a n i : ℕ} (hi : i < n / k) :
    piece k (List.range' a n) i = List.range' (a + k * i) k := by
  have hle : k * i + k ≤ n := (Nat.mul_le_mul_left k hi).trans (Nat.mul_div_le n k)
  rw [piece, List.drop_range', Nat.mul_one, List.take_range'_of_length_ge (by omega)]

theorem rest_range' (a n : ℕ) :
    rest k (List.range' a n) = List.range' (a + k * (n / k)) (n % k) := by
  rw [rest, List.length_range', List.drop_range', Nat.mul_one, ← Nat.mod_eq_sub]

/-! ## Blocks in a row -/

section Row
variable {f : ℕ → List α} {n i j : ℕ}

theorem length_flatMap_range (hf : ∀ i, (f i).length = k) (n : ℕ) :
    ((List.range n).flatMap f).length = k * n := by
  rw [List.length_flatMap, List.map_congr_left fun i _ => hf i, List.map_const', List.sum_replicate,
    List.length_range, smul_eq_mul, Nat.mul_comm]

/-- Where an element of a block is in the row. -/
theorem getElem?_flatMap_range (hf : ∀ i, (f i).length = k) (hi : i < n) (hj : j < k) :
    ((List.range n).flatMap f)[k * i + j]? = (f i)[j]? := by
  induction n with
  | zero => omega
  | succ n ih =>
    have hlen := length_flatMap_range hf n
    rw [List.range_succ, List.flatMap_append, List.flatMap_singleton]
    rcases Nat.lt_succ_iff_lt_or_eq.mp hi with hlt | rfl
    · have hin : k * i + j < k * n := by
        calc k * i + j < k * (i + 1) := by rw [Nat.mul_succ]; omega
          _ ≤ k * n := Nat.mul_le_mul_left k hlt
      rw [List.getElem?_append_left (hlen.symm ▸ hin)]
      exact ih hlt
    · rw [List.getElem?_append_right (by omega), hlen, Nat.add_sub_cancel_left]

end Row

end GSConferencing.Lib.Blocks
