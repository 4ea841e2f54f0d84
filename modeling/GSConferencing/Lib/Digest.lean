import GSConferencing.Lib.Blocks

/-!
# Hashing in blocks

A message is cut into blocks of `k` that are put into a state one after the other; in front of that
it is padded: an element that marks its end, and zeros up to where a tail of fixed length fills the
last block.

* `chain_append`: a message that goes on after full blocks.
* `blocks_pad`: the blocks of a padded message: those of the message, and one or two more.
-/

namespace GSConferencing.Lib.Digest

open GSConferencing.Lib.Blocks

variable {α σ : Type*} {k : ℕ} {l m tail : List α} {z one : α}

/-- The state after the full blocks of a message. -/
def chain (f : σ → List α → σ) (k : ℕ) (s : σ) (l : List α) : σ := (blocks k l).foldl f s

/-- A message that goes on where a block begins. -/
theorem chain_append (hk : 0 < k) (f : σ → List α → σ) (s : σ) (h : l.length % k = 0)
    (m : List α) : chain f k s (l ++ m) = chain f k (chain f k s l) m := by
  have hrest : rest k l = [] := List.length_eq_zero_iff.mp ((length_rest k l).trans h)
  unfold chain
  rw [(blocks_append hk l m).1, hrest, List.nil_append, List.foldl_append]

theorem chain_cons (hk : 0 < k) (f : σ → List α → σ) (s : σ) {b : List α} (hb : b.length = k)
    (l : List α) : chain f k s (b ++ l) = chain f k (f s b) l := by
  unfold chain
  rw [blocks_cons hk hb, List.foldl_cons]

/-! ## Padding -/

/-- The number of zeros: as many as bring a message of length `n` with its mark and its tail up to
full blocks. -/
def zeros (k tail n : ℕ) : ℕ := (k - (n + 1 + tail) % k) % k

/-- A padded message. -/
def pad (k : ℕ) (one z : α) (tail l : List α) : List α :=
  l ++ (one :: List.replicate (zeros k tail.length l.length) z ++ tail)

theorem zeros_mod (t n : ℕ) : zeros k t n = (k - (n % k + 1 + t) % k) % k := by
  rw [zeros, Nat.add_assoc, Nat.add_assoc, Nat.mod_add_mod]

/-- The zeros go up to the tail. -/
theorem zeros_of_room {t n : ℕ} (h : n % k + 1 + t ≤ k) : n % k + 1 + zeros k t n + t = k := by
  rw [zeros_mod]
  rcases h.lt_or_eq with hlt | heq
  · have hzeros : (k - (n % k + 1 + t)) % k = k - (n % k + 1 + t) := Nat.mod_eq_of_lt (by omega)
    rw [Nat.mod_eq_of_lt hlt, hzeros]
    omega
  · rw [heq, Nat.mod_self, Nat.sub_zero, Nat.mod_self, Nat.add_zero, heq]

/-- There is a block more if the tail does not fit. -/
theorem zeros_of_full (hk : 0 < k) {t n : ℕ} (h : k < n % k + 1 + t) (ht : t ≤ k) :
    n % k + 1 + zeros k t n + t = k + k := by
  have hr : n % k < k := Nat.mod_lt _ hk
  rw [zeros_mod]
  rcases (show n % k + 1 + t ≤ k + k by omega).lt_or_eq with hlt | heq
  · have hmod : (n % k + 1 + t) % k = n % k + 1 + t - k := by
      rw [Nat.mod_eq_sub_mod h.le, Nat.mod_eq_of_lt (by omega)]
    have hzeros : (k - (n % k + 1 + t - k)) % k = k - (n % k + 1 + t - k) :=
      Nat.mod_eq_of_lt (by omega)
    rw [hmod, hzeros]
    omega
  · rw [heq, Nat.add_mod_right, Nat.mod_self, Nat.sub_zero, Nat.mod_self, Nat.add_zero, heq]

/-- **The blocks of a padded message,** if the tail fits into the block where the message ends. -/
theorem blocks_pad_of_room (hk : 0 < k) (h : l.length % k + 1 + tail.length ≤ k) :
    blocks k (pad k one z tail l) =
      blocks k l ++
        [rest k l ++ (one :: List.replicate (zeros k tail.length l.length) z ++ tail)] := by
  have hzeros := zeros_of_room h
  refine (blocks_fill hk ?_).1
  rw [List.length_append, length_rest, List.length_append, List.length_cons, List.length_replicate]
  omega

/-- If it does not, the zeros go on into another one. -/
theorem blocks_pad_of_full (hk : 0 < k) (h : k < l.length % k + 1 + tail.length)
    (ht : tail.length ≤ k) :
    blocks k (pad k one z tail l) =
      blocks k l ++ [rest k l ++ one :: List.replicate (k - (l.length % k + 1)) z,
        List.replicate (k - tail.length) z ++ tail] := by
  have hzeros := zeros_of_full hk h ht
  have hr : l.length % k < k := Nat.mod_lt _ hk
  have hcut : zeros k tail.length l.length =
      (k - (l.length % k + 1)) + (k - tail.length) := by omega
  have hfirst : (rest k l ++ one :: List.replicate (k - (l.length % k + 1)) z).length = k := by
    rw [List.length_append, length_rest, List.length_cons, List.length_replicate]
    omega
  have hsecond : (List.replicate (k - tail.length) z ++ tail).length = k := by
    rw [List.length_append, List.length_replicate]
    omega
  have hpad : rest k l ++ (one :: List.replicate (zeros k tail.length l.length) z ++ tail) =
      (rest k l ++ one :: List.replicate (k - (l.length % k + 1)) z) ++
        ((List.replicate (k - tail.length) z ++ tail) ++ []) := by
    rw [hcut, List.replicate_add]
    simp only [List.append_assoc, List.cons_append, List.append_nil]
  unfold pad
  rw [(blocks_append hk l _).1, hpad, blocks_cons hk hfirst, blocks_cons hk hsecond,
    blocks_of_lt (l := []) hk]

end GSConferencing.Lib.Digest
