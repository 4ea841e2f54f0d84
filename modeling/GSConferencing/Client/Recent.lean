import GSConferencing.Lib.Ring
import GSConferencing.Lib.Window

/-!
# Recently received numbers

`recent_test` of `client.c`: a ring of the sequence numbers that have been accepted last.
`recentTest_spec`: the ring is a window on the history of accepted numbers.
-/

namespace GSConferencing.Client.Recent

open GSConferencing.Lib.Ring GSConferencing.Lib.Window

variable {α : Type*} {k : ℕ}

/-- `struct recent_info`; the array has `2 ^ k` places. -/
structure RecentInfo (α : Type*) (k : ℕ) where
  seqs : Fin (2 ^ k) → α
  pos : Fin (2 ^ k)

namespace RecentInfo

/-- `seqs[(pos + size - i) & mask]`: the number that was accepted `i` numbers before the last. -/
def nth (r : RecentInfo α k) (i : ℕ) : α := r.seqs (place k (r.pos.val + 2 ^ k - i))

/-- The numbers in the ring, in the order in which the loop of `recent_test` looks at them. -/
def contents (r : RecentInfo α k) : List α := (List.range (2 ^ k)).map r.nth

/-- A ring that is filled with `z`. -/
def new (z : α) : RecentInfo α k where
  seqs := fun _ => z
  pos := ⟨0, Nat.two_pow_pos k⟩

/-- The number is added to the ring. -/
def add (r : RecentInfo α k) (seq : α) : RecentInfo α k where
  seqs := Function.update r.seqs (place k (r.pos.val + 1)) seq
  pos := place k (r.pos.val + 1)

end RecentInfo

/-- `recent_test`. -/
def recentTest [DecidableEq α] (r : RecentInfo α k) (seq : α) : Bool × RecentInfo α k :=
  if seq ∈ r.contents then (true, r) else (false, r.add seq)

theorem contents_new (z : α) :
    (RecentInfo.new z : RecentInfo α k).contents = window (2 ^ k) z [] := by
  rw [window_nil]
  exact List.eq_replicate_iff.mpr ⟨by simp [RecentInfo.contents], fun b hb => by
    obtain ⟨i, -, rfl⟩ := List.mem_map.mp hb
    rfl⟩

/-- The newest number is the one that was added. -/
theorem nth_add_zero (r : RecentInfo α k) (seq : α) : (r.add seq).nth 0 = seq := by
  have h : place k ((r.add seq).pos.val + 2 ^ k - 0) = place k (r.pos.val + 1) :=
    Fin.ext (by simp [RecentInfo.add, place_val])
  unfold RecentInfo.nth
  rw [h]
  exact Function.update_self ..

/-- The place of an item once the ring has advanced. -/
theorem place_step {n p i : ℕ} (hp : p < n) (hi : i + 1 < n) :
    ((p + 1) % n + n - (i + 1)) % n = (p + n - i) % n := by
  rw [mod_turn (show p + 1 < 2 * n by omega), mod_turn (show p + n - i < 2 * n by omega)]
  split_ifs <;> rw [mod_turn (by omega)] <;> split_ifs <;> omega

/-- The ring advances to the place of the oldest item. -/
theorem place_ne {n p i : ℕ} (hp : p < n) (hi : i + 1 < n) : (p + n - i) % n ≠ (p + 1) % n := by
  rw [mod_turn (show p + 1 < 2 * n by omega), mod_turn (show p + n - i < 2 * n by omega)]
  split_ifs <;> omega

/-- The others are one number older. -/
theorem nth_add_succ (r : RecentInfo α k) (seq : α) {i : ℕ} (hi : i + 1 < 2 ^ k) :
    (r.add seq).nth (i + 1) = r.nth i := by
  have hpos : (r.add seq).pos.val = (r.pos.val + 1) % 2 ^ k := place_val k _
  have hval : place k ((r.add seq).pos.val + 2 ^ k - (i + 1)) =
      place k (r.pos.val + 2 ^ k - i) := by
    refine Fin.ext ?_
    rw [place_val, place_val, hpos, place_step r.pos.isLt hi]
  have hne : place k (r.pos.val + 2 ^ k - i) ≠ place k (r.pos.val + 1) := by
    intro h
    have := congrArg Fin.val h
    rw [place_val, place_val] at this
    exact place_ne r.pos.isLt hi this
  unfold RecentInfo.nth
  rw [hval]
  exact Function.update_of_ne hne ..

/-- Adding a number forgets the oldest one. -/
theorem contents_add (r : RecentInfo α k) (seq : α) :
    (r.add seq).contents = (seq :: r.contents).take (2 ^ k) := by
  obtain ⟨n, hn⟩ := Nat.exists_eq_succ_of_ne_zero (Nat.two_pow_pos k).ne'
  unfold RecentInfo.contents
  rw [hn, List.range_succ_eq_map, List.map_cons, List.map_map, nth_add_zero, List.take_succ_cons]
  congr 1
  rw [← List.range_succ_eq_map, ← List.map_take, List.take_range, Nat.min_eq_left (Nat.le_succ n)]
  refine List.map_congr_left fun i hi => ?_
  exact nth_add_succ r seq (by rw [hn]; exact Nat.succ_lt_succ (List.mem_range.mp hi))

/-- The ring holds the window on the numbers `l` that have been accepted, newest first. -/
def Holds (r : RecentInfo α k) (z : α) (l : List α) : Prop := r.contents = window (2 ^ k) z l

theorem holds_new (z : α) : Holds (RecentInfo.new z : RecentInfo α k) z [] := contents_new z

/-- **`recent_test`** recognizes what the window holds, and the rest becomes the newest number. -/
theorem recentTest_spec [DecidableEq α] {r : RecentInfo α k} {z : α} {l : List α}
    (h : Holds r z l) (seq : α) :
    (seq ∈ window (2 ^ k) z l ∧ recentTest r seq = (true, r)) ∨
    (seq ∉ window (2 ^ k) z l ∧ ∃ r', recentTest r seq = (false, r') ∧ Holds r' z (seq :: l)) := by
  unfold recentTest
  rw [h]
  by_cases hin : seq ∈ window (2 ^ k) z l
  · exact .inl ⟨hin, if_pos hin⟩
  · refine .inr ⟨hin, r.add seq, if_neg hin, ?_⟩
    unfold Holds
    rw [contents_add, h, window_cons]

end GSConferencing.Client.Recent
