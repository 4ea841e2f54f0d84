import GSConferencing.Client.Cast

/-!
# Mono and stereo

`pcm_mono_to_stereo` of `pcm.c`, which spreads the samples of a buffer in the buffer itself, from
the last one down to the first one, and `pcm_stereo_to_mono`, which is in `Cast`.

* `pairwise_monoIndices`: no sample is read after it has been written.
* `short_pcmMonoToStereo`, `short_pcmStereoToMono`: the samples afterwards.
* `stereo_roundTrip`: one function takes back what the other one does.
-/

namespace GSConferencing.Client.PcmStereo

open GSConferencing.Include.Pack GSConferencing.Lib.Memory GSConferencing.Client.Cast

/-! ## The loop -/

/-- The two bytes of the sample `ps[i]`. -/
def short (buf : List Byte) (i : ℕ) : List Byte := part buf (2 * i) 2

/-- To read `ps[i]`. -/
def getShort (buf : List Byte) (i : ℕ) : Option (List Byte) :=
  if 2 * i + 2 ≤ buf.length then some (short buf i) else none

/-- `ps[i] = v`. -/
def setShort (buf : List Byte) (i : ℕ) (v : List Byte) : Option (List Byte) :=
  if 2 * i + 2 ≤ buf.length then some (overwrite buf (2 * i) v) else none

/-- The values of `i` in the loop of `pcm_mono_to_stereo`: from `n - 2` down in steps of two. -/
def monoIndices : ℕ → List ℕ
  | 0 => []
  | 1 => []
  | n + 2 => n :: monoIndices n

/-- `ps[i+1] = ps[i] = ps[i/2]`. -/
def monoRound (buf : List Byte) (i : ℕ) : Option (List Byte) := do
  let v ← getShort buf (i / 2)
  let buf ← setShort buf i v
  setShort buf (i + 1) v

/-- `pcm_mono_to_stereo`: the buffer afterwards, and what is returned. -/
def pcmMonoToStereo (buf : List Byte) (len : ℕ) : Option (List Byte × ℕ) :=
  ((monoIndices len).foldlM monoRound buf).map fun buf => (buf, len * 2)

/-! ## Writing a sample -/

variable {buf buf' v : List Byte} {i j n len : ℕ}

theorem length_short (h : 2 * i + 2 ≤ buf.length) : (short buf i).length = 2 := length_part h

/-- A sample is written. -/
theorem short_overwrite (hv : v.length = 2) (h : 2 * i + 2 ≤ buf.length) (j : ℕ) :
    short (overwrite buf (2 * i) v) j = if j = i then v else short buf j := by
  have hfit : 2 * i + v.length ≤ buf.length := by omega
  unfold short
  split
  · next hij =>
    have hself := part_overwrite_self hfit
    rw [hv] at hself
    rw [hij, hself]
  · exact part_overwrite_out hfit (by omega)

/-- **A round** copies one sample to two places. -/
theorem monoRound_eq (h : 2 * (i + 1) + 2 ≤ buf.length) : ∃ buf', monoRound buf i = some buf' ∧
    buf'.length = buf.length ∧
    ∀ j, short buf' j = if j = i ∨ j = i + 1 then short buf (i / 2) else short buf j := by
  have hread : 2 * (i / 2) + 2 ≤ buf.length := by omega
  have hv := length_short hread
  set v := short buf (i / 2)
  set buf₁ := overwrite buf (2 * i) v
  have hlen : buf₁.length = buf.length := length_overwrite (by omega)
  have hget : getShort buf (i / 2) = some v := if_pos hread
  have hset : setShort buf i v = some buf₁ := if_pos (by omega)
  have hset' : setShort buf₁ (i + 1) v = some (overwrite buf₁ (2 * (i + 1)) v) :=
    if_pos (by omega)
  refine ⟨overwrite buf₁ (2 * (i + 1)) v, ?_, ?_, fun j => ?_⟩
  · rw [monoRound, hget, Option.bind_eq_bind, Option.bind_some, hset, Option.bind_some, hset']
  · rw [length_overwrite (by omega), hlen]
  · rw [short_overwrite hv (by omega), short_overwrite hv (by omega)]
    by_cases hi : j = i + 1
    · rw [if_pos hi, if_pos (.inr hi)]
    · rw [if_neg hi]
      exact if_congr (or_iff_left hi).symm rfl rfl

/-! ## From mono to stereo -/

theorem monoIndices_lt {n : ℕ} : ∀ i ∈ monoIndices n, i + 2 ≤ n := by
  induction n using monoIndices.induct with
  | case1 => exact fun i hi => absurd hi List.not_mem_nil
  | case2 => exact fun i hi => absurd hi List.not_mem_nil
  | case3 n ih =>
    intro i hi
    rcases List.mem_cons.mp hi with rfl | hi
    · exact le_rfl
    · exact (ih i hi).trans (Nat.le_add_right n 2)

/-- **No sample is read after it has been written.** -/
theorem pairwise_monoIndices (n : ℕ) :
    (monoIndices n).Pairwise fun written i => i / 2 ≠ written ∧ i / 2 ≠ written + 1 := by
  induction n using monoIndices.induct with
  | case1 => exact List.Pairwise.nil
  | case2 => exact List.Pairwise.nil
  | case3 n ih =>
    refine List.pairwise_cons.mpr ⟨fun i hi => ?_, ih⟩
    have hlt := monoIndices_lt i hi
    omega

/-- **The samples** of the front are spread, from the last one on: those before them are still where
they were. -/
theorem foldlM_monoRound (n : ℕ) (buf : List Byte) (h : 4 * n ≤ buf.length) :
    ∃ buf', (monoIndices (2 * n)).foldlM monoRound buf = some buf' ∧
      buf'.length = buf.length ∧
      ∀ j, short buf' j = if j < 2 * n then short buf (j / 2) else short buf j := by
  induction n generalizing buf with
  | zero => exact ⟨buf, rfl, rfl, fun j => (if_neg (Nat.not_lt_zero j)).symm⟩
  | succ n ih =>
    have hroom : 2 * (2 * n + 1) + 2 ≤ buf.length := by omega
    obtain ⟨buf₁, hround, hlen₁, hshort₁⟩ := monoRound_eq hroom
    obtain ⟨buf', hfold, hlen', hshort'⟩ := ih buf₁ (by omega)
    refine ⟨buf', ?_, hlen'.trans hlen₁, fun j => ?_⟩
    · show (2 * n :: monoIndices (2 * n)).foldlM monoRound buf = some buf'
      rw [List.foldlM_cons, hround]
      exact hfold
    · rw [hshort', hshort₁, hshort₁, Nat.mul_div_cancel_left n Nat.two_pos]
      by_cases hj : j < 2 * n
      · rw [if_pos hj, if_neg (by omega), if_pos (by omega)]
      · rw [if_neg hj]
        by_cases hnew : j = 2 * n ∨ j = 2 * n + 1
        · rw [if_pos hnew, if_pos (by omega), show j / 2 = n by omega]
        · rw [if_neg hnew, if_neg (by omega)]

/-- **`pcm_mono_to_stereo`** has every sample twice. -/
theorem short_pcmMonoToStereo (heven : len % 2 = 0) (h : 2 * len ≤ buf.length) :
    ∃ buf', pcmMonoToStereo buf len = some (buf', 2 * len) ∧ buf'.length = buf.length ∧
      ∀ j, short buf' j = if j < len then short buf (j / 2) else short buf j := by
  obtain ⟨n, rfl⟩ : ∃ n, len = 2 * n := ⟨len / 2, by omega⟩
  obtain ⟨buf', hfold, hlen, hshort⟩ := foldlM_monoRound n buf (by omega)
  refine ⟨buf', ?_, hlen, hshort⟩
  rw [pcmMonoToStereo, hfold, Nat.mul_comm 2 (2 * n)]
  rfl

/-! ## And back -/

/-- **`pcm_stereo_to_mono`** keeps every other sample. -/
theorem short_pcmStereoToMono (h : len ≤ buf.length) :
    ∃ buf', pcmStereoToMono buf len = some (buf', len / 2) ∧ buf'.length = buf.length ∧
      ∀ j, short buf' j = if j < len / 4 then short buf (2 * j) else short buf j := by
  have hloop : ∀ n, 4 * n ≤ buf.length →
      let buf' := (List.range n).foldl (fun buf i => overwrite buf (2 * i) (part buf (4 * i) 2)) buf
      buf'.length = buf.length ∧
        ∀ j, short buf' j = if j < n then short buf (2 * j) else short buf j := by
    intro n
    induction n with
    | zero => exact fun _ => ⟨rfl, fun j => (if_neg (Nat.not_lt_zero j)).symm⟩
    | succ n ih =>
      intro hn
      obtain ⟨hlen, hshort⟩ := ih (by omega)
      rw [List.range_succ, List.foldl_append]
      set buf₁ := (List.range n).foldl (fun buf i => overwrite buf (2 * i) (part buf (4 * i) 2)) buf
      have hread : part buf₁ (4 * n) 2 = short buf (2 * n) := by
        have heq := hshort (2 * n)
        rwa [if_neg (by omega), short, show 2 * (2 * n) = 4 * n by omega] at heq
      have hv : (short buf (2 * n)).length = 2 := length_short (by omega)
      rw [List.foldl_cons, List.foldl_nil, hread]
      refine ⟨(length_overwrite (by omega)).trans hlen, fun j => ?_⟩
      rw [short_overwrite hv (by omega), hshort]
      by_cases hj : j = n
      · rw [if_pos hj, if_pos (by omega), hj]
      · rw [if_neg hj]
        exact if_congr (by omega) rfl rfl
  obtain ⟨hlen, hshort⟩ := hloop (len / 4) (by omega)
  exact ⟨_, if_neg (not_lt.mpr h), hlen, hshort⟩

/-- **To stereo and back:** in the buffer of stereo samples each sample is there twice, which was
read before it was written, and `pcm_stereo_to_mono` gives back the old samples and the old
length. -/
theorem stereo_roundTrip (heven : len % 2 = 0) (h : 2 * len ≤ buf.length) :
    ∃ buf', pcmMonoToStereo buf len = some (buf', 2 * len) ∧ buf'.length = buf.length ∧
      (∀ i < len / 2, short buf' (2 * i) = short buf i ∧ short buf' (2 * i + 1) = short buf i) ∧
      ((monoIndices len).Pairwise fun written i => i / 2 ≠ written ∧ i / 2 ≠ written + 1) ∧
      ∃ buf'', pcmStereoToMono buf' (2 * len) = some (buf'', len) ∧
        ∀ i < len / 2, short buf'' i = short buf i := by
  obtain ⟨buf', hstereo, hlen', hshort'⟩ := short_pcmMonoToStereo heven h
  have htwice : ∀ i < len / 2,
      short buf' (2 * i) = short buf i ∧ short buf' (2 * i + 1) = short buf i := by
    intro i hi
    rw [hshort', hshort', if_pos (by omega), if_pos (by omega), show 2 * i / 2 = i by omega,
      show (2 * i + 1) / 2 = i by omega]
    exact ⟨rfl, rfl⟩
  obtain ⟨buf'', hmono, -, hshort''⟩ := short_pcmStereoToMono (hlen' ▸ h)
  refine ⟨buf', hstereo, hlen', htwice, pairwise_monoIndices len, buf'', ?_, fun i hi => ?_⟩
  · rw [hmono, Nat.mul_div_cancel_left len Nat.two_pos]
  · rw [hshort'', if_pos (by omega)]
    exact (htwice i hi).1

/-- Two samples, in a buffer that is longer than it has to be. -/
theorem stereo_roundTrip_two : ∃ buf',
    pcmMonoToStereo [1, 2, 3, 4, 0, 0, 0, 0, 9] 4 = some (buf', 8) ∧ buf'.length = 9 ∧
    (∀ i < 2, short buf' (2 * i) = short [1, 2, 3, 4, 0, 0, 0, 0, 9] i ∧
      short buf' (2 * i + 1) = short [1, 2, 3, 4, 0, 0, 0, 0, 9] i) ∧
    ((monoIndices 4).Pairwise fun written i => i / 2 ≠ written ∧ i / 2 ≠ written + 1) ∧
    ∃ buf'', pcmStereoToMono buf' 8 = some (buf'', 4) ∧
      ∀ i < 2, short buf'' i = short [1, 2, 3, 4, 0, 0, 0, 0, 9] i :=
  stereo_roundTrip (by decide) (by decide)

end GSConferencing.Client.PcmStereo
