import GSConferencing.Client.Mix
import GSConferencing.Lib.Blocks

/-!
# Mixed samples

What `pcm_mix` leaves in the first buffer, which is the same function in the client and in the
server.

* `sample_pcmMix`: a sample that is mixed is the sum of the samples of all buffers, cut; the others
  stay.
* `take_pcmMix_congr`: the mix depends on nothing but these samples.
-/

namespace GSConferencing.Client.Pcm

open GSConferencing.Include.Pack GSConferencing.Client.Mix GSConferencing.Lib.Memory
open GSConferencing.Lib.Blocks

variable {bufs : List (List Byte)} {buf : List Byte} {n i : ℕ} {v : ℤ}

theorem saturate_bounds (v : ℤ) : -2 ^ 15 ≤ saturate v ∧ saturate v < 2 ^ 15 := by
  unfold saturate
  split_ifs <;> omega

theorem saturate_eq (hlo : -2 ^ 15 ≤ v) (hhi : v < 2 ^ 15) : saturate v = v := by
  unfold saturate
  rw [if_neg (by omega), if_neg (by omega)]

/-- A sample is not cut. -/
theorem saturate_sample (buf : List Byte) (i : ℕ) : saturate (sample buf i) = sample buf i :=
  saturate_eq (BitVec.le_toInt _) BitVec.toInt_lt

@[simp] theorem length_sampleBytes (v : ℤ) : (sampleBytes v).length = 2 := rfl

theorem append_halves (x : BitVec 16) :
    ((x >>> 8).setWidth 8 ++ x.setWidth 8 : BitVec 16) = x := by
  refine BitVec.eq_of_getLsbD_eq fun i hi => ?_
  simp only [BitVec.getLsbD_append, BitVec.getLsbD_setWidth, BitVec.getLsbD_ushiftRight]
  by_cases h : i < 8
  · simp [h]
  · simp [h, show i - 8 < 8 by omega, show 8 + (i - 8) = i by omega]

/-- A sample is read back as it was written. -/
theorem sample_of_sampleBytes (hlo : -2 ^ 15 ≤ v) (hhi : v < 2 ^ 15)
    (h0 : buf[2 * i]? = (sampleBytes v)[0]?) (h1 : buf[2 * i + 1]? = (sampleBytes v)[1]?) :
    sample buf i = v := by
  rw [sample, List.getD_eq_getElem?_getD, List.getD_eq_getElem?_getD, h0, h1]
  show ((BitVec.ofInt 16 v >>> 8).setWidth 8 ++ (BitVec.ofInt 16 v).setWidth 8 :
    BitVec 16).toInt = v
  rw [append_halves]
  exact BitVec.toInt_ofInt_eq_self (by decide) hlo hhi

/-- A sample is two bytes. -/
theorem sample_congr {buf' : List Byte} (h0 : buf[2 * i]? = buf'[2 * i]?)
    (h1 : buf[2 * i + 1]? = buf'[2 * i + 1]?) : sample buf i = sample buf' i := by
  rw [sample, sample]
  simp only [List.getD_eq_getElem?_getD, h0, h1]

theorem sample_replicate_zero (l i : ℕ) : sample (List.replicate l 0) i = 0 := by
  have hz : ∀ j, (List.replicate l (0 : Byte)).getD j 0 = 0 := fun j => by
    rw [List.getD_eq_getElem?_getD, List.getElem?_replicate]
    split <;> rfl
  rw [sample, hz, hz]
  rfl

/-- The mixed samples, one after the other. -/
def mixBytes (bufs : List (List Byte)) (n : ℕ) : List Byte :=
  (List.range n).flatMap fun i => sampleBytes (saturate (bufs.map fun buf => sample buf i).sum)

theorem length_mixBytes (bufs : List (List Byte)) (n : ℕ) : (mixBytes bufs n).length = 2 * n :=
  length_flatMap_range (fun _ => length_sampleBytes _) n

/-- **Where there is a sample in every buffer it is summed up.**  The rest of the first buffer
stays. -/
theorem sample_pcmMix (h : 2 * n ≤ (bufs.headD []).length) (i : ℕ) :
    sample (pcmMix bufs n) i =
      if i < n then saturate (bufs.map fun buf => sample buf i).sum
      else sample (bufs.headD []) i := by
  have hlen := length_mixBytes bufs n
  have hfits : 0 + (mixBytes bufs n).length ≤ (bufs.headD []).length := by omega
  show sample (overwrite (bufs.headD []) 0 (mixBytes bufs n)) i = _
  split
  · next hi =>
    have hin : ∀ j < 2, (overwrite (bufs.headD []) 0 (mixBytes bufs n))[2 * i + j]? =
        (sampleBytes (saturate (bufs.map fun buf => sample buf i).sum))[j]? := by
      intro j hj
      have := getElem?_overwrite_in (j := 2 * i + j) hfits (by omega)
      rw [Nat.zero_add] at this
      rw [this]
      exact getElem?_flatMap_range (fun _ => length_sampleBytes _) hi hj
    obtain ⟨hlo, hhi⟩ := saturate_bounds (bufs.map fun buf => sample buf i).sum
    exact sample_of_sampleBytes hlo hhi (hin 0 (by omega)) (hin 1 (by omega))
  · next hi =>
    exact sample_congr (getElem?_overwrite_out hfits (.inr (by omega)))
      (getElem?_overwrite_out hfits (.inr (by omega)))

/-- **The front of the mix** depends on the front of the first buffer and on the samples that are
mixed. -/
theorem take_pcmMix_congr {bufs' : List (List Byte)} {d : ℕ} (hn : 2 * n ≤ d)
    (hfirst : (bufs.headD []).take d = (bufs'.headD []).take d)
    (hs : ∀ i < n, (bufs.map fun buf => sample buf i) = bufs'.map fun buf => sample buf i) :
    (pcmMix bufs n).take d = (pcmMix bufs' n).take d := by
  have hmix : mixBytes bufs n = mixBytes bufs' n :=
    List.flatMap_congr fun i hi => by rw [hs i (List.mem_range.mp hi)]
  show (overwrite (bufs.headD []) 0 (mixBytes bufs n)).take d =
    (overwrite (bufs'.headD []) 0 (mixBytes bufs' n)).take d
  rw [take_overwrite_zero (by rw [length_mixBytes]; exact hn),
    take_overwrite_zero (by rw [length_mixBytes]; exact hn), hmix, hfirst]

end GSConferencing.Client.Pcm
