import GSConferencing.Client.Pcm

/-!
# Mixing in place

`pcm_mix` of `pcm.c`, which is the same in the client and in the server, down to the memory: the
pointers into all buffers advance together, and the sums are written to the first buffer while it is
still being read.  An `int` that overflows has no result.

* `mixIn_eq`: the sum of one round, which does not overflow.
* `pcmMix_eq`: the memory after the call.
* `pcmMix_saturating`: the saturating sum, in every order of the buffers.
* `sample_pcmMix_eq`: it is what `pcmMix` of `Mix` says.
-/

namespace GSConferencing.Client.PcmMix

open GSConferencing.Client.Mix (saturate sample)

/-- The memory, in units of a `short`; `none` is no memory of the program. -/
abbrev Mem := ℕ → Option (BitVec 16)

/-- A sum of type `int`. -/
def addInt (a b : ℤ) : Option ℤ := if -2 ^ 31 ≤ a + b ∧ a + b < 2 ^ 31 then some (a + b) else none

/-- The loop over `bufs`: what is added to `mix`, and the pointers afterwards. -/
def mixIn (mem : Mem) : List ℕ → ℤ → Option (ℤ × List ℕ)
  | [], mix => some (mix, [])
  | p :: bufs, mix => do
    let v ← mem p
    let mix ← addInt mix v.toInt
    let r ← mixIn mem bufs mix
    some (r.1, (p + 1) :: r.2)

/-- `*p = v`. -/
def store (mem : Mem) (p : ℕ) (v : BitVec 16) : Option Mem :=
  (mem p).map fun _ => Function.update mem p (some v)

/-- A round of the outer loop: the memory, and the pointers. -/
def mixRound (buf0 : ℕ) (s : Mem × List ℕ) (i : ℕ) : Option (Mem × List ℕ) := do
  let r ← mixIn s.1 s.2 0
  let mem ← store s.1 (buf0 + i) (BitVec.ofInt 16 (saturate r.1))
  some (mem, r.2)

/-- `pcm_mix`: the memory afterwards; there is room for eight pointers, and without a buffer `buf0`
is not set. -/
def pcmMix (mem : Mem) (pcmBufs : List ℕ) (samples : ℕ) : Option Mem :=
  match pcmBufs with
  | [] => none
  | buf0 :: bufs =>
    if 8 < (buf0 :: bufs).length then none
    else ((List.range samples).foldlM (mixRound buf0) (mem, buf0 :: bufs)).map Prod.fst

/-! ## The buffers -/

/-- The sample `p[i]`. -/
def sampleAt (mem : Mem) (p i : ℕ) : ℤ := ((mem (p + i)).getD 0).toInt

/-- Two buffers of `n` samples do not overlap. -/
def Apart (n p q : ℕ) : Prop := p + n ≤ q ∨ q + n ≤ p

instance (n p q : ℕ) : Decidable (Apart n p q) := inferInstanceAs (Decidable (_ ∨ _))

/-- The buffers of `n` samples are there, and do not overlap. -/
structure Buffers (mem : Mem) (bufs : List ℕ) (n : ℕ) : Prop where
  mapped : ∀ p ∈ bufs, ∀ i < n, (mem (p + i)).isSome = true
  apart : bufs.Pairwise (Apart n)

/-- The sum of the samples `i`. -/
def total (mem : Mem) (bufs : List ℕ) (i : ℕ) : ℤ := (bufs.map fun p => sampleAt mem p i).sum

variable {mem mem' : Mem} {bufs : List ℕ} {n i p q buf0 : ℕ} {mix : ℤ}

theorem sampleAt_bounds (mem : Mem) (p i : ℕ) :
    -2 ^ 15 ≤ sampleAt mem p i ∧ sampleAt mem p i < 2 ^ 15 :=
  ⟨BitVec.le_toInt _, BitVec.toInt_lt⟩

/-- **The sum of a round** does not overflow: it grows by `2 ^ 15` at most with every buffer. -/
theorem mixIn_eq {k : ℕ} (hmapped : ∀ p ∈ bufs, (mem (p + i)).isSome = true)
    (hmix : -(k * 2 ^ 15) ≤ mix ∧ mix ≤ k * 2 ^ 15) (hk : k + bufs.length ≤ 8) :
    mixIn mem (bufs.map fun p => p + i) mix =
      some (mix + total mem bufs i, bufs.map fun p => p + (i + 1)) := by
  induction bufs generalizing mix k with
  | nil => exact congrArg (fun m => some (m, [])) (add_zero mix).symm
  | cons p bufs ih =>
    obtain ⟨v, hv⟩ := Option.isSome_iff_exists.mp (hmapped p List.mem_cons_self)
    have hat : sampleAt mem p i = v.toInt := by
      unfold sampleAt
      rw [hv, Option.getD_some]
    obtain ⟨hlo, hhi⟩ := sampleAt_bounds mem p i
    rw [hat] at hlo hhi
    rw [List.length_cons] at hk
    have hadd : addInt mix v.toInt = some (mix + v.toInt) := if_pos (by omega)
    have hbounds : -((k + 1 : ℕ) * 2 ^ 15) ≤ mix + v.toInt ∧
        mix + v.toInt ≤ (k + 1 : ℕ) * 2 ^ 15 := by
      push_cast
      omega
    have hrest := ih (fun q hq => hmapped q (List.mem_cons_of_mem p hq)) hbounds (by omega)
    rw [List.map_cons, mixIn, hv, Option.bind_eq_bind, Option.bind_some, hadd,
      Option.bind_eq_bind, Option.bind_some, hrest]
    show some (mix + v.toInt + total mem bufs i, _) = some (mix + total mem (p :: bufs) i, _)
    rw [total, total, List.map_cons, List.sum_cons, hat, add_assoc]
    rfl

theorem saturate_toInt (v : ℤ) : (BitVec.ofInt 16 (saturate v)).toInt = saturate v := by
  obtain ⟨hlo, hhi⟩ := Pcm.saturate_bounds v
  exact BitVec.toInt_ofInt_eq_self (by decide) hlo hhi

/-! ## The rounds -/

/-- The memory after `i` rounds: the first samples of the first buffer are mixed, and everything
else is as it was. -/
structure Mixed (mem : Mem) (bufs : List ℕ) (buf0 i : ℕ) (mem' : Mem) : Prop where
  done : ∀ j < i, mem' (buf0 + j) = some (BitVec.ofInt 16 (saturate (total mem bufs j)))
  rest : ∀ a, a < buf0 ∨ buf0 + i ≤ a → mem' a = mem a

/-- **What is read** in a round has not been written. -/
theorem Mixed.read (h : Mixed mem bufs buf0 i mem') (hapart : ∀ q ∈ bufs, q = buf0 ∨ Apart n buf0 q)
    (hi : i < n) (hp : p ∈ bufs) : mem' (p + i) = mem (p + i) := by
  refine h.rest _ ?_
  rcases hapart p hp with rfl | hbefore | hbehind
  · exact .inr le_rfl
  · exact .inr (by omega)
  · exact .inl (by omega)

/-- **A round.** -/
theorem mixRound_eq (h : Mixed mem bufs buf0 i mem') (hmapped : ∀ p ∈ bufs, ∀ i < n,
    (mem (p + i)).isSome = true) (hapart : ∀ q ∈ bufs, q = buf0 ∨ Apart n buf0 q)
    (hfirst : buf0 ∈ bufs) (hlen : bufs.length ≤ 8) (hi : i < n) :
    ∃ mem'', mixRound buf0 (mem', bufs.map fun p => p + i) i =
      some (mem'', bufs.map fun p => p + (i + 1)) ∧ Mixed mem bufs buf0 (i + 1) mem'' := by
  have hread : ∀ p ∈ bufs, mem' (p + i) = mem (p + i) := fun p hp => h.read hapart hi hp
  have hsome : ∀ p ∈ bufs, (mem' (p + i)).isSome = true := fun p hp => by
    rw [hread p hp]
    exact hmapped p hp i hi
  have htotal : total mem' bufs i = total mem bufs i := by
    unfold total sampleAt
    exact congrArg List.sum (List.map_congr_left fun p hp => by rw [hread p hp])
  have hzero : -((0 : ℕ) * 2 ^ 15) ≤ (0 : ℤ) ∧ (0 : ℤ) ≤ (0 : ℕ) * 2 ^ 15 := by decide
  have hsum := mixIn_eq hsome hzero (by omega)
  rw [zero_add, htotal] at hsum
  obtain ⟨v, hv⟩ := Option.isSome_iff_exists.mp (hsome buf0 hfirst)
  refine ⟨Function.update mem' (buf0 + i)
    (some (BitVec.ofInt 16 (saturate (total mem bufs i)))), ?_, fun j hj => ?_, fun a ha => ?_⟩
  · have hstore : ∀ w, store mem' (buf0 + i) w = some (Function.update mem' (buf0 + i) (some w)) :=
      fun w => by rw [store, hv, Option.map_some]
    rw [mixRound, hsum, Option.bind_eq_bind, Option.bind_some, hstore]
    rfl
  · by_cases hji : j = i
    · subst hji
      exact Function.update_self ..
    · exact (Function.update_of_ne (by omega) _ _).trans (h.done j (by omega))
  · exact (Function.update_of_ne (by omega) _ _).trans (h.rest a (by omega))

/-- **`pcm_mix`** writes the sums to the first buffer, and nothing else. -/
theorem pcmMix_eq (h : Buffers mem (buf0 :: bufs) n) (hlen : (buf0 :: bufs).length ≤ 8) :
    ∃ mem', pcmMix mem (buf0 :: bufs) n = some mem' ∧ Mixed mem (buf0 :: bufs) buf0 n mem' := by
  have hapart : ∀ q ∈ buf0 :: bufs, q = buf0 ∨ Apart n buf0 q := by
    intro q hq
    exact (List.mem_cons.mp hq).imp id ((List.pairwise_cons.mp h.apart).1 q)
  have hloop : ∀ i ≤ n, ∃ mem', (List.range i).foldlM (mixRound buf0) (mem, buf0 :: bufs) =
      some (mem', (buf0 :: bufs).map fun p => p + i) ∧ Mixed mem (buf0 :: bufs) buf0 i mem' := by
    intro i
    induction i with
    | zero =>
      refine fun _ => ⟨mem, ?_, fun j hj => absurd hj (Nat.not_lt_zero j), fun _ _ => rfl⟩
      rw [List.range_zero, List.foldlM_nil]
      exact congrArg (fun l => some (mem, l)) (List.map_id _).symm
    | succ i ih =>
      intro hi
      obtain ⟨mem', hfold, hmixed⟩ := ih (by omega)
      obtain ⟨mem'', hround, hmixed'⟩ :=
        mixRound_eq hmixed h.mapped hapart List.mem_cons_self hlen hi
      refine ⟨mem'', ?_, hmixed'⟩
      rw [List.range_succ, List.foldlM_append, hfold]
      show (do let s ← mixRound buf0 _ i; [].foldlM (mixRound buf0) s) = _
      rw [hround]
      rfl
  obtain ⟨mem', hfold, hmixed⟩ := hloop n le_rfl
  refine ⟨mem', ?_, hmixed⟩
  rw [pcmMix, if_neg (not_lt.mpr hlen), hfold]
  rfl

/-! ## The saturating sum -/

theorem apart_comm {n p q : ℕ} (h : Apart n p q) : Apart n q p := h.symm

/-- The buffers in another order. -/
theorem Buffers.perm {bufs' : List ℕ} (h : Buffers mem bufs n) (hperm : bufs'.Perm bufs) :
    Buffers mem bufs' n where
  mapped p hp := h.mapped p (hperm.mem_iff.mp hp)
  apart := (hperm.pairwise_iff apart_comm).mpr h.apart

theorem total_perm {bufs' : List ℕ} (mem : Mem) (hperm : bufs'.Perm bufs) (i : ℕ) :
    total mem bufs' i = total mem bufs i := (hperm.map _).sum_eq

theorem saturate_eq_clamp (v : ℤ) : saturate v = max (-32768) (min 32767 v) := by
  unfold saturate
  split_ifs <;> omega

theorem Mixed.sampleAt_eq (h : Mixed mem bufs buf0 n mem') (hi : i < n) :
    sampleAt mem' buf0 i = saturate (total mem bufs i) := by
  unfold sampleAt
  rw [h.done i hi, Option.getD_some, saturate_toInt]

/-- **`pcm_mix` is a saturating sum:** no sum overflows, the samples of the first buffer are the
sums of the samples of all buffers, cut, nothing else is written, and the order of the buffers does
not matter. -/
theorem pcmMix_saturating (h : Buffers mem (buf0 :: bufs) n) (hlen : (buf0 :: bufs).length ≤ 8) :
    ∃ mem', pcmMix mem (buf0 :: bufs) n = some mem' ∧
      (∀ i < n, sampleAt mem' buf0 i = max (-32768) (min 32767 (total mem (buf0 :: bufs) i))) ∧
      (∀ p ∈ bufs, ∀ i < n, mem' (p + i) = mem (p + i)) ∧
      (∀ a, a < buf0 ∨ buf0 + n ≤ a → mem' a = mem a) ∧
      ∀ buf0' bufs', (buf0' :: bufs').Perm (buf0 :: bufs) →
        ∃ mem'', pcmMix mem (buf0' :: bufs') n = some mem'' ∧
          ∀ i < n, sampleAt mem'' buf0' i = sampleAt mem' buf0 i := by
  obtain ⟨mem', hmix, hmixed⟩ := pcmMix_eq h hlen
  refine ⟨mem', hmix, fun i hi => ?_, fun p hp i hi => hmixed.rest _ ?_, hmixed.rest,
    fun buf0' bufs' hperm => ?_⟩
  · rw [hmixed.sampleAt_eq hi, saturate_eq_clamp]
  · have hapart : Apart n buf0 p := (List.pairwise_cons.mp h.apart).1 p hp
    exact hapart.symm.imp (fun hle => by omega) fun hle => by omega
  · obtain ⟨mem'', hmix', hmixed'⟩ := pcmMix_eq (h.perm hperm) (hperm.length_eq ▸ hlen)
    refine ⟨mem'', hmix', fun i hi => ?_⟩
    rw [hmixed'.sampleAt_eq hi, hmixed.sampleAt_eq hi, total_perm mem hperm]

/-- Three buffers of two samples, one behind the other, the first one in the middle. -/
theorem pcmMix_saturating_three :
    let mem : Mem := fun a => if a < 6 then some (BitVec.ofNat 16 (6000 * a)) else none
    ∃ mem', pcmMix mem [2, 0, 4] 2 = some mem' ∧
      (∀ i < 2, sampleAt mem' 2 i = max (-32768) (min 32767 (total mem [2, 0, 4] i))) ∧
      (∀ p ∈ [0, 4], ∀ i < 2, mem' (p + i) = mem (p + i)) ∧
      (∀ a, a < 2 ∨ 2 + 2 ≤ a → mem' a = mem a) ∧
      ∀ buf0' bufs', (buf0' :: bufs').Perm [2, 0, 4] →
        ∃ mem'', pcmMix mem (buf0' :: bufs') 2 = some mem'' ∧
          ∀ i < 2, sampleAt mem'' buf0' i = sampleAt mem' 2 i :=
  pcmMix_saturating ⟨by decide, by decide⟩ (by decide)

/-- **The samples** are those of `pcmMix` of `Mix`, where each buffer is alone. -/
theorem sample_pcmMix_eq {bytes : List (List (BitVec 8))} (h : Buffers mem (buf0 :: bufs) n)
    (hlen : (buf0 :: bufs).length ≤ 8) (hfirst : 2 * n ≤ (bytes.headD []).length)
    (hbytes : ∀ i < n, (bytes.map fun buf => sample buf i) =
      (buf0 :: bufs).map fun p => sampleAt mem p i) :
    ∃ mem', pcmMix mem (buf0 :: bufs) n = some mem' ∧
      ∀ i < n, sampleAt mem' buf0 i = sample (Mix.pcmMix bytes n) i := by
  obtain ⟨mem', hmix, hmixed⟩ := pcmMix_eq h hlen
  refine ⟨mem', hmix, fun i hi => ?_⟩
  rw [hmixed.sampleAt_eq hi, Pcm.sample_pcmMix hfirst, if_pos hi, hbytes i hi]
  rfl

end GSConferencing.Client.PcmMix
