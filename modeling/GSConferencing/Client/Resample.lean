import GSConferencing.Lib.Pieces

/-!
# From 8 kHz to 32 kHz

`pcm_resample_8k_32k` of `pcm.c`: four frames are written for each input frame, a quarter of the way
from the last frame further each.  The last frame is carried from call to call.

* `writeInt_apply`: a frame is written as one `int`, each sample cut to 16 bits.
* `pcmResample_append`, `chunk_independent`: the calls for the chunks of a stream.
* `piece_dst`: the four frames of an input frame.
* `stays_iff`: they stay between two input frames exactly where no channel descends by a number that
  4 does not divide.
-/

namespace GSConferencing.Client.Resample

open GSConferencing.Lib.Pieces

/-! ## The function -/

/-- A frame of two channels. -/
abbrev Frame := Fin 2 → BitVec 16

/-- The variables `prev`, `dis`, `step` and `v` of the two channels. -/
abbrev Ints := Fin 2 → ℤ

/-- `*(int*) &dst[j] = (v[0]&0xffff) | (v[1]<<16)`, least significant byte first: `dst[j]` and
`dst[j+1]`. -/
def writeInt (v : Ints) : Frame :=
  let x : BitVec 32 := (BitVec.ofInt 32 (v 0) &&& 0xffff#32) ||| (BitVec.ofInt 32 (v 1) <<< 16)
  ![x.setWidth 16, (x >>> 16).setWidth 16]

/-- The body of the loop: the frames for `src[i]` and `src[i+1]`, and `prev` behind them. -/
def upsample (prev : Ints) (src : Frame) : List Frame × Ints :=
  let dis : Ints := fun c => (src c).toInt - prev c
  let step : Ints := fun c => dis c >>> (2 : ℕ)
  let v₁ : Ints := fun c => prev c + step c
  let v₂ : Ints := fun c => v₁ c + step c
  let v₃ : Ints := fun c => v₂ c + step c
  let v₄ : Ints := fun c => v₃ c + step c
  ([writeInt v₁, writeInt v₂, writeInt v₃, writeInt v₄], fun c => prev c + dis c)

/-- The loop, with what is written to `dst`. -/
def resampleLoop : Ints → List Frame → List Frame × Ints
  | prev, [] => ([], prev)
  | prev, x :: xs =>
    let r := upsample prev x
    let r' := resampleLoop r.2 xs
    (r.1 ++ r'.1, r'.2)

/-- What a call leaves behind. -/
structure Resampled where
  dst : List Frame
  ret : ℕ
  prevSample : Ints

/-- `pcm_resample_8k_32k`, for a source of `samples` frames apart from the destination. -/
def pcmResample8k32k (prevSample : Ints) (src : List Frame) : Resampled :=
  let r := resampleLoop prevSample src
  ⟨r.1, 4 * src.length, r.2⟩

/-- A call for each chunk. -/
def calls : Ints → List (List Frame) → List Resampled × Ints
  | prevSample, [] => ([], prevSample)
  | prevSample, src :: chunks =>
    let r := pcmResample8k32k prevSample src
    let r' := calls r.prevSample chunks
    (r :: r'.1, r'.2)

/-! ## Chunks -/

section Chunks
variable {prev : Ints} {xs : List Frame}

/-- The frame that has come is carried, whatever was rounded. -/
theorem upsample_prev (prev : Ints) (x : Frame) : (upsample prev x).2 = fun c => (x c).toInt :=
  funext fun _ => add_sub_cancel _ _

theorem resampleLoop_append (prev : Ints) (xs ys : List Frame) :
    resampleLoop prev (xs ++ ys) =
      ((resampleLoop prev xs).1 ++ (resampleLoop (resampleLoop prev xs).2 ys).1,
        (resampleLoop (resampleLoop prev xs).2 ys).2) := by
  induction xs generalizing prev with
  | nil => rfl
  | cons x xs ih =>
    simp only [List.cons_append, resampleLoop, ih, List.append_assoc]

/-- **Two calls** are one for both chunks. -/
theorem pcmResample_append (prev : Ints) (xs ys : List Frame) :
    (pcmResample8k32k prev (xs ++ ys)).dst = (pcmResample8k32k prev xs).dst ++
        (pcmResample8k32k (pcmResample8k32k prev xs).prevSample ys).dst ∧
      (pcmResample8k32k prev (xs ++ ys)).prevSample =
        (pcmResample8k32k (pcmResample8k32k prev xs).prevSample ys).prevSample := by
  unfold pcmResample8k32k
  simp only [resampleLoop_append, and_self]

theorem length_dst (prev : Ints) (xs : List Frame) :
    (pcmResample8k32k prev xs).dst.length = 4 * xs.length := by
  show (resampleLoop prev xs).1.length = _
  induction xs generalizing prev with
  | nil => rfl
  | cons x xs ih =>
    rw [resampleLoop, List.length_append, ih, List.length_cons]
    show 4 + _ = _
    omega

/-- **The last frame is carried.** -/
theorem prevSample_concat (prev : Ints) (xs : List Frame) (x : Frame) :
    (pcmResample8k32k prev (xs ++ [x])).prevSample = fun c => (x c).toInt := by
  rw [(pcmResample_append prev xs [x]).2]
  exact upsample_prev _ x

/-- The calls for the chunks of a stream do what one call does for the stream: four frames are
written for each, and after each the frame itself is carried. -/
structure Unchunked (prev : Ints) (chunks : List (List Frame)) : Prop where
  dst : (calls prev chunks).1.flatMap Resampled.dst = (pcmResample8k32k prev chunks.flatten).dst
  prevSample : (calls prev chunks).2 = (pcmResample8k32k prev chunks.flatten).prevSample
  ret : (calls prev chunks).1.map Resampled.ret = chunks.map fun src => 4 * src.length
  length : (pcmResample8k32k prev chunks.flatten).dst.length = 4 * chunks.flatten.length
  carried : ∀ seen x, seen ++ [x] <+: chunks.flatten →
    (pcmResample8k32k prev (seen ++ [x])).prevSample = fun c => (x c).toInt

/-- **However a stream is cut,** the frames written and the frame carried are the same. -/
theorem chunk_independent (prev : Ints) (chunks : List (List Frame)) : Unchunked prev chunks := by
  have hcalls : (calls prev chunks).1.flatMap Resampled.dst =
        (pcmResample8k32k prev chunks.flatten).dst ∧
      (calls prev chunks).2 = (pcmResample8k32k prev chunks.flatten).prevSample ∧
      (calls prev chunks).1.map Resampled.ret = chunks.map fun src => 4 * src.length := by
    induction chunks generalizing prev with
    | nil => exact ⟨rfl, rfl, rfl⟩
    | cons src chunks ih =>
      obtain ⟨hdst, hprev, hret⟩ := ih (pcmResample8k32k prev src).prevSample
      obtain ⟨hdst', hprev'⟩ := pcmResample_append prev src chunks.flatten
      refine ⟨?_, ?_, ?_⟩
      · rw [calls, List.flatMap_cons, hdst, List.flatten_cons, hdst']
      · rw [calls, hprev, List.flatten_cons, hprev']
      · rw [calls, List.map_cons, hret, List.map_cons]
        rfl
  exact ⟨hcalls.1, hcalls.2.1, hcalls.2.2, length_dst prev _,
    fun seen x _ => prevSample_concat prev seen x⟩

end Chunks

/-! ## Between two frames -/

/-- The value that is written for the channel `c` in the frame `k`, before it is cut. -/
def value (prev src : Frame) (k : ℕ) (c : Fin 2) : ℤ :=
  (prev c).toInt + (k + 1) * (((src c).toInt - (prev c).toInt) >>> (2 : ℕ))

/-- The frames `out` that are written for `src` after `prev` are not cut, and lie between the two in
each channel. -/
def Between (prev src : Frame) (out : List Frame) : Prop :=
  ∀ k < 4, ∀ c, ∃ y, out[k]? = some y ∧ (y c).toInt = value prev src k c ∧
    min (prev c).toInt (src c).toInt ≤ (y c).toInt ∧
    (y c).toInt ≤ max (prev c).toInt (src c).toInt

/-- The frame carried at first, as a frame of 16 bits. -/
def carry (prev : Frame) : Ints := fun c => (prev c).toInt

/-- **The stream stays in range:** the frames written for each frame of it are between that one and
the one before. -/
def Stays (prev : Frame) (xs : List Frame) : Prop :=
  ∀ n p x, (prev :: xs)[n]? = some p → xs[n]? = some x →
    Between p x (piece 4 (pcmResample8k32k (carry prev) xs).dst n)

/-- No channel descends by a number that 4 does not divide. -/
def Gentle (prev : Frame) (xs : List Frame) : Prop :=
  ∀ (n : ℕ) (p x : Frame), (prev :: xs)[n]? = some p → xs[n]? = some x →
    ∀ c, (p c).toInt ≤ (x c).toInt ∨ 4 ∣ (x c).toInt - (p c).toInt

theorem setWidth_ofInt (z : ℤ) : (BitVec.ofInt 32 z).setWidth 16 = BitVec.ofInt 16 z := by
  refine BitVec.eq_of_toNat_eq ?_
  rw [BitVec.toNat_setWidth, BitVec.toNat_ofInt, BitVec.toNat_ofInt]
  omega

/-- The low half of the mask. -/
theorem getLsbD_mask {i : ℕ} (hi : i < 16) : (0xffff#32).getLsbD i = true := by
  show (65535 : ℕ).testBit i = true
  rw [show 65535 = 2 ^ 16 - 1 from rfl, Nat.testBit_two_pow_sub_one]
  exact decide_eq_true hi

theorem mask_high {i : ℕ} : (0xffff#32).getLsbD (16 + i) = false := by
  show (65535 : ℕ).testBit (16 + i) = false
  rw [show 65535 = 2 ^ 16 - 1 from rfl, Nat.testBit_two_pow_sub_one]
  exact decide_eq_false (by omega)

/-- Each sample is cut to 16 bits. -/
theorem writeInt_apply (v : Ints) (c : Fin 2) : writeInt v c = BitVec.ofInt 16 (v c) := by
  rw [← setWidth_ofInt]
  refine BitVec.eq_of_getLsbD_eq fun i hi => ?_
  match c with
  | 0 =>
    simp only [writeInt, Matrix.cons_val_zero, BitVec.getLsbD_setWidth, BitVec.getLsbD_or,
      BitVec.getLsbD_and, BitVec.getLsbD_shiftLeft, getLsbD_mask hi, hi, decide_true,
      Bool.not_true, Bool.and_false, Bool.false_and, Bool.or_false, Bool.and_true, Bool.true_and]
  | 1 =>
    simp only [writeInt, Matrix.cons_val_one, Matrix.cons_val_fin_one, BitVec.getLsbD_setWidth,
      BitVec.getLsbD_ushiftRight, BitVec.getLsbD_or, BitVec.getLsbD_and, BitVec.getLsbD_shiftLeft,
      mask_high, hi, decide_true, Bool.and_false, Bool.false_or, Bool.true_and, show 16 + i < 32 by omega,
      show ¬ 16 + i < 16 by omega, decide_false, Bool.not_false, Nat.add_sub_cancel_left]

/-! ### What is written -/

section Written
variable {prev p x : Frame} {xs : List Frame} {n : ℕ}

/-- The four frames, before they are cut. -/
theorem getElem?_upsample (p x : Frame) {k : ℕ} (hk : k < 4) :
    (upsample (carry p) x).1[k]? = some fun c => BitVec.ofInt 16 (value p x k c) := by
  have hframe : ∀ v : Ints, (∀ c, v c = value p x k c) →
      writeInt v = fun c => BitVec.ofInt 16 (value p x k c) := fun v hv =>
    funext fun c => by rw [writeInt_apply, hv]
  have hvalue : ∀ c, value p x k c =
      carry p c + (k + 1) * (((x c).toInt - carry p c) >>> (2 : ℕ)) := fun _ => rfl
  match k, hk with
  | 0, _ => exact congrArg some (hframe _ fun c => by rw [hvalue]; push_cast; ring)
  | 1, _ => exact congrArg some (hframe _ fun c => by rw [hvalue]; push_cast; ring)
  | 2, _ => exact congrArg some (hframe _ fun c => by rw [hvalue]; push_cast; ring)
  | 3, _ => exact congrArg some (hframe _ fun c => by rw [hvalue]; push_cast; ring)

/-- The frames that are written for an input frame. -/
theorem piece_dst (hp : (prev :: xs)[n]? = some p) (hx : xs[n]? = some x) :
    piece 4 (pcmResample8k32k (carry prev) xs).dst n = (upsample (carry p) x).1 := by
  induction xs generalizing prev n with
  | nil => cases hx
  | cons y ys ih =>
    have hdst : (pcmResample8k32k (carry prev) (y :: ys)).dst =
        (upsample (carry prev) y).1 ++ (pcmResample8k32k (carry y) ys).dst := by
      show (upsample (carry prev) y).1 ++ (resampleLoop (upsample (carry prev) y).2 ys).1 = _
      rw [upsample_prev]
      rfl
    have hlen : (upsample (carry prev) y).1.length = 4 := rfl
    rw [hdst]
    cases n with
    | zero =>
      cases hp
      cases hx
      rw [piece, Nat.mul_zero, List.drop_zero, List.take_left' hlen]
    | succ n =>
      rw [← ih (n := n) hp hx, piece, piece,
        show 4 * (n + 1) = (upsample (carry prev) y).1.length + 4 * n by omega,
        List.drop_length_add_append]

/-- **One input frame:** a descent is rounded down in each of the four steps. -/
theorem between_iff : Between p x (upsample (carry p) x).1 ↔
    ∀ c, (p c).toInt ≤ (x c).toInt ∨ 4 ∣ (x c).toInt - (p c).toInt := by
  constructor
  · intro h c
    obtain ⟨y, hy, hval, hlo, -⟩ := h 3 (by decide) c
    rw [hval, value, Int.shiftRight_eq_div_pow] at hlo
    push_cast at hlo
    omega
  · intro h k hk c
    have hp := BitVec.le_toInt (p c)
    have hp' := BitVec.toInt_lt (x := p c)
    have hx := BitVec.le_toInt (x c)
    have hx' := BitVec.toInt_lt (x := x c)
    have hbound : min (p c).toInt (x c).toInt ≤ value p x k c ∧
        value p x k c ≤ max (p c).toInt (x c).toInt := by
      rw [value, Int.shiftRight_eq_div_pow]
      have hc := h c
      interval_cases k <;> push_cast <;> omega
    refine ⟨_, getElem?_upsample p x hk, ?_, ?_⟩
    · exact BitVec.toInt_ofInt_eq_self (by decide) (by omega) (by omega)
    · rw [BitVec.toInt_ofInt_eq_self (by decide) (by omega) (by omega)]
      exact hbound

end Written

/-- **In range:** the frames written stay between the input frames exactly where no channel descends
by a number that 4 does not divide. -/
theorem stays_iff (prev : Frame) (xs : List Frame) : Stays prev xs ↔ Gentle prev xs := by
  refine forall_congr' fun n => forall_congr' fun p => forall_congr' fun x =>
    forall_congr' fun hp => forall_congr' fun hx => ?_
  rw [piece_dst hp hx]
  exact between_iff

/-- A descent by 1: the fourth frame is -4, below the input frame. -/
theorem overshoot : ¬ Stays (fun _ => 0) [fun _ => -1] := by
  intro h
  obtain ⟨y, hy, hval, hlo, -⟩ := h 0 _ _ rfl rfl 3 (by decide) 0
  rw [hval] at hlo
  exact absurd hlo (by decide)

end GSConferencing.Client.Resample
