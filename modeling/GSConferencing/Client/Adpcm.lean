import GSConferencing.Lib.Coding
import GSConferencing.Include.Pack

/-!
# ADPCM

`adpcm.c`: a sample is coded in four bits, which say how far it is from the predicted value, and the
decoder predicts the same values.  Two samples go into a byte, the first one into its high half.

* `decodeSample_encodeSample`: the decoder predicts what the coder has predicted.
* `adpcmCoder_eq`, `adpcmDecoder_eq`: the loops, as coders of samples and of halves of bytes.
* `decoder_coder`: a frame with an even number of samples is decoded to the predictions of the
  coder, and both end in the same state.
-/

namespace GSConferencing.Client.Adpcm

open GSConferencing.Include.Pack GSConferencing.Lib.Coding

/-! ## Samples -/

/-- `short`. -/
abbrev Short := BitVec 16

/-- Half a byte. -/
abbrev Nibble := BitVec 4

def indexTable (delta : Nibble) : ℤ :=
  [-1, -1, -1, -1, 2, 4, 6, 8, -1, -1, -1, -1, 2, 4, 6, 8].getD delta.toNat 0

def stepsizes : List ℤ := [
  7, 8, 9, 10, 11, 12, 13, 14, 16, 17,
  19, 21, 23, 25, 28, 31, 34, 37, 41, 45,
  50, 55, 60, 66, 73, 80, 88, 97, 107, 118,
  130, 143, 157, 173, 190, 209, 230, 253, 279, 307,
  337, 371, 408, 449, 494, 544, 598, 658, 724, 796,
  876, 963, 1060, 1166, 1282, 1411, 1552, 1707, 1878, 2066,
  2272, 2499, 2749, 3024, 3327, 3660, 4026, 4428, 4871, 5358,
  5894, 6484, 7132, 7845, 8630, 9493, 10442, 11487, 12635, 13899,
  15289, 16818, 18500, 20350, 22385, 24623, 27086, 29794, 32767]

/-- `stepsizeTable`, with an index that is in range. -/
def stepsizeTable (index : Fin 89) : ℤ := stepsizes.getD index 0

/-- `index` is kept between 0 and 88. -/
def clampIndex (index : ℤ) : Fin 89 :=
  if index < 0 then 0 else if h : index < 89 then ⟨index.toNat, by omega⟩ else 88

/-- The predicted value is kept within 16 bits. -/
def clamp (valpred : ℤ) : ℤ :=
  if 32767 < valpred then 32767 else if valpred < -32768 then -32768 else valpred

/-- `valpred` and `index` of the loops; `step` is the entry of the table. -/
structure Predictor where
  valpred : ℤ
  index : Fin 89

/-- The next prediction, and the index for it. -/
def Predictor.next (p : Predictor) (sign delta : Nibble) (vpdiff : ℤ) : Predictor where
  valpred := clamp (if sign ≠ 0 then p.valpred - vpdiff else p.valpred + vpdiff)
  index := clampIndex (p.index + indexTable delta)

/-- Step 2 of the coder: the difference in quarters of the step, rounded down, and the change of the
prediction that this stands for. -/
def divide (step diff : ℤ) : Nibble × ℤ :=
  let delta : Nibble := 0
  let vpdiff := step >>> (3 : ℕ)
  let (delta, diff, vpdiff) :=
    if step ≤ diff then ((4 : Nibble), diff - step, vpdiff + step) else (delta, diff, vpdiff)
  let step := step >>> (1 : ℕ)
  let (delta, diff, vpdiff) :=
    if step ≤ diff then (delta ||| 2, diff - step, vpdiff + step) else (delta, diff, vpdiff)
  let step := step >>> (1 : ℕ)
  if step ≤ diff then (delta ||| 1, vpdiff + step) else (delta, vpdiff)

/-- Steps 1 to 5 of the coder. -/
def encodeSample (p : Predictor) (val : Short) : Nibble × Predictor :=
  let diff := val.toInt - p.valpred
  let sign : Nibble := if diff < 0 then 8 else 0
  let (delta, vpdiff) := divide (stepsizeTable p.index) (if sign ≠ 0 then -diff else diff)
  let delta := delta ||| sign
  (delta, p.next sign delta vpdiff)

/-- Step 4 of the decoder: the change of the prediction. -/
def restore (step : ℤ) (delta : Nibble) : ℤ :=
  let vpdiff := step >>> (3 : ℕ)
  let vpdiff := if delta &&& 4 ≠ 0 then vpdiff + step else vpdiff
  let vpdiff := if delta &&& 2 ≠ 0 then vpdiff + step >>> (1 : ℕ) else vpdiff
  if delta &&& 1 ≠ 0 then vpdiff + step >>> (2 : ℕ) else vpdiff

/-- Steps 2 to 7 of the decoder. -/
def decodeSample (p : Predictor) (delta : Nibble) : Short × Predictor :=
  let vpdiff := restore (stepsizeTable p.index) (delta &&& 7)
  let p := p.next (delta &&& 8) delta vpdiff
  (BitVec.ofInt 16 p.valpred, p)

/-- What the division has found is what the decoder restores. -/
theorem divide_spec (step diff : ℤ) (sign : Nibble) (hsign : sign = 8 ∨ sign = 0) :
    restore step (((divide step diff).1 ||| sign) &&& 7) = (divide step diff).2 ∧
      ((divide step diff).1 ||| sign) &&& 8 = sign := by
  have htwo : (step >>> (1 : ℕ)) >>> (1 : ℕ) = step >>> (2 : ℕ) :=
    (Int.shiftRight_add step 1 1).symm
  unfold divide
  simp only [htwo]
  -- the nibble is a numeral in each of the eight cases
  rcases hsign with rfl | rfl <;>
  · split_ifs <;>
    · simp only []
      refine ⟨?_, by decide⟩
      unfold restore
      simp

/-- **The decoder predicts what the coder has predicted.** -/
theorem decodeSample_encodeSample (p : Predictor) (val : Short) :
    decodeSample p (encodeSample p val).1 =
      (BitVec.ofInt 16 (encodeSample p val).2.valpred, (encodeSample p val).2) := by
  unfold encodeSample
  extract_lets diff sign
  have hsign : sign = 8 ∨ sign = 0 := ite_eq_or_eq ..
  obtain ⟨hrestore, hbit⟩ :=
    divide_spec (stepsizeTable p.index) (if sign ≠ 0 then -diff else diff) sign hsign
  unfold decodeSample
  simp only [hrestore, hbit]

/-! ## The loops -/

/-- `adpcm_state_t`. -/
structure AdpcmState where
  valprev : Short
  index : Byte

/-- The index is one of the table. -/
def AdpcmState.InRange (st : AdpcmState) : Prop := st.index.toNat ≤ 88

/-- Where a loop starts: the table is not read outside. -/
def AdpcmState.start (st : AdpcmState) : Option Predictor :=
  if h : st.index.toNat < 89 then some ⟨st.valprev.toInt, ⟨st.index.toNat, h⟩⟩ else none

/-- What a loop leaves in the state. -/
def Predictor.save (p : Predictor) : AdpcmState :=
  ⟨BitVec.ofInt 16 p.valpred, BitVec.ofNat 8 p.index⟩

/-- The variables of the loop of `adpcm_coder`. -/
structure Coder where
  pred : Predictor
  outputbuffer : Byte
  bufferstep : Bool
  outp : List Byte

/-- The body of the loop of `adpcm_coder`. -/
def coderBody (c : Coder) (val : Short) : Coder :=
  let r := encodeSample c.pred val
  if c.bufferstep then
    { c with
      pred := r.2
      outputbuffer := (r.1.setWidth 8 <<< 4) &&& 0xf0
      bufferstep := false }
  else
    { c with
      pred := r.2
      outp := c.outp ++ [(r.1.setWidth 8 &&& 0x0f) ||| c.outputbuffer]
      bufferstep := true }

/-- The last nibble is written, if it waits for another one. -/
def Coder.finish (c : Coder) : List Byte :=
  if c.bufferstep then c.outp else c.outp ++ [c.outputbuffer]

/-- `adpcm_coder`: the bytes that it writes, and the state. -/
def adpcmCoder (indata : List Short) (len : ℕ) (st : AdpcmState) :
    Option (List Byte × AdpcmState) :=
  -- the samples are read where they are
  if indata.length < len / 2 then none
  else st.start.map fun p =>
    let c := (indata.take (len / 2)).foldl coderBody ⟨p, 0, true, []⟩
    (c.finish, c.pred.save)

/-- The variables of the loop of `adpcm_decoder`. -/
structure Decoder where
  pred : Predictor
  inp : List Byte
  inputbuffer : Byte
  bufferstep : Bool
  outp : List Short

/-- A nibble is decoded. -/
def Decoder.put (x : Decoder) (delta : Nibble) : Decoder :=
  let r := decodeSample x.pred delta
  { x with pred := r.2, outp := x.outp ++ [r.1], bufferstep := !x.bufferstep }

/-- The body of the loop of `adpcm_decoder`. -/
def decoderBody (x : Decoder) : Option Decoder :=
  if x.bufferstep then some (x.put ((x.inputbuffer &&& 0xf).setWidth 4))
  else match x.inp with
    | [] => none
    | b :: inp =>
      some ({ x with inp := inp, inputbuffer := b }.put (((b >>> 4) &&& 0xf).setWidth 4))

def decoderLoop : ℕ → Decoder → Option Decoder
  | 0, x => some x
  | len + 1, x => (decoderBody x).bind (decoderLoop len)

/-- `adpcm_decoder`: the samples that it writes, and the state. -/
def adpcmDecoder (indata : List Byte) (len : ℕ) (st : AdpcmState) :
    Option (List Short × AdpcmState) :=
  st.start.bind fun p =>
    (decoderLoop (len * 2) ⟨p, indata, 0, false, []⟩).map fun x => (x.outp, x.pred.save)

/-! ## Bytes and their halves -/

/-- The byte with the nibbles `a` and `b`. -/
def join (a b : Nibble) : Byte := (b.setWidth 8 &&& 0x0f) ||| ((a.setWidth 8 <<< 4) &&& 0xf0)

def hi (b : Byte) : Nibble := ((b >>> 4) &&& 0xf).setWidth 4

def lo (b : Byte) : Nibble := (b &&& 0xf).setWidth 4

theorem hi_join : ∀ a b : Nibble, hi (join a b) = a := by decide +kernel

theorem lo_join : ∀ a b : Nibble, lo (join a b) = b := by decide +kernel

theorem join_zero (a : Nibble) : join a 0 = (a.setWidth 8 <<< 4) &&& 0xf0 := by
  unfold join
  simp

/-- The first nibble of a byte waits for the second one. -/
theorem coderBody_first {c : Coder} (h : c.bufferstep = true) (a : Short) :
    coderBody c a = { c with
      pred := (encodeSample c.pred a).2
      outputbuffer := join (encodeSample c.pred a).1 0
      bufferstep := false } := by
  unfold coderBody
  rw [if_pos h, join_zero]

theorem coderBody_second {c : Coder} (h : c.bufferstep = true) (a b : Short) :
    coderBody (coderBody c a) b =
      ⟨(encodeSample (encodeSample c.pred a).2 b).2, join (encodeSample c.pred a).1 0, true,
        c.outp ++
          [join (encodeSample c.pred a).1 (encodeSample (encodeSample c.pred a).2 b).1]⟩ := by
  rw [coderBody_first h, coderBody, if_neg Bool.false_ne_true, join_zero]
  rfl

/-- **The loop of the coder.** -/
theorem coder_loop : ∀ (l : List Short) (c : Coder), c.bufferstep = true →
    (l.foldl coderBody c).finish = c.outp ++ packed join 0 (code encodeSample c.pred l).1 ∧
      (l.foldl coderBody c).pred = (code encodeSample c.pred l).2
  | [], c, hb => by
    unfold Coder.finish
    rw [List.foldl_nil, hb, if_pos rfl, code_nil, packed, List.append_nil]
    exact ⟨rfl, rfl⟩
  | [a], c, hb => by
    rw [List.foldl_cons, List.foldl_nil, coderBody_first hb]
    exact ⟨rfl, rfl⟩
  | a :: b :: l, c, hb => by
    have hc := coderBody_second hb a b
    obtain ⟨hout, hpred⟩ := coder_loop l (coderBody (coderBody c a) b) (by rw [hc])
    rw [List.foldl_cons, List.foldl_cons, hout, hpred, hc, code_cons, code_cons, packed,
      List.append_assoc, List.singleton_append]
    exact ⟨rfl, rfl⟩

/-- **The loop of the decoder,** over the bytes at the front of the buffer. -/
theorem decoder_loop (l rest : List Byte) (p : Predictor) (buf : Byte) (out : List Short) :
    ∃ buf', decoderLoop (l.length * 2) ⟨p, l ++ rest, buf, false, out⟩ =
      some ⟨(code decodeSample p (unpacked hi lo l)).2, rest, buf', false,
        out ++ (code decodeSample p (unpacked hi lo l)).1⟩ := by
  induction l generalizing p buf out with
  | nil =>
    refine ⟨buf, ?_⟩
    show some _ = some (⟨p, rest, buf, false, out ++ []⟩ : Decoder)
    rw [List.append_nil]
    rfl
  | cons b l ih =>
    have htwo : decoderLoop (l.length * 2 + 2) ⟨p, b :: l ++ rest, buf, false, out⟩ =
        decoderLoop (l.length * 2) ⟨(decodeSample (decodeSample p (hi b)).2 (lo b)).2, l ++ rest, b,
          false, out ++ [(decodeSample p (hi b)).1] ++
            [(decodeSample (decodeSample p (hi b)).2 (lo b)).1]⟩ := rfl
    obtain ⟨buf', h⟩ := ih (decodeSample (decodeSample p (hi b)).2 (lo b)).2 b
      (out ++ [(decodeSample p (hi b)).1] ++ [(decodeSample (decodeSample p (hi b)).2 (lo b)).1])
    refine ⟨buf', ?_⟩
    rw [List.length_cons, Nat.succ_mul, htwo, h, List.append_assoc, List.append_assoc,
      unpacked_cons, code_cons, code_cons, List.singleton_append, List.singleton_append]

/-! ## Frames -/

theorem start_eq {st : AdpcmState} (h : st.InRange) :
    st.start = some ⟨st.valprev.toInt, ⟨st.index.toNat, Nat.lt_succ_of_le h⟩⟩ :=
  dif_pos _

theorem save_of_start {st : AdpcmState} {p : Predictor} (h : st.start = some p) : p.save = st := by
  unfold AdpcmState.start at h
  split at h
  · cases h
    show (⟨BitVec.ofInt 16 st.valprev.toInt, BitVec.ofNat 8 st.index.toNat⟩ : AdpcmState) = st
    rw [BitVec.ofInt_toInt, BitVec.ofNat_toNat, BitVec.setWidth_eq]
  · cases h

/-- An index of the table is kept in the byte. -/
theorem save_inRange (p : Predictor) : p.save.InRange := by
  show (BitVec.ofNat 8 p.index).toNat ≤ 88
  rw [BitVec.toNat_ofNat, Nat.mod_eq_of_lt (by omega)]
  omega

/-- The predictions of the coder, one for each sample. -/
def predictions (p : Predictor) (l : List Short) : List ℤ :=
  (code (fun p a => ((encodeSample p a).2.valpred, (encodeSample p a).2)) p l).1

/-- A prediction fits into 16 bits. -/
theorem toInt_valpred (p : Predictor) (val : Short) :
    (BitVec.ofInt 16 (encodeSample p val).2.valpred).toInt = (encodeSample p val).2.valpred := by
  have hclamp : ∀ v, (BitVec.ofInt 16 (clamp v)).toInt = clamp v := by
    intro v
    refine BitVec.toInt_ofInt_eq_self (by decide) ?_ ?_ <;> unfold clamp <;> split_ifs <;> omega
  exact hclamp _

/-- The samples that the decoder makes of the nibbles of the coder. -/
theorem code_decodeSample (p : Predictor) (l : List Short) :
    ((code decodeSample p (code encodeSample p l).1).1.map BitVec.toInt = predictions p l) ∧
      (code decodeSample p (code encodeSample p l).1).2 = (code encodeSample p l).2 := by
  rw [code_lockstep decodeSample_encodeSample]
  refine ⟨?_, code_state encodeSample _ p l⟩
  rw [map_code]
  simp only [toInt_valpred]
  rfl

/-- What `adpcm_coder` writes. -/
theorem adpcmCoder_eq {st : AdpcmState} {p : Predictor} (h : st.start = some p)
    {indata : List Short} {len : ℕ} (hlen : len / 2 ≤ indata.length) :
    adpcmCoder indata len st =
      some (packed join 0 (code encodeSample p (indata.take (len / 2))).1,
        (code encodeSample p (indata.take (len / 2))).2.save) := by
  obtain ⟨hout, hpred⟩ := coder_loop (indata.take (len / 2)) ⟨p, 0, true, []⟩ rfl
  unfold adpcmCoder
  rw [if_neg (not_lt.mpr hlen), h, Option.map_some]
  simp only [hout, hpred, List.nil_append]

/-- What `adpcm_decoder` writes. -/
theorem adpcmDecoder_eq {st : AdpcmState} {p : Predictor} (h : st.start = some p)
    (l rest : List Byte) :
    adpcmDecoder (l ++ rest) l.length st =
      some ((code decodeSample p (unpacked hi lo l)).1,
        (code decodeSample p (unpacked hi lo l)).2.save) := by
  obtain ⟨buf, hloop⟩ := decoder_loop l rest p 0 []
  unfold adpcmDecoder
  rw [h, Option.bind_some, hloop, Option.map_some, List.nil_append]

/-- **A frame** with an even number of samples. -/
theorem decoder_coder {st : AdpcmState} (h : st.InRange) {indata : List Short} {len : ℕ}
    (hlen : len / 2 ≤ indata.length) (heven : Even (len / 2)) :
    ∃ p outdata samples st', st.start = some p ∧
      adpcmCoder indata len st = some (outdata, st') ∧ outdata.length = (len / 2 + 1) / 2 ∧
      (∀ rest, adpcmDecoder (outdata ++ rest) outdata.length st = some (samples, st')) ∧
      samples.map BitVec.toInt = predictions p (indata.take (len / 2)) ∧
      samples.length = len / 2 ∧ st'.InRange := by
  have hcount : (indata.take (len / 2)).length = len / 2 := by
    rw [List.length_take, Nat.min_eq_left hlen]
  have hstart := start_eq h
  set p : Predictor := ⟨st.valprev.toInt, ⟨st.index.toNat, Nat.lt_succ_of_le h⟩⟩
  obtain ⟨hsamples, hstate⟩ := code_decodeSample p (indata.take (len / 2))
  have hhalves := unpacked_packed (z := 0) hi_join lo_join
    (l := (code encodeSample p (indata.take (len / 2))).1) (by rwa [length_code, hcount])
  refine ⟨p, _, _, _, hstart, adpcmCoder_eq hstart hlen, ?_, fun rest => ?_, hsamples, ?_,
    save_inRange _⟩
  · rw [length_packed, length_code, hcount]
  · rw [adpcmDecoder_eq hstart, hhalves, hstate]
  · rw [length_code, length_code, hcount]

end GSConferencing.Client.Adpcm
