import GSConferencing.Client.Adpcm
import GSConferencing.Lib.Memory
import GSConferencing.Lib.Run

/-!
# Casting compressed audio

`cast_filled` of `cast.c`, `pcm_stereo_to_mono` of `pcm.c`, `send_audio_end` of `client.c`, and what
a player makes of ADPCM (`on_event` of `apitest.c`).  The AAC encoder is a parameter.

* `castFilled_adpcm`: what is sent for a frame, and what the player makes of it.
* `step_inStep`: after a frame that is sent both ends are in the same state again.
* `adpcm_inStep_iff`: so they are along a sequence of frames, exactly if all of them are sent.
-/

namespace GSConferencing.Client.Cast

open GSConferencing.Include.Pack GSConferencing.Lib.Memory GSConferencing.Lib.Run
open GSConferencing.Client.Adpcm

/-! ## The sender -/

/-- `COMPR_*`. -/
inductive Compr where
  | none
  | stereoToMono
  | adpcm
  | aac

/-- `tbuf`: 4096 bytes. -/
abbrev Tbuf := { l : List Short // l.length = 2048 }

/-- The static variables of `cast.c`. -/
structure Caster where
  compression : Compr
  tbuf : Tbuf
  /-- The data of the packet to be sent. -/
  sendBuf : List Byte
  state : AdpcmState
  /-- `mic_open || bcast_audio || mix_cast`. -/
  micOpen : Bool

/-- `pcm_stereo_to_mono`: every other sample is kept. -/
def pcmStereoToMono (buf : List Byte) (len : ℕ) : Option (List Byte × ℕ) :=
  if buf.length < len then none
  else some ((List.range (len / 4)).foldl
    (fun buf i => overwrite buf (2 * i) (part buf (4 * i) 2)) buf, len / 2)

/-- `send_audio_end`: what it returns, and the data of the packet it sends, if it does. -/
def sendAudioEnd (c : Caster) (len : ℕ) : Option (ℤ × Option (List Byte)) :=
  if len = 0 then some (-1, none)
  else if c.micOpen = false then some (-2, none)
  else
    let datalen := (BitVec.ofNat 16 len).toNat
    if c.sendBuf.length < datalen then none else some (0, some (c.sendBuf.take datalen))

/-- The branch of `cast_filled` for `COMPR_ADPCM`. -/
def castAdpcm (c : Caster) (len : ℕ) : Option (ℤ × Option (List Byte) × Caster) :=
  (adpcmCoder c.tbuf len c.state).bind fun r =>
    -- the buffer is not overrun
    if c.sendBuf.length < r.1.length then none
    else
      let c := { c with sendBuf := overwrite c.sendBuf 0 r.1, state := r.2 }
      (sendAudioEnd c (len / 4)).map fun r => (0, r.2, c)

/-- `cast_filled`; `aacEncode` returns no data where it fails. -/
def castFilled (aacEncode : List Short → ℕ → Option (List Byte)) (c : Caster) (len : ℕ) :
    Option (ℤ × Option (List Byte) × Caster) :=
  match c.compression with
  | .none => (sendAudioEnd c len).map fun r => (0, r.2, c)
  | .stereoToMono => do
    let r ← pcmStereoToMono c.sendBuf len
    let c := { c with sendBuf := r.1 }
    (sendAudioEnd c r.2).map fun r => (0, r.2, c)
  | .adpcm => castAdpcm c len
  | .aac => match aacEncode c.tbuf len with
    | none => some (-1, none, c)
    | some data =>
      if c.sendBuf.length < data.length then none
      else
        let c := { c with sendBuf := overwrite c.sendBuf 0 data }
        (sendAudioEnd c data.length).map fun r => (0, r.2, c)

/-! ## The player -/

/-- `sbuf` has 4096 samples. -/
def sbufSize : ℕ := 4096

/-- `on_event` for data of the type `ATYPE_ADPCM`: the samples that are played. -/
def onAdpcm (state : AdpcmState) (data : List Byte) : Option (List Short × AdpcmState) :=
  if sbufSize < 2 * data.length then none else adpcmDecoder data data.length state

/-- The player hears what is sent. -/
def hear (state : AdpcmState) : Option (List Byte) → Option (List Short × AdpcmState)
  | none => some ([], state)
  | some data => onAdpcm state data

/-! ## Both ends -/

/-- A frame that has been cast: its length, the data that was sent, what was played of it, and what
the coder predicted. -/
structure Played where
  len : ℕ
  data : List Byte
  played : List Short
  predicted : List ℤ

/-- The sender, the player, and what has been cast so far. -/
structure System where
  caster : Caster
  player : AdpcmState
  log : List Played

/-- The user fills `tbuf` and calls `cast_filled(len)`, with the microphone open or not. -/
structure Frame where
  tbuf : Tbuf
  len : ℕ
  micOpen : Bool

/-- The length is a multiple of 4, and at most that of the buffer. -/
def Frame.Ok (e : Frame) : Prop := 4 ∣ e.len ∧ e.len ≤ 4096

/-- The frame is sent, or it is empty. -/
def Frame.Sent (e : Frame) : Prop := e.len = 0 ∨ e.micOpen = true

/-- A frame is cast, and played if it is sent. -/
def step (aacEncode : List Short → ℕ → Option (List Byte)) (x : System) (e : Frame) :
    Option System :=
  let c := { x.caster with tbuf := e.tbuf, micOpen := e.micOpen }
  c.state.start.bind fun p => (castFilled aacEncode c e.len).bind fun r =>
    (hear x.player r.2.1).map fun q =>
      ⟨r.2.2, q.2, x.log ++ [⟨e.len, r.2.1.getD [], q.1,
        predictions p (e.tbuf.val.take (e.len / 2))⟩]⟩

/-- The frame is reproduced, as the coder predicted. -/
structure Played.Reproduced (f : Played) : Prop where
  sent : f.data.length = f.len / 4
  count : f.played.length = f.len / 2
  samples : f.played.map BitVec.toInt = f.predicted

/-- **In step:** both ends are in the same state, its index is one of the table, and every frame has
been reproduced. -/
structure InStep (x : System) : Prop where
  same : x.player = x.caster.state
  range : x.caster.state.InRange
  reproduced : ∀ f ∈ x.log, f.Reproduced

/-- The sender compresses with ADPCM; a packet has room for a frame. -/
structure Ready (c : Caster) : Prop where
  compression : c.compression = .adpcm
  room : 1024 ≤ c.sendBuf.length

variable {aacEncode : List Short → ℕ → Option (List Byte)}

/-- **A frame is cast** while the microphone is open. -/
theorem castFilled_adpcm {c : Caster} (hc : Ready c) (h : c.state.InRange) {len : ℕ}
    (hdvd : 4 ∣ len) (hlen : len ≤ 4096) (hmic : len = 0 ∨ c.micOpen = true) :
    ∃ p sent c' played, c.state.start = some p ∧
      castFilled aacEncode c len = some (0, sent, c') ∧ Ready c' ∧ c'.state.InRange ∧
      hear c.state sent = some (played, c'.state) ∧
      (⟨len, sent.getD [], played, predictions p (c.tbuf.val.take (len / 2))⟩ :
        Played).Reproduced := by
  obtain ⟨k, rfl⟩ := hdvd
  have hfit : 4 * k / 2 ≤ c.tbuf.val.length := by
    rw [c.tbuf.property]
    omega
  obtain ⟨p, out, samples, st', hp, hout, hbytes, hdec, hpred, hcount, hrange⟩ :=
    decoder_coder h hfit ⟨k, by omega⟩
  have hk : out.length = k := by omega
  have hroom : k ≤ c.sendBuf.length := le_trans (by omega) hc.room
  set c' : Caster := { c with sendBuf := overwrite c.sendBuf 0 out, state := st' }
  have hlength : c'.sendBuf.length = c.sendBuf.length := length_overwrite (by omega)
  have hready : Ready c' := ⟨hc.compression, hlength ▸ hc.room⟩
  have hfilled : castFilled aacEncode c (4 * k) =
      (sendAudioEnd c' k).map fun r => (0, r.2, c') := by
    unfold castFilled
    rw [hc.compression]
    show castAdpcm c (4 * k) = _
    unfold castAdpcm
    rw [hout, Option.bind_some, if_neg (show ¬ c.sendBuf.length < out.length by omega),
      Nat.mul_div_cancel_left k (by decide)]
  by_cases h0 : k = 0
  · -- nothing is coded, and nothing is sent
    subst h0
    obtain rfl : out = [] := List.length_eq_zero_iff.mp hk
    have hcode := adpcmCoder_eq hp hfit
    rw [hout, Option.some.injEq, Prod.mk.injEq] at hcode
    have hstate : c'.state = c.state := hcode.2.trans (save_of_start hp)
    refine ⟨p, none, c', [], hp, ?_, hready, hrange, ?_, ?_, ?_, ?_⟩
    · rw [hfilled, sendAudioEnd, if_pos rfl]
      rfl
    · rw [hstate]
      rfl
    · show 0 = 4 * 0 / 4
      omega
    · show 0 = 4 * 0 / 2
      omega
    · show [] = predictions p (c.tbuf.val.take (4 * 0 / 2))
      rw [Nat.mul_zero, Nat.zero_div, List.take_zero]
      rfl
  · have hdata : (overwrite c.sendBuf 0 out).take k = out := by
      rw [overwrite, List.take_zero, List.nil_append, List.take_left' hk]
    have hopen : c'.micOpen = true := hmic.resolve_left (by omega)
    refine ⟨p, some out, c', samples, hp, ?_, hready, hrange, ?_, ?_, hcount, hpred⟩
    · rw [hfilled, sendAudioEnd, if_neg h0, hopen, if_neg Bool.noConfusion]
      simp only [BitVec.toNat_ofNat]
      rw [Nat.mod_eq_of_lt (by omega), if_neg (by omega), hdata]
      rfl
    · show onAdpcm c.state out = _
      have hplay := hdec []
      rw [List.append_nil] at hplay
      rw [onAdpcm, if_neg (by unfold sbufSize; omega), hplay]
    · show out.length = 4 * k / 4
      omega

/-- **A step:** both ends stay in step. -/
theorem step_inStep {x : System} (hc : Ready x.caster) (h : InStep x) {e : Frame} (he : e.Ok)
    (hsent : e.Sent) : ∃ x', step aacEncode x e = some x' ∧ Ready x'.caster ∧ InStep x' := by
  obtain ⟨p, sent, c', played, hp, hcast, hready, hrange, hplay, hrep⟩ :=
    @castFilled_adpcm aacEncode { x.caster with tbuf := e.tbuf, micOpen := e.micOpen }
      ⟨hc.compression, hc.room⟩ h.range _ he.1 he.2 hsent
  refine ⟨⟨c', c'.state, x.log ++ [⟨e.len, sent.getD [], played,
    predictions p (e.tbuf.val.take (e.len / 2))⟩]⟩, ?_, hready, rfl, hrange, fun f hf => ?_⟩
  · unfold step
    rw [h.same]
    simp only [hp, hcast, Option.bind_some]
    rw [hplay]
    rfl
  · rcases List.mem_append.mp hf with hf | hf
    · exact h.reproduced f hf
    · rw [List.mem_singleton.mp hf]
      exact hrep

/-- With the microphone closed nothing is sent. -/
theorem castFilled_closed {c c' : Caster} (hc : c.compression = .adpcm) (hmic : c.micOpen = false)
    {len : ℕ} {i : ℤ} {sent : Option (List Byte)}
    (h : castFilled aacEncode c len = some (i, sent, c')) : sent = none := by
  unfold castFilled at h
  rw [hc] at h
  obtain ⟨r, -, h⟩ := Option.bind_eq_some_iff.mp h
  split at h
  · cases h
  · obtain ⟨q, hq, h⟩ := Option.map_eq_some_iff.mp h
    have hnone : q.2 = none := by
      unfold sendAudioEnd at hq
      simp only [hmic, if_true] at hq
      split_ifs at hq
      · exact (congrArg Prod.snd (Option.some.inj hq)).symm
      · exact (congrArg Prod.snd (Option.some.inj hq)).symm
    rw [Prod.mk.injEq, Prod.mk.injEq] at h
    exact h.2.1.symm.trans hnone

/-- **A frame that is not sent** is not reproduced. -/
theorem step_not_inStep {x x' : System} (hc : Ready x.caster) {e : Frame} (he : e.Ok)
    (hsent : ¬ e.Sent) (hx : step aacEncode x e = some x') : ¬ InStep x' := by
  intro h
  obtain ⟨hlen, hmic⟩ := not_or.mp hsent
  obtain ⟨p, -, hx⟩ := Option.bind_eq_some_iff.mp hx
  obtain ⟨r, hr, hx⟩ := Option.bind_eq_some_iff.mp hx
  obtain ⟨q, -, rfl⟩ := Option.map_eq_some_iff.mp hx
  have hnone : r.2.1 = none := castFilled_closed
    (c := { x.caster with tbuf := e.tbuf, micOpen := e.micOpen }) hc.compression
    (by simpa using hmic) hr
  have hrep := h.reproduced _ (List.mem_append_right _ (List.mem_singleton_self _))
  have hdata : 0 = e.len / 4 := by
    have hdata := hrep.sent
    rwa [hnone] at hdata
  obtain ⟨k, hk⟩ := he.1
  omega

/-- **The ADPCM path stays in step** along a sequence of frames, exactly if each of them is sent:
the coder goes on with a frame that is not. -/
theorem adpcm_inStep_iff {x : System} (hc : Ready x.caster) (h : InStep x) {es : List Frame}
    (hes : ∀ e ∈ es, e.Ok) :
    Always (step aacEncode) InStep x es ↔ ∀ e ∈ es, e.Sent := by
  have hexact : Always (step aacEncode) InStep x es ↔
      Guarded (step aacEncode) (fun _ e => e.Sent) x es :=
    always_iff_guarded (I := fun x => Ready x.caster ∧ InStep x) (E := Frame.Ok)
      (fun _ h => h.2) (fun _ _ h he hsent => step_inStep h.1 h.2 he hsent)
      (fun _ _ _ h he hsent hx => step_not_inStep h.1 he hsent hx) ⟨hc, h⟩ hes
  constructor
  · exact fun halways => halways.forall_of_guarded (hexact.mp halways)
  · exact fun hsent => hexact.mpr (guarded_of_forall (I := fun _ => True)
      (fun _ _ _ _ _ _ => trivial) (fun _ _ _ he => he) trivial hsent)

/-- A buffer that starts with the samples `l`. -/
def filled (l : List Short) (h : l.length ≤ 2048) : Tbuf :=
  ⟨l ++ List.replicate (2048 - l.length) 0, by
    rw [List.length_append, List.length_replicate]
    omega⟩

/-- Both ends at the start. -/
def fresh : System where
  caster := ⟨.adpcm, filled [] (by decide), List.replicate 2036 0, ⟨0, 0⟩, true⟩
  player := ⟨0, 0⟩
  log := []

/-- Two frames, of four samples and of two. -/
def twoFrames : List Frame :=
  [⟨filled [100, -30000, 30000, 5] (by decide), 8, true⟩,
    ⟨filled [-7, 32767] (by decide), 4, true⟩]

theorem inStep_fresh : InStep fresh :=
  ⟨rfl, Nat.zero_le 88, fun _ hf => absurd hf List.not_mem_nil⟩

theorem adpcm_inStep_twoFrames : Always (step fun _ _ => none) InStep fresh twoFrames ↔
    ∀ e ∈ twoFrames, e.Sent := by
  refine adpcm_inStep_iff ⟨rfl, ?_⟩ inStep_fresh fun e he => ?_
  · show 1024 ≤ (List.replicate 2036 (0 : Byte)).length
    rw [List.length_replicate]
    decide
  · rcases List.mem_cons.mp he with rfl | he
    · exact ⟨by decide, by decide⟩
    · rw [List.mem_singleton.mp he]
      exact ⟨by decide, by decide⟩

/-- The microphone is closed as the first frame is cast. -/
def closedFirst : List Frame :=
  [⟨filled [100, -30000, 30000, 5] (by decide), 8, false⟩,
    ⟨filled [-7, 32767] (by decide), 4, true⟩]

/-- The coder is ahead of the decoder for good. -/
theorem closedFirst_outOfStep :
    ¬ Always (step fun _ _ => none) InStep fresh closedFirst := by
  intro h
  have hrun : (run (step fun _ _ => none) fresh closedFirst).map
      (fun x => decide (x.player.index = x.caster.state.index)) = some false := by
    decide +kernel
  obtain ⟨x, hx, hstate⟩ := h.observed hrun
  exact of_decide_eq_false hstate (congrArg AdpcmState.index hx.same)

end GSConferencing.Client.Cast
