import GSConferencing.Include.Pack
import GSConferencing.Lib.Blocks
import GSConferencing.Lib.Run

/-!
# Frames of mixed audio

`cast_audio` of `xcast.c` collects the payloads of audio packets in the buffer of `get_cast_buffer`,
and calls `cast_filled` when they make up a frame.

* `mixAudioPacks_eq`: what `mix_audio_pack` does is a run of `cast_audio`.
* `castAudio_inv`, `castAudio_bad`: a payload that fits in the frame, and one that does not.
* `reframed_iff`: the frames are the blocks of what has come exactly when every payload fits in what
  is left of the frame.
-/

namespace GSConferencing.Client.Xcast

open GSConferencing.Include.Pack (Byte)
open GSConferencing.Lib.Blocks GSConferencing.Lib.Memory GSConferencing.Lib.Run

/-! ## `cast.c` -/

/-- The buffers of `cast.c`. -/
inductive CastBuf where
  /-- The data of a packet of `udp_snd_fifo`, which is always the first one. -/
  | sendBuf
  | tbuf

/-- The bytes up to the end of the memory: 256 packets of 2048 bytes, less the header of the first
one, or `tbuf[4096]`. -/
def CastBuf.size : CastBuf → ℕ
  | .sendBuf => 256 * 2048 - 12
  | .tbuf => 4096

/-- `set_compression` returns the length of a frame; 3 is `COMPR_AAC`. -/
def setCompression (compr : ℤ) : ℕ := if compr = 3 then 4096 else 1024

/-- `get_cast_buffer`; `none` is `NULL`. -/
def getCastBuffer : ℤ → Option CastBuf
  | 0 => some .sendBuf -- `COMPR_NONE`
  | 1 => some .sendBuf -- `COMPR_STEREO_TO_MONO`
  | 2 => some .tbuf -- `COMPR_ADPCM`
  | 3 => some .tbuf -- `COMPR_AAC`
  | _ => none

/-! ## `xcast.c` -/

/-- `frame_len`, from the options `-e` and `-l`. -/
def frameLen (compression fl : ℤ) : ℕ := if 0 < fl then fl.toNat else setCompression compression

/-- The payload of an audio packet, at most a frame of `n` bytes. -/
structure Payload (n : ℕ) where
  bytes : List Byte
  pos : 0 < bytes.length
  le : bytes.length ≤ n

/-- The static variables of `xcast.c`, what is in `frame_buf`, and what has been done so far. -/
structure Framer where
  frameBuf : Option CastBuf
  currLen : ℕ
  mem : ℕ → Byte
  /-- How often `get_cast_buffer` was called. -/
  gets : ℕ
  /-- Where `frame_buf` was written, and how many bytes. -/
  writes : List (ℕ × ℕ)
  /-- The frames passed to `cast_filled`. -/
  frames : List (List Byte)
  /-- The payloads, one after the other. -/
  stream : List Byte

def init : Framer := ⟨none, 0, fun _ => 0, 0, [], [], []⟩

section Source
variable (compression fl : ℤ) (bufs : ℕ → ℕ → Byte)

/-- The frame begins with the buffer of `get_cast_buffer`, which holds `bufs` at its calls. -/
def begin (s : Framer) : Framer :=
  if s.currLen = 0 then
    { s with
      frameBuf := getCastBuffer compression
      mem := bufs s.gets
      gets := s.gets + 1 }
  else s

/-- `memcpy(&frame_buf[curr_len], buf, len)` and the length behind it. -/
def copy (s : Framer) (buf : List Byte) : Framer :=
  { s with
    mem := store s.mem s.currLen buf
    currLen := s.currLen + buf.length
    writes := s.writes ++ [(s.currLen, buf.length)]
    stream := s.stream ++ buf }

/-- `cast_filled` if the frame is complete. -/
def emit (s : Framer) : Framer :=
  if s.currLen = frameLen compression fl then
    { s with
      frames := s.frames ++ [front s.mem (frameLen compression fl)]
      currLen := 0 }
  else s

/-- `cast_audio`. -/
def castAudio (s : Framer) (p : Payload (frameLen compression fl)) : Option Framer :=
  let s := begin compression bufs s
  s.frameBuf.bind fun b =>
    if b.size < s.currLen + p.bytes.length then none
    else some (emit compression fl (copy s p.bytes))

/-- A packet for `mix_audio_pack`: what `put_mix_audio` returns for it, and the packets that
`get_mix_audio` returns then. -/
structure Mixed (n : ℕ) where
  r : ℤ
  pack : Payload n
  mixed : List (Payload n)

/-- The payloads of a packet that are handed to `cast_audio`. -/
def Mixed.handed {n : ℕ} (m : Mixed n) : List (Payload n) :=
  if m.r < 0 then [] else if m.r = 0 then [m.pack] else m.mixed

/-- `mix_audio_pack`. -/
def mixAudioPack (s : Framer) (m : Mixed (frameLen compression fl)) : Option (ℤ × Framer) :=
  if m.r < 0 then some (-1, s)
  else if m.r = 0 then (castAudio compression fl bufs s m.pack).map fun s => (0, s)
  else (m.mixed.foldlM (castAudio compression fl bufs) s).map fun s => (0, s)

/-! ## What is asked of it -/

/-- The frames are the blocks of what has come, and were written in their place. -/
structure Reframed (s : Framer) : Prop where
  frames : s.frames = blocks (frameLen compression fl) s.stream
  writes : ∀ w ∈ s.writes, w.1 + w.2 ≤ frameLen compression fl

/-- There is a buffer, and what is left of the frame has room for the payload. -/
def Fits (s : Framer) (p : Payload (frameLen compression fl)) : Prop :=
  ∃ b, getCastBuffer compression = some b ∧
    s.stream.length % frameLen compression fl + p.bytes.length ≤
      min (frameLen compression fl) b.size

end Source

/-! ## One payload -/

section Payloads
variable {compression fl : ℤ} {bufs : ℕ → ℕ → Byte} {s s' : Framer}
  {p : Payload (frameLen compression fl)}

theorem mixAudioPack_eq (s : Framer) (m : Mixed (frameLen compression fl)) :
    (mixAudioPack compression fl bufs s m).map Prod.snd =
      run (castAudio compression fl bufs) s m.handed := by
  unfold mixAudioPack Mixed.handed run
  split_ifs
  · rfl
  · rw [Option.map_map]
    show Option.map id _ = _
    rw [Option.map_id, List.foldlM_cons]
    exact (bind_pure _).symm
  · rw [Option.map_map]
    exact Option.map_id_apply

/-- **A sequence of packets** is a run of `cast_audio` over the payloads that are handed to it. -/
theorem mixAudioPacks_eq (s : Framer) (ms : List (Mixed (frameLen compression fl))) :
    run (fun s m => (mixAudioPack compression fl bufs s m).map Prod.snd) s ms =
      run (castAudio compression fl bufs) s (ms.flatMap Mixed.handed) := by
  induction ms generalizing s with
  | nil => rfl
  | cons m ms ih =>
    rw [run_cons, mixAudioPack_eq, List.flatMap_cons, run_append]
    exact Option.bind_congr fun t _ => ih t

theorem frameLen_pos : 0 < frameLen compression fl := by
  unfold frameLen setCompression
  split_ifs <;> omega

/-- What is in the frame is what the blocks leave over, and it is in the buffer. -/
structure Inv (compression fl : ℤ) (s : Framer) : Prop where
  reframed : Reframed compression fl s
  rest : front s.mem s.currLen = rest (frameLen compression fl) s.stream
  buf : s.currLen ≠ 0 → s.frameBuf = getCastBuffer compression

theorem Inv.currLen (h : Inv compression fl s) :
    s.currLen = s.stream.length % frameLen compression fl := by
  rw [← length_rest, ← h.rest, length_front]

theorem inv_init : Inv compression fl init where
  reframed := ⟨(blocks_of_lt frameLen_pos).symm, fun _ h => nomatch h⟩
  rest := (rest_of_lt frameLen_pos).symm
  buf := fun h => absurd rfl h

/-- A frame begins. -/
theorem Inv.begin (h : Inv compression fl s) (bufs : ℕ → ℕ → Byte) :
    Inv compression fl (begin compression bufs s) ∧
      (begin compression bufs s).frameBuf = getCastBuffer compression ∧
      (begin compression bufs s).stream = s.stream := by
  unfold Xcast.begin
  split_ifs with h0
  · have hrest := h.rest
    rw [h0] at hrest
    refine ⟨⟨⟨h.reframed.frames, h.reframed.writes⟩, ?_, fun _ => rfl⟩, rfl, rfl⟩
    dsimp only
    rw [h0]
    exact hrest
  · exact ⟨h, h.buf h0, rfl⟩

/-- **A payload that fits** leaves the frames in order. -/
theorem castAudio_inv (h : Inv compression fl s) (hfit : Fits compression fl s p) :
    ∃ s', castAudio compression fl bufs s p = some s' ∧ Inv compression fl s' := by
  obtain ⟨b, hb, hroom⟩ := hfit
  obtain ⟨hI, hbuf, hstream⟩ := h.begin bufs
  unfold castAudio
  dsimp only
  generalize Xcast.begin compression bufs s = t at hI hbuf hstream ⊢
  have hle : t.currLen + p.bytes.length ≤ min (frameLen compression fl) b.size := by
    rw [hI.currLen, hstream]
    exact hroom
  have hfront : front (copy t p.bytes).mem (copy t p.bytes).currLen =
      rest (frameLen compression fl) t.stream ++ p.bytes := by
    rw [← hI.rest]
    exact front_store t.mem t.currLen p.bytes
  have hlen := congrArg List.length hfront
  rw [length_front] at hlen
  have hwrites : ∀ w ∈ (copy t p.bytes).writes, w.1 + w.2 ≤ frameLen compression fl := by
    intro w hw
    rcases List.mem_append.mp hw with hw | hw
    · exact hI.reframed.writes w hw
    · rw [List.mem_singleton.mp hw]
      omega
  refine ⟨emit compression fl (copy t p.bytes), ?_, ?_⟩
  · rw [hbuf, hb, Option.bind_some, if_neg (by omega)]
  · unfold emit
    split_ifs with hfull
    · obtain ⟨hblocks, hrest⟩ := blocks_fill frameLen_pos (hlen.symm.trans hfull)
      refine ⟨⟨?_, hwrites⟩, hrest.symm, fun h0 => absurd rfl h0⟩
      have hframe : front (copy t p.bytes).mem (frameLen compression fl) =
          rest (frameLen compression fl) t.stream ++ p.bytes :=
        (congrArg (front _) hfull.symm).trans hfront
      show t.frames ++ [front (copy t p.bytes).mem _] = blocks _ (t.stream ++ p.bytes)
      rw [hblocks, hI.reframed.frames, hframe]
    · have hshort : (rest (frameLen compression fl) t.stream ++ p.bytes).length <
          frameLen compression fl := by
        have hsum : (copy t p.bytes).currLen = t.currLen + p.bytes.length := rfl
        omega
      obtain ⟨hblocks, hrest⟩ := blocks_short frameLen_pos hshort
      refine ⟨⟨?_, hwrites⟩, ?_, fun _ => hbuf⟩
      · exact hI.reframed.frames.trans hblocks.symm
      · exact hfront.trans hrest.symm

/-- **A payload that does not fit** is copied beyond the frame, if there is memory at all. -/
theorem castAudio_bad (h : Inv compression fl s) (hfit : ¬ Fits compression fl s p)
    (hs : castAudio compression fl bufs s p = some s') : ¬ Reframed compression fl s' := by
  obtain ⟨hI, hbuf, hstream⟩ := h.begin bufs
  unfold castAudio at hs
  dsimp only at hs
  generalize Xcast.begin compression bufs s = t at hI hbuf hstream hs
  obtain ⟨b, hb, hs⟩ := Option.bind_eq_some_iff.mp hs
  split_ifs at hs with hsize
  rw [Option.some.injEq] at hs
  intro hR
  have hmem : (t.currLen, p.bytes.length) ∈ s'.writes := by
    rw [← hs]
    unfold emit
    split_ifs <;> exact List.mem_append_right _ (List.mem_singleton.mpr rfl)
  have hle := hR.writes _ hmem
  have hcurr := hI.currLen
  rw [hstream] at hcurr
  refine hfit ⟨b, hbuf ▸ hb, le_min ?_ ?_⟩
  · omega
  · omega

end Payloads

/-- **Re-framing:** along a run of payloads the frames are the blocks of what has come exactly when
every payload fits in what is left of the frame, and of the memory. -/
theorem reframed_iff (compression fl : ℤ) (bufs : ℕ → ℕ → Byte)
    (ps : List (Payload (frameLen compression fl))) :
    Always (castAudio compression fl bufs) (Reframed compression fl) init ps ↔
      Guarded (castAudio compression fl bufs) (Fits compression fl) init ps :=
  always_iff_guarded (I := Inv compression fl) (E := fun _ => True) (fun _ h => h.reframed)
    (fun _ _ hI _ hg => castAudio_inv hI hg) (fun _ _ _ hI _ hg hs => castAudio_bad hI hg hs)
    inv_init (fun _ _ => trivial)

/-- 600 bytes, as of a sender with frames of another length. -/
def sixHundred : Payload (frameLen 0 0) where
  bytes := List.replicate 600 0
  pos := by decide +kernel
  le := by decide +kernel

/-- The second payload is written from 600 to 1200, in a frame of 1024 bytes. -/
theorem straddling :
    ¬ Always (castAudio 0 0 fun _ _ => 0) (Reframed 0 0) init [sixHundred, sixHundred] := by
  intro h
  have hrun : (run (castAudio 0 0 fun _ _ => 0) init [sixHundred, sixHundred]).map
      (fun s => s.writes) = some [(0, 600), (600, 600)] := by decide +kernel
  obtain ⟨t, hR, ht⟩ := h.observed hrun
  have hle := hR.writes (600, 600) (by rw [ht]; decide)
  exact absurd hle (by decide)

end GSConferencing.Client.Xcast
