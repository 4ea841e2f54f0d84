import GSConferencing.Client.Recent
import GSConferencing.Include.Cfifo
import GSConferencing.Include.Pack
import GSConferencing.Lib.Memory

/-!
# The mixer of the client

`mix.c`, and `pcm_mix` of `pcm.c`: the packets of each device wait in a queue of its own, and one
packet of each queue is mixed as soon as no queue is empty.  A packet of the only device there is
is not queued.

A slot of a queue keeps what earlier packets have left behind the data of the packet in it.
* `getQueueIndex_cases`: which queue a device gets.
* `contents_outFifo`: what waits after a flush.
-/

namespace GSConferencing.Client.Mix

open GSConferencing.Include.Pack GSConferencing.Include.Cfifo GSConferencing.Client.Recent
open GSConferencing.Lib.Memory

/-! ## Mixing samples -/

/-- The `i`th sample of a buffer. -/
def sample (buf : List Byte) (i : ℕ) : ℤ :=
  (buf.getD (2 * i + 1) 0 ++ buf.getD (2 * i) 0 : BitVec 16).toInt

/-- A sum of samples that is too large or too small is cut. -/
def saturate (mix : ℤ) : ℤ :=
  if 2 ^ 15 - 1 < mix then 2 ^ 15 - 1 else if mix < -2 ^ 15 then -2 ^ 15 else mix

/-- The bytes of a sample. -/
def sampleBytes (mix : ℤ) : List Byte :=
  let v := BitVec.ofInt 16 mix
  [v.setWidth 8, (v >>> 8).setWidth 8]

/-- `pcm_mix`: what is in the first buffer afterwards. -/
def pcmMix (bufs : List (List Byte)) (samples : ℕ) : List Byte :=
  overwrite (bufs.headD []) 0 ((List.range samples).flatMap fun i =>
    sampleBytes (saturate (bufs.map fun buf => sample buf i).sum))

/-! ## The queues -/

/-- A packet in the order of arrival, or a slot of a queue with the packet that is in it. -/
structure Slot where
  no : ℕ
  pack : PackData

namespace Slot

/-- `pack->id & 0xffffff`. -/
def dev (s : Slot) : ℤ := ((s.pack.id &&& 0xffffff).toNat : ℤ)

/-- `memcpy(in, pack, PACK_LEN(pack))`. -/
def store (s p : Slot) : Slot where
  no := p.no
  pack := { p.pack with
    data := overwrite s.pack.data 0 (p.pack.data.take p.pack.datalen.toNat) }

end Slot

@[simp] theorem no_store (s p : Slot) : (s.store p).no = p.no := rfl

@[simp] theorem dev_store (s p : Slot) : (s.store p).dev = p.dev := rfl

/-- `struct pack_queue`. -/
structure PackQueue where
  devId : ℤ
  recent : RecentInfo (BitVec 32) 2
  fifo : Fifo Slot 5

/-- `QUEUE_NUM` queues, and the other static variables. -/
structure Mixer where
  queues : Fin 8 → PackQueue
  devCount : ℤ
  autoCloseMax : ℤ
  fastFwd : Bool

/-- `1 << e_order`: the size of a slot. -/
def slotSize : ℕ := 2 ^ 11

/-- `mix_audio_init`; `z` is in the memory of the queues. -/
def Mixer.init (z : Slot) : Mixer where
  queues := fun _ => ⟨0, .new 0, .new z⟩
  devCount := 0
  autoCloseMax := 0
  fastFwd := false

namespace Mixer

variable (m : Mixer)

def setQueue (i : Fin 8) (q : PackQueue) : Mixer :=
  { m with queues := Function.update m.queues i q }

/-- `mix_audio_auto_close`. -/
def mixAudioAutoClose (maxPacks : ℤ) : Mixer := { m with autoCloseMax := maxPacks }

/-- The queue of a device. -/
def findDev (devId : ℤ) : Option (Fin 8) :=
  (List.finRange 8).find? fun i => (m.queues i).devId = devId

/-- `get_queue_index`. -/
def getQueueIndex (devId : ℤ) (new : Bool) : Option (Fin 8) × Mixer :=
  if devId = 0 then (none, m)
  else match m.findDev devId with
    | some i => (some i, m)
    | none => match m.findDev 0 with
      | none => (none, m)
      | some avi =>
        if new then
          (some avi, { m.setQueue avi { m.queues avi with devId := devId } with
            devCount := m.devCount + 1 })
        else (none, m)

/-- `remove_queue`. -/
def removeQueue (i : Fin 8) : Mixer :=
  { m.setQueue i { m.queues i with devId := 0, fifo := (m.queues i).fifo.clear } with
    devCount := m.devCount - 1 }

/-- `mix_audio_open`. -/
def mixAudioOpen (devId : ℤ) : Mixer := (m.getQueueIndex devId true).2

/-- `mix_audio_close`. -/
def mixAudioClose (devId : ℤ) : Mixer :=
  match m.getQueueIndex devId false with
  | (none, m) => m
  | (some i, m) => m.removeQueue i

/-- One turn of the loop of `cleanup_queues`. -/
def cleanupQueue (i : Fin 8) : Mixer :=
  if (m.queues i).devId = 0 then m
  else if (m.queues i).fifo.empty then m.removeQueue i
  else m.setQueue i { m.queues i with fifo := (m.queues i).fifo.clear }

/-- `cleanup_queues`. -/
def cleanupQueues : Mixer := (List.finRange 8).foldl cleanupQueue m

/-- The packet is copied into queue `i`. -/
def putIn (i : Fin 8) (p : Slot) : Mixer :=
  let cf := (m.queues i).fifo
  m.setQueue i { m.queues i with fifo := (cf.write ((cf.data cf.inn).store p)).putIn }

/-- `put_mix_audio` after the test for duplicates. -/
def queueMixAudio (i : Fin 8) (p : Slot) : Option (ℤ × Mixer) :=
  if m.devCount ≤ 1 then some (0, m)
  else if (m.queues i).fifo.full then some (-1, m.cleanupQueues)
  -- a packet that is longer than a slot overruns it
  else if slotSize < p.pack.size then none
  else
    let m := m.putIn i p
    if 0 < m.autoCloseMax ∧ m.autoCloseMax ≤ (m.queues i).fifo.len then
      some (1, { m.cleanupQueues with fastFwd := true })
    else some (1, m)

/-- `put_mix_audio`. -/
def putMixAudio (p : Slot) : Option (ℤ × Mixer) :=
  match m.getQueueIndex p.dev true with
  | (none, m) => some (-1, m)
  | (some i, m) =>
    match recentTest (m.queues i).recent p.pack.seq with
    | (true, _) => some (-1, m)
    | (false, r) => (m.setQueue i { m.queues i with recent := r }).queueMixAudio i p

/-- `flush_queue`. -/
def flushQueue (cf : Fifo Slot 5) : Fifo Slot 5 := Fifo.takeOut^[cf.len - 1] cf

/-- What is taken from a queue: the queue, the place in it, and the packet. -/
structure Taken where
  queue : Fin 8
  place : Fin (2 ^ 5)
  slot : Slot

/-- The fifo that a packet is taken from. -/
def outFifo (i : Fin 8) : Fifo Slot 5 :=
  if m.fastFwd = false ∧ 4 < (m.queues i).fifo.len then flushQueue (m.queues i).fifo
  else (m.queues i).fifo

/-- One turn of the loop of `get_mix_audio` over the queues. -/
def takeQueue (s : List Taken × Mixer) (i : Fin 8) : List Taken × Mixer :=
  if (s.2.queues i).devId = 0 then s
  else
    let cf := s.2.outFifo i
    (s.1 ++ [⟨i, cf.out, cf.getOut⟩],
      s.2.setQueue i { s.2.queues i with fifo := cf.takeOut })

/-- The mixed samples go to the slot that the first packet is taken from. -/
def writeBack (i : Fin 8) (place : Fin (2 ^ 5)) (x : Slot) : Mixer :=
  m.setQueue i { m.queues i with
    fifo := { (m.queues i).fifo with data := Function.update (m.queues i).fifo.data place x } }

/-- A device has no packet waiting. -/
def Starved : Prop := ∃ i, (m.queues i).devId ≠ 0 ∧ (m.queues i).fifo.empty

instance : Decidable m.Starved :=
  inferInstanceAs (Decidable (∃ i, (m.queues i).devId ≠ 0 ∧ (m.queues i).fifo.empty))

/-- What `get_mix_audio` returns, and the packets that are in it. -/
structure Mixed where
  pack0 : Slot
  parts : List Slot

/-- `get_mix_audio`. -/
def getMixAudio : Option Mixed × Mixer :=
  if m.devCount = 0 then (none, m)
  else if m.Starved then (none, { m with fastFwd := false })
  else
    let r := (List.finRange 8).foldl takeQueue ([], m)
    match r.1 with
    | [] => (none, r.2)
    | [t] => (some ⟨t.slot, [t.slot]⟩, r.2)
    | t :: ts =>
      let p : Slot := { t.slot with pack := { t.slot.pack with
        data := pcmMix ((t :: ts).map fun t => t.slot.pack.data) (t.slot.pack.datalen.toNat / 2) } }
      (some ⟨p, (t :: ts).map Taken.slot⟩, r.2.writeBack t.queue t.place p)

/-- `while( (p=get_mix_audio()) )`, with what has been mixed so far. -/
def drain : ℕ → Mixer → List Mixed → Option (List Mixed × Mixer)
  | 0, _, _ => none
  | fuel + 1, m, l => match m.getMixAudio with
    | (none, m) => some (l, m)
    | (some p, m) => drain fuel m (l ++ [p])

/-- No more turns are taken than packets wait. -/
def drainFuel : ℕ := 8 * 2 ^ 5

end Mixer

variable {m : Mixer} {i : Fin 8}

@[simp] theorem queues_setQueue (m : Mixer) (i : Fin 8) (q : PackQueue) :
    (m.setQueue i q).queues = Function.update m.queues i q := rfl

theorem devId_of_findDev {d : ℤ} (h : m.findDev d = some i) : (m.queues i).devId = d := by
  simpa using List.find?_some h

theorem findDev_none {d : ℤ} (h : m.findDev d = none) (j : Fin 8) : (m.queues j).devId ≠ d := by
  simpa using List.find?_eq_none.mp h j (List.mem_finRange j)

/-- A search makes no new queue. -/
theorem getQueueIndex_find (m : Mixer) (d : ℤ) :
    m.getQueueIndex d false = (if d = 0 then none else m.findDev d, m) := by
  unfold Mixer.getQueueIndex
  by_cases h0 : d = 0
  · rw [if_pos h0, if_pos h0]
  · rw [if_neg h0, if_neg h0]
    split
    · next i hi => rw [hi]
    · next hd =>
      rw [hd]
      split <;> rfl

/-- **The queue of a device:** its own one, or a free one that becomes its own. -/
theorem getQueueIndex_cases (m : Mixer) (d : ℤ) :
    ((m.getQueueIndex d true).1 = none ∧ (m.getQueueIndex d true).2 = m) ∨
    (∃ i, d ≠ 0 ∧ m.getQueueIndex d true = (some i, m) ∧ (m.queues i).devId = d) ∨
    ∃ i, d ≠ 0 ∧ (∀ j, (m.queues j).devId ≠ d) ∧ (m.queues i).devId = 0 ∧
      m.getQueueIndex d true = (some i, { m.setQueue i { m.queues i with devId := d } with
        devCount := m.devCount + 1 }) := by
  unfold Mixer.getQueueIndex
  by_cases h0 : d = 0
  · rw [if_pos h0]
    exact .inl ⟨rfl, rfl⟩
  · rw [if_neg h0]
    simp only [if_true]
    split
    · next i hi => exact .inr (.inl ⟨i, h0, rfl, devId_of_findDev hi⟩)
    · next hd =>
      split
      · exact .inl ⟨rfl, rfl⟩
      · next avi hz => exact .inr (.inr ⟨avi, h0, findDev_none hd, devId_of_findDev hz, rfl⟩)

/-- Only the oldest packets are taken out. -/
theorem contents_takeOut_iterate {k n : ℕ} {cf : Fifo Slot k} (h : n ≤ cf.len) :
    (Fifo.takeOut^[n] cf).contents = cf.contents.drop n := by
  induction n generalizing cf with
  | zero => rfl
  | succ n ih =>
    have hne : ¬ cf.empty := by
      rw [empty_iff, ← List.length_eq_zero_iff, length_contents]
      omega
    have hcons := contents_out hne
    have hlen : cf.takeOut.len + 1 = cf.len := by
      rw [← length_contents, ← length_contents, hcons, List.length_cons]
    rw [Function.iterate_succ_apply, ih (by omega), hcons, List.drop_succ_cons]

/-- **A flush** leaves the newest packet. -/
theorem contents_flushQueue {cf : Fifo Slot 5} :
    (Mixer.flushQueue cf).contents = cf.contents.drop (cf.len - 1) :=
  contents_takeOut_iterate (Nat.sub_le _ _)

theorem contents_outFifo (m : Mixer) (i : Fin 8) :
    (m.outFifo i).contents.Sublist (m.queues i).fifo.contents := by
  unfold Mixer.outFifo
  split_ifs
  · rw [contents_flushQueue]
    exact List.drop_sublist _ _
  · exact List.Sublist.refl _

theorem outFifo_not_empty (h : ¬ (m.queues i).fifo.empty) : ¬ (m.outFifo i).empty := by
  rw [empty_iff, ← List.length_eq_zero_iff] at h ⊢
  unfold Mixer.outFifo
  split_ifs
  · rw [contents_flushQueue, List.length_drop, length_contents]
    rw [length_contents] at h
    omega
  · exact h

end GSConferencing.Client.Mix
