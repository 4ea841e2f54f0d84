import GSConferencing.Client.Mix
import GSConferencing.Lib.Run

/-!
# The order of playback

`audio_recved` and `audio_mic_op` of `client.c`, for a client that mixes (`audio_direct_mix`) and is
neither `ucast_audio` nor `mix_cast`: what `put_mix_audio` returns 0 for is played at once, and
otherwise what `get_mix_audio` has mixed.

* `takeQueue_inv`, `queueMixAudio_inv`: the packets of a device that are played and those that wait
  are packets that were accepted, in this order.
* `inOrder_of_fits`: the order is kept along a run in which no packet is played while an older one of
  its device waits.
-/

namespace GSConferencing.Client.MixOrder

open GSConferencing.Include.Pack GSConferencing.Include.Cfifo GSConferencing.Client.Recent
open GSConferencing.Client.Mix GSConferencing.Lib.Run

/-- The client: the mixer, `subscription` and `replicate`, the number of packets that have come, those
that were accepted, and what was played. -/
structure Player where
  mixer : Mixer
  subscription : ℤ × ℤ
  replicate : ℤ × ℤ
  arrived : ℕ
  accepted : List Slot
  output : List (List Slot)

/-- After `client_init`. -/
def init (z : Slot) : Player := ⟨.init z, (0, 0), (0, 0), 0, [], []⟩

/-- The tags that are received. -/
def Player.tags (s : Player) : ℤ × ℤ :=
  if s.replicate.1 ≠ 0 ∨ s.replicate.2 ≠ 0 then s.replicate else s.subscription

/-- The tag is received. -/
def Player.Interested (s : Player) (tag : Byte) : Prop :=
  (tag.toNat : ℤ) = s.tags.1 ∨ (tag.toNat : ℤ) = s.tags.2

instance (s : Player) (tag : Byte) : Decidable (s.Interested tag) :=
  inferInstanceAs (Decidable ((tag.toNat : ℤ) = s.tags.1 ∨ (tag.toNat : ℤ) = s.tags.2))

/-- The packet passes the tests of `audio_recved`. -/
def Player.Wanted (s : Player) (p : PackData) : Prop :=
  ¬ (s.subscription.1 = 0 ∧ s.subscription.2 = 0) ∧ s.Interested p.tag ∧ p.size ≤ p.len

instance (s : Player) (p : PackData) : Decidable (s.Wanted p) :=
  inferInstanceAs (Decidable (¬ (s.subscription.1 = 0 ∧ s.subscription.2 = 0) ∧
    s.Interested p.tag ∧ p.size ≤ p.len))

/-- `audio_recved` of a packet that passes the tests. -/
def mixRecved (s : Player) (p : Slot) : Option Player :=
  (s.mixer.putMixAudio p).bind fun r =>
    if r.1 < 0 then some { s with mixer := r.2 }
    else if r.1 = 0 then
      some { s with mixer := r.2, accepted := s.accepted ++ [p], output := s.output ++ [[p]] }
    else (r.2.drain Mixer.drainFuel []).map fun l =>
      { s with
        mixer := l.2
        accepted := s.accepted ++ [p]
        output := s.output ++ l.1.map Mixer.Mixed.parts }

/-- `audio_recved`; the packets are numbered as they come. -/
def audioRecved (s : Player) (p : PackData) : Option Player :=
  let s' := { s with arrived := s.arrived + 1 }
  if s.Wanted p then mixRecved s' ⟨s.arrived, p⟩ else some s'

/-- `audio_mic_op`. -/
def audioMicOp (s : Player) (p : PackData) : Player :=
  if s.Interested p.tag ∧ p.seq = 0 then
    { s with mixer := s.mixer.mixAudioClose (p.id &&& 0xffffff).toNat }
  else s

/-- What the client receives; its subscription changes in any way in between. -/
inductive Event where
  | audio (p : PackData)
  | micOp (p : PackData)
  | tune (subscription replicate : ℤ × ℤ)
  | autoClose (maxPacks : ℤ)

def step (s : Player) : Event → Option Player
  | .audio p => audioRecved s p
  | .micOp p => some (audioMicOp s p)
  | .tune subscription replicate =>
    some { s with subscription := subscription, replicate := replicate }
  | .autoClose maxPacks => some { s with mixer := s.mixer.mixAudioAutoClose maxPacks }

/-! ## Streams -/

/-- The numbers of the packets of a device. -/
def stream (l : List Slot) (d : ℤ) : List ℕ := (l.filter fun p => p.dev = d).map Slot.no

/-- The packets of each device are played in the order in which they were accepted, each at most
once. -/
structure InOrder (s : Player) : Prop where
  nodup : (s.accepted.map Slot.no).Nodup
  order : ∀ d, (stream s.output.flatten d).Sublist (stream s.accepted d)

@[simp] theorem stream_nil (d : ℤ) : stream [] d = [] := rfl

theorem stream_append (l l' : List Slot) (d : ℤ) :
    stream (l ++ l') d = stream l d ++ stream l' d := by
  unfold stream
  rw [List.filter_append, List.map_append]

theorem stream_own {l : List Slot} {d : ℤ} (h : ∀ p ∈ l, p.dev = d) :
    stream l d = l.map Slot.no := by
  unfold stream
  rw [List.filter_eq_self.mpr fun p hp => decide_eq_true (h p hp)]

theorem stream_other {p : Slot} {d : ℤ} (h : d ≠ p.dev) : stream [p] d = [] := by
  unfold stream
  rw [List.filter_singleton, decide_eq_false (Ne.symm h)]
  rfl

/-! ## The invariant -/

/-- The packets `A` were accepted and `L` were played. -/
structure Inv (m : Mixer) (A L : List Slot) : Prop where
  distinct : ∀ i j, (m.queues i).devId = (m.queues j).devId → (m.queues i).devId ≠ 0 → i = j
  unused : ∀ i, (m.queues i).devId = 0 → (m.queues i).fifo.contents = []
  own : ∀ i, ∀ p ∈ (m.queues i).fifo.contents, p.dev = (m.queues i).devId
  order : ∀ i, (m.queues i).devId ≠ 0 →
    (stream L (m.queues i).devId ++ (m.queues i).fifo.contents.map Slot.no).Sublist
      (stream A (m.queues i).devId)
  played : ∀ d, (stream L d).Sublist (stream A d)

theorem inv_init (z : Slot) : Inv (Mixer.init z) [] [] where
  distinct := fun _ _ _ h => absurd rfl h
  unused := fun _ _ => contents_new z
  own := fun i p hp => by
    have : ((Mixer.init z).queues i).fifo.contents = [] := contents_new z
    rw [this] at hp
    exact nomatch hp
  order := fun _ h => absurd rfl h
  played := fun _ => List.Sublist.refl _

variable {m : Mixer} {A A' L L' : List Slot} {i : Fin 8}

/-- What happens to one queue, and to the packets of its device. -/
theorem Inv.setQueue (h : Inv m A L) {q : PackQueue} (hid : q.devId = (m.queues i).devId)
    (hne : (m.queues i).devId ≠ 0) (hown : ∀ p ∈ q.fifo.contents, p.dev = q.devId)
    (horder : (stream L' q.devId ++ q.fifo.contents.map Slot.no).Sublist (stream A' q.devId))
    (hframe : ∀ d ≠ q.devId, stream L' d = stream L d ∧ stream A' d = stream A d) :
    Inv (m.setQueue i q) A' L' := by
  have hdev : ∀ j, ((m.setQueue i q).queues j).devId = (m.queues j).devId := fun j => by
    rcases eq_or_ne j i with rfl | hj
    · rw [queues_setQueue, Function.update_self, hid]
    · rw [queues_setQueue, Function.update_of_ne hj]
  refine ⟨fun j k => ?_, fun j => ?_, fun j => ?_, fun j => ?_, fun d => ?_⟩
  · rw [hdev, hdev]
    exact h.distinct j k
  · rcases eq_or_ne j i with rfl | hj
    · rw [hdev]
      exact fun h0 => absurd h0 hne
    · rw [hdev, queues_setQueue, Function.update_of_ne hj]
      exact h.unused j
  · rcases eq_or_ne j i with rfl | hj
    · rw [queues_setQueue, Function.update_self]
      exact hown
    · rw [queues_setQueue, Function.update_of_ne hj]
      exact h.own j
  · rcases eq_or_ne j i with rfl | hj
    · rw [queues_setQueue, Function.update_self]
      exact fun _ => horder
    · rw [queues_setQueue, Function.update_of_ne hj]
      intro hj0
      have hd : (m.queues j).devId ≠ q.devId := fun heq => hj (h.distinct j i (heq.trans hid) hj0)
      rw [(hframe _ hd).1, (hframe _ hd).2]
      exact h.order j hj0
  · rcases eq_or_ne d q.devId with rfl | hd
    · exact (List.sublist_append_left _ _).trans horder
    · rw [(hframe d hd).1, (hframe d hd).2]
      exact h.played d

/-- The invariant is about the queues alone. -/
theorem Inv.of_queues (h : Inv m A L) {m' : Mixer} (hq : m'.queues = m.queues) : Inv m' A L := by
  obtain ⟨h1, h2, h3, h4, h5⟩ := h
  rw [← hq] at h1 h2 h3 h4
  exact ⟨h1, h2, h3, h4, h5⟩

/-- Packets that wait may be dropped. -/
theorem Inv.drop (h : Inv m A L) (hne : (m.queues i).devId ≠ 0) {q : PackQueue}
    (hid : q.devId = (m.queues i).devId)
    (hsub : q.fifo.contents.Sublist (m.queues i).fifo.contents) : Inv (m.setQueue i q) A L := by
  refine h.setQueue hid hne (fun p hp => ?_) ?_ (fun _ _ => ⟨rfl, rfl⟩)
  · rw [hid]
    exact h.own i p (hsub.subset hp)
  · rw [hid]
    exact ((List.Sublist.refl _).append (hsub.map Slot.no)).trans (h.order i hne)

/-- A free queue, or one that is cleared, is given to no device or to a device without a queue. -/
theorem Inv.assign (h : Inv m A L) {q : PackQueue} (hq : q.fifo.contents = [])
    (hnew : q.devId ≠ 0 → ∀ j, (m.queues j).devId ≠ q.devId) : Inv (m.setQueue i q) A L := by
  refine ⟨fun j k hjk h0 => ?_, fun j => ?_, fun j => ?_, fun j => ?_, h.played⟩
  · simp only [queues_setQueue, Function.update_apply] at hjk h0
    split_ifs at hjk h0 with hj hk hk
    · exact hj.trans hk.symm
    · exact absurd hjk.symm (hnew h0 k)
    · exact absurd hjk (hnew (hjk ▸ h0) j)
    · exact h.distinct j k hjk h0
  · simp only [queues_setQueue, Function.update_apply]
    split_ifs with hj
    · exact fun _ => hq
    · exact h.unused j
  · simp only [queues_setQueue, Function.update_apply]
    split_ifs with hj
    · rw [hq]
      exact fun _ hp => nomatch hp
    · exact h.own j
  · simp only [queues_setQueue, Function.update_apply]
    split_ifs with hj
    · rw [hq, List.map_nil, List.append_nil]
      exact fun _ => h.played _
    · exact h.order j

theorem getQueueIndex_inv (h : Inv m A L) (d : ℤ) : Inv (m.getQueueIndex d true).2 A L := by
  rcases getQueueIndex_cases m d with ⟨-, hm⟩ | ⟨i, -, hm, -⟩ | ⟨i, -, hnew, h0, hm⟩
  · rw [hm]
    exact h
  · rw [hm]
    exact h
  · rw [hm]
    exact (h.assign (i := i) (q := { m.queues i with devId := d }) (h.unused i h0)
      (fun _ j => hnew j)).of_queues rfl

theorem removeQueue_inv (h : Inv m A L) (i : Fin 8) : Inv (m.removeQueue i) A L :=
  (h.assign (i := i) (q := { m.queues i with devId := 0, fifo := (m.queues i).fifo.clear })
    contents_clear (fun h0 => absurd rfl h0)).of_queues rfl

theorem mixAudioClose_inv (h : Inv m A L) (d : ℤ) : Inv (m.mixAudioClose d) A L := by
  unfold Mixer.mixAudioClose
  rw [getQueueIndex_find]
  cases if d = 0 then none else m.findDev d with
  | none => exact h
  | some i => exact removeQueue_inv h i

theorem cleanupQueues_inv (h : Inv m A L) : Inv m.cleanupQueues A L := by
  unfold Mixer.cleanupQueues
  induction List.finRange 8 generalizing m with
  | nil => exact h
  | cons i l ih =>
    rw [List.foldl_cons]
    refine ih ?_
    unfold Mixer.cleanupQueue
    split_ifs with h0 he
    · exact h
    · exact removeQueue_inv h i
    · exact h.drop h0 rfl (by rw [contents_clear]; exact List.nil_sublist _)

/-! ## A packet comes -/

/-- The packet is played at once, and no packet of its device waits. -/
theorem Inv.play (h : Inv m A L) {p : Slot} (hid : (m.queues i).devId = p.dev)
    (hne : (m.queues i).devId ≠ 0) (hempty : (m.queues i).fifo.empty) :
    Inv m (A ++ [p]) (L ++ [p]) := by
  have hnil := empty_iff.mp hempty
  have hset : m.setQueue i (m.queues i) = m := by
    unfold Mixer.setQueue
    rw [Function.update_eq_self]
  rw [← hset]
  refine h.setQueue rfl hne (h.own i) ?_ (fun d hd => ?_)
  · rw [hnil, List.map_nil, List.append_nil, stream_append, stream_append]
    exact (h.played _).append (List.Sublist.refl _)
  · rw [stream_append, stream_append, stream_other (hid ▸ hd), List.append_nil, List.append_nil]
    exact ⟨rfl, rfl⟩

/-- The packet waits behind the others of its device. -/
theorem Inv.enqueue (h : Inv m A L) {p : Slot} (hid : (m.queues i).devId = p.dev)
    (hne : (m.queues i).devId ≠ 0) (hfull : ¬ (m.queues i).fifo.full) :
    Inv (m.putIn i p) (A ++ [p]) L := by
  refine h.setQueue rfl hne (fun x hx => ?_) ?_ (fun d hd => ⟨rfl, ?_⟩)
  · rw [contents_put hfull] at hx
    rcases List.mem_append.mp hx with hx | hx
    · exact h.own i x hx
    · rw [List.mem_singleton.mp hx, dev_store]
      exact hid.symm
  · rw [contents_put hfull, List.map_append, ← List.append_assoc, stream_append]
    refine (h.order i hne).append ?_
    rw [stream_own (l := [p]) fun x hx => by rw [List.mem_singleton.mp hx]; exact hid.symm]
    exact List.Sublist.refl _
  · rw [stream_append, stream_other (hid ▸ hd), List.append_nil]

/-- A packet that is longer than a slot is not queued, and none is played while an older one of its
device waits; `i` is the queue of the device. -/
def Passes : Option (Fin 8) × Mixer → PackData → Prop
  | (none, _), _ => True
  | (some i, m), p => p.seq ∈ (m.queues i).recent.contents ∨
    if m.devCount ≤ 1 then (m.queues i).fifo.empty
    else (m.queues i).fifo.full ∨ p.size ≤ slotSize

instance : ∀ (r : Option (Fin 8) × Mixer) (p : PackData), Decidable (Passes r p)
  | (none, _), _ => .isTrue trivial
  | (some i, m), p => inferInstanceAs (Decidable (p.seq ∈ (m.queues i).recent.contents ∨
      if m.devCount ≤ 1 then (m.queues i).fifo.empty
      else (m.queues i).fifo.full ∨ p.size ≤ slotSize))

/-- What `put_mix_audio` returns, and what is accepted and played then. -/
def Put (A L : List Slot) (p : Slot) (r : ℤ × Mixer) : Prop :=
  (r.1 < 0 ∧ Inv r.2 A L) ∨ (r.1 = 0 ∧ Inv r.2 (A ++ [p]) (L ++ [p])) ∨
    (r.1 = 1 ∧ Inv r.2 (A ++ [p]) L)

theorem queueMixAudio_inv (h : Inv m A L) {p : Slot} (hid : (m.queues i).devId = p.dev)
    (hne : (m.queues i).devId ≠ 0) (hpass : if m.devCount ≤ 1 then (m.queues i).fifo.empty
      else (m.queues i).fifo.full ∨ p.pack.size ≤ slotSize) :
    ∃ r, m.queueMixAudio i p = some r ∧ Put A L p r := by
  unfold Mixer.queueMixAudio
  split_ifs at hpass ⊢ with hone hfull hlong
  · exact ⟨_, rfl, .inr (.inl ⟨rfl, h.play hid hne hpass⟩)⟩
  · exact ⟨_, rfl, .inl ⟨neg_one_lt_zero, cleanupQueues_inv h⟩⟩
  · exact absurd (hpass.resolve_left hfull) (not_le.mpr hlong)
  · have henq := h.enqueue hid hne hfull
    simp only
    split_ifs
    · exact ⟨_, rfl, .inr (.inr ⟨rfl, (cleanupQueues_inv henq).of_queues rfl⟩)⟩
    · exact ⟨_, rfl, .inr (.inr ⟨rfl, henq⟩)⟩

/-- A packet that is recorded as received. -/
theorem Inv.setRecent (h : Inv m A L) (i : Fin 8) (r : RecentInfo (BitVec 32) 2) :
    Inv (m.setQueue i { m.queues i with recent := r }) A L := by
  by_cases hne : (m.queues i).devId = 0
  · exact h.assign (h.unused i hne) fun h0 => absurd hne h0
  · exact h.drop hne rfl (List.Sublist.refl _)

theorem putMixAudio_inv (h : Inv m A L) {p : Slot}
    (hpass : Passes (m.getQueueIndex p.dev true) p.pack) :
    ∃ r, m.putMixAudio p = some r ∧ Put A L p r := by
  have hinv := getQueueIndex_inv h p.dev
  have hidx : ∀ i m', m.getQueueIndex p.dev true = (some i, m') →
      (m'.queues i).devId = p.dev ∧ p.dev ≠ 0 := by
    intro i m' hm
    rcases getQueueIndex_cases m p.dev with ⟨hn, -⟩ | ⟨j, h0, hj, hd⟩ | ⟨j, h0, -, -, hj⟩
    · rw [hm] at hn
      exact nomatch hn
    · obtain ⟨rfl, rfl⟩ : j = i ∧ m = m' := by simpa [hj] using hm
      exact ⟨hd, h0⟩
    · rw [hj] at hm
      obtain ⟨hji, rfl⟩ := Prod.mk.inj hm
      obtain rfl := Option.some.inj hji
      exact ⟨by simp, h0⟩
  unfold Mixer.putMixAudio
  generalize m.getQueueIndex p.dev true = r at hpass hinv hidx
  match r with
  | (none, m') => exact ⟨_, rfl, .inl ⟨neg_one_lt_zero, hinv⟩⟩
  | (some i, m') =>
    obtain ⟨hid, h0⟩ := hidx i m' rfl
    by_cases hin : p.pack.seq ∈ (m'.queues i).recent.contents
    · refine ⟨(-1, m'), ?_, .inl ⟨neg_one_lt_zero, hinv⟩⟩
      simp only [recentTest, if_pos hin]
    · have hrec := hinv.setRecent i ((m'.queues i).recent.add p.pack.seq)
      simp only [recentTest, if_neg hin]
      refine queueMixAudio_inv hrec ?_ ?_ ?_
      · rw [queues_setQueue, Function.update_self]
        exact hid
      · rw [queues_setQueue, Function.update_self]
        exact hid ▸ h0
      · rw [queues_setQueue, Function.update_self]
        exact hpass.resolve_left hin

/-! ## A mix is taken -/

/-- The number of packets that wait. -/
def waiting (m : Mixer) : ℕ := ∑ i, (m.queues i).fifo.contents.length

/-- In the loop of `get_mix_audio`, with the queues `l` ahead; at most `w` packets waited. -/
structure Taking (A L : List Slot) (w : ℕ) (l : List (Fin 8)) (s : List Mixer.Taken × Mixer) :
    Prop where
  inv : Inv s.2 A (L ++ s.1.map Mixer.Taken.slot)
  ready : ∀ j ∈ l, (s.2.queues j).devId ≠ 0 → ¬ (s.2.queues j).fifo.empty
  left : ∀ t ∈ s.1, t.queue ∉ l ∧ (s.2.queues t.queue).devId ≠ 0 ∧
    (s.2.queues t.queue).fifo.out = Lib.Ring.place 5 (t.place.val + 1)
  wait : waiting s.2 + s.1.length ≤ w

/-- The oldest packet of a device is played. -/
theorem Inv.take (h : Inv m A L) (hne : (m.queues i).devId ≠ 0) {x : Slot} {rest : List Slot}
    (hsub : (x :: rest).Sublist (m.queues i).fifo.contents) {q : PackQueue}
    (hid : q.devId = (m.queues i).devId) (hq : q.fifo.contents = rest) :
    Inv (m.setQueue i q) A (L ++ [x]) := by
  have hx : x.dev = (m.queues i).devId := h.own i x (hsub.subset List.mem_cons_self)
  refine h.setQueue hid hne (fun p hp => ?_) ?_ (fun d hd => ⟨?_, rfl⟩)
  · rw [hid]
    exact h.own i p (hsub.subset (List.mem_cons_of_mem x (hq ▸ hp)))
  · rw [hid, hq, stream_append, List.append_assoc,
      stream_own (l := [x]) fun p hp => by rw [List.mem_singleton.mp hp]; exact hx]
    exact ((List.Sublist.refl _).append (hsub.map Slot.no)).trans (h.order i hne)
  · rw [stream_append, stream_other (by rw [hx, ← hid]; exact hd), List.append_nil]

theorem waiting_setQueue (m : Mixer) (i : Fin 8) (q : PackQueue) :
    waiting (m.setQueue i q) + (m.queues i).fifo.contents.length =
      waiting m + q.fifo.contents.length := by
  unfold waiting
  rw [queues_setQueue, ← Finset.add_sum_erase _ _ (Finset.mem_univ i),
    ← Finset.add_sum_erase (Finset.univ) (fun i => (m.queues i).fifo.contents.length)
      (Finset.mem_univ i), Function.update_self,
    Finset.sum_congr rfl fun j hj => by rw [Function.update_of_ne (Finset.ne_of_mem_erase hj)]]
  omega

/-- **One queue** in the loop. -/
theorem takeQueue_taking {w : ℕ} {l : List (Fin 8)} {s : List Mixer.Taken × Mixer}
    (h : Taking A L w (i :: l) s) (hi : i ∉ l) : Taking A L w l (Mixer.takeQueue s i) := by
  unfold Mixer.takeQueue
  split_ifs with h0
  · exact ⟨h.inv, fun j hj => h.ready j (List.mem_cons_of_mem i hj),
      fun t ht => ⟨fun hin => (h.left t ht).1 (List.mem_cons_of_mem i hin), (h.left t ht).2⟩, h.wait⟩
  · have hout := outFifo_not_empty (h.ready i List.mem_cons_self h0)
    have hcons := contents_out hout
    have hsub := contents_outFifo s.2 i
    rw [hcons] at hsub
    refine ⟨?_, fun j hj => ?_, fun t ht => ?_, ?_⟩
    · rw [List.map_append, List.map_singleton, ← List.append_assoc]
      exact h.inv.take h0 hsub rfl rfl
    · have hji : j ≠ i := fun heq => hi (heq ▸ hj)
      simp only [queues_setQueue, Function.update_of_ne hji]
      exact h.ready j (List.mem_cons_of_mem i hj)
    · rcases List.mem_append.mp ht with ht | ht
      · obtain ⟨hnot, hleft⟩ := h.left t ht
        have hti : t.queue ≠ i := fun heq => hnot (heq ▸ List.mem_cons_self)
        simp only [queues_setQueue, Function.update_of_ne hti]
        exact ⟨fun hin => hnot (List.mem_cons_of_mem i hin), hleft⟩
      · rw [List.mem_singleton.mp ht]
        simp only [queues_setQueue, Function.update_self]
        exact ⟨hi, h0, rfl⟩
    · have hw := waiting_setQueue s.2 i
        { s.2.queues i with fifo := (s.2.outFifo i).takeOut }
      have hlen := hsub.length_le
      have := h.wait
      simp only [List.length_append, List.length_cons, List.length_nil] at hlen hw ⊢
      omega

/-- The whole loop, for any order of the queues. -/
theorem foldl_taking {w : ℕ} {l : List (Fin 8)} {s : List Mixer.Taken × Mixer}
    (h : Taking A L w l s) (hl : l.Nodup) : Taking A L w [] (l.foldl Mixer.takeQueue s) := by
  induction l generalizing s with
  | nil => exact h
  | cons i l ih =>
    rw [List.nodup_cons] at hl
    exact ih (takeQueue_taking h hl.1) hl.2

/-- What is written to the slot that was taken last is in no packet that waits. -/
theorem contents_writeBack {cf : Fifo Slot 5} {pl : Fin (2 ^ 5)}
    (h : cf.out = Lib.Ring.place 5 (pl.val + 1)) (x : Slot) :
    ({ cf with data := Function.update cf.data pl x } : Fifo Slot 5).contents = cf.contents := by
  let before : Fifo Slot 5 := { cf with out := pl }
  have hcf : before.takeOut = cf := by simp only [before, Fifo.takeOut, ← h]
  rw [← hcf]
  exact @contents_writeOut _ _ before x

theorem writeBack_inv (h : Inv m A L) {pl : Fin (2 ^ 5)} (hne : (m.queues i).devId ≠ 0)
    (hpl : (m.queues i).fifo.out = Lib.Ring.place 5 (pl.val + 1)) (x : Slot) :
    Inv (m.writeBack i pl x) A L :=
  h.drop hne rfl (by rw [contents_writeBack hpl])

theorem waiting_writeBack {pl : Fin (2 ^ 5)}
    (hpl : (m.queues i).fifo.out = Lib.Ring.place 5 (pl.val + 1)) (x : Slot) :
    waiting (m.writeBack i pl x) = waiting m := by
  have hw := waiting_setQueue m i { m.queues i with
    fifo := { (m.queues i).fifo with data := Function.update (m.queues i).fifo.data pl x } }
  rw [contents_writeBack hpl] at hw
  exact Nat.add_right_cancel hw

/-- **A mix**: its parts are the oldest packets, and fewer packets wait. -/
theorem getMixAudio_inv (h : Inv m A L) :
    (m.getMixAudio.1 = none ∧ Inv m.getMixAudio.2 A L) ∨
    ∃ p, m.getMixAudio.1 = some p ∧ Inv m.getMixAudio.2 A (L ++ p.parts) ∧
      waiting m.getMixAudio.2 < waiting m := by
  unfold Mixer.getMixAudio
  split_ifs with h0 hst
  · exact .inl ⟨rfl, h⟩
  · exact .inl ⟨rfl, h.of_queues rfl⟩
  · have hstart : Taking A L (waiting m) (List.finRange 8) ([], m) :=
      ⟨by simpa using h, fun j _ hj he => hst ⟨j, hj, he⟩,
        fun _ ht => absurd ht List.not_mem_nil, le_rfl⟩
    have hend := foldl_taking hstart (List.nodup_finRange 8)
    have hwait := hend.wait
    have hinv := hend.inv
    simp only
    split
    · next hr =>
      rw [hr, List.map_nil, List.append_nil] at hinv
      exact .inl ⟨rfl, hinv⟩
    · next t hr =>
      rw [hr] at hinv hwait
      exact .inr ⟨_, rfl, hinv, by simpa using hwait⟩
    · next t ts _ hr =>
      have hleft := (hend.left t (by rw [hr]; exact List.mem_cons_self)).2
      rw [hr] at hinv hwait
      refine .inr ⟨_, rfl, writeBack_inv hinv hleft.1 hleft.2 _, ?_⟩
      rw [waiting_writeBack hleft.2]
      rw [List.length_cons] at hwait
      omega

theorem waiting_lt (m : Mixer) : waiting m < Mixer.drainFuel := by
  have hle : waiting m ≤ ∑ _i : Fin 8, 31 := Finset.sum_le_sum fun i _ => by
    rw [length_contents]
    exact Nat.le_of_lt_succ len_lt
  simp only [Finset.sum_const, Finset.card_univ, Fintype.card_fin, smul_eq_mul] at hle
  exact hle.trans_lt (by decide)

/-- **The queues are drained,** and what is mixed was accepted in this order. -/
theorem drain_inv {fuel : ℕ} {l : List Mixer.Mixed} (hfuel : waiting m < fuel)
    (h : Inv m A (L ++ (l.map Mixer.Mixed.parts).flatten)) :
    ∃ r, m.drain fuel l = some r ∧ Inv r.2 A (L ++ (r.1.map Mixer.Mixed.parts).flatten) := by
  induction fuel generalizing m l with
  | zero => exact absurd hfuel (Nat.not_lt_zero _)
  | succ fuel ih =>
    have hcases := getMixAudio_inv h
    unfold Mixer.drain
    match hg : m.getMixAudio with
    | (none, m') =>
      rw [hg] at hcases
      rcases hcases with ⟨-, hinv⟩ | ⟨p, hp, -⟩
      · exact ⟨_, rfl, hinv⟩
      · exact nomatch hp
    | (some p, m') =>
      rw [hg] at hcases
      rcases hcases with ⟨hp, -⟩ | ⟨p', hp, hinv, hlt⟩
      · exact nomatch hp
      · obtain rfl := Option.some.inj hp
        refine ih (by simp only at hlt; omega) ?_
        rw [List.map_append, List.flatten_append, ← List.append_assoc]
        simpa using hinv

/-! ## Runs -/

/-- A packet that passes the tests finds no older one of its device where it is played at once. -/
def Fits (s : Player) : Event → Prop
  | .audio p => s.Wanted p → Passes (s.mixer.getQueueIndex (⟨s.arrived, p⟩ : Slot).dev true) p
  | _ => True

instance (s : Player) : ∀ e, Decidable (Fits s e)
  | .audio p => inferInstanceAs (Decidable (s.Wanted p →
      Passes (s.mixer.getQueueIndex (⟨s.arrived, p⟩ : Slot).dev true) p))
  | .micOp _ => .isTrue trivial
  | .tune _ _ => .isTrue trivial
  | .autoClose _ => .isTrue trivial

/-- The accepted packets are numbered in order, and the queues keep the order. -/
structure PlayerInv (s : Player) : Prop where
  nodup : (s.accepted.map Slot.no).Nodup
  lt : ∀ p ∈ s.accepted, p.no < s.arrived
  inv : Inv s.mixer s.accepted s.output.flatten

theorem PlayerInv.inOrder {s : Player} (h : PlayerInv s) : InOrder s := ⟨h.nodup, h.inv.played⟩

/-- A new number is none of the old ones. -/
theorem nodup_accept {l : List Slot} {n : ℕ} (hnodup : (l.map Slot.no).Nodup)
    (hlt : ∀ p ∈ l, p.no < n) (p : PackData) :
    ((l ++ [(⟨n, p⟩ : Slot)]).map Slot.no).Nodup ∧ ∀ q ∈ l ++ [(⟨n, p⟩ : Slot)], q.no < n + 1 := by
  constructor
  · rw [List.map_append, List.map_singleton, List.nodup_append]
    refine ⟨hnodup, List.nodup_singleton _, fun a ha b hb => ?_⟩
    obtain ⟨q, hq, rfl⟩ := List.mem_map.mp ha
    rw [List.mem_singleton.mp hb]
    exact (hlt q hq).ne
  · intro q hq
    rcases List.mem_append.mp hq with hq | hq
    · exact (hlt q hq).trans (Nat.lt_succ_self n)
    · rw [List.mem_singleton.mp hq]
      exact Nat.lt_succ_self n

theorem audioRecved_inv {s : Player} (h : PlayerInv s) {p : PackData} (hfit : Fits s (.audio p)) :
    ∃ s', audioRecved s p = some s' ∧ PlayerInv s' := by
  have hold : ∀ q ∈ s.accepted, q.no < s.arrived + 1 := fun q hq =>
    (h.lt q hq).trans (Nat.lt_succ_self _)
  obtain ⟨hnodup, hlt⟩ := nodup_accept h.nodup h.lt p
  unfold audioRecved
  split_ifs with hw
  · obtain ⟨r, hr, hput⟩ := putMixAudio_inv h.inv (p := ⟨s.arrived, p⟩) (hfit hw)
    unfold mixRecved
    simp only [hr, Option.bind_some]
    rcases hput with ⟨hneg, hinv⟩ | ⟨h0, hinv⟩ | ⟨h1, hinv⟩
    · rw [if_pos hneg]
      exact ⟨_, rfl, h.nodup, hold, hinv⟩
    · rw [if_neg (by omega), if_pos h0]
      refine ⟨_, rfl, hnodup, hlt, ?_⟩
      simpa using hinv
    · rw [if_neg (by omega), if_neg (by omega)]
      obtain ⟨l, hl, hdrain⟩ := drain_inv (l := []) (waiting_lt r.2) (by simpa using hinv)
      refine ⟨_, by rw [hl]; rfl, hnodup, hlt, ?_⟩
      simpa using hdrain
  · exact ⟨_, rfl, h.nodup, hold, h.inv⟩

theorem step_inv (s : Player) (e : Event) (h : PlayerInv s) (hfit : Fits s e) :
    ∃ s', step s e = some s' ∧ PlayerInv s' := by
  cases e with
  | audio p => exact audioRecved_inv h hfit
  | micOp p =>
    refine ⟨_, rfl, ?_⟩
    unfold audioMicOp
    split_ifs
    · exact ⟨h.nodup, h.lt, mixAudioClose_inv h.inv _⟩
    · exact h
  | tune subscription replicate => exact ⟨_, rfl, h.nodup, h.lt, h.inv⟩
  | autoClose maxPacks => exact ⟨_, rfl, h.nodup, h.lt, h.inv.of_queues rfl⟩

/-- **The order of playback** is kept along every run in which no packet is played while an older one
of its device waits. -/
theorem inOrder_of_fits (z : Slot) {es : List Event} (h : Guarded step Fits (init z) es) :
    Always step InOrder (init z) es :=
  always_of_guarded (I := PlayerInv) (E := fun _ => True) (fun _ hI => hI.inOrder)
    (fun s e hI _ hg => step_inv s e hI hg)
    ⟨List.nodup_nil, fun _ hp => absurd hp List.not_mem_nil, inv_init z⟩ (fun _ _ => trivial) h

/-- A packet of a device for tag 1, without samples. -/
def packet (dev seq : ℕ) : PackData :=
  ⟨BitVec.ofNat 32 dev, BitVec.ofNat 32 seq, PackType.audio.val, 1, 0, []⟩

/-- What is in the memory of the queues at first. -/
def blank : Slot := ⟨0, packet 0 0⟩

/-- Two devices speak in turn, and then both at once. -/
def twoDevices : List Event :=
  [.tune (1, 0) (0, 0), .audio (packet 1 1), .audio (packet 2 1), .audio (packet 1 2)]

theorem inOrder_twoDevices :
    Guarded step Fits (init blank) twoDevices ∧ Always step InOrder (init blank) twoDevices :=
  have h : Guarded step Fits (init blank) twoDevices := by decide +kernel
  ⟨h, inOrder_of_fits blank h⟩

/-- Device 2 closes its microphone while a packet of device 1 waits for it; the next packet of
device 1 is played at once, and the one that waits is mixed when device 3 speaks. -/
def leftBehind : List Event :=
  [.tune (1, 0) (0, 0), .audio (packet 1 1), .audio (packet 2 1), .audio (packet 1 2),
    .audio (packet 1 3), .micOp (packet 2 0), .audio (packet 1 4), .audio (packet 3 5)]

theorem inOrder_fails : ¬ Always step InOrder (init blank) leftBehind := by
  intro h
  have hrun : (run step (init blank) leftBehind).map
      (fun s => (stream s.output.flatten 1, stream s.accepted 1)) =
      some ([0, 2, 4, 3], [0, 2, 3, 4]) := by decide +kernel
  obtain ⟨t, hP, hobs⟩ := h.observed hrun
  rw [Prod.mk.injEq] at hobs
  have hsub := hP.order 1
  rw [hobs.1, hobs.2] at hsub
  exact absurd hsub (by decide)

end GSConferencing.Client.MixOrder
