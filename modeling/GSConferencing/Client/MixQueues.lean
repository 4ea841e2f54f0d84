import GSConferencing.Client.MixOrder
import GSConferencing.Lib.Slots

/-!
# The table of queues

The mixer of the client under any calls: packets are put and got, queues are opened and closed, and
the limit of `mix_audio_auto_close` changes.  `dev_count` is kept by hand next to the table, and
`cleanup_queues` removes queues in the middle of a call.

* `getMixAudio_some_iff`: when there is a mix.
* `getMixAudio_takes`: what leaves the queues then.
* `queuesOk_along`: the table along a run; packets that wait are never written over.
-/

namespace GSConferencing.Client.MixQueues

open GSConferencing.Include.Pack GSConferencing.Include.Cfifo GSConferencing.Client.Recent
open GSConferencing.Client.Mix GSConferencing.Client.Mix.Mixer
open GSConferencing.Lib.Run GSConferencing.Lib.Slots

/-! ## The calls -/

/-- What is called next. -/
inductive Event where
  | put (p : Slot)
  | get
  | openDev (d : ℤ)
  | closeDev (d : ℤ)
  | autoClose (maxPacks : ℤ)

def step (m : Mixer) : Event → Option Mixer
  | .put p => (m.putMixAudio p).map Prod.snd
  | .get => some m.getMixAudio.2
  | .openDev d => some (m.mixAudioOpen d)
  | .closeDev d => some (m.mixAudioClose d)
  | .autoClose maxPacks => some (m.mixAudioAutoClose maxPacks)

/-- The devices of the queues; 0 for a queue that is not in use. -/
def ids (m : Mixer) : Fin 8 → ℤ := fun i => (m.queues i).devId

/-- The packets that wait in a queue. -/
def waits (m : Mixer) (i : Fin 8) : List Slot := (m.queues i).fifo.contents

/-- The number of queues in use is right, no device has two, and no packet waits without one. -/
structure Inv (m : Mixer) : Prop where
  count : m.devCount = occupied (· ≠ 0) (ids m)
  apart : Apart (· ≠ 0) (ids m)
  free : ∀ i, ids m i = 0 → waits m i = []

theorem inv_init (z : Slot) : Inv (Mixer.init z) where
  count := by
    rw [occupied_eq_zero.mpr fun i h => h rfl]
    rfl
  apart _ _ h := absurd rfl h
  free _ _ := contents_new z

section Table
variable {m : Mixer} {i : Fin 8} {q : PackQueue}

theorem ids_setQueue (m : Mixer) (i : Fin 8) (q : PackQueue) :
    ids (m.setQueue i q) = Function.update (ids m) i q.devId :=
  Function.comp_update PackQueue.devId m.queues i q

theorem waits_setQueue (m : Mixer) (i : Fin 8) (q : PackQueue) :
    waits (m.setQueue i q) = Function.update (waits m) i q.fifo.contents :=
  Function.comp_update (fun q : PackQueue => q.fifo.contents) m.queues i q

/-- A queue in use changes, and stays with its device. -/
theorem Inv.setQueue (h : Inv m) (hid : q.devId = ids m i)
    (hq : ids m i = 0 → q.fifo.contents = []) : Inv (m.setQueue i q) := by
  have hids : ids (m.setQueue i q) = ids m := by rw [ids_setQueue, hid, Function.update_eq_self]
  refine ⟨by rw [hids]; exact h.count, by rw [hids]; exact h.apart, fun j hj => ?_⟩
  rw [hids] at hj
  rw [waits_setQueue]
  by_cases hji : j = i
  · subst hji
    rw [Function.update_self]
    exact hq hj
  · rw [Function.update_of_ne hji]
    exact h.free j hj

/-- A device that has no queue gets a free one. -/
theorem Inv.take (h : Inv m) (hi : ids m i = 0) {d : ℤ} (hd : d ≠ 0) (hnew : ∀ j, ids m j ≠ d) :
    Inv { m.setQueue i { m.queues i with devId := d } with devCount := m.devCount + 1 } := by
  have hids : ids (m.setQueue i { m.queues i with devId := d }) = Function.update (ids m) i d :=
    ids_setQueue ..
  refine ⟨?_, ?_, fun j hj => ?_⟩
  · show m.devCount + 1 = (occupied (· ≠ 0) (ids (m.setQueue i _)) : ℕ)
    rw [hids, occupied_take (p := (· ≠ (0 : ℤ))) (f := ids m) (not_not.mpr hi) hd, h.count]
    push_cast
    rfl
  · show Apart (· ≠ 0) (ids (m.setQueue i _))
    rw [hids]
    exact h.apart.take hnew
  · change ids (m.setQueue i _) j = 0 at hj
    show waits (m.setQueue i _) j = []
    rw [hids] at hj
    rw [waits_setQueue]
    by_cases hji : j = i
    · rw [hji, Function.update_self] at hj
      exact absurd hj hd
    · rw [Function.update_of_ne hji] at hj ⊢
      exact h.free j hj

/-- A queue in use is given back. -/
theorem Inv.removeQueue (h : Inv m) (hi : ids m i ≠ 0) : Inv (m.removeQueue i) := by
  have hids : ids (m.removeQueue i) = Function.update (ids m) i 0 := ids_setQueue ..
  refine ⟨?_, ?_, fun j hj => ?_⟩
  · have hrel := occupied_release (p := (· ≠ (0 : ℤ))) (f := ids m) hi (not_not.mpr rfl)
    rw [hids]
    show m.devCount - 1 = _
    rw [h.count, ← hrel]
    push_cast
    exact add_sub_cancel_right _ _
  · refine h.apart.cleared fun j => ?_
    rw [hids]
    by_cases hji : j = i
    · exact .inr (not_not.mpr (by rw [hji, Function.update_self]))
    · exact .inl (Function.update_of_ne hji ..)
  · rw [hids] at hj
    show waits (m.setQueue i _) j = []
    rw [waits_setQueue]
    by_cases hji : j = i
    · rw [hji, Function.update_self]
      exact contents_clear
    · rw [Function.update_of_ne hji] at hj ⊢
      exact h.free j hj

/-! ## Opening, closing, cleaning up -/

/-- The queue that a device has or gets. -/
theorem getQueueIndex_spec (h : Inv m) (d : ℤ) :
    Inv (m.getQueueIndex d true).2 ∧ waits (m.getQueueIndex d true).2 = waits m ∧
      ∀ i, (m.getQueueIndex d true).1 = some i →
        ids (m.getQueueIndex d true).2 i = d ∧ d ≠ 0 := by
  rcases getQueueIndex_cases m d with ⟨h1, h2⟩ | ⟨i, hd, he, hid⟩ | ⟨i, hd, hnew, hfree, he⟩
  · rw [h1, h2]
    exact ⟨h, rfl, nofun⟩
  · rw [he]
    refine ⟨h, rfl, fun j hj => ?_⟩
    cases hj
    exact ⟨hid, hd⟩
  · rw [he]
    refine ⟨h.take hfree hd hnew, ?_, fun j hj => ?_⟩
    · show waits (m.setQueue i _) = _
      rw [waits_setQueue]
      exact Function.update_eq_self i (waits m)
    · cases hj
      show ids (m.setQueue i _) i = d ∧ d ≠ 0
      rw [ids_setQueue, Function.update_self]
      exact ⟨rfl, hd⟩

theorem waits_removeQueue (m : Mixer) (i : Fin 8) :
    waits (m.removeQueue i) = Function.update (waits m) i [] := by
  show waits (m.setQueue i _) = _
  rw [waits_setQueue, contents_clear]

/-- The queue of a device is searched and given back. -/
theorem mixAudioClose_spec (h : Inv m) (d : ℤ) :
    Inv (m.mixAudioClose d) ∧
      ∀ i, waits (m.mixAudioClose d) i = waits m i ∨ waits (m.mixAudioClose d) i = [] := by
  unfold Mixer.mixAudioClose
  rw [getQueueIndex_find]
  by_cases h0 : d = 0
  · rw [if_pos h0]
    exact ⟨h, fun _ => .inl rfl⟩
  · rw [if_neg h0]
    cases hf : m.findDev d with
    | none => exact ⟨h, fun _ => .inl rfl⟩
    | some i =>
      have hi : ids m i ≠ 0 := by
        rw [ids, devId_of_findDev hf]
        exact h0
      refine ⟨h.removeQueue hi, fun j => ?_⟩
      simp only [waits_removeQueue]
      by_cases hji : j = i
      · exact .inr (by rw [hji, Function.update_self])
      · exact .inl (Function.update_of_ne hji ..)

/-- One turn of `cleanup_queues`. -/
theorem cleanupQueue_spec (h : Inv m) (i : Fin 8) :
    Inv (m.cleanupQueue i) ∧ waits (m.cleanupQueue i) = Function.update (waits m) i [] := by
  unfold Mixer.cleanupQueue
  split_ifs with h0 hempty
  · refine ⟨h, ?_⟩
    rw [← h.free i h0, Function.update_eq_self]
  · exact ⟨h.removeQueue h0, waits_removeQueue m i⟩
  · refine ⟨h.setQueue rfl fun _ => contents_clear, ?_⟩
    rw [waits_setQueue, contents_clear]

/-- **The cleanup** leaves no packet in any queue. -/
theorem cleanupQueues_spec (h : Inv m) :
    Inv m.cleanupQueues ∧ ∀ i, waits m.cleanupQueues i = [] := by
  have hloop : ∀ (l : List (Fin 8)) (m : Mixer), Inv m → Inv (l.foldl Mixer.cleanupQueue m) ∧
      ∀ i, waits (l.foldl Mixer.cleanupQueue m) i = if i ∈ l then [] else waits m i := by
    intro l
    induction l with
    | nil => exact fun m h => ⟨h, fun i => (if_neg List.not_mem_nil).symm⟩
    | cons j l ih =>
      intro m h
      obtain ⟨hI, hw⟩ := cleanupQueue_spec h j
      obtain ⟨hI', hw'⟩ := ih _ hI
      refine ⟨hI', fun i => ?_⟩
      rw [List.foldl_cons, hw' i, hw]
      by_cases hij : i = j
      · subst hij
        simp
      · simp [hij]
  obtain ⟨hI, hw⟩ := hloop (List.finRange 8) m h
  exact ⟨hI, fun i => (hw i).trans (if_pos (List.mem_finRange i))⟩

/-! ## Putting -/

/-- **A call keeps what waits:** of a queue the oldest packets are taken out, or the packet that is
put waits behind the others. -/
def Keeps (m : Mixer) (e : Event) (m' : Mixer) : Prop :=
  ∀ i, (∃ n, waits m' i = (waits m i).drop n) ∨
    ∃ p z : Slot, e = .put p ∧ (waits m i).length < 31 ∧ waits m' i = waits m i ++ [z.store p]

theorem keeps_of_waits {m' : Mixer} (e : Event)
    (h : ∀ i, waits m' i = waits m i ∨ waits m' i = []) : Keeps m e m' := fun i =>
  (h i).elim (fun h => .inl ⟨0, h⟩) fun h => .inl ⟨(waits m i).length, by rw [h, List.drop_length]⟩

theorem Inv.congr {m' : Mixer} (h : Inv m) (hq : m'.queues = m.queues)
    (hc : m'.devCount = m.devCount) : Inv m' := by
  have hids : ids m' = ids m := by
    unfold ids
    rw [hq]
  refine ⟨by rw [hids, hc]; exact h.count, hids ▸ h.apart, fun i hi => ?_⟩
  rw [waits, hq]
  exact h.free i (hids ▸ hi)

theorem queueMixAudio_spec (h : Inv m) {p : Slot} {r : ℤ × Mixer} (hi : ids m i ≠ 0)
    (hs : m.queueMixAudio i p = some r) : Inv r.2 ∧ Keeps m (.put p) r.2 := by
  unfold Mixer.queueMixAudio at hs
  split_ifs at hs with hone hfull hlong
  · cases hs
    exact ⟨h, keeps_of_waits _ fun _ => .inl rfl⟩
  · cases hs
    obtain ⟨hI, hw⟩ := cleanupQueues_spec h
    exact ⟨hI, keeps_of_waits _ fun i => .inr (hw i)⟩
  · have hput : Inv (m.putIn i p) := h.setQueue rfl fun h0 => absurd h0 hi
    simp only at hs
    split_ifs at hs
    · cases hs
      obtain ⟨hI, hw⟩ := cleanupQueues_spec hput
      exact ⟨hI.congr rfl rfl, keeps_of_waits _ fun i => .inr (hw i)⟩
    · cases hs
      refine ⟨hput, fun j => ?_⟩
      by_cases hji : j = i
      · subst hji
        have hlen : (waits m j).length < 31 := by
          have hlt : (m.queues j).fifo.len < 2 ^ 5 := len_lt
          rw [full_iff_len] at hfull
          rw [waits, length_contents]
          omega
        refine .inr ⟨p, (m.queues j).fifo.data (m.queues j).fifo.inn, rfl, hlen, ?_⟩
        show waits (m.putIn j p) j = _
        rw [Mixer.putIn, waits_setQueue, Function.update_self]
        exact contents_put hfull _
      · refine .inl ⟨0, ?_⟩
        show waits (m.putIn i p) j = _
        rw [Mixer.putIn, waits_setQueue, Function.update_of_ne hji]
        rfl

/-- **`put_mix_audio`.** -/
theorem putMixAudio_spec (h : Inv m) {p : Slot} {r : ℤ × Mixer}
    (hs : m.putMixAudio p = some r) : Inv r.2 ∧ Keeps m (.put p) r.2 := by
  obtain ⟨hI, hw, hown⟩ := getQueueIndex_spec h p.dev
  unfold Mixer.putMixAudio at hs
  split at hs
  · next m' he =>
    rw [he] at hI hw
    cases hs
    exact ⟨hI, keeps_of_waits _ fun i => .inl (congrFun hw i)⟩
  · next i m' he =>
    rw [he] at hI hw hown
    have hi : ids m' i ≠ 0 := by
      rw [(hown i rfl).1]
      exact (hown i rfl).2
    split at hs
    · cases hs
      exact ⟨hI, keeps_of_waits _ fun i => .inl (congrFun hw i)⟩
    · next r' _ =>
      have hmark := hI.setQueue (i := i) (q := { m'.queues i with recent := r' }) rfl (hI.free i)
      have hids : ids (m'.setQueue i { m'.queues i with recent := r' }) i ≠ 0 := by
        rw [ids_setQueue, Function.update_self]
        exact hi
      obtain ⟨hI', hk⟩ := queueMixAudio_spec hmark hids hs
      refine ⟨hI', fun j => ?_⟩
      have hsame : waits (m'.setQueue i { m'.queues i with recent := r' }) = waits m := by
        rw [waits_setQueue, ← hw]
        exact Function.update_eq_self i (waits m')
      have := hk j
      rwa [hsame] at this

end Table

/-! ## Getting -/

/-- What is taken from the queue `i`. -/
def taken (m : Mixer) (i : Fin 8) : Taken := ⟨i, (m.outFifo i).out, (m.outFifo i).getOut⟩

/-- The queues in use, in their order. -/
def actives (m : Mixer) : List (Fin 8) := (List.finRange 8).filter fun i => ids m i ≠ 0

/-- The mixer, once a packet has been taken from each queue of `l` in use. -/
def takenOut (m : Mixer) (l : List (Fin 8)) : Mixer :=
  { m with queues := fun i =>
      if i ∈ l ∧ ids m i ≠ 0 then { m.queues i with fifo := (m.outFifo i).takeOut }
      else m.queues i }

section Get
variable {m : Mixer} {i : Fin 8}

theorem outFifo_congr {m' : Mixer} (hq : m'.queues i = m.queues i) (hf : m'.fastFwd = m.fastFwd) :
    m'.outFifo i = m.outFifo i := by
  unfold Mixer.outFifo
  rw [hq, hf]

/-- **The loop of `get_mix_audio`** takes one packet from each queue in use. -/
theorem foldl_takeQueue {l : List (Fin 8)} (hl : l.Nodup) (m : Mixer) (ts : List Taken) :
    l.foldl takeQueue (ts, m) =
      (ts ++ (l.filter fun i => ids m i ≠ 0).map (taken m), takenOut m l) := by
  induction l generalizing m ts with
  | nil =>
    rw [List.foldl_nil, List.filter_nil, List.map_nil, List.append_nil]
    simp [takenOut]
  | cons i l ih =>
    obtain ⟨hi, hl⟩ := List.nodup_cons.mp hl
    rw [List.foldl_cons]
    by_cases h0 : ids m i = 0
    · have hskip : takeQueue (ts, m) i = (ts, m) := if_pos h0
      have hout : takenOut m l = takenOut m (i :: l) := by
        refine congrArg (fun q => { m with queues := q }) (funext fun j => ?_)
        refine if_congr ?_ rfl rfl
        rw [List.mem_cons]
        refine and_congr_left fun hj => ⟨.inr, fun h => h.resolve_left ?_⟩
        rintro rfl
        exact hj h0
      rw [hskip, ih hl, List.filter_cons_of_neg (by simpa using h0), hout]
    · set m₁ := m.setQueue i { m.queues i with fifo := (m.outFifo i).takeOut } with hm₁
      have htake : takeQueue (ts, m) i = (ts ++ [taken m i], m₁) := if_neg h0
      have hids : ids m₁ = ids m := by
        rw [hm₁, ids_setQueue]
        exact Function.update_eq_self i (ids m)
      have hne : ∀ j, j ≠ i → m₁.queues j = m.queues j := fun j hj => Function.update_of_ne hj ..
      have htaken : (l.filter fun j => ids m j ≠ 0).map (taken m₁) =
          (l.filter fun j => ids m j ≠ 0).map (taken m) := by
        refine List.map_congr_left fun j hj => ?_
        have hji : j ≠ i := fun e => hi (e ▸ (List.mem_filter.mp hj).1)
        rw [taken, taken, outFifo_congr (hne j hji) rfl]
      have hout : takenOut m₁ l = takenOut m (i :: l) := by
        refine congrArg (fun q => { m with queues := q }) (funext fun j => ?_)
        rw [hids]
        by_cases hji : j = i
        · subst hji
          rw [if_neg fun h => hi h.1, if_pos ⟨List.mem_cons_self, h0⟩]
          exact Function.update_self ..
        · rw [hne j hji, outFifo_congr (hne j hji) rfl]
          refine if_congr (and_congr_left fun _ => ?_) rfl rfl
          rw [List.mem_cons, or_iff_right hji]
      rw [htake, ih hl, hids, htaken, hout, List.filter_cons_of_pos (by simpa using h0),
        List.map_cons, List.append_assoc, List.singleton_append]

theorem ids_takenOut (m : Mixer) (l : List (Fin 8)) : ids (takenOut m l) = ids m := by
  funext j
  unfold ids takenOut
  simp only []
  split_ifs <;> rfl

/-- The queues after a mix: at least one packet has left each queue in use. -/
structure Took (m m' : Mixer) : Prop where
  devCount : m'.devCount = m.devCount
  ids : ids m' = ids m
  used : ∀ i, MixQueues.ids m i ≠ 0 →
    ∃ n, 0 < n ∧ n ≤ (waits m i).length ∧ waits m' i = (waits m i).drop n
  unused : ∀ i, MixQueues.ids m i = 0 → m'.queues i = m.queues i

theorem Took.inv {m' : Mixer} (h : Inv m) (ht : Took m m') : Inv m' where
  count := by rw [ht.devCount, ht.ids]; exact h.count
  apart := ht.ids.symm ▸ h.apart
  free i hi := by
    rw [ht.ids] at hi
    rw [waits, ht.unused i hi]
    exact h.free i hi

theorem outFifo_drop (m : Mixer) (i : Fin 8) :
    ∃ n, (m.outFifo i).contents = (waits m i).drop n := by
  unfold Mixer.outFifo
  split_ifs
  · exact ⟨_, contents_flushQueue⟩
  · exact ⟨0, rfl⟩

theorem queues_takenOut (m : Mixer) (i : Fin 8) (h : ids m i ≠ 0) :
    (takenOut m (List.finRange 8)).queues i =
      { m.queues i with fifo := (m.outFifo i).takeOut } :=
  if_pos ⟨List.mem_finRange i, h⟩

theorem took_takenOut (hst : ¬ m.Starved) : Took m (takenOut m (List.finRange 8)) where
  devCount := rfl
  ids := ids_takenOut m _
  used i hi := by
    have hne : ¬ (m.queues i).fifo.empty := fun he => hst ⟨i, hi, he⟩
    have hcons := contents_out (outFifo_not_empty hne)
    obtain ⟨n, hn⟩ := outFifo_drop m i
    have hlen : n < (waits m i).length := by
      have := congrArg List.length (hn.symm.trans hcons)
      rw [List.length_drop, List.length_cons] at this
      omega
    refine ⟨n + 1, Nat.succ_pos n, hlen, ?_⟩
    rw [waits, queues_takenOut m i hi, ← List.drop_drop, ← hn, hcons]
    rfl
  unused i hi := if_neg fun h => h.2 hi

/-- The mix is written to a place that has just been taken out. -/
theorem took_writeBack (hst : ¬ m.Starved) (hi : ids m i ≠ 0) (x : Slot) :
    Took m ((takenOut m (List.finRange 8)).writeBack i (m.outFifo i).out x) := by
  have ht := took_takenOut hst
  have hout : ((takenOut m (List.finRange 8)).queues i).fifo.out =
      Lib.Ring.place 5 ((m.outFifo i).out.val + 1) := by
    rw [queues_takenOut m i hi]
    rfl
  have hids : ids ((takenOut m (List.finRange 8)).writeBack i (m.outFifo i).out x) = ids m := by
    rw [Mixer.writeBack, ids_setQueue]
    exact (Function.update_eq_self i (ids (takenOut m (List.finRange 8)))).trans ht.ids
  refine ⟨rfl, hids, fun j hj => ?_, fun j hj => ?_⟩
  · obtain ⟨n, hpos, hle, hw⟩ := ht.used j hj
    refine ⟨n, hpos, hle, ?_⟩
    rw [Mixer.writeBack, waits_setQueue, ← hw]
    by_cases hji : j = i
    · subst hji
      rw [Function.update_self]
      exact MixOrder.contents_writeBack hout x
    · rw [Function.update_of_ne hji]
  · have hji : j ≠ i := fun e => hi (e ▸ hj)
    exact (Function.update_of_ne hji ..).trans (ht.unused j hj)

/-- A packet of each queue in use is taken. -/
theorem getMixAudio_eq (h0 : m.devCount ≠ 0) (hst : ¬ m.Starved) :
    m.getMixAudio = match (actives m).map (taken m) with
      | [] => (none, takenOut m (List.finRange 8))
      | [t] => (some ⟨t.slot, [t.slot]⟩, takenOut m (List.finRange 8))
      | t :: ts =>
        let p : Slot := { t.slot with pack := { t.slot.pack with
          data := pcmMix ((t :: ts).map fun t => t.slot.pack.data)
            (t.slot.pack.datalen.toNat / 2) } }
        (some ⟨p, (t :: ts).map Taken.slot⟩,
          (takenOut m (List.finRange 8)).writeBack t.queue t.place p) := by
  unfold Mixer.getMixAudio
  rw [if_neg h0, if_neg hst, foldl_takeQueue (List.nodup_finRange 8), List.nil_append]
  rfl

theorem mem_actives {i : Fin 8} : i ∈ actives m ↔ ids m i ≠ 0 := by
  simp [actives]

theorem actives_ne_nil (h : Inv m) (h0 : m.devCount ≠ 0) : actives m ≠ [] := by
  have hpos : 0 < occupied (· ≠ 0) (ids m) := by
    have := h.count
    omega
  obtain ⟨i, hi⟩ := occupied_pos.mp hpos
  exact List.ne_nil_of_mem (mem_actives.mpr hi)

/-- **`get_mix_audio`**: there is no mix, and no queue changes; or no queue in use is empty, and a
packet has left each. -/
theorem getMixAudio_cases (h : Inv m) :
    (m.getMixAudio.1 = none ∧ (m.devCount = 0 ∨ m.Starved) ∧
      m.getMixAudio.2.queues = m.queues ∧ m.getMixAudio.2.devCount = m.devCount) ∨
    ((∃ x, m.getMixAudio.1 = some x) ∧ m.devCount ≠ 0 ∧ ¬ m.Starved ∧ Took m m.getMixAudio.2) := by
  by_cases h0 : m.devCount = 0
  · unfold Mixer.getMixAudio
    rw [if_pos h0]
    exact .inl ⟨rfl, .inl h0, rfl, rfl⟩
  by_cases hst : m.Starved
  · unfold Mixer.getMixAudio
    rw [if_neg h0, if_pos hst]
    exact .inl ⟨rfl, .inr hst, rfl, rfl⟩
  rw [getMixAudio_eq h0 hst]
  refine .inr ?_
  match ha : actives m with
  | [] => exact absurd ha (actives_ne_nil h h0)
  | [i] => exact ⟨⟨_, rfl⟩, h0, hst, took_takenOut hst⟩
  | i :: j :: js =>
    have hi : ids m i ≠ 0 := mem_actives.mp (ha ▸ List.mem_cons_self)
    exact ⟨⟨_, rfl⟩, h0, hst, took_writeBack hst hi _⟩

end Get

/-! ## Runs -/

/-- `get_mix_audio` returns a mix when a queue is in use and none that is in use is empty; then it
takes a packet from each of these, and nothing else. -/
structure GetOk (m : Mixer) : Prop where
  some_iff : m.getMixAudio.1.isSome ↔
    0 < m.devCount ∧ ∀ i, ids m i ≠ 0 → ¬ (m.queues i).fifo.empty
  takes : m.getMixAudio.1.isSome → Took m m.getMixAudio.2
  waits : m.getMixAudio.1 = none → m.getMixAudio.2.queues = m.queues

/-- **The table of queues is right.** -/
structure QueuesOk (m : Mixer) : Prop where
  count : m.devCount = occupied (· ≠ 0) (ids m)
  range : 0 ≤ m.devCount ∧ m.devCount ≤ 8
  apart : Apart (· ≠ 0) (ids m)
  free : ∀ i, ids m i = 0 → (m.queues i).fifo.empty
  room : ∀ i, (waits m i).length ≤ 31
  get : GetOk m
  keeps : ∀ e m', step m e = some m' → Keeps m e m'

section Runs
variable {m m' : Mixer} {e : Event}

theorem getOk_of_inv (h : Inv m) : GetOk m := by
  have hpos : 0 < m.devCount ↔ m.devCount ≠ 0 := by
    have := h.count
    omega
  have hst : (∀ i, ids m i ≠ 0 → ¬ (m.queues i).fifo.empty) ↔ ¬ m.Starved := by
    rw [Mixer.Starved, not_exists]
    exact forall_congr' fun i => not_and.symm
  rcases getMixAudio_cases h with ⟨hnone, hwhy, hq, -⟩ | ⟨⟨x, hx⟩, h0, hns, htook⟩
  · refine ⟨?_, fun hs => ?_, fun _ => hq⟩
    · rw [hnone, hst, hpos]
      refine iff_of_false Bool.false_ne_true fun hn => ?_
      exact hwhy.elim hn.1 hn.2
    · rw [hnone] at hs
      cases hs
  · refine ⟨?_, fun _ => htook, fun hn => ?_⟩
    · rw [hx, hst, hpos]
      exact iff_of_true rfl ⟨h0, hns⟩
    · rw [hx] at hn
      cases hn

/-- **One call.** -/
theorem step_spec (h : Inv m) (hs : step m e = some m') : Inv m' ∧ Keeps m e m' := by
  cases e with
  | put p =>
    obtain ⟨r, hr, rfl⟩ := Option.map_eq_some_iff.mp hs
    exact putMixAudio_spec h hr
  | get =>
    cases hs
    rcases getMixAudio_cases h with ⟨-, -, hq, hc⟩ | ⟨-, -, -, htook⟩
    · refine ⟨h.congr hq hc, keeps_of_waits _ fun i => .inl ?_⟩
      rw [waits, hq]
      rfl
    · refine ⟨htook.inv h, fun i => .inl ?_⟩
      by_cases hi : ids m i = 0
      · refine ⟨0, ?_⟩
        rw [waits, htook.unused i hi]
        rfl
      · obtain ⟨n, -, -, hw⟩ := htook.used i hi
        exact ⟨n, hw⟩
  | openDev d =>
    cases hs
    obtain ⟨hI, hw, -⟩ := getQueueIndex_spec h d
    exact ⟨hI, keeps_of_waits _ fun i => .inl (congrFun hw i)⟩
  | closeDev d =>
    cases hs
    obtain ⟨hI, hw⟩ := mixAudioClose_spec h d
    exact ⟨hI, keeps_of_waits _ hw⟩
  | autoClose n =>
    cases hs
    exact ⟨h.congr rfl rfl, keeps_of_waits _ fun _ => .inl rfl⟩

theorem queuesOk_of_inv (h : Inv m) : QueuesOk m where
  count := h.count
  range := by
    have hle : occupied (· ≠ 0) (ids m) ≤ 8 :=
      (occupied_le _ _).trans_eq (Fintype.card_fin 8)
    have := h.count
    omega
  apart := h.apart
  free i hi := empty_iff.mpr (h.free i hi)
  room i := by
    rw [waits, length_contents]
    exact Nat.le_of_lt_succ len_lt
  get := getOk_of_inv h
  keeps _ _ hs := (step_spec h hs).2

/-- The packet fits into a slot. -/
def Fits : Event → Prop
  | .put p => p.pack.size ≤ slotSize
  | _ => True

/-- Only a packet that is longer than a slot has no result. -/
theorem step_total (m : Mixer) (hf : Fits e) : ∃ m', step m e = some m' := by
  cases e with
  | put p =>
    have hq : ∀ (m : Mixer) i, ∃ r, m.queueMixAudio i p = some r := by
      intro m i
      unfold Mixer.queueMixAudio
      split_ifs with _ _ hlong
      · exact ⟨_, rfl⟩
      · exact ⟨_, rfl⟩
      · exact absurd hf (not_le.mpr hlong)
      · simp only
        split_ifs <;> exact ⟨_, rfl⟩
    have hput : ∃ r, m.putMixAudio p = some r := by
      unfold Mixer.putMixAudio
      split
      · exact ⟨_, rfl⟩
      · split
        · exact ⟨_, rfl⟩
        · exact hq _ _
    obtain ⟨r, hr⟩ := hput
    exact ⟨r.2, by rw [step, hr]; rfl⟩
  | _ => exact ⟨_, rfl⟩

/-- **Along every run** the table of queues is right; no run gets stuck whose packets fit into the
slots. A packet longer than its slot of 2048 bytes is put into no queue: that call has no result. -/
theorem queuesOk_along (z : Slot) (es : List Event) :
    Along step QueuesOk (Mixer.init z) es ∧
      ((∀ e ∈ es, Fits e) → Always step QueuesOk (Mixer.init z) es) :=
  ⟨along_of_guarded (I := Inv) (E := fun _ => True) (fun _ => queuesOk_of_inv)
      (fun _ _ _ h _ _ hs => (step_spec h hs).1) (inv_init z) (fun _ _ => trivial)
      (guarded_true _ es),
    fun hf => always_of_guarded (I := Inv) (E := Fits) (fun _ => queuesOk_of_inv)
      (fun m e h hE _ => by
        obtain ⟨m', hm'⟩ := step_total m hE
        exact ⟨m', hm', (step_spec h hm').1⟩)
      (inv_init z) hf (guarded_true _ es)⟩

end Runs

end GSConferencing.Client.MixQueues
