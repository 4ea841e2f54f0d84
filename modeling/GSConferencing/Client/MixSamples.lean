import GSConferencing.Client.MixQueues
import GSConferencing.Client.Pcm

/-!
# What is heard of a mix

A slot of a queue is as long as the longest packet, and `memcpy` leaves what is behind a shorter
one.  `get_mix_audio` mixes as many samples as the first packet has, whatever the others have:
behind the end of a shorter one it mixes what the slot holds from earlier.

* `step_alike`: two mixers whose queues differ in nothing but such rests stay so.
* `heard_determined`: if the first packet is no longer than the others, the mix is the sum of the
  samples that were received.
* `rest_is_heard`: behind a shorter packet an earlier one of the same device is heard again.
-/

namespace GSConferencing.Client.MixSamples

open GSConferencing.Include.Pack GSConferencing.Include.Cfifo GSConferencing.Client.Recent
open GSConferencing.Client.Mix GSConferencing.Client.Mix.Mixer GSConferencing.Client.MixQueues
open GSConferencing.Client.Pcm GSConferencing.Lib.Memory GSConferencing.Lib.Run

/-! ## Packets -/

/-- The head of a packet, and as much of its data as the head says. -/
def seen (p : PackData) : PackData := { p with data := p.data.take p.datalen.toNat }

/-- All data are there. -/
def Whole (p : PackData) : Prop := p.datalen.toNat ≤ p.data.length

instance (p : PackData) : Decidable (Whole p) := inferInstanceAs (Decidable (_ ≤ _))

/-- The number of samples. -/
def samples (p : PackData) : ℕ := p.datalen.toNat / 2

/-- Two packets, in slots or not, that differ at most behind their data. -/
structure Alike (x y : Slot) : Prop where
  no : x.no = y.no
  seen : seen x.pack = seen y.pack
  left : Whole x.pack
  right : Whole y.pack

section Packets
variable {x y z z' : Slot} {p q : PackData} {i : ℕ}

theorem datalen_of_seen (h : seen p = seen q) : p.datalen = q.datalen :=
  (congrArg PackData.datalen h :)

theorem seq_of_seen (h : seen p = seen q) : p.seq = q.seq := (congrArg PackData.seq h :)

theorem size_of_seen (h : seen p = seen q) : p.size = q.size := by
  rw [PackData.size, PackData.size, datalen_of_seen h]

theorem dev_of_seen (h : seen x.pack = seen y.pack) : x.dev = y.dev := by
  rw [Slot.dev, Slot.dev, show x.pack.id = y.pack.id from (congrArg PackData.id h :)]

theorem take_of_seen (h : seen p = seen q) :
    p.data.take p.datalen.toNat = q.data.take p.datalen.toNat := by
  rw [show p.data.take p.datalen.toNat = _ from (congrArg PackData.data h :), datalen_of_seen h]
  rfl

/-- A sample that was received. -/
theorem sample_of_seen (h : seen p = seen q) (hi : i < samples p) :
    sample p.data i = sample q.data i := by
  have hdata := take_of_seen h
  have hget : ∀ j < p.datalen.toNat, p.data[j]? = q.data[j]? := fun j hj => by
    rw [← List.getElem?_take_of_lt hj, hdata, List.getElem?_take_of_lt hj]
  unfold samples at hi
  exact sample_congr (hget _ (by omega)) (hget _ (by omega))

/-- What has been copied is in the slot, whatever was there. -/
theorem seen_store (h : Whole x.pack) : seen (z.store x).pack = seen x.pack := by
  have hlen : (x.pack.data.take x.pack.datalen.toNat).length = x.pack.datalen.toNat := by
    rw [List.length_take]
    exact min_eq_left h
  have hdata : (overwrite z.pack.data 0 (x.pack.data.take x.pack.datalen.toNat)).take
      x.pack.datalen.toNat = x.pack.data.take x.pack.datalen.toNat := by
    rw [take_overwrite_zero hlen.le, hlen, List.drop_eq_nil_of_le (List.length_take_le _ _),
      List.append_nil]
  exact congrArg (fun d => { x.pack with data := d }) hdata

theorem whole_store (h : Whole x.pack) : Whole (z.store x).pack := by
  show x.pack.datalen.toNat ≤ (overwrite _ 0 _).length
  rw [overwrite, List.length_append, List.length_append, List.length_take_of_le h]
  omega

theorem Alike.store (h : Alike x y) : Alike (z.store x) (z'.store y) where
  no := h.no
  seen := (seen_store h.left).trans (h.seen.trans (seen_store h.right).symm)
  left := whole_store h.left
  right := whole_store h.right

end Packets

/-! ## Mixers -/

/-- Two queues that differ in nothing but what is behind the data. -/
structure QueueAlike (q q' : PackQueue) : Prop where
  devId : q.devId = q'.devId
  recent : q.recent = q'.recent
  waits : List.Forall₂ Alike q.fifo.contents q'.fifo.contents

structure MixerAlike (m m' : Mixer) : Prop where
  queues : ∀ i, QueueAlike (m.queues i) (m'.queues i)
  devCount : m.devCount = m'.devCount
  autoCloseMax : m.autoCloseMax = m'.autoCloseMax
  fastFwd : m.fastFwd = m'.fastFwd

theorem alike_init (z z' : Slot) : MixerAlike (Mixer.init z) (Mixer.init z') where
  queues i := by
    refine ⟨rfl, rfl, ?_⟩
    show List.Forall₂ Alike (Fifo.new z).contents (Fifo.new z').contents
    rw [Include.Cfifo.contents_new, Include.Cfifo.contents_new]
    exact .nil
  devCount := rfl
  autoCloseMax := rfl
  fastFwd := rfl

section Queues
variable {q q' : PackQueue} {m m' : Mixer} {i : Fin 8}

theorem QueueAlike.len (h : QueueAlike q q') : q.fifo.len = q'.fifo.len := by
  rw [← length_contents, ← length_contents]
  exact h.waits.length_eq

theorem QueueAlike.empty_iff (h : QueueAlike q q') : q.fifo.empty ↔ q'.fifo.empty := by
  rw [Include.Cfifo.empty_iff, Include.Cfifo.empty_iff, ← List.length_eq_zero_iff,
    ← List.length_eq_zero_iff, h.waits.length_eq]

theorem QueueAlike.full_iff (h : QueueAlike q q') : q.fifo.full ↔ q'.fifo.full := by
  rw [full_iff_len, full_iff_len, h.len]

theorem MixerAlike.sameIds (h : MixerAlike m m') : ids m = ids m' :=
  funext fun i => (h.queues i).devId

theorem MixerAlike.findDev (h : MixerAlike m m') (d : ℤ) : m.findDev d = m'.findDev d := by
  unfold Mixer.findDev
  exact congrArg (fun f : Fin 8 → ℤ => (List.finRange 8).find? fun i => f i = d) h.sameIds

theorem MixerAlike.starved (h : MixerAlike m m') : m.Starved ↔ m'.Starved := by
  unfold Mixer.Starved
  exact exists_congr fun i => by rw [(h.queues i).devId, (h.queues i).empty_iff]

theorem MixerAlike.setQueue (h : MixerAlike m m') (hq : QueueAlike q q') :
    MixerAlike (m.setQueue i q) (m'.setQueue i q') := by
  refine ⟨fun j => ?_, h.devCount, h.autoCloseMax, h.fastFwd⟩
  rw [queues_setQueue, queues_setQueue]
  by_cases hji : j = i
  · rw [hji, Function.update_self, Function.update_self]
    exact hq
  · rw [Function.update_of_ne hji, Function.update_of_ne hji]
    exact h.queues j

/-! ## Opening, closing, putting -/

theorem MixerAlike.getQueueIndex (h : MixerAlike m m') (d : ℤ) :
    (m.getQueueIndex d true).1 = (m'.getQueueIndex d true).1 ∧
      MixerAlike (m.getQueueIndex d true).2 (m'.getQueueIndex d true).2 := by
  unfold Mixer.getQueueIndex
  rw [← h.findDev d, ← h.findDev 0]
  by_cases h0 : d = 0
  · rw [if_pos h0, if_pos h0]
    exact ⟨rfl, h⟩
  · rw [if_neg h0, if_neg h0]
    split
    · exact ⟨rfl, h⟩
    · split
      · exact ⟨rfl, h⟩
      · next avi _ =>
        simp only [if_true]
        have hopen : QueueAlike { m.queues avi with devId := d }
            { m'.queues avi with devId := d } :=
          ⟨rfl, (h.queues avi).recent, (h.queues avi).waits⟩
        have hq := h.setQueue (i := avi) hopen
        exact ⟨trivial, hq.queues, congrArg (· + 1) h.devCount, h.autoCloseMax, h.fastFwd⟩

theorem QueueAlike.clear (h : QueueAlike q q') {d : ℤ} :
    QueueAlike { q with devId := d, fifo := q.fifo.clear }
      { q' with devId := d, fifo := q'.fifo.clear } := by
  refine ⟨rfl, h.recent, ?_⟩
  rw [contents_clear, contents_clear]
  exact .nil

theorem MixerAlike.removeQueue (h : MixerAlike m m') (i : Fin 8) :
    MixerAlike (m.removeQueue i) (m'.removeQueue i) := by
  have hq := h.setQueue (i := i) ((h.queues i).clear (d := 0))
  exact ⟨hq.queues, congrArg (· - 1) h.devCount, h.autoCloseMax, h.fastFwd⟩

theorem MixerAlike.mixAudioClose (h : MixerAlike m m') (d : ℤ) :
    MixerAlike (m.mixAudioClose d) (m'.mixAudioClose d) := by
  unfold Mixer.mixAudioClose
  rw [getQueueIndex_find, getQueueIndex_find, ← h.findDev d]
  generalize (if d = 0 then none else m.findDev d) = o
  cases o with
  | none => exact h
  | some i => exact h.removeQueue i

theorem MixerAlike.cleanupQueue (h : MixerAlike m m') (i : Fin 8) :
    MixerAlike (m.cleanupQueue i) (m'.cleanupQueue i) := by
  have hq := h.queues i
  unfold Mixer.cleanupQueue
  simp only [hq.devId, hq.empty_iff]
  split_ifs
  · exact h
  · exact h.removeQueue i
  · exact h.setQueue ⟨rfl, hq.recent, (hq.clear (d := 0)).waits⟩

theorem MixerAlike.cleanupQueues (h : MixerAlike m m') :
    MixerAlike m.cleanupQueues m'.cleanupQueues := by
  unfold Mixer.cleanupQueues
  generalize List.finRange 8 = l
  induction l generalizing m m' with
  | nil => exact h
  | cons i l ih => exact ih (h.cleanupQueue i)

variable {p p' : Slot}

/-- The packet is copied into both queues. -/
theorem MixerAlike.putIn (h : MixerAlike m m') (hp : Alike p p')
    (hfull : ¬ (m.queues i).fifo.full) : MixerAlike (m.putIn i p) (m'.putIn i p') := by
  have hq := h.queues i
  refine h.setQueue ⟨hq.devId, hq.recent, ?_⟩
  rw [contents_put hfull, contents_put (hq.full_iff.not.mp hfull)]
  exact List.rel_append hq.waits (.cons hp.store .nil)

theorem MixerAlike.queueMixAudio (h : MixerAlike m m') (hp : Alike p p') {r : ℤ × Mixer}
    (hr : m.queueMixAudio i p = some r) :
    ∃ r', m'.queueMixAudio i p' = some r' ∧ MixerAlike r.2 r'.2 := by
  unfold Mixer.queueMixAudio at hr ⊢
  simp only [← h.devCount, ← (h.queues i).full_iff, ← size_of_seen hp.seen]
  split_ifs at hr ⊢ with _ hfull _ hauto
  · cases hr
    exact ⟨_, rfl, h⟩
  · cases hr
    exact ⟨_, rfl, h.cleanupQueues⟩
  all_goals
    have hput := h.putIn hp hfull
    rw [← hput.autoCloseMax, ← (hput.queues i).len] at hauto
    simp only [hauto, if_false] at hr
    cases hr
  · have hc := hput.cleanupQueues
    exact ⟨_, rfl, hc.queues, hc.devCount, hc.autoCloseMax, rfl⟩
  · exact ⟨_, rfl, hput⟩

theorem MixerAlike.putMixAudio (h : MixerAlike m m') (hp : Alike p p') {r : ℤ × Mixer}
    (hr : m.putMixAudio p = some r) :
    ∃ r', m'.putMixAudio p' = some r' ∧ MixerAlike r.2 r'.2 := by
  obtain ⟨hidx, hm⟩ := h.getQueueIndex p.dev
  unfold Mixer.putMixAudio at hr ⊢
  rw [← dev_of_seen hp.seen, ← seq_of_seen hp.seen]
  match m.getQueueIndex p.dev true, m'.getQueueIndex p.dev true, hidx, hm, hr with
  | (none, n), (none, n'), _, hm, hr =>
    cases hr
    exact ⟨_, rfl, hm⟩
  | (some i, n), (some j, n'), hidx, hm, hr =>
    cases hidx
    replace hm : MixerAlike n n' := hm
    have hq := hm.queues i
    simp only [← hq.recent] at hr ⊢
    split at hr
    · cases hr
      exact ⟨_, rfl, hm⟩
    · next r₁ _ =>
      have hrec : QueueAlike { n.queues i with recent := r₁ } { n'.queues i with recent := r₁ } :=
        ⟨hq.devId, rfl, hq.waits⟩
      exact (hm.setQueue (i := i) hrec).queueMixAudio hp hr

end Queues

/-! ## Getting -/

section Get
variable {m m' : Mixer} {i : Fin 8}

theorem MixerAlike.outFifo (h : MixerAlike m m') (i : Fin 8) :
    List.Forall₂ Alike (m.outFifo i).contents (m'.outFifo i).contents := by
  have hq := h.queues i
  unfold Mixer.outFifo
  rw [← h.fastFwd, ← hq.len]
  split_ifs
  · rw [contents_flushQueue, contents_flushQueue, ← hq.len]
    exact List.forall₂_drop _ hq.waits
  · exact hq.waits

/-- What is taken from a queue, and what is left in it. -/
theorem MixerAlike.front (h : MixerAlike m m') (hne : ¬ (m.queues i).fifo.empty) :
    Alike (taken m i).slot (taken m' i).slot ∧
      List.Forall₂ Alike (m.outFifo i).takeOut.contents (m'.outFifo i).takeOut.contents := by
  have hout := h.outFifo i
  rw [contents_out (outFifo_not_empty hne),
    contents_out (outFifo_not_empty ((h.queues i).empty_iff.not.mp hne))] at hout
  cases hout with
  | cons hx hrest => exact ⟨hx, hrest⟩

theorem MixerAlike.behind (h : MixerAlike m m') (hst : ¬ m.Starved) :
    MixerAlike (takenOut m (List.finRange 8)) (takenOut m' (List.finRange 8)) := by
  refine ⟨fun i => ?_, h.devCount, h.autoCloseMax, h.fastFwd⟩
  have hq := h.queues i
  by_cases hi : ids m i = 0
  · rw [took_takenOut hst |>.unused i hi,
      took_takenOut (h.starved.not.mp hst) |>.unused i (h.sameIds ▸ hi)]
    exact hq
  · rw [queues_takenOut m i hi, queues_takenOut m' i (h.sameIds ▸ hi)]
    exact ⟨hq.devId, hq.recent, (h.front fun he => hst ⟨i, hi, he⟩).2⟩

/-- What is written back is in no packet that waits. -/
theorem MixerAlike.writeBack (h : MixerAlike m m') (hst : ¬ m.Starved) (hi : ids m i ≠ 0)
    (x x' : Slot) :
    MixerAlike ((takenOut m (List.finRange 8)).writeBack i (m.outFifo i).out x)
      ((takenOut m' (List.finRange 8)).writeBack i (m'.outFifo i).out x') := by
  have ht := h.behind hst
  have hq := ht.queues i
  have hout : ∀ n : Mixer, ids n i ≠ 0 →
      ((takenOut n (List.finRange 8)).queues i).fifo.out =
        Lib.Ring.place 5 ((n.outFifo i).out.val + 1) := fun n hn => by
    rw [queues_takenOut n i hn]
    rfl
  refine ht.setQueue ⟨hq.devId, hq.recent, ?_⟩
  rw [MixOrder.contents_writeBack (hout m hi),
    MixOrder.contents_writeBack (hout m' (h.sameIds ▸ hi))]
  exact hq.waits

theorem MixerAlike.sameActives (h : MixerAlike m m') : actives m' = actives m := by
  unfold actives
  rw [h.sameIds]

/-- Nothing is heard of either mixer, or a packet of every open queue of both. -/
theorem MixerAlike.getMixAudio_cases (h : MixerAlike m m') :
    (m.getMixAudio.1 = none ∧ m'.getMixAudio.1 = none ∧
      MixerAlike m.getMixAudio.2 m'.getMixAudio.2) ∨
    ((m.devCount ≠ 0 ∧ ¬ m.Starved) ∧ m'.devCount ≠ 0 ∧ ¬ m'.Starved) := by
  by_cases h0 : m.devCount = 0
  · have h0' : m'.devCount = 0 := h.devCount ▸ h0
    unfold Mixer.getMixAudio
    rw [if_pos h0, if_pos h0']
    exact .inl ⟨rfl, rfl, h⟩
  have h0' : m'.devCount ≠ 0 := h.devCount ▸ h0
  by_cases hst : m.Starved
  · unfold Mixer.getMixAudio
    rw [if_neg h0, if_neg h0', if_pos hst, if_pos (h.starved.mp hst)]
    exact .inl ⟨rfl, rfl, h.queues, h.devCount, h.autoCloseMax, rfl⟩
  exact .inr ⟨⟨h0, hst⟩, h0', h.starved.not.mp hst⟩

theorem MixerAlike.getMixAudio (h : MixerAlike m m') :
    MixerAlike m.getMixAudio.2 m'.getMixAudio.2 := by
  rcases h.getMixAudio_cases with ⟨-, -, h⟩ | ⟨⟨h0, hst⟩, h0', hst'⟩
  · exact h
  rw [getMixAudio_eq h0 hst, getMixAudio_eq h0' hst', h.sameActives]
  match ha : actives m with
  | [] => exact h.behind hst
  | [i] => exact h.behind hst
  | i :: j :: js =>
    exact h.writeBack hst (mem_actives.mp (ha ▸ List.mem_cons_self)) _ _

/-! ## The mix -/

/-- The head of the mix and its data. -/
def heard (m : Mixer) : Option PackData := m.getMixAudio.1.map fun x => seen x.pack0.pack

/-- No packet that is mixed has fewer samples than the first one. -/
def Covered (m : Mixer) : Prop :=
  ∀ f ∈ (actives m).head?, ∀ k ∈ actives m,
    samples (MixQueues.taken m f).slot.pack ≤ samples (MixQueues.taken m k).slot.pack

instance (m : Mixer) : Decidable (Covered m) :=
  inferInstanceAs (Decidable (∀ f ∈ (actives m).head?, _))

/-- **Every sample of the first packet** is the sum over the packets that have it. -/
def SumsUp (x : Mixed) : Prop :=
  ∀ i < samples x.pack0.pack, sample x.pack0.pack.data i =
    saturate ((x.parts.filter fun y => i < samples y.pack).map fun y => sample y.pack.data i).sum

instance (x : Mixed) : Decidable (SumsUp x) := inferInstanceAs (Decidable (∀ i < _, _))

theorem seen_data {p q : PackData} {D D' : List Byte} (h : seen p = seen q)
    (hD : D.take p.datalen.toNat = D'.take p.datalen.toNat) :
    seen { p with data := D } = seen { q with data := D' } := by
  cases p
  cases q
  simp only [seen, PackData.mk.injEq] at h hD ⊢
  obtain ⟨rfl, rfl, rfl, rfl, rfl, -⟩ := h
  exact ⟨rfl, rfl, rfl, rfl, rfl, hD⟩

/-- Something is heard only if all queues that are open have a packet. -/
theorem fed_of_getMixAudio {x : Mixed} (hx : m.getMixAudio.1 = some x) :
    m.devCount ≠ 0 ∧ ¬ m.Starved := by
  unfold Mixer.getMixAudio at hx
  refine ⟨fun h0 => ?_, fun hst => ?_⟩
  · rw [if_pos h0] at hx
    cases hx
  · split_ifs at hx

/-- **Two mixers that differ in nothing but rests** are heard alike, if no rest is mixed. -/
theorem MixerAlike.heard (h : MixerAlike m m') (hc : Covered m) : heard m = heard m' := by
  unfold MixSamples.heard
  rcases h.getMixAudio_cases with ⟨hn, hn', -⟩ | ⟨⟨h0, hst⟩, h0', hst'⟩
  · rw [hn, hn']
  have hfront : ∀ k ∈ actives m, Alike (MixQueues.taken m k).slot (MixQueues.taken m' k).slot :=
    fun k hk => (h.front fun he => hst ⟨k, mem_actives.mp hk, he⟩).1
  rw [getMixAudio_eq h0 hst, getMixAudio_eq h0' hst', h.sameActives]
  unfold Covered at hc
  match hl : actives m with
  | [] => rfl
  | [i] => exact congrArg some (hfront i (hl ▸ List.mem_cons_self)).seen
  | i :: j :: js =>
    rw [hl] at hc hfront
    have hi := hfront i List.mem_cons_self
    refine congrArg some (seen_data hi.seen ?_)
    rw [← datalen_of_seen hi.seen]
    refine take_pcmMix_congr (Nat.mul_div_le _ 2) (take_of_seen hi.seen) fun n hn => ?_
    show List.map _ (List.map _ (List.map (MixQueues.taken m) (i :: j :: js))) =
      List.map _ (List.map _ (List.map (MixQueues.taken m') (i :: j :: js)))
    rw [List.map_map, List.map_map, List.map_map, List.map_map]
    exact List.map_congr_left fun k hk =>
      sample_of_seen (hfront k hk).seen (hn.trans_le (hc i rfl k hk))

/-- **A mix of which no rest is mixed** sums up. -/
theorem MixerAlike.sumsUp (h : MixerAlike m m') (hc : Covered m) {x : Mixed}
    (hx : m.getMixAudio.1 = some x) : SumsUp x := by
  obtain ⟨h0, hst⟩ := fed_of_getMixAudio hx
  rw [getMixAudio_eq h0 hst] at hx
  unfold Covered at hc
  intro n hn
  match hl : actives m with
  | [] =>
    rw [hl] at hx
    cases hx
  | [i] =>
    rw [hl] at hx
    cases hx
    have hall : ([(MixQueues.taken m i).slot].filter fun y => n < samples y.pack) =
        [(MixQueues.taken m i).slot] := List.filter_eq_self.mpr fun y hy => by
      rw [List.mem_singleton.mp hy]
      exact decide_eq_true hn
    show _ = saturate ((([(MixQueues.taken m i).slot].filter _).map _).sum)
    rw [hall, List.map_singleton, List.sum_singleton, saturate_sample]
  | i :: j :: js =>
    rw [hl] at hx hc
    have hi : ids m i ≠ 0 := mem_actives.mp (hl ▸ List.mem_cons_self)
    have hwhole := (h.front fun he => hst ⟨i, hi, he⟩).1.left
    cases hx
    set ts := (i :: j :: js).map (MixQueues.taken m) with hts
    have hall : ((ts.map Taken.slot).filter fun y => n < samples y.pack) = ts.map Taken.slot := by
      refine List.filter_eq_self.mpr fun y hy => ?_
      obtain ⟨t, ht, rfl⟩ := List.mem_map.mp hy
      obtain ⟨k, hk, rfl⟩ := List.mem_map.mp (hts ▸ ht)
      exact decide_eq_true (lt_of_lt_of_le hn (hc i rfl k hk))
    have hfirst : 2 * samples (MixQueues.taken m i).slot.pack ≤
        ((ts.map fun t => t.slot.pack.data).headD []).length :=
      (Nat.mul_div_le _ 2).trans hwhole
    show sample (pcmMix (ts.map fun t => t.slot.pack.data)
        (samples (MixQueues.taken m i).slot.pack)) n =
      saturate (((ts.map Taken.slot).filter fun y => n < samples y.pack).map _).sum
    rw [hall, sample_pcmMix hfirst,
      if_pos (show n < samples (MixQueues.taken m i).slot.pack from hn), List.map_map, List.map_map]
    simp only [hts, List.map_map]
    rfl

end Get

/-! ## Runs -/

/-- The same call, of packets that differ at most behind their data. -/
inductive EventAlike : Event → Event → Prop
  | put {p p' : Slot} (h : Alike p p') : EventAlike (.put p) (.put p')
  | get : EventAlike .get .get
  | openDev (d : ℤ) : EventAlike (.openDev d) (.openDev d)
  | closeDev (d : ℤ) : EventAlike (.closeDev d) (.closeDev d)
  | autoClose (n : ℤ) : EventAlike (.autoClose n) (.autoClose n)

/-- All data of a packet that is put are there. -/
def Complete : Event → Prop
  | .put p => Whole p.pack
  | _ => True

instance : DecidablePred Complete
  | .put p => inferInstanceAs (Decidable (Whole p.pack))
  | .get => inferInstanceAs (Decidable True)
  | .openDev _ => inferInstanceAs (Decidable True)
  | .closeDev _ => inferInstanceAs (Decidable True)
  | .autoClose _ => inferInstanceAs (Decidable True)

/-- The packets that wait are, as far as they are seen, packets that were put. -/
def FromPuts (es : List Event) (m : Mixer) : Prop :=
  ∀ i, ∀ y ∈ waits m i, ∃ p, .put p ∈ es ∧ seen y.pack = seen p.pack

section Runs
variable {m m' m₁ : Mixer} {e e' : Event} {es es' : List Event}

/-- **One call.** -/
theorem step_alike (h : MixerAlike m m') (he : EventAlike e e') (hs : step m e = some m₁) :
    ∃ m₁', step m' e' = some m₁' ∧ MixerAlike m₁ m₁' := by
  cases he with
  | put hp =>
    obtain ⟨r, hr, rfl⟩ := Option.map_eq_some_iff.mp hs
    obtain ⟨r', hr', ha⟩ := h.putMixAudio hp hr
    exact ⟨r'.2, by rw [step, hr']; rfl, ha⟩
  | get =>
    cases hs
    exact ⟨_, rfl, h.getMixAudio⟩
  | openDev d =>
    cases hs
    exact ⟨_, rfl, (h.getQueueIndex d).2⟩
  | closeDev d =>
    cases hs
    exact ⟨_, rfl, h.mixAudioClose d⟩
  | autoClose n =>
    cases hs
    exact ⟨_, rfl, h.queues, h.devCount, rfl, h.fastFwd⟩

/-- A run is like itself if all data are there. -/
theorem alike_self (h : ∀ e ∈ es, Complete e) : List.Forall₂ EventAlike es es := by
  refine List.forall₂_same.mpr fun e he => ?_
  cases e with
  | put p => exact .put ⟨rfl, rfl, h _ he, h _ he⟩
  | get => exact .get
  | openDev d => exact .openDev d
  | closeDev d => exact .closeDev d
  | autoClose n => exact .autoClose n

theorem whole_of_alike (hes : List.Forall₂ EventAlike es es') {p : Slot} (hp : .put p ∈ es) :
    Whole p.pack := by
  induction hes with
  | nil => cases hp
  | cons he _ ih =>
    rcases List.mem_cons.mp hp with rfl | hp
    · cases he with
      | put h => exact h.left
    · exact ih hp

theorem fromPuts_run (hes : List.Forall₂ EventAlike es es') {z : Slot}
    (h : run step (Mixer.init z) es = some m) : FromPuts es m := by
  refine (of_run_forall (I := fun m => Inv m ∧ FromPuts es m) (E := (· ∈ es))
    (fun m e m₁ hI he hs => ?_) ⟨inv_init z, fun i y hy => ?_⟩ (fun _ he => he) h).2
  · obtain ⟨hI', hk⟩ := step_spec hI.1 hs
    refine ⟨hI', fun i y hy => ?_⟩
    rcases hk i with ⟨n, hn⟩ | ⟨p, x, rfl, -, hw⟩
    · rw [hn] at hy
      exact hI.2 i y (List.mem_of_mem_drop hy)
    · rw [hw] at hy
      rcases List.mem_append.mp hy with hy | hy
      · exact hI.2 i y hy
      · refine ⟨p, he, ?_⟩
        rw [List.mem_singleton.mp hy]
        exact seen_store (whole_of_alike hes he)
  · have hnil : waits (Mixer.init z) i = [] := (inv_init z).free i rfl
    rw [hnil] at hy
    cases hy

/-- The parts of a mix have waited. -/
theorem parts_wait {x : Mixed} (hx : m.getMixAudio.1 = some x) :
    ∀ y ∈ x.parts, ∃ i, y ∈ waits m i := by
  have hfront : ∀ i, ids m i ≠ 0 → ¬ m.Starved → (taken m i).slot ∈ waits m i := by
    intro i hi hst
    have hne : ¬ (m.queues i).fifo.empty := fun he => hst ⟨i, hi, he⟩
    refine (contents_outFifo m i).subset ?_
    rw [contents_out (outFifo_not_empty hne)]
    exact List.mem_cons_self
  have hparts : ∀ l : List (Fin 8), (∀ i ∈ l, ids m i ≠ 0) → ¬ m.Starved →
      ∀ y ∈ (l.map (taken m)).map Taken.slot, ∃ i, y ∈ waits m i := by
    intro l hl hst y hy
    obtain ⟨t, ht, rfl⟩ := List.mem_map.mp hy
    obtain ⟨i, hi, rfl⟩ := List.mem_map.mp ht
    exact ⟨i, hfront i (hl i hi) hst⟩
  obtain ⟨h0, hst⟩ := fed_of_getMixAudio hx
  rw [getMixAudio_eq h0 hst] at hx
  have hact : ∀ i ∈ actives m, ids m i ≠ 0 := fun i hi => mem_actives.mp hi
  match hl : actives m with
  | [] =>
    rw [hl] at hx
    cases hx
  | [i] =>
    rw [hl] at hx hact
    cases hx
    exact hparts _ hact hst
  | i :: j :: js =>
    rw [hl] at hx hact
    cases hx
    exact hparts _ hact hst

/-- **Two runs that accept the same** hear the same, whatever was in the memory of the queues and
behind the data of the packets: where no packet of a mix has fewer samples than its first one, every
sample is the sum over packets that were put. The runs put no packet that is longer than a slot. -/
theorem heard_determined {z z' : Slot} (hes : List.Forall₂ EventAlike es es')
    (h : run step (Mixer.init z) es = some m) :
    ∃ m', run step (Mixer.init z') es' = some m' ∧
      (Covered m → heard m = heard m' ∧ ∀ x, m.getMixAudio.1 = some x → SumsUp x ∧
        ∀ y ∈ x.parts, ∃ p, .put p ∈ es ∧ seen y.pack = seen p.pack) := by
  obtain ⟨m', hm', ha⟩ := run_related (R := MixerAlike) (E := EventAlike)
    (fun _ _ _ _ _ h he hs => step_alike h he hs) (alike_init z z') hes h
  refine ⟨m', hm', fun hc => ⟨ha.heard hc, fun x hx => ⟨ha.sumsUp hc hx, fun y hy => ?_⟩⟩⟩
  obtain ⟨i, hi⟩ := parts_wait hx y hy
  exact fromPuts_run hes h i y hi

end Runs

/-! ## Shorter packets -/

/-- A packet of the device `d`, which says that it has `len` bytes. -/
def packet (d seq len : ℕ) (data : List Byte) : Slot :=
  ⟨0, ⟨BitVec.ofNat 32 d, BitVec.ofNat 32 seq, PackType.audio.val, 1, BitVec.ofNat 16 len, data⟩⟩

/-- What is in the memory of the queues. -/
def memory (data : List Byte) : Slot := packet 0 0 0 data

/-- Two devices speak, the second one for longer. -/
def spoken (rest : List Byte) : List Event :=
  [.openDev 1, .openDev 2, .put (packet 1 1 2 ([1, 0] ++ rest)),
    .put (packet 2 1 4 ([2, 0, 9, 0] ++ rest))]

theorem heard_determined_spoken :
    ∃ m m', run step (Mixer.init (memory [])) (spoken []) = some m ∧
      run step (Mixer.init (memory [7, 7, 7, 7, 7, 7])) (spoken [8, 8]) = some m' ∧
      heard m = heard m' ∧ ∀ x, m.getMixAudio.1 = some x → SumsUp x := by
  have hrun : (run step (Mixer.init (memory [])) (spoken [])).any (fun m => Covered m) = true := by
    decide +kernel
  obtain ⟨m, hm, hc⟩ := (Option.any_eq_true _ _).mp hrun
  have hes : List.Forall₂ EventAlike (spoken []) (spoken [8, 8]) :=
    .cons (.openDev 1) (.cons (.openDev 2) (.cons (.put ⟨rfl, rfl, by decide, by decide⟩)
      (.cons (.put ⟨rfl, rfl, by decide, by decide⟩) .nil)))
  obtain ⟨m', hm', hd⟩ := @heard_determined m _ _ _ (memory [7, 7, 7, 7, 7, 7]) hes hm
  have hcov := hd (of_decide_eq_true hc)
  exact ⟨m, m', hm, hm', hcov.1, fun x hx => (hcov.2 x hx).1⟩

/-- Two devices speak until the slots of their queues are used again; then the second one has a
packet of one sample only. -/
def shortAfterLong : List Event :=
  [.openDev 1, .openDev 2] ++
    (List.range 32).flatMap (fun n => [.put (packet 1 (n + 1) 4 [0, 0, 0, 0]),
      .put (packet 2 (n + 1) 4 [5, 0, 5, 0]), .get]) ++
    [.put (packet 1 33 4 [0, 0, 0, 0]), .put (packet 2 33 2 [3, 0])]

set_option maxRecDepth 4000 in
/-- Device 1 is silent, and device 2 has no second sample: the one of 32 packets ago is heard. -/
theorem rest_is_heard :
    ¬ ∀ (z z' : Slot) (es es' : List Event) (m m' : Mixer), List.Forall₂ EventAlike es es' →
      run step (Mixer.init z) es = some m → run step (Mixer.init z') es' = some m' →
      heard m = heard m' ∧ ∀ x, m.getMixAudio.1 = some x → SumsUp x := by
  intro h
  have hrun : (run step (Mixer.init (memory [])) shortAfterLong).any (fun m =>
      m.getMixAudio.1.any fun x => ¬ SumsUp x) = true := by
    decide +kernel
  obtain ⟨m, hm, hx⟩ := (Option.any_eq_true _ _).mp hrun
  obtain ⟨x, hx, hn⟩ := (Option.any_eq_true _ _).mp hx
  have hes : List.Forall₂ EventAlike shortAfterLong shortAfterLong :=
    alike_self (by decide +kernel)
  exact of_decide_eq_true hn ((h _ _ _ _ m m hes hm hm).2 x hx)

end GSConferencing.Client.MixSamples
