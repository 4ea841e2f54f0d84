import GSConferencing.Client.MixQueues

/-!
# The duplicate filter of the mixer

Each queue has a ring of four sequence numbers.  The ring belongs to the place in the table: a
device that gets the queue finds in it the zeros of `mix_audio_init`, or the numbers of whoever had
the queue before, its own earlier ones included; and the number of a packet that a full queue does
not take stays in it.

* `filter_inv`: the ring is the window on what has been recorded in the place, and each entry that
  is not stale is of a packet that was accepted since the queue was opened.
* `justified_iff`: rejections are justified exactly as long as no packet meets a stale number.
* `taken_over`: a device that gets the queue of another one.
-/

namespace GSConferencing.Client.MixDups

open GSConferencing.Include.Pack GSConferencing.Client.Recent GSConferencing.Client.Mix
open GSConferencing.Client.Mix.Mixer GSConferencing.Client.MixQueues
open GSConferencing.Lib.Run GSConferencing.Lib.Window

/-! ## What has been recorded -/

/-- A number in a ring: `true` if its packet was accepted since the queue was opened. -/
abbrev Mark := BitVec 32 × Bool

/-- The entry is stale from now on. -/
def Mark.fade (x : Mark) : Mark := (x.1, false)

/-- The mixer, what has been recorded in each place of the table, newest first, and for each device
the numbers that were accepted since its queue was last opened. -/
structure Filter where
  mixer : Mixer
  marks : Fin 8 → List Mark
  since : ℤ → List (BitVec 32)

/-- After `mix_audio_init`. -/
def init (z : Slot) : Filter := ⟨.init z, fun _ => [], fun _ => []⟩

namespace Filter

variable (s : Filter)

/-- The device `d` is looked up; if it gets a queue, this has just been opened. -/
def enter (d : ℤ) : Filter :=
  let r := s.mixer.getQueueIndex d true
  match r.1, s.mixer.findDev d with
  | some i, none =>
    { mixer := r.2
      marks := Function.update s.marks i ((s.marks i).map Mark.fade)
      since := Function.update s.since d [] }
  | _, _ => { s with mixer := r.2 }

/-- The packet `p` has been recorded in the place `i`. -/
def note (i : Fin 8) (p : Slot) (accepted : Bool) : Filter :=
  { s with
    marks := Function.update s.marks i ((p.pack.seq, accepted) :: s.marks i)
    since := if accepted then Function.update s.since p.dev (p.pack.seq :: s.since p.dev)
      else s.since }

/-- The packet is taken for a duplicate. -/
def Rejects (p : Slot) : Prop :=
  ∃ i, (s.mixer.getQueueIndex p.dev true).1 = some i ∧
    p.pack.seq ∈ ((s.enter p.dev).mixer.queues i).recent.contents

instance (p : Slot) : Decidable (s.Rejects p) :=
  inferInstanceAs (Decidable (∃ _, _))

/-- `put_mix_audio` has returned `r`. -/
def put (p : Slot) (r : ℤ × Mixer) : Filter :=
  let s' := s.enter p.dev
  match (s.mixer.getQueueIndex p.dev true).1 with
  | none => { s' with mixer := r.2 }
  | some i =>
    if s.Rejects p then { s' with mixer := r.2 }
    else { s'.note i p (0 ≤ r.1) with mixer := r.2 }

end Filter

/-- The calls of the mixer, with what is recorded. -/
def step (s : Filter) : Event → Option Filter
  | .put p => (s.mixer.putMixAudio p).map (s.put p)
  | .openDev d => some (s.enter d)
  | .get => some { s with mixer := s.mixer.getMixAudio.2 }
  | .closeDev d => some { s with mixer := s.mixer.mixAudioClose d }
  | .autoClose maxPacks => some { s with mixer := s.mixer.mixAudioAutoClose maxPacks }

/-- A packet that is taken for a duplicate was accepted since the queue of its device was opened. -/
def Justified (s : Filter) : Event → Prop
  | .put p => s.Rejects p → p.pack.seq ∈ (s.enter p.dev).since p.dev
  | _ => True

instance (s : Filter) : DecidablePred (Justified s)
  | .put _ => inferInstanceAs (Decidable (_ → _))
  | .get | .openDev _ | .closeDev _ | .autoClose _ => .isTrue trivial

/-- The ring of the packet's queue does not have its number as a stale one, unless the number was
accepted too. -/
def NotStale (s : Filter) : Event → Prop
  | .put p => ∀ i, (s.mixer.getQueueIndex p.dev true).1 = some i →
    (p.pack.seq, false) ∈ window 4 (0, false) ((s.enter p.dev).marks i) →
    p.pack.seq ∈ (s.enter p.dev).since p.dev
  | _ => True

/-- The records change nothing about the calls. -/
theorem mixer_step (s : Filter) (e : Event) :
    (step s e).map Filter.mixer = MixQueues.step s.mixer e := by
  cases e with
  | put p =>
    have hput : ∀ r, (s.put p r).mixer = r.2 := fun r => by
      unfold Filter.put
      simp only []
      split
      · rfl
      · split_ifs <;> rfl
    rw [step, Option.map_map]
    exact congrArg (s.mixer.putMixAudio p).map (funext hput)
  | openDev d =>
    refine congrArg some ?_
    unfold Filter.enter
    simp only []
    split <;> rfl
  | _ => rfl

/-! ## The rings -/

/-- The rings stay, and a queue stays with its device or is given back. -/
structure Shrinks (m m' : Mixer) : Prop where
  ring : ∀ i, (m'.queues i).recent = (m.queues i).recent
  ids : ∀ i, ids m' i = ids m i ∨ ids m' i = 0

section Rings
variable {m m' m'' : Mixer} {i : Fin 8} {d : ℤ}

theorem Shrinks.refl (m : Mixer) : Shrinks m m := ⟨fun _ => rfl, fun _ => .inl rfl⟩

theorem Shrinks.trans (h : Shrinks m m') (h' : Shrinks m' m'') : Shrinks m m'' where
  ring i := (h'.ring i).trans (h.ring i)
  ids i := by
    rcases h'.ids i with e | e
    · rw [e]
      exact h.ids i
    · exact .inr e

theorem shrinks_setQueue {q : PackQueue} (hr : q.recent = (m.queues i).recent)
    (hid : q.devId = ids m i ∨ q.devId = 0) : Shrinks m (m.setQueue i q) := by
  refine ⟨fun j => ?_, fun j => ?_⟩
  · by_cases hji : j = i
    · rw [queues_setQueue, hji, Function.update_self, hr]
    · rw [queues_setQueue, Function.update_of_ne hji]
  · rw [ids_setQueue]
    by_cases hji : j = i
    · rw [hji, Function.update_self]
      exact hid
    · exact .inl (Function.update_of_ne hji ..)

theorem shrinks_removeQueue (m : Mixer) (i : Fin 8) : Shrinks m (m.removeQueue i) := by
  have h := shrinks_setQueue (m := m) (i := i)
    (q := { m.queues i with devId := 0, fifo := (m.queues i).fifo.clear }) rfl (.inr rfl)
  exact ⟨h.ring, h.ids⟩

theorem shrinks_cleanupQueues (m : Mixer) : Shrinks m m.cleanupQueues := by
  refine List.foldlRecOn (motive := Shrinks m) (List.finRange 8) Mixer.cleanupQueue
    (Shrinks.refl m) fun m' h i _ => h.trans ?_
  unfold Mixer.cleanupQueue
  split_ifs
  · exact Shrinks.refl m'
  · exact shrinks_removeQueue m' i
  · exact shrinks_setQueue rfl (.inl rfl)

theorem shrinks_queueMixAudio {p : Slot} {r : ℤ × Mixer} (h : m.queueMixAudio i p = some r) :
    Shrinks m r.2 := by
  unfold Mixer.queueMixAudio at h
  split_ifs at h
  · cases h
    exact Shrinks.refl m
  · cases h
    exact shrinks_cleanupQueues m
  · have hput : Shrinks m (m.putIn i p) := shrinks_setQueue rfl (.inl rfl)
    simp only at h
    split_ifs at h
    · cases h
      have hclean := hput.trans (shrinks_cleanupQueues _)
      exact ⟨hclean.ring, hclean.ids⟩
    · cases h
      exact hput

theorem shrinks_mixAudioClose (m : Mixer) (d : ℤ) : Shrinks m (m.mixAudioClose d) := by
  unfold Mixer.mixAudioClose
  rw [getQueueIndex_find]
  split
  · next he =>
    obtain ⟨-, rfl⟩ := Prod.mk.inj he
    exact Shrinks.refl m
  · next i m' he =>
    obtain ⟨-, rfl⟩ := Prod.mk.inj he
    exact shrinks_removeQueue m i

theorem shrinks_takenOut (m : Mixer) (l : List (Fin 8)) : Shrinks m (takenOut m l) := by
  refine ⟨fun j => ?_, fun j => .inl (congrFun (ids_takenOut m l) j)⟩
  unfold takenOut
  simp only []
  split_ifs <;> rfl

theorem shrinks_getMixAudio (m : Mixer) : Shrinks m m.getMixAudio.2 := by
  by_cases h0 : m.devCount = 0
  · unfold Mixer.getMixAudio
    rw [if_pos h0]
    exact Shrinks.refl m
  by_cases hst : m.Starved
  · unfold Mixer.getMixAudio
    rw [if_neg h0, if_pos hst]
    exact ⟨fun _ => rfl, fun _ => .inl rfl⟩
  rw [getMixAudio_eq h0 hst]
  have h := shrinks_takenOut m (List.finRange 8)
  split
  · exact h
  · exact h
  · exact h.trans (shrinks_setQueue rfl (.inl rfl))

end Rings

/-! ## The invariant -/

/-- The rings are windows on what has been recorded, and an entry that is not stale is of a packet
that was accepted since the queue was opened. -/
structure FilterInv (s : Filter) : Prop where
  table : MixQueues.Inv s.mixer
  ring : ∀ i, Holds (s.mixer.queues i).recent 0 ((s.marks i).map Prod.fst)
  fresh : ∀ i x, ids s.mixer i ≠ 0 → (x, true) ∈ s.marks i → x ∈ s.since (ids s.mixer i)

theorem filter_init (z : Slot) : FilterInv (init z) where
  table := MixQueues.inv_init z
  ring _ := holds_new 0
  fresh _ _ h := absurd rfl h

section Invariant
variable {s : Filter} {i : Fin 8} {d : ℤ} {p : Slot}

theorem FilterInv.shrink (h : FilterInv s) {m : Mixer} (hI : MixQueues.Inv m)
    (hm : Shrinks s.mixer m) : FilterInv { s with mixer := m } where
  table := hI
  ring i := by
    rw [hm.ring i]
    exact h.ring i
  fresh i x hi hx := by
    have hid := (hm.ids i).resolve_right hi
    show x ∈ s.since (ids m i)
    rw [hid]
    exact h.fresh i x (hid ▸ hi) hx

theorem findDev_eq_none {m : Mixer} (h : ∀ j, (m.queues j).devId ≠ d) : m.findDev d = none :=
  List.find?_eq_none.mpr fun j _ => by simpa using h j

theorem map_fst_fade (l : List Mark) : (l.map Mark.fade).map Prod.fst = l.map Prod.fst := by
  rw [List.map_map]
  rfl

/-- The device is looked up. -/
theorem enter_spec (h : FilterInv s) (d : ℤ) :
    FilterInv (s.enter d) ∧ (s.enter d).mixer = (s.mixer.getQueueIndex d true).2 := by
  have hI := (getQueueIndex_spec h.table d).1
  unfold Filter.enter
  simp only []
  rcases getQueueIndex_cases s.mixer d with ⟨h1, h2⟩ | ⟨i, -, he, hid⟩ | ⟨i, -, hnew, hfree, he⟩
  · rw [h1, h2]
    exact ⟨h, rfl⟩
  · obtain ⟨j, hj⟩ := Option.ne_none_iff_exists'.mp fun hn => findDev_none hn i hid
    rw [he, hj]
    exact ⟨h, rfl⟩
  · rw [he] at hI
    rw [he, findDev_eq_none hnew]
    refine ⟨⟨hI, fun j => ?_, fun j x hj hx => ?_⟩, rfl⟩
    · show Holds ((s.mixer.setQueue i _).queues j).recent 0
        ((Function.update s.marks i _ j).map Prod.fst)
      rw [queues_setQueue]
      by_cases hji : j = i
      · subst hji
        rw [Function.update_self, Function.update_self, map_fst_fade]
        exact h.ring j
      · rw [Function.update_of_ne hji, Function.update_of_ne hji]
        exact h.ring j
    · change ids (s.mixer.setQueue i _) j ≠ 0 at hj
      change (x, true) ∈ Function.update s.marks i _ j at hx
      show x ∈ Function.update s.since d [] (ids (s.mixer.setQueue i _) j)
      rw [ids_setQueue] at hj ⊢
      by_cases hji : j = i
      · -- all entries of the place are stale now
        simp only [hji, Function.update_self, List.mem_map] at hx
        obtain ⟨y, -, hy⟩ := hx
        exact absurd (congrArg Prod.snd hy) Bool.false_ne_true
      · simp only [Function.update_of_ne hji] at hx hj ⊢
        rw [Function.update_of_ne (show ids s.mixer j ≠ d from hnew j)]
        exact h.fresh j x hj hx

/-- **The packet has been recorded** in the place of its device. -/
theorem note_spec (h : FilterInv s) (hi : ids s.mixer i = p.dev) (acc : Bool)
    {r : RecentInfo (BitVec 32) 2}
    (hr : Holds r 0 (p.pack.seq :: (s.marks i).map Prod.fst)) :
    FilterInv { s.note i p acc with
      mixer := s.mixer.setQueue i { s.mixer.queues i with recent := r } } := by
  refine ⟨h.table.setQueue rfl (h.table.free i), fun j => ?_, fun j x hj hx => ?_⟩
  · show Holds ((s.mixer.setQueue i _).queues j).recent 0 ((Function.update s.marks i _ j).map _)
    rw [queues_setQueue]
    by_cases hji : j = i
    · subst hji
      rw [Function.update_self, Function.update_self]
      exact hr
    · rw [Function.update_of_ne hji, Function.update_of_ne hji]
      exact h.ring j
  · have hids : ids (s.mixer.setQueue i { s.mixer.queues i with recent := r }) = ids s.mixer := by
      rw [ids_setQueue]
      exact Function.update_eq_self i (ids s.mixer)
    change ids (s.mixer.setQueue i _) j ≠ 0 at hj
    show x ∈ (s.note i p acc).since (ids (s.mixer.setQueue i _) j)
    change (x, true) ∈ Function.update s.marks i _ j at hx
    rw [hids] at hj ⊢
    by_cases hji : j = i
    · subst hji
      rw [Function.update_self] at hx
      rw [hi]
      rcases List.mem_cons.mp hx with e | hx
      · obtain ⟨rfl, rfl⟩ := Prod.mk.inj e
        simp only [Filter.note, if_true, Function.update_self]
        exact List.mem_cons_self
      · have hold := h.fresh j x hj hx
        rw [hi] at hold
        unfold Filter.note
        simp only []
        split_ifs
        · rw [Function.update_self]
          exact List.mem_cons_of_mem _ hold
        · exact hold
    · rw [Function.update_of_ne hji] at hx
      have hne : ids s.mixer j ≠ p.dev := fun e =>
        hji (h.table.apart j i hj (e.trans hi.symm))
      have hold := h.fresh j x hj hx
      unfold Filter.note
      simp only []
      split_ifs
      · rw [Function.update_of_ne hne]
        exact hold
      · exact hold

/-- **`put_mix_audio`.** -/
theorem put_spec (h : FilterInv s) {r : ℤ × Mixer} (hr : s.mixer.putMixAudio p = some r) :
    FilterInv (s.put p r) := by
  obtain ⟨hE, hm⟩ := enter_spec h p.dev
  have hown := (getQueueIndex_spec h.table p.dev).2.2
  unfold Filter.put
  simp only []
  unfold Mixer.putMixAudio at hr
  split at hr
  · next m he =>
    cases hr
    rw [he] at hm ⊢
    exact hE.shrink (hm ▸ hE.table) (hm ▸ Shrinks.refl _)
  · next i m he =>
    have hidx : (s.mixer.getQueueIndex p.dev true).1 = some i := congrArg Prod.fst he
    replace hm : (s.enter p.dev).mixer = m := hm.trans (congrArg Prod.snd he)
    have hi : ids (s.enter p.dev).mixer i = p.dev := by
      have hid := (hown i hidx).1
      rw [he] at hid
      rw [hm]
      exact hid
    have hd : p.dev ≠ 0 := (hown i hidx).2
    have hrej : s.Rejects p ↔
        p.pack.seq ∈ ((s.enter p.dev).mixer.queues i).recent.contents := by
      unfold Filter.Rejects
      rw [hidx]
      simp only [Option.some.injEq, exists_eq_left']
    rw [hidx]
    simp only [hrej]
    rcases recentTest_spec (hE.ring i) p.pack.seq with ⟨hin, ht⟩ | ⟨hnin, r', ht, hr'⟩
    · rw [hm] at ht
      rw [ht] at hr
      cases hr
      rw [if_pos (by rw [hE.ring i]; exact hin)]
      exact hE.shrink (hm ▸ hE.table) (hm ▸ Shrinks.refl _)
    · rw [hm] at ht
      rw [ht] at hr
      rw [if_neg (by rw [hE.ring i]; exact hnin)]
      have hN := note_spec hE hi (0 ≤ r.1) hr'
      have hids : ids (m.setQueue i { m.queues i with recent := r' }) i ≠ 0 := by
        rw [ids_setQueue, Function.update_self]
        show ids m i ≠ 0
        rw [← hm, hi]
        exact hd
      rw [hm] at hN
      exact hN.shrink (queueMixAudio_spec hN.table hids hr).1 (shrinks_queueMixAudio hr)

/-- **One call.** -/
theorem filter_inv {s' : Filter} {e : Event} (h : FilterInv s) (hs : step s e = some s') :
    FilterInv s' := by
  cases e with
  | put p =>
    obtain ⟨r, hr, rfl⟩ := Option.map_eq_some_iff.mp hs
    exact put_spec h hr
  | get =>
    cases hs
    exact h.shrink (MixQueues.step_spec (e := .get) h.table rfl).1 (shrinks_getMixAudio _)
  | openDev d =>
    cases hs
    exact (enter_spec h d).1
  | closeDev d =>
    cases hs
    exact h.shrink (mixAudioClose_spec h.table d).1 (shrinks_mixAudioClose _ d)
  | autoClose n =>
    cases hs
    exact h.shrink (h.table.congr rfl rfl) ⟨fun _ => rfl, fun _ => .inl rfl⟩

/-- A number in the ring is stale, or was accepted since the queue was opened. -/
theorem justified_step (h : FilterInv s) (e : Event) : Justified s e ↔ NotStale s e := by
  cases e with
  | put p =>
    obtain ⟨hE, hm⟩ := enter_spec h p.dev
    have hring : ∀ i, p.pack.seq ∈ ((s.enter p.dev).mixer.queues i).recent.contents ↔
        ∃ x ∈ window 4 ((0, false) : Mark) ((s.enter p.dev).marks i), x.1 = p.pack.seq := by
      intro i
      rw [show ((s.enter p.dev).mixer.queues i).recent.contents = _ from hE.ring i]
      exact mem_window_map (f := Prod.fst) (z := ((0, false) : Mark))
    constructor
    · intro hj i hi hstale
      exact hj ⟨i, hi, (hring i).mpr ⟨_, hstale, rfl⟩⟩
    · rintro hn ⟨i, hi, hin⟩
      obtain ⟨⟨x, b⟩, hx, rfl⟩ := (hring i).mp hin
      cases b with
      | false => exact hn i hi hx
      | true =>
        rcases mem_of_mem_window hx with hx | hz
        · obtain ⟨hid, hd⟩ := (getQueueIndex_spec h.table p.dev).2.2 i hi
          rw [← hm] at hid
          have := hE.fresh i _ (by rw [hid]; exact hd) hx
          rwa [hid] at this
        · exact absurd (congrArg Prod.snd hz).symm Bool.false_ne_true
  | _ => exact Iff.rfl

end Invariant

/-! ## Runs -/

/-- **Rejections are justified** along a run exactly if no packet meets a stale number. -/
theorem justified_iff (z : Slot) (es : List Event) :
    Guarded step Justified (init z) es ↔ Guarded step NotStale (init z) es :=
  guarded_congr (I := FilterInv) (fun _ _ _ h hs => filter_inv h hs)
    (fun _ e h => justified_step h e) (filter_init z)

/-- A packet of the device `d`, with the number `seq`. -/
def packet (d seq : ℕ) : Slot := ⟨0, MixOrder.packet d seq⟩

/-- Device 1 has closed its microphone, and device 2 gets the queue: its first packet is rejected,
for it has the number of the packet of device 1. -/
theorem taken_over : ¬ Guarded step Justified (init MixOrder.blank)
    [.put (packet 1 7), .closeDev 1, .put (packet 2 7)] := by
  decide

end GSConferencing.Client.MixDups
