import GSConferencing.Client.Pcm
import GSConferencing.Serv.MixCall

/-!
# What a mixed packet holds

`tag_mix_audio` from the moment it picks packets, with the samples: a packet of silence is filled
with zeros, and `pcm_mix` of as many samples as the shortest packet has goes into the first packet.

* `pick_pass`: the packets that are picked are the oldest of the queues, less those that are too
  long.
* `tagMixAudio_content`: the samples of the packet that is returned.
* `shortest_cuts`: of three packets the third one is shorter, and the second one loses a sample.
-/

namespace GSConferencing.Serv.MixContent

open GSConferencing.Lib.Run GSConferencing.Lib.Slots
open GSConferencing.Include.Pack GSConferencing.Include.Cfifo
open GSConferencing.Client.Mix (sample saturate pcmMix)
open GSConferencing.Client.Pcm
open GSConferencing.Serv.Dev GSConferencing.Serv.Tag GSConferencing.Serv.Packet
open GSConferencing.Serv.Server GSConferencing.Serv.Mixing GSConferencing.Serv.Buffers
open GSConferencing.Serv.BufferRuns (Inv)
open GSConferencing.Serv.MixCall (Returned slotsOf pc_goto fifo_outFifo threeStart threeSent
  inv_threeSent)

variable {k : ℕ}

/-! ## The call, with the samples -/

/-- `ntohs(aupack->datalen)`. -/
def datalen (P : Packet) : ℕ := (htons P.data.datalen).toNat

/-- `mixlen`, once the packets `pp` have been added. -/
def mixlen (s : State k) (pp : List (Buf k)) : ℕ :=
  (pp.map fun b => datalen (s.mem b)).foldl min (2 ^ 18)

/-- `pcm_mix` of the packets `p :: pp`. -/
def mixPacks (s : State k) (p : Buf k) (pp : List (Buf k)) : State k :=
  s.setMem p fun P => { P with data := { P.data with
    data := pcmMix ((p :: pp).map fun b => (s.mem b).data.data) (mixlen s (p :: pp) / 2) } }

/-- One step of `tag_mix_audio`; a single packet is not mixed. -/
def mixAudioStep (s : State k) (t : ℤ) (silent : Bool) : Option (State k) :=
  match (s.cast t).pc with
  | .pick [] (p :: q :: pp) => mixStep (mixPacks s p (q :: pp)) t silent
  | _ => mixStep s t silent

/-- The steps up to the return, `n` at most. -/
def tagMixAudio (t : ℤ) (silent : Bool) : ℕ → State k → Option (State k)
  | 0, _ => none
  | n + 1, s =>
    if Returned (s.cast t).pc then some s
    else (mixAudioStep s t silent).bind (tagMixAudio t silent n)

/-- Eight slots, the mix, seven packets that are freed, the test for silence, the return. -/
def mixFuel : ℕ := 18

/-! ## The packets that contribute -/

/-- The packet that waits longest in the queue of `d`. -/
def frontOf (s : State k) (d : ℤ) : Option (Buf k) :=
  if (s.fifo d).empty then none else (s.fifo d).getOut

/-- The packet that the slot `i` adds to the mix. -/
def contribution (s : State k) (t : ℤ) (i : Fin 8) : Option (Buf k) :=
  ((slotsOf s t i).bind (frontOf s)).filter fun b => datalen (s.mem b) ≤ maxpack - 100

def contributions (s : State k) (t : ℤ) (is : List (Fin 8)) : List (Buf k) :=
  is.filterMap (contribution s t)

/-- A sample of a packet; silence has samples too. -/
def packSample (P : Packet) (i : ℕ) : ℤ :=
  if P.data.type = PackType.audioZero.val then 0 else sample P.data.data i

/-- What was received has all the samples. -/
def Whole (P : Packet) : Prop :=
  P.data.type ≠ PackType.audioZero.val → datalen P ≤ P.data.data.length

instance (P : Packet) : Decidable (Whole P) := inferInstanceAs (Decidable (_ → _))

section FillZero
variable (P : Packet)

@[simp] theorem datalen_fillZero : datalen (fillZero P) = datalen P := by
  unfold fillZero
  simp only []
  split_ifs <;> rfl

theorem fillZero_fillZero : fillZero (fillZero P) = fillZero P := by
  by_cases h : P.data.type = PackType.audioZero.val
  · have htype : (fillZero P).data.type = PackType.audio.val := by
      unfold fillZero
      simp only [if_pos h]
    have hne : (fillZero P).data.type ≠ PackType.audioZero.val := by
      rw [htype]
      decide
    generalize fillZero P = Q at hne
    unfold fillZero
    simp only [if_neg hne]
  · have hsame : fillZero P = P := by
      unfold fillZero
      simp only [if_neg h]
    rw [hsame, hsame]

theorem sample_fillZero (i : ℕ) : sample (fillZero P).data.data i = packSample P i := by
  unfold fillZero packSample
  simp only []
  split_ifs
  · exact sample_replicate_zero _ i
  · rfl

variable {P} in
theorem length_fillZero (h : Whole P) : datalen P ≤ (fillZero P).data.data.length := by
  unfold fillZero
  simp only []
  split_ifs with hz
  · exact (List.length_replicate ..).ge
  · exact h hz

end FillZero

/-! ## Picking -/

section Pick
variable {s s' : State k} {t : ℤ} {silent : Bool} {i : Fin 8} {is : List (Fin 8)}
  {pp : List (Buf k)}

/-- The slot `i` has been passed. -/
structure Passed (s : State k) (t : ℤ) (i : Fin 8) (is : List (Fin 8)) (pp : List (Buf k))
    (s' : State k) : Prop where
  pc : (s'.cast t).pc = .pick is (pp ++ (contribution s t i).toList)
  slots : slotsOf s' t = slotsOf s t
  fifo : ∀ d, slotsOf s t i ≠ some d → s'.fifo d = s.fifo d
  mem : ∀ b, s'.mem b = if contribution s t i = some b then fillZero (s.mem b) else s.mem b
  opts : s'.opts = s.opts
  silence : (s'.cast t).mixSilence = (s.cast t).mixSilence

theorem silence_goto (s : State k) (t : ℤ) (pc : Pc k) :
    ((s.goto t pc).cast t).mixSilence = (s.cast t).mixSilence := by
  unfold State.goto State.setCast
  simp only [Function.update_self]

/-- A slot without a device, or with an empty queue. -/
theorem passed_nothing (h : contribution s t i = none) :
    Passed s t i is pp (s.goto t (.pick is pp)) where
  pc := by rw [h, pc_goto, Option.toList_none, List.append_nil]
  slots := rfl
  fifo _ _ := rfl
  mem b := by rw [h, if_neg nofun]; rfl
  opts := rfl
  silence := silence_goto ..

/-- **One slot** adds the oldest packet of its queue, if it is not too long. -/
theorem pick_passed (hpc : (s.cast t).pc = .pick (i :: is) pp) (h : mixStep s t silent = some s') :
    Passed s t i is pp s' := by
  have hslots := (MixCall.pick_next hpc h).2
  have hpick : pickSlot s t i is pp = some s' := by
    rw [mixStep, hpc] at h
    exact h
  rcases pickSlot_cases hpick with ⟨hnone, rfl⟩ | ⟨d, b, r, hdev, hempty, hb, rfl, hcase⟩
  · refine passed_nothing ?_
    have hfront : (slotsOf s t i).bind (frontOf s) = none :=
      Option.bind_eq_none_iff.mpr fun d hd => if_pos (hnone d hd)
    rw [contribution, hfront]
    rfl
  have hfront : (slotsOf s t i).bind (frontOf s) = some b := by
    rw [slotsOf, hdev, Option.bind_some, frontOf, if_neg hempty]
    exact hb
  have hother : ∀ d', slotsOf s t i ≠ some d' → (outFifo s d).fifo d' = s.fifo d' :=
    fun d' hd' => fifo_outFifo fun e => hd' (hdev.trans (congrArg some e.symm))
  rcases hcase with ⟨hlong, s₁, hs₁, rfl⟩ | ⟨hshort, rfl⟩
  · have hnone : contribution s t i = none := by
      rw [contribution, hfront, Option.filter_some_neg]
      exact decide_eq_false (Nat.not_le.mpr hlong)
    obtain ⟨P, -, rfl⟩ := Option.map_eq_some_iff.mp hs₁
    exact ⟨by rw [hnone, pc_goto, Option.toList_none, List.append_nil], hslots, hother,
      fun b' => by rw [hnone, if_neg (Option.some_ne_none b').symm]; rfl, rfl, silence_goto ..⟩
  · have hsome : contribution s t i = some b := by
      rw [contribution, hfront, Option.filter_some_pos]
      exact decide_eq_true (Nat.not_lt.mp hshort)
    refine ⟨by rw [hsome, pc_goto]; rfl, hslots, hother, fun b' => ?_, rfl, silence_goto ..⟩
    rw [hsome]
    by_cases hbb : b = b'
    · subst hbb
      rw [if_pos rfl]
      exact Function.update_self ..
    · rw [if_neg fun e => hbb (Option.some.inj e)]
      exact Function.update_of_ne (Ne.symm hbb) ..

/-- What the other slots add stays the same. -/
theorem contributions_passed (ha : Apart (· ≠ none) (slotsOf s t)) (hi : i ∉ is)
    (h : Passed s t i is pp s') : contributions s' t is = contributions s t is := by
  refine List.filterMap_congr fun j hj => ?_
  have hlen : ∀ b, datalen (s'.mem b) = datalen (s.mem b) := fun b => by
    rw [h.mem b]
    split
    · exact datalen_fillZero _
    · rfl
  rw [contribution, contribution, h.slots]
  simp only [hlen]
  cases hd : slotsOf s t j with
  | none => rfl
  | some d =>
    have hne : slotsOf s t i ≠ some d := fun e =>
      hi (ha i j (by rw [e]; exact Option.some_ne_none d) (e.trans hd.symm) ▸ hj)
    rw [Option.bind_some, Option.bind_some, frontOf, frontOf, h.fifo d hne]

/-- All slots of `is` have been passed. -/
structure PassedAll (s : State k) (t : ℤ) (is : List (Fin 8)) (pp : List (Buf k))
    (s' : State k) : Prop where
  inv : Inv s'
  pc : (s'.cast t).pc = .pick [] (pp ++ contributions s t is)
  mem : ∀ b, s'.mem b = if b ∈ contributions s t is then fillZero (s.mem b) else s.mem b
  opts : s'.opts = s.opts
  silence : (s'.cast t).mixSilence = (s.cast t).mixSilence

theorem tagMixAudio_step (hrun : ¬ Returned (s.cast t).pc) (h : mixAudioStep s t silent = some s')
    (n : ℕ) : tagMixAudio t silent (n + 1) s = tagMixAudio t silent n s' := by
  rw [tagMixAudio, if_neg hrun, h, Option.bind_some]

/-- **The slots are passed** one after the other. -/
theorem pick_pass (hI : Inv s) (ha : Apart (· ≠ none) (slotsOf s t)) (hnd : is.Nodup)
    (hpc : (s.cast t).pc = .pick is pp) (silent : Bool) :
    ∃ s', (∀ n, tagMixAudio t silent (is.length + n) s = tagMixAudio t silent n s') ∧
      PassedAll s t is pp s' := by
  induction is generalizing s pp with
  | nil =>
    refine ⟨s, fun n => by rw [List.length_nil, Nat.zero_add], hI, ?_, fun b => ?_, rfl, rfl⟩
    · rw [hpc, contributions, List.filterMap_nil, List.append_nil]
    · exact (if_neg List.not_mem_nil).symm
  | cons i is ih =>
    obtain ⟨hi, hnd⟩ := List.nodup_cons.mp hnd
    obtain ⟨s₁, hs₁, hI₁⟩ := BufferRuns.mixStep_inv t silent hI
    have hp := pick_passed hpc hs₁
    obtain ⟨s', hrun, hall⟩ := ih hI₁ (hp.slots.symm ▸ ha) hnd hp.pc
    have hstep : mixAudioStep s t silent = some s₁ := by rw [mixAudioStep, hpc, hs₁]
    have hadd : contributions s t (i :: is) =
        (contribution s t i).toList ++ contributions s t is := by
      rw [contributions, List.filterMap_cons]
      cases contribution s t i <;> rfl
    have hrest := contributions_passed ha hi hp
    refine ⟨s', fun n => ?_, hall.inv, ?_, fun b => ?_, hall.opts.trans hp.opts,
      hall.silence.trans hp.silence⟩
    · rw [List.length_cons, Nat.add_right_comm, tagMixAudio_step (by rw [hpc]; exact id) hstep]
      exact hrun n
    · rw [hall.pc, hrest, hadd, List.append_assoc]
    · have hmem : b ∈ contributions s t (i :: is) ↔
          contribution s t i = some b ∨ b ∈ contributions s t is := by
        rw [hadd, List.mem_append, Option.mem_toList]
      rw [hall.mem b, hp.mem b, hrest]
      -- a packet that is filled twice is filled once
      by_cases hb : contribution s t i = some b
      · simp only [hmem, hb, if_true, fillZero_fillZero, ite_self, true_or]
      · simp only [hmem, hb, if_false, false_or]

end Pick

/-! ## Mixing -/

section Mix
variable {s s' : State k} {t : ℤ} {silent : Bool} {p : Buf k} {pp : List (Buf k)}

/-- The packets are freed, but for the first one. -/
theorem free_pass (hI : Inv s) (hpc : (s.cast t).pc = .mixed p pp) (silent : Bool) :
    ∃ s', (∀ n, tagMixAudio t silent (pp.length + n) s = tagMixAudio t silent n s') ∧ Inv s' ∧
      (s'.cast t).pc = .mixed p [] ∧ s'.mem = s.mem ∧ s'.opts = s.opts ∧
      (s'.cast t).mixSilence = (s.cast t).mixSilence := by
  induction pp generalizing s with
  | nil => exact ⟨s, fun n => by rw [List.length_nil, Nat.zero_add], hI, hpc, rfl, rfl, rfl⟩
  | cons q pp ih =>
    obtain ⟨s₁, hs₁, hI₁⟩ := BufferRuns.mixStep_inv t silent hI
    have hfree : (s.packFree (some q)).map (·.goto t (.mixed p pp)) = some s₁ := by
      rw [mixStep, hpc] at hs₁
      exact hs₁
    obtain ⟨s₂, hs₂, rfl⟩ := Option.map_eq_some_iff.mp hfree
    obtain ⟨P, -, rfl⟩ := Option.map_eq_some_iff.mp hs₂
    obtain ⟨s', hrun, hI', hpc', hmem, hopts, hsil⟩ := ih hI₁ (pc_goto ..)
    refine ⟨s', fun n => ?_, hI', hpc', hmem, hopts, hsil.trans (silence_goto ..)⟩
    rw [List.length_cons, Nat.add_right_comm, tagMixAudio_step (by rw [hpc]; exact id)
      (by rw [mixAudioStep, hpc, hs₁])]
    exact hrun n

/-- The packet is dropped. -/
def Dropped (s : State k) (t : ℤ) (silent : Bool) : Prop :=
  s.opts.silenceDrop = true ∧ silent = true ∧ 50 < (s.cast t).mixSilence + 1

instance (s : State k) (t : ℤ) (silent : Bool) : Decidable (Dropped s t silent) :=
  inferInstanceAs (Decidable (_ ∧ _ ∧ _))

/-- The test for silence, and the return. -/
theorem silence_pass (hI : Inv s) (hpc : (s.cast t).pc = .mixed p []) (silent : Bool) :
    ∃ s', (∀ n, tagMixAudio t silent (n + 2) s = some s') ∧ s'.mem = s.mem ∧
      (s'.cast t).pc = if Dropped s t silent then .get else .cast p := by
  obtain ⟨s', hs', -⟩ := BufferRuns.mixStep_inv t silent hI
  have hcheck : checkSilence s t p silent = some s' := by
    rw [mixStep, hpc] at hs'
    exact hs'
  have hmem : s'.mem = s.mem ∧
      (s'.cast t).pc = if Dropped s t silent then .get else .cast p := by
    rcases checkSilence_cases hcheck with ⟨hdrop, n, s₁, hs₁, rfl⟩ | ⟨hkeep, n, rfl⟩
    · obtain ⟨P, -, rfl⟩ := Option.map_eq_some_iff.mp hs₁
      exact ⟨rfl, (pc_goto ..).trans (if_pos hdrop).symm⟩
    · exact ⟨rfl, (pc_goto ..).trans (if_neg hkeep).symm⟩
  have hret : Returned (s'.cast t).pc := by
    rw [hmem.2]
    split_ifs <;> trivial
  refine ⟨s', fun n => ?_, hmem⟩
  rw [tagMixAudio_step (by rw [hpc]; exact id) (by rw [mixAudioStep, hpc, hs']), tagMixAudio,
    if_pos hret]

theorem mixlen_le {b : Buf k} (h : b ∈ pp) : mixlen s pp ≤ datalen (s.mem b) := by
  rw [mixlen, List.foldl_min]
  exact (min_le_right _ _).trans (List.min?_getD_le_of_mem (List.mem_map_of_mem h))

/-- **The packets are mixed** into the first one. -/
theorem mix_pass {q : Buf k} (hI : Inv s) (hpc : (s.cast t).pc = .pick [] (p :: q :: pp))
    (silent : Bool) :
    ∃ s', (∀ n, tagMixAudio t silent (n + 1) s = tagMixAudio t silent n s') ∧ Inv s' ∧
      (s'.cast t).pc = .mixed p (q :: pp) ∧ s'.mem = (mixPacks s p (q :: pp)).mem ∧
      s'.opts = s.opts ∧ (s'.cast t).mixSilence = (s.cast t).mixSilence := by
  obtain ⟨s', hs', hI'⟩ := BufferRuns.mixStep_inv (s := mixPacks s p (q :: pp)) t silent hI
  have hstep : mixAudioStep s t silent = some s' := by
    rw [mixAudioStep, hpc]
    exact hs'
  have hgoto : some ((mixPacks s p (q :: pp)).goto t (.mixed p (q :: pp))) = some s' := by
    have hpc' : ((mixPacks s p (q :: pp)).cast t).pc = .pick [] (p :: q :: pp) := hpc
    rw [mixStep, hpc'] at hs'
    exact hs'
  cases hgoto
  exact ⟨_, fun n => tagMixAudio_step (by rw [hpc]; exact id) hstep n, hI', pc_goto .., rfl, rfl,
    silence_goto ..⟩

/-- The samples of the mix. -/
theorem sample_mixPacks (h : datalen (s.mem p) ≤ (s.mem p).data.data.length) (i : ℕ) :
    sample ((mixPacks s p pp).mem p).data.data i =
      if i < mixlen s (p :: pp) / 2 then
        saturate ((p :: pp).map fun b => sample (s.mem b).data.data i).sum
      else sample (s.mem p).data.data i := by
  have hle : mixlen s (p :: pp) ≤ datalen (s.mem p) := mixlen_le List.mem_cons_self
  have hdata : ((mixPacks s p pp).mem p).data.data =
      pcmMix ((p :: pp).map fun b => (s.mem b).data.data) (mixlen s (p :: pp) / 2) := by
    simp only [mixPacks, State.setMem, Function.update_self]
  rw [hdata, sample_pcmMix (by rw [List.map_cons, List.headD_cons]; omega), List.map_map]
  rfl

end Mix

/-! ## The packet that is returned -/

section Content
variable {s : State k} {t : ℤ}

/-- The thread begins to pick packets, and at least two will be mixed. -/
def Ready (s : State k) (t : ℤ) : Prop :=
  Apart (· ≠ none) (slotsOf s t) ∧ (s.cast t).pc = .pick allSlots [] ∧
    2 ≤ (contributions s t allSlots).length ∧
    ∀ b ∈ contributions s t allSlots, Whole (s.mem b)

instance (s : State k) (t : ℤ) : Decidable (Ready s t) :=
  have : Decidable (Apart (· ≠ none) (slotsOf s t)) :=
    inferInstanceAs (Decidable (∀ i j,
      slotsOf s t i ≠ none → slotsOf s t i = slotsOf s t j → i = j))
  inferInstanceAs (Decidable (_ ∧ _ ∧ _ ∧ _))

/-- **The mix of at least two packets.**  As many samples as the shortest packet has are the sums
over all packets; the first packet keeps the rest of its own. -/
theorem tagMixAudio_content (hI : Inv s) (h : Ready s t) (silent : Bool) :
    ∃ p s', (contributions s t allSlots).head? = some p ∧
      tagMixAudio t silent mixFuel s = some s' ∧
      (s'.cast t).pc = (if Dropped s t silent then .get else .cast p) ∧
      datalen (s'.mem p) = datalen (s.mem p) ∧
      ∀ i, sample (s'.mem p).data.data i =
        if i < mixlen s (contributions s t allSlots) / 2 then
          saturate ((contributions s t allSlots).map fun b => packSample (s.mem b) i).sum
        else packSample (s.mem p) i := by
  obtain ⟨ha, hpc, hc, hwhole⟩ := h
  have hbound : (contributions s t allSlots).length ≤ 8 :=
    (List.length_filterMap_le _ _).trans_eq List.length_finRange
  obtain ⟨s₁, hrun₁, h₁⟩ := pick_pass hI ha (List.nodup_finRange 8) hpc silent
  rw [show List.finRange 8 = allSlots from rfl] at h₁
  have hfilled : ∀ b ∈ contributions s t allSlots, s₁.mem b = fillZero (s.mem b) :=
    fun b hb => (h₁.mem b).trans (if_pos hb)
  have hpc₁ := h₁.pc
  rw [List.nil_append] at hpc₁
  generalize contributions s t allSlots = bs at *
  match bs, hc with
  | p :: q :: pp, _ =>
    obtain ⟨s₂, hrun₂, hI₂, hpc₂, hmem₂, hopts₂, hsil₂⟩ := mix_pass h₁.inv hpc₁ silent
    obtain ⟨s₃, hrun₃, hI₃, hpc₃, hmem₃, hopts₃, hsil₃⟩ := free_pass hI₂ hpc₂ silent
    obtain ⟨s', hrun', hmem', hpc'⟩ := silence_pass hI₃ hpc₃ silent
    have hp : s₁.mem p = fillZero (s.mem p) := hfilled p List.mem_cons_self
    have hlen : mixlen s₁ (p :: q :: pp) = mixlen s (p :: q :: pp) := by
      unfold mixlen
      rw [List.map_congr_left fun b hb => by rw [hfilled b hb, datalen_fillZero]]
    have hsum : ∀ i, ((p :: q :: pp).map fun b => sample (s₁.mem b).data.data i) =
        (p :: q :: pp).map fun b => packSample (s.mem b) i := fun i =>
      List.map_congr_left fun b hb => by rw [hfilled b hb, sample_fillZero]
    have hmem : s'.mem = (mixPacks s₁ p (q :: pp)).mem := hmem'.trans (hmem₃.trans hmem₂)
    have hdrop : Dropped s₃ t silent ↔ Dropped s t silent := by
      unfold Dropped
      rw [hopts₃, hopts₂, h₁.opts, hsil₃, hsil₂, h₁.silence]
    refine ⟨p, s', rfl, ?_, ?_, ?_, fun i => ?_⟩
    · -- eight slots, the mix, at most seven packets that are freed
      obtain ⟨n, hn⟩ := Nat.exists_eq_add_of_le (show (q :: pp).length ≤ 7 by
        rw [List.length_cons] at hbound
        omega)
      calc tagMixAudio t silent mixFuel s
          = tagMixAudio t silent (7 + 2 + 1) s₁ := hrun₁ (7 + 2 + 1)
        _ = tagMixAudio t silent ((q :: pp).length + (n + 2)) s₂ := by
            rw [hrun₂, hn, Nat.add_assoc]
        _ = some s' := by rw [hrun₃, hrun']
    · rw [hpc']
      simp only [hdrop]
    · rw [hmem]
      show datalen ((mixPacks s₁ p (q :: pp)).mem p) = _
      have : datalen ((mixPacks s₁ p (q :: pp)).mem p) = datalen (s₁.mem p) := by
        simp only [mixPacks, State.setMem, Function.update_self, datalen]
      rw [this, hp, datalen_fillZero]
    · have hsamples : datalen (s₁.mem p) ≤ (s₁.mem p).data.data.length := by
        rw [hp, datalen_fillZero]
        exact length_fillZero (hwhole p List.mem_cons_self)
      rw [hmem, sample_mixPacks hsamples, hlen, hsum, hp, sample_fillZero]

/-! ## Three packets -/

/-- A packet is returned, and a sample of it is not the sum over the packets that have it. -/
def Cuts (s : State k) (t : ℤ) (silent : Bool) (i : ℕ) : Prop :=
  ∃ p ∈ (contributions s t allSlots).head?, ∃ s' ∈ tagMixAudio t silent mixFuel s,
    (s'.cast t).pc = .cast p ∧ i < datalen (s.mem p) / 2 ∧
    sample (s'.mem p).data.data i ≠
      saturate (((contributions s t allSlots).filter fun b => i < datalen (s.mem b) / 2).map
        fun b => packSample (s.mem b) i).sum

instance (s : State k) (t : ℤ) (silent : Bool) (i : ℕ) : Decidable (Cuts s t silent i) :=
  inferInstanceAs (Decidable (∃ p ∈ (contributions s t allSlots).head?, _))

/-- **The shortest packet cuts the mix:** the first two packets have two samples, the third one has
one, and the second sample of the second packet is lost. -/
theorem shortest_cuts : ∃ s, Inv s ∧ Ready s 1 ∧ Cuts (k := packOrder) s 1 false 1 := by
  have hrun : (run Buffers.step threeStart (threeSent 2 [1, 0, 1, 0] [1, 0, 1, 0] [1, 0])).map
      (fun s => decide (Ready s 1 ∧ Cuts s 1 false 1)) = some true := by decide +kernel
  obtain ⟨s, hs, hd⟩ := Option.map_eq_some_iff.mp hrun
  exact ⟨s, inv_threeSent hs, of_decide_eq_true hd⟩

theorem tagMixAudio_content_three :
    ∃ s, run Buffers.step threeStart (threeSent 2 [1, 0, 1, 0] [1, 0, 1, 0] [1, 0]) = some s ∧
      ∃ p s', (contributions s 1 allSlots).head? = some p ∧
        tagMixAudio 1 true mixFuel s = some s' ∧
        (s'.cast 1).pc = (if Dropped s 1 true then .get else .cast p) ∧
        datalen (s'.mem p) = datalen (s.mem p) ∧
        ∀ i, sample (s'.mem p).data.data i =
          if i < mixlen s (contributions s 1 allSlots) / 2 then
            saturate ((contributions s 1 allSlots).map fun b => packSample (s.mem b) i).sum
          else packSample (s.mem p) i := by
  have hrun : (run Buffers.step threeStart (threeSent 2 [1, 0, 1, 0] [1, 0, 1, 0] [1, 0])).map
      (fun s => decide (Ready s 1)) = some true := by decide +kernel
  obtain ⟨s, hs, hd⟩ := Option.map_eq_some_iff.mp hrun
  exact ⟨s, hs, tagMixAudio_content (inv_threeSent hs) (of_decide_eq_true hd) true⟩

end Content

end GSConferencing.Serv.MixContent
