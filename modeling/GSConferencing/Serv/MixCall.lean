import GSConferencing.Serv.BufferRuns
import GSConferencing.Serv.Outstanding

/-!
# One call of `tag_mix_audio`

What the thread of a tag does to the queues and to the pool between `MIX_GET` and its return, while
the other threads go on.  A call has a log of what it dequeued and freed.

* `mixLog_run`: the log of a step is what the step does: every packet leaves a queue that is not
  empty, and no free buffer is freed.
* `flushQueue_newest`: a flush leaves the newest packet.
* `owned_along`: what has been dequeued is what has been freed and what the thread holds.
* `onePerDevice_along`: but for the flushes one packet of each device is dequeued at most.
-/

namespace GSConferencing.Serv.MixCall

open GSConferencing.Lib.Run GSConferencing.Lib.Slots
open GSConferencing.Include.Pack GSConferencing.Include.Cfifo
open GSConferencing.Serv.Dev GSConferencing.Serv.Tag GSConferencing.Serv.Packet
open GSConferencing.Serv.Server GSConferencing.Serv.Mixing GSConferencing.Serv.Buffers
open GSConferencing.Serv.MixFrame

variable {k : ℕ}

deriving instance DecidableEq for Pc

/-! ## Queues and pool -/

/-- What the thread does to the queues and the pool. -/
inductive Act (k : ℕ) where
  /-- `drop_queue_front`. -/
  | drop (d : ℤ) (b : Buf k)
  /-- `tag_out_dev_packet`. -/
  | take (d : ℤ) (b : Buf k)
  /-- `pack_free`. -/
  | free (b : Buf k)

namespace Act

/-- The packet that leaves a queue. -/
def out : Act k → Option (Buf k)
  | .drop _ b => some b
  | .take _ b => some b
  | .free _ => none

def freed : Act k → Option (Buf k)
  | .drop _ b => some b
  | .take _ _ => none
  | .free b => some b

/-- The device whose packet is taken to be mixed. -/
def takenFrom : Act k → Option ℤ
  | .take d _ => some d
  | _ => none

end Act

abbrev Log (k : ℕ) := List (Act k)

namespace Log

variable (l : Log k)

def outs : List (Buf k) := l.filterMap Act.out

def frees : List (Buf k) := l.filterMap Act.freed

def takenFrom : List ℤ := l.filterMap Act.takenFrom

end Log

/-- The queues and the pool. -/
abbrev Store (k : ℕ) := (ℤ → Fifo (Option (Buf k)) 5) × Pools k

def store (s : State k) : Store k := (s.fifo, s.pools)

/-- The packet `b` leaves the queue of `d`, which is not empty. -/
def outOf (m : Store k) (d : ℤ) (b : Buf k) : Option (Store k) :=
  if ¬ (m.1 d).empty ∧ (m.1 d).getOut = some b then
    some (Function.update m.1 d ((m.1 d).writeOut none).takeOut, m.2)
  else none

/-- The buffer `b`, which is not free, is freed. -/
def freeIn (m : Store k) (b : Buf k) : Option (Store k) := (m.2.packFree b).map fun P => (m.1, P)

def act (m : Store k) : Act k → Option (Store k)
  | .drop d b => (outOf m d b).bind fun m => freeIn m b
  | .take d b => outOf m d b
  | .free b => freeIn m b

/-! ## The log of a step -/

/-- `n` turns of the loop of `flush_queue`. -/
def dropLog (d : ℤ) : ℕ → State k → Log k
  | 0, _ => []
  | n + 1, s => match (s.fifo d).getOut with
    | none => []
    | some b => .drop d b :: (dropQueueFront s d).elim [] (dropLog d n)

/-- `flush_queue`. -/
def flushLog (s : State k) (d : ℤ) : Log k := dropLog d ((s.fifo d).len - 1) s

/-- The loop of `flush_all_queues`. -/
def flushAllLog (t : ℤ) : List (Fin 8) → State k → Log k
  | [], _ => []
  | i :: is, s => match (s.srv.tag t).mixDevs i with
    | none => flushAllLog t is s
    | some d => flushLog s d ++ (flushQueue s d).elim [] (flushAllLog t is)

/-- The body of the loop of `flush_queues`. -/
def flushSlotLog (s : State k) (t : ℤ) (i : Fin 8) : Log k :=
  match (s.srv.tag t).mixDevs i with
  | none => []
  | some d =>
    if 6 < (s.fifo d).len then flushLog s d
    else if 1 < (s.fifo d).len ∧ 180 < s.highload d + 1 then
      flushLog (s.setHighload d (s.highload d + 1)) d
    else []

/-- A turn of the loop of `wait_ref_queue`. -/
def waitRefLog (s : State k) (t d : ℤ) : Log k :=
  if (s.fifo d).empty ∧ (s.srv.dev d).mixbit ≠ 0 ∧ 300 < (s.srv.dev d).timeouts + 1 then
    flushAllLog t allSlots { s with srv := Outstanding.hung s.srv t d }
  else []

/-- The body of the second loop of `tag_mix_audio`. -/
def pickLog (s : State k) (t : ℤ) (i : Fin 8) : Log k :=
  match (s.srv.tag t).mixDevs i with
  | none => []
  | some d =>
    if (s.fifo d).empty then []
    else match (s.fifo d).getOut with
      | none => []
      | some b =>
        if maxpack - 100 < (htons (s.mem b).data.datalen).toNat then
          [.take d b, .free b]
        else [.take d b]

/-- The end of `tag_mix_audio`. -/
def silenceLog (s : State k) (t : ℤ) (p : Buf k) (silent : Bool) : Log k :=
  if s.opts.silenceDrop ∧ silent ∧ 50 < (s.cast t).mixSilence + 1 then [.free p] else []

/-- **What a step of the thread dequeues and frees,** up to the return of `tag_mix_audio`. -/
def mixLog (s : State k) (t : ℤ) (silent : Bool) : Log k :=
  match (s.cast t).pc with
  | .flush (i :: _) => flushSlotLog s t i
  | .waitRef d => waitRefLog s t d
  | .pick (i :: _) _ => pickLog s t i
  | .mixed _ (q :: _) => [.free q]
  | .mixed p [] => silenceLog s t p silent
  | _ => []

section Log
variable {s s' : State k} {t d : ℤ} {b : Buf k}

theorem store_packFree (h : s.packFree (some b) = some s') :
    freeIn (store s) b = some (store s') ∧ s'.cast = s.cast := by
  obtain ⟨P, hP, rfl⟩ := Option.map_eq_some_iff.mp h
  refine ⟨?_, rfl⟩
  rw [freeIn, show (store s).2.packFree b = some P from hP]
  rfl

theorem store_out (hne : ¬ (s.fifo d).empty) (hb : (s.fifo d).getOut = some b) :
    outOf (store s) d b = some (store (outFifo s d)) := if_pos ⟨hne, hb⟩

theorem contents_outFifo (s : State k) (d : ℤ) :
    ((outFifo s d).fifo d).contents = (s.fifo d).takeOut.contents := by
  rw [show (outFifo s d).fifo d = ((s.fifo d).writeOut none).takeOut from Function.update_self ..,
    contents_writeOut]

theorem fifo_outFifo {d' : ℤ} (h : d' ≠ d) : (outFifo s d).fifo d' = s.fifo d' :=
  Function.update_of_ne h ..

theorem not_empty_of_len {cf : Fifo (Option (Buf k)) 5} (h : 0 < cf.len) : ¬ cf.empty := by
  rw [empty_iff, ← List.length_eq_zero_iff, length_contents]
  omega

/-- What the turns of a flush do. -/
theorem dropLog_run {n : ℕ} (hn : n ≤ (s.fifo d).len) (h : dropFronts d n s = some s') :
    run act (store s) (dropLog d n s) = some (store s') ∧ s'.cast = s.cast ∧
      (s'.fifo d).contents = (s.fifo d).contents.drop n ∧
      (∀ d', d' ≠ d → s'.fifo d' = s.fifo d') := by
  induction n generalizing s with
  | zero =>
    cases h
    exact ⟨rfl, rfl, rfl, fun _ _ => rfl⟩
  | succ n ih =>
    have hne := not_empty_of_len (Nat.lt_of_lt_of_le n.succ_pos hn)
    obtain ⟨s₁, hs₁, h⟩ := Option.bind_eq_some_iff.mp h
    have hs₁' := hs₁
    unfold dropQueueFront at hs₁'
    cases hb : (s.fifo d).getOut with
    | none =>
      rw [hb] at hs₁'
      cases hs₁'
    | some b =>
      rw [hb] at hs₁'
      obtain ⟨hfree, hcast⟩ := store_packFree hs₁'
      have hfifo : s₁.fifo = (outFifo s d).fifo := by
        obtain ⟨P, -, rfl⟩ := Option.map_eq_some_iff.mp hs₁'
        rfl
      have hcont : (s.fifo d).contents = some b :: (s₁.fifo d).contents := by
        rw [hfifo, contents_outFifo, contents_out hne, hb]
      have hlen : (s.fifo d).len = (s₁.fifo d).len + 1 := by
        rw [← length_contents, hcont, List.length_cons, length_contents]
      obtain ⟨hrun, hcast', hdrop, hother⟩ := ih (by omega) h
      refine ⟨?_, hcast'.trans hcast, ?_, fun d' hd' => ?_⟩
      · rw [dropLog, hb, hs₁]
        show run act (store s) (.drop d b :: dropLog d n s₁) = _
        rw [run_cons, act, store_out hne hb, Option.bind_some, hfree]
        exact hrun
      · rw [hdrop, hcont, List.drop_succ_cons]
      · rw [hother d' hd', hfifo, fifo_outFifo hd']

/-- **A flush** leaves the newest packet, and the other queues as they are. -/
theorem flushQueue_newest (h : flushQueue s d = some s') :
    (s'.fifo d).contents = (s.fifo d).contents.getLast?.toList ∧
      ∀ d', d' ≠ d → s'.fifo d' = s.fifo d' := by
  obtain ⟨-, -, hdrop, hother⟩ := dropLog_run (Nat.sub_le _ 1) h
  refine ⟨?_, hother⟩
  rw [hdrop, ← length_contents]
  rcases List.eq_nil_or_concat (s.fifo d).contents with hnil | ⟨l, x, hl⟩
  · rw [hnil]
    rfl
  · rw [hl, List.concat_eq_append, List.length_append, List.length_singleton,
      Nat.add_sub_cancel, List.drop_left, List.getLast?_append, List.getLast?_singleton]
    rfl

theorem flushAllLog_run {is : List (Fin 8)} (h : flushAllQueues t is s = some s') :
    run act (store s) (flushAllLog t is s) = some (store s') ∧ s'.cast = s.cast := by
  induction is generalizing s with
  | nil =>
    cases h
    exact ⟨rfl, rfl⟩
  | cons i is ih =>
    unfold flushAllQueues at h
    unfold flushAllLog
    cases hi : (s.srv.tag t).mixDevs i with
    | none =>
      simp only [hi] at h ⊢
      exact ih h
    | some d =>
      simp only [hi] at h ⊢
      obtain ⟨s₁, hs₁, h⟩ := Option.bind_eq_some_iff.mp h
      obtain ⟨hrun, hcast, -⟩ := dropLog_run (Nat.sub_le _ 1) hs₁
      obtain ⟨hrun', hcast'⟩ := ih h
      refine ⟨?_, hcast'.trans hcast⟩
      simp only [hs₁, Option.elim_some, run_append]
      rw [flushLog, hrun]
      exact hrun'

theorem flushSlotLog_run {i : Fin 8} (h : flushSlot s t i = some s') :
    run act (store s) (flushSlotLog s t i) = some (store s') ∧ s'.cast = s.cast := by
  unfold flushSlot at h
  unfold flushSlotLog
  cases hi : (s.srv.tag t).mixDevs i with
  | none =>
    simp only [hi] at h ⊢
    cases h
    exact ⟨rfl, rfl⟩
  | some d =>
    have hload : (s.setHighload d (s.highload d + 1)).highload d = s.highload d + 1 :=
      Function.update_self ..
    simp only [hi, hload] at h ⊢
    split_ifs at h with hlen hmany hhigh
    · obtain ⟨hrun, hcast, -⟩ := dropLog_run (Nat.sub_le _ 1) h
      rw [if_pos hlen]
      exact ⟨hrun, hcast⟩
    · obtain ⟨hrun, hcast, -⟩ :=
        dropLog_run (s := s.setHighload d (s.highload d + 1)) (Nat.sub_le _ 1) h
      rw [if_neg hlen, if_pos ⟨hmany, hhigh⟩]
      exact ⟨hrun, hcast⟩
    · cases h
      rw [if_neg hlen, if_neg fun hn => hhigh hn.2]
      exact ⟨rfl, rfl⟩
    · cases h
      rw [if_neg hlen, if_neg fun hn => hmany hn.1]
      exact ⟨rfl, rfl⟩

/-- The flushes dequeue what they free. -/
def Drops (l : Log k) : Prop := ∀ a ∈ l, ∃ d b, a = .drop d b

theorem Drops.outs {l : Log k} (h : Drops l) : l.outs = l.frees := by
  refine List.filterMap_congr fun a ha => ?_
  obtain ⟨d, b, rfl⟩ := h a ha
  rfl

theorem Drops.takenFrom {l : Log k} (h : Drops l) : l.takenFrom = [] := by
  refine List.filterMap_eq_nil_iff.mpr fun a ha => ?_
  obtain ⟨d, b, rfl⟩ := h a ha
  rfl

theorem drops_nil : Drops ([] : Log k) := List.forall_mem_nil _

theorem Drops.append {l l' : Log k} (h : Drops l) (h' : Drops l') : Drops (l ++ l') :=
  fun a ha => (List.mem_append.mp ha).elim (h a) (h' a)

theorem drops_dropLog (d : ℤ) (n : ℕ) (s : State k) : Drops (dropLog d n s) := by
  induction n generalizing s with
  | zero => exact drops_nil
  | succ n ih =>
    unfold dropLog
    split
    · exact drops_nil
    · next b hb =>
      refine List.forall_mem_cons.mpr ⟨⟨d, b, rfl⟩, ?_⟩
      cases dropQueueFront s d with
      | none => exact drops_nil
      | some s₁ => exact ih s₁

theorem drops_flushAllLog (t : ℤ) (is : List (Fin 8)) (s : State k) :
    Drops (flushAllLog t is s) := by
  induction is generalizing s with
  | nil => exact drops_nil
  | cons i is ih =>
    unfold flushAllLog
    split
    · exact ih s
    · next d hd =>
      refine (drops_dropLog d _ s).append ?_
      cases flushQueue s d with
      | none => exact drops_nil
      | some s₁ => exact ih s₁

theorem drops_flushSlotLog (s : State k) (t : ℤ) (i : Fin 8) : Drops (flushSlotLog s t i) := by
  unfold flushSlotLog
  split
  · exact drops_nil
  · split_ifs
    · exact drops_dropLog _ _ _
    · exact drops_dropLog _ _ _
    · exact drops_nil

theorem drops_waitRefLog (s : State k) (t d : ℤ) : Drops (waitRefLog s t d) := by
  unfold waitRefLog
  split
  · exact drops_flushAllLog _ _ _
  · exact drops_nil

/-- The packets that a step dequeues, and those that the thread held before, are the packets that it
frees, and those that it holds then. -/
def Balanced (l : Log k) (hands hands' : List (Buf k)) : Prop :=
  (l.outs ++ hands).Perm (l.frees ++ hands')

theorem Drops.balanced {l : Log k} (h : Drops l) (hands : List (Buf k)) :
    Balanced l hands hands := by
  rw [Balanced, h.outs]

/-- What a step of the thread does. -/
structure StepLog (s : State k) (t : ℤ) (l : Log k) (s' : State k) : Prop where
  does : run act (store s) l = some (store s')
  hands : Balanced l (s.cast t).pc.hands (s'.cast t).pc.hands

theorem pc_goto (s : State k) (t : ℤ) (pc : Pc k) : ((s.goto t pc).cast t).pc = pc := by
  simp [State.goto, State.setCast]

/-- A flush of a thread that holds nothing. -/
theorem stepLog_drops {s₁ : State k} {l : Log k} {pc : Pc k} (hl : Drops l)
    (hs : (s.cast t).pc.hands = []) (hpc : pc.hands = [])
    (hrun : run act (store s) l = some (store s₁)) : StepLog s t l (s₁.goto t pc) where
  does := hrun
  hands := by
    rw [pc_goto, hs, hpc]
    exact hl.balanced []

/-- A step that leaves queues and pool alone. -/
theorem stepLog_same {pc : Pc k} (hpc : (s'.cast t).pc = pc) (hs : (s.cast t).pc.hands = pc.hands)
    (hstore : store s' = store s) : StepLog s t [] s' where
  does := by
    rw [hstore]
    rfl
  hands := by
    rw [hpc, hs]
    exact drops_nil.balanced _

theorem mixGet_stepLog (hs : (s.cast t).pc.hands = []) : StepLog s t [] (mixGet s t) := by
  unfold mixGet
  split
  · exact stepLog_same rfl rfl rfl
  · split_ifs
    · exact stepLog_same (pc_goto ..) hs rfl
    · exact stepLog_same (pc_goto ..) hs rfl
    · exact stepLog_same rfl rfl rfl

theorem waitTurn_stepLog {n : ℕ} (hs : (s.cast t).pc.hands = []) :
    StepLog s t [] (waitTurn s t n) := by
  unfold waitTurn
  split
  · simp only []
    split_ifs
    all_goals exact stepLog_same (pc_goto ..) hs rfl
  · split_ifs
    all_goals exact stepLog_same (pc_goto ..) hs rfl
  · split
    all_goals exact stepLog_same (pc_goto ..) hs rfl

theorem waitRef_stepLog (hpc : (s.cast t).pc = .waitRef d) (h : waitRefTurn s t d = some s') :
    StepLog s t (waitRefLog s t d) s' := by
  have hs : (s.cast t).pc.hands = [] := by rw [hpc]; rfl
  have hcount : ((s.srv.setDev d fun D => { D with timeouts := D.timeouts + 1 }).dev d).timeouts =
      (s.srv.dev d).timeouts + 1 := by simp [Server.setDev]
  unfold waitRefTurn at h
  unfold waitRefLog
  simp only [hcount] at h
  split_ifs at h with hempty hbit hlong
  · cases h
    rw [if_neg fun hn => hn.2.1 hbit]
    exact stepLog_same (pc_goto ..) hs rfl
  · obtain ⟨s₁, hs₁, rfl⟩ := Option.map_eq_some_iff.mp h
    have hhung : Outstanding.hung s.srv t d =
        tagRmOutstanding (s.srv.setDev d fun D => { D with timeouts := D.timeouts + 1 }) t d := by
      simp only [Outstanding.hung, hcount, if_pos hlong]
    rw [if_pos ⟨hempty, hbit, hlong⟩, hhung]
    exact stepLog_drops (drops_flushAllLog _ _ _) hs rfl (flushAllLog_run hs₁).1
  · cases h
    rw [if_neg fun hn => hlong hn.2.2]
    exact stepLog_same rfl rfl rfl
  · cases h
    rw [if_neg fun hn => hempty hn.1]
    exact stepLog_same (pc_goto ..) hs rfl

theorem pick_stepLog {i : Fin 8} {is : List (Fin 8)} {pp : List (Buf k)}
    (hpc : (s.cast t).pc = .pick (i :: is) pp) (h : pickSlot s t i is pp = some s') :
    StepLog s t (pickLog s t i) s' := by
  have hs : (s.cast t).pc.hands = pp := by rw [hpc]; rfl
  unfold pickLog
  rcases pickSlot_cases h with ⟨hnone, rfl⟩ | ⟨d, b, r, hi, hempty, hb, rfl, hcase⟩
  · have hlog : pickLog s t i = [] := by
      unfold pickLog
      split
      · rfl
      · next d hd => exact if_pos (hnone d hd)
    rw [pickLog] at hlog
    rw [hlog]
    exact stepLog_same (pc_goto ..) hs rfl
  simp only [hi, if_neg hempty, hb]
  rcases hcase with ⟨hlong, s₁, hs₁, rfl⟩ | ⟨hlong, rfl⟩
  · rw [if_pos hlong]
    refine ⟨?_, ?_⟩
    · rw [run_cons, act, store_out hempty hb, Option.bind_some, run_cons, act]
      exact congrArg (·.bind fun s' => run act s' []) (store_packFree hs₁).1
    · rw [pc_goto, hs]
      exact List.Perm.refl _
  · rw [if_neg hlong]
    refine ⟨?_, ?_⟩
    · rw [run_cons, act, store_out hempty hb]
      rfl
    · rw [pc_goto, hs]
      exact (List.perm_append_singleton b pp).symm

theorem silence_stepLog {p : Buf k} {silent : Bool} (hpc : (s.cast t).pc = .mixed p [])
    (h : checkSilence s t p silent = some s') : StepLog s t (silenceLog s t p silent) s' := by
  have hs : (s.cast t).pc.hands = [p] := by rw [hpc]; rfl
  unfold silenceLog
  rcases checkSilence_cases h with ⟨hdrop, n, s₁, hs₁, rfl⟩ | ⟨hkeep, n, rfl⟩
  · rw [if_pos hdrop]
    refine ⟨?_, ?_⟩
    · rw [run_cons, act]
      exact congrArg (·.bind fun s' => run act s' []) (store_packFree hs₁).1
    · rw [pc_goto, hs]
      exact List.Perm.refl _
  · rw [if_neg hkeep]
    exact stepLog_same (pc_goto ..) hs rfl

/-- **A step of the thread** is what its log says. -/
theorem mixLog_run {silent : Bool} (hcast : ∀ p, (s.cast t).pc ≠ .cast p)
    (h : mixStep s t silent = some s') : StepLog s t (mixLog s t silent) s' := by
  unfold mixStep at h
  unfold mixLog
  split at h <;> rename_i hpc <;> rw [hpc]
  · cases h
    exact mixGet_stepLog (by rw [hpc]; rfl)
  · cases h
    exact stepLog_same (pc_goto ..) (by rw [hpc]; rfl) rfl
  · obtain ⟨s₁, hs₁, rfl⟩ := Option.map_eq_some_iff.mp h
    exact stepLog_drops (drops_flushSlotLog s t _) (by rw [hpc]; rfl) rfl (flushSlotLog_run hs₁).1
  · cases h
    exact waitTurn_stepLog (by rw [hpc]; rfl)
  · exact waitRef_stepLog hpc h
  · exact pick_stepLog hpc h
  · cases h
    exact stepLog_same (pc_goto ..) (by rw [hpc]; rfl) rfl
  · cases h
    exact stepLog_same (pc_goto ..) (by rw [hpc]; rfl) rfl
  · obtain ⟨s₁, hs₁, rfl⟩ := Option.map_eq_some_iff.mp h
    refine ⟨?_, ?_⟩
    · rw [run_cons, act]
      exact congrArg (·.bind fun s' => run act s' []) (store_packFree hs₁).1
    · rw [pc_goto, hpc]
      exact List.Perm.swap ..
  · exact silence_stepLog hpc h
  · exact absurd hpc (hcast _)

end Log

/-! ## What the other threads leave alone -/

section Frame
variable {s s' : State k} {t t' d : ℤ}

theorem cast_setCast (h : t' ≠ t) (s : State k) (T : TagCast k) :
    (s.setCast t T).cast t' = s.cast t' :=
  Function.update_of_ne h ..

theorem cast_goto (h : t' ≠ t) (s : State k) (pc : Pc k) : (s.goto t pc).cast t' = s.cast t' :=
  cast_setCast h s _

theorem cast_packFree {o : Option (Buf k)} (h : s.packFree o = some s') : s'.cast = s.cast := by
  cases o with
  | none => cases h
  | some b => exact (store_packFree h).2

theorem cast_outdatePack {p : Buf k} (ht : t' ≠ t) (h : outdatePack s t p = some s') :
    s'.cast t' = s.cast t' := by
  have hkeep : (keepPack s t p).cast t' = s.cast t' := cast_setCast ht ..
  unfold outdatePack at h
  split at h
  · cases h
    exact hkeep
  · rw [cast_packFree h, hkeep]

/-- The thread of a tag leaves those of the other tags where they are. -/
theorem cast_mixStep {silent : Bool} (ht : t' ≠ t) (h : mixStep s t silent = some s') :
    s'.cast t' = s.cast t' := by
  by_cases hcast : ∃ p, (s.cast t).pc = .cast p
  · obtain ⟨p, hp⟩ := hcast
    unfold mixStep at h
    rw [hp] at h
    obtain ⟨s₁, hs₁, rfl⟩ := Option.map_eq_some_iff.mp h
    rw [cast_goto ht, cast_outdatePack ht hs₁]
    exact cast_setCast ht ..
  · push Not at hcast
    exact mixStep_same (v := fun s => s.cast t') (fun _ _ => rfl) (fun _ _ _ => rfl)
      (fun _ _ => rfl) (fun _ _ => cast_goto ht ..) (fun _ _ _ => rfl) (fun _ _ _ _ _ => rfl)
      (fun _ _ => cast_setCast ht ..) hcast h

/-- The slots of a tag. -/
def slotsOf (s : State k) (t : ℤ) : Fin 8 → Option ℤ := (s.srv.tag t).mixDevs

theorem slots_heartbeat (srv : Server) (d t : ℤ) :
    ((heartbeat srv d).tag t).mixDevs = (srv.tag t).mixDevs :=
  congrFun (congrArg OpenView.View.slot (OpenView.view_heartbeat srv d)) t

/-- The events of the threads that neither mix nor control. -/
def Receives : Buffers.Event → Prop
  | .mix _ _ => False
  | .control _ => False
  | _ => True

theorem receiver_frame {e : Buffers.Event} (h : Buffers.step s e = some s') (he : Receives e)
    (t : ℤ) :
    s'.cast = s.cast ∧ slotsOf s' t = slotsOf s t := by
  have hbeat : ∀ (s : State k) d, (s.cast, slotsOf { s with srv := heartbeat s.srv d } t) =
      (s.cast, slotsOf s t) := fun s d => congrArg (Prod.mk _) (slots_heartbeat s.srv d t)
  refine Prod.mk.inj (receive_same (v := fun s => (s.cast, slotsOf s t)) (fun _ _ _ => rfl) hbeat
    (fun _ _ => rfl) (fun _ _ => rfl) (fun _ _ _ => rfl) (fun _ _ _ _ => rfl) ?_ ?_ h)
  · rintro t silent rfl
    exact he
  · rintro srv rfl
    exact he

end Frame

/-! ## The call -/

/-- A call in progress, and its log. -/
structure Call (k : ℕ) where
  state : State k
  log : Log k

/-- `tag_mix_audio` has returned: nothing, or a packet to cast. -/
def Returned : Pc k → Prop
  | .get => True
  | .cast _ => True
  | _ => False

instance : ∀ pc : Pc k, Decidable (Returned pc)
  | .get => .isTrue trivial
  | .cast _ => .isTrue trivial
  | .flush _ | .wait _ | .waitRef _ | .pick _ _ | .mixed _ _ => .isFalse not_false

/-- One event: a step of the thread of the tag `t`, which stops at its return, or of another one. -/
def step (t : ℤ) (c : Call k) (e : Buffers.Event) : Option (Call k) :=
  match e with
  | .mix t' silent =>
    if t' = t then
      if Returned (c.state.cast t).pc then some c
      else (mixStep c.state t silent).map fun s => ⟨s, c.log ++ mixLog c.state t silent⟩
    else (Buffers.step c.state e).map fun s => ⟨s, c.log⟩
  | e => (Buffers.step c.state e).map fun s => ⟨s, c.log⟩

/-- The thread is where `tag_mix_audio` starts. -/
def Entered (s : State k) (t : ℤ) : Prop :=
  (s.cast t).pc = .flush allSlots ∨ (s.cast t).pc = .wait 0

/-- What has been dequeued has been freed, or the thread has it; at the return this is the packet
that is returned, if there is one. -/
structure Owned (t : ℤ) (c : Call k) : Prop where
  held : c.log.outs.Perm (c.log.frees ++ (c.state.cast t).pc.hands)
  nothing : (c.state.cast t).pc = .get → c.log.outs.Perm c.log.frees
  packet : ∀ p, (c.state.cast t).pc = .cast p → c.log.outs.Perm (c.log.frees ++ [p])

section Call
variable {t : ℤ} {c c' : Call k}

/-- **One event of a call:** a step of its thread, or one that neither moves the thread nor is
logged. -/
theorem step_cases {e : Buffers.Event} (h : step t c e = some c') :
    (∃ silent s', ¬ Returned (c.state.cast t).pc ∧ mixStep c.state t silent = some s' ∧
      c' = ⟨s', c.log ++ mixLog c.state t silent⟩) ∨
    (c' = c) ∨
    (∃ s', c' = ⟨s', c.log⟩ ∧ s'.cast t = c.state.cast t ∧
      (slotsOf s' t = slotsOf c.state t ∨
        ∃ srv, e = .control srv ∧ slotsOf s' t = (srv.tag t).mixDevs)) := by
  cases e with
  | mix t' silent =>
    simp only [step] at h
    split_ifs at h with ht hret
    · cases h
      exact .inr (.inl rfl)
    · obtain ⟨s', hs', rfl⟩ := Option.map_eq_some_iff.mp h
      exact .inl ⟨silent, s', hret, hs', rfl⟩
    · obtain ⟨s', hs', rfl⟩ := Option.map_eq_some_iff.mp h
      simp only [Buffers.step] at hs'
      split_ifs at hs'
      · exact .inr (.inr ⟨s', rfl, cast_mixStep (Ne.symm ht) hs', .inl (congrArg Tag.mixDevs
          ((Outstanding.cleared_mixStep hs').other t (Ne.symm ht)))⟩)
      · cases hs'
        exact .inr (.inr ⟨c.state, rfl, rfl, .inl rfl⟩)
  | control srv =>
    simp only [step] at h
    obtain ⟨s', hs', rfl⟩ := Option.map_eq_some_iff.mp h
    cases hs'
    exact .inr (.inr ⟨_, rfl, rfl, .inr ⟨srv, rfl, rfl⟩⟩)
  | _ =>
    simp only [step] at h
    obtain ⟨s', hs', rfl⟩ := Option.map_eq_some_iff.mp h
    obtain ⟨hcast, hslots⟩ := receiver_frame hs' trivial t
    exact .inr (.inr ⟨s', rfl, congrFun hcast t, .inl hslots⟩)

theorem not_cast_of_running {s : State k} (h : ¬ Returned (s.cast t).pc) (p : Buf k) :
    (s.cast t).pc ≠ .cast p := by
  intro hpc
  rw [hpc] at h
  exact h trivial

theorem outs_append (l l' : Log k) : Log.outs (l ++ l') = l.outs ++ l'.outs :=
  List.filterMap_append ..

theorem frees_append (l l' : Log k) : Log.frees (l ++ l') = l.frees ++ l'.frees :=
  List.filterMap_append ..

/-- The account of a call. -/
def Account (t : ℤ) (c : Call k) : Prop :=
  c.log.outs.Perm (c.log.frees ++ (c.state.cast t).pc.hands)

theorem Account.owned (h : Account t c) : Owned t c where
  held := h
  nothing hpc := by
    have := h
    rw [Account, hpc] at this
    exact this.trans (List.Perm.of_eq (List.append_nil _))
  packet p hpc := by
    have := h
    rwa [Account, hpc] at this

/-- **The account is kept.** -/
theorem step_account {e : Buffers.Event} (h : Account t c) (hs : step t c e = some c') :
    Account t c' := by
  rcases step_cases hs with ⟨silent, s', hrun, hs', rfl⟩ | rfl | ⟨s', rfl, hcast, -⟩
  · have hbal := (mixLog_run (not_cast_of_running hrun) hs').hands
    rw [Account]
    show (Log.outs (_ ++ _)).Perm (Log.frees (_ ++ _) ++ _)
    rw [outs_append, frees_append]
    calc (c.log.outs ++ (mixLog c.state t silent).outs).Perm
          ((c.log.frees ++ (c.state.cast t).pc.hands) ++ (mixLog c.state t silent).outs) :=
            h.append_right _
      _ = c.log.frees ++ ((c.state.cast t).pc.hands ++ (mixLog c.state t silent).outs) :=
            List.append_assoc ..
      (c.log.frees ++ ((c.state.cast t).pc.hands ++ (mixLog c.state t silent).outs)).Perm
          (c.log.frees ++ ((mixLog c.state t silent).frees ++ (s'.cast t).pc.hands)) :=
            (List.perm_append_comm.trans hbal).append_left _
      _ = c.log.frees ++ (mixLog c.state t silent).frees ++ (s'.cast t).pc.hands :=
            (List.append_assoc ..).symm
  · exact h
  · rw [Account]
    show c.log.outs.Perm (c.log.frees ++ (s'.cast t).pc.hands)
    rw [hcast]
    exact h

theorem account_start {s : State k} (h : Entered s t) : Account t ⟨s, []⟩ := by
  rcases h with h | h <;>
  · rw [Account, h]
    exact List.Perm.refl _

/-- **Along every call** what is dequeued is freed or returned. -/
theorem owned_along {s : State k} (h : Entered s t) (es : List Buffers.Event) :
    Along (step t) (Owned t) ⟨s, []⟩ es :=
  along_of_guarded (I := Account t) (G := fun _ _ => True) (E := fun _ => True)
    (fun _ h => h.owned) (fun _ _ _ h _ _ hs => step_account h hs) (account_start h)
    (fun _ _ => trivial) (guarded_true _ es)

end Call

/-! ## One packet of each device -/

/-- The thread has not begun to pick packets. -/
def Waits : Pc k → Prop
  | .flush _ => True
  | .wait _ => True
  | .waitRef _ => True
  | _ => False

/-- The thread has picked its packets. -/
def Mixes : Pc k → Prop
  | .pick [] _ => True
  | .mixed _ _ => True
  | _ => False

section Pick
variable {s s' : State k} {t : ℤ} {silent : Bool} {c c' : Call k}

/-- A thread that waits goes on waiting, returns, or begins to pick at the first slot. -/
theorem waits_next (hw : Waits (s.cast t).pc) (h : mixStep s t silent = some s') :
    Waits (s'.cast t).pc ∨ (s'.cast t).pc = .pick allSlots [] ∨ (s'.cast t).pc = .get := by
  unfold mixStep at h
  split at h <;> rename_i hpc <;> rw [hpc] at hw
  · exact hw.elim
  · cases h
    exact .inl (by rw [pc_goto]; trivial)
  · obtain ⟨s₁, -, rfl⟩ := Option.map_eq_some_iff.mp h
    exact .inl (by rw [pc_goto]; trivial)
  · cases h
    unfold waitTurn
    split
    · simp only []
      split_ifs
      · exact .inr (.inl (pc_goto ..))
      · exact .inr (.inr (pc_goto ..))
      · exact .inl (by rw [pc_goto]; trivial)
    · split_ifs
      · exact .inr (.inl (pc_goto ..))
      · exact .inl (by rw [pc_goto]; trivial)
    · split
      · exact .inr (.inr (pc_goto ..))
      · exact .inl (by rw [pc_goto]; trivial)
  · unfold waitRefTurn at h
    simp only [] at h
    split_ifs at h
    · cases h
      exact .inr (.inr (pc_goto ..))
    · obtain ⟨s₁, -, rfl⟩ := Option.map_eq_some_iff.mp h
      exact .inr (.inr (pc_goto ..))
    · cases h
      refine .inl ?_
      rw [hpc]
      trivial
    · cases h
      exact .inr (.inl (pc_goto ..))
  all_goals exact hw.elim

/-- A thread that has picked its packets does not wait and does not pick any more. -/
theorem mixes_next (hm : Mixes (s.cast t).pc) (h : mixStep s t silent = some s') :
    ¬ Waits (s'.cast t).pc ∧ ∀ is pp, (s'.cast t).pc ≠ .pick is pp := by
  unfold mixStep at h
  split at h <;> rename_i hpc <;> rw [hpc] at hm <;> try exact hm.elim
  · cases h
    rw [pc_goto]
    exact ⟨id, fun _ _ => nofun⟩
  · cases h
    rw [pc_goto]
    exact ⟨id, fun _ _ => nofun⟩
  · obtain ⟨s₁, -, rfl⟩ := Option.map_eq_some_iff.mp h
    rw [pc_goto]
    exact ⟨id, fun _ _ => nofun⟩
  · rcases checkSilence_cases h with ⟨-, n, s₁, -, rfl⟩ | ⟨-, n, rfl⟩ <;>
      exact ⟨by rw [pc_goto]; exact id, fun is pp => by rw [pc_goto]; nofun⟩

theorem pick_next {i : Fin 8} {is : List (Fin 8)} {pp : List (Buf k)}
    (hpc : (s.cast t).pc = .pick (i :: is) pp) (h : mixStep s t silent = some s') :
    (∃ pp', (s'.cast t).pc = .pick is pp') ∧ slotsOf s' t = slotsOf s t := by
  have hpick : pickSlot s t i is pp = some s' := by
    rw [mixStep, hpc] at h
    exact h
  refine ⟨?_, ?_⟩
  · rcases pickSlot_cases hpick with
      ⟨-, rfl⟩ | ⟨d, b, r, -, -, -, -, ⟨-, s₁, -, rfl⟩ | ⟨-, rfl⟩⟩ <;>
      exact ⟨_, pc_goto ..⟩
  · rcases Outstanding.srv_pickSlot hpick with e | ⟨d, e⟩ <;> rw [slotsOf, e] <;> rfl

/-- Only the picking takes packets, one from the device of the slot at most. -/
theorem takenFrom_mixLog (s : State k) (t : ℤ) (silent : Bool) :
    (mixLog s t silent).takenFrom = [] ∨
      ∃ i is pp d, (s.cast t).pc = .pick (i :: is) pp ∧ slotsOf s t i = some d ∧
        (mixLog s t silent).takenFrom = [d] := by
  unfold mixLog
  split
  · exact .inl (drops_flushSlotLog s t _).takenFrom
  · exact .inl (drops_waitRefLog s t _).takenFrom
  · next i is pp hpc =>
    unfold pickLog
    split
    · exact .inl rfl
    · next d hd =>
      split
      · exact .inl rfl
      · split
        · exact .inl rfl
        · split_ifs
          · exact .inr ⟨i, is, pp, d, hpc, hd, rfl⟩
          · exact .inr ⟨i, is, pp, d, hpc, hd, rfl⟩
  · exact .inl rfl
  · unfold silenceLog
    split <;> exact .inl rfl
  · exact .inl rfl

/-- The slots of the tag hold no device twice, and while packets are picked they stay. -/
def SlotsStay (t : ℤ) (c : Call k) : Buffers.Event → Prop
  | .control srv => Apart (· ≠ none) (srv.tag t).mixDevs ∧
      ∀ is pp, (c.state.cast t).pc = .pick is pp → (srv.tag t).mixDevs = slotsOf c.state t
  | _ => True

/-- The devices whose packets have been taken are those of slots that are behind. -/
structure Picking (t : ℤ) (c : Call k) : Prop where
  apart : Apart (· ≠ none) (slotsOf c.state t)
  nodup : c.log.takenFrom.Nodup
  waits : Waits (c.state.cast t).pc → c.log.takenFrom = []
  pick : ∀ is pp, (c.state.cast t).pc = .pick is pp →
    is.Nodup ∧ ∀ d ∈ c.log.takenFrom, ∃ j, j ∉ is ∧ slotsOf c.state t j = some d

theorem takenFrom_append (l l' : Log k) : Log.takenFrom (l ++ l') = l.takenFrom ++ l'.takenFrom :=
  List.filterMap_append ..

theorem apart_mixStep (h : Apart (· ≠ none) (slotsOf s t)) (hs : mixStep s t silent = some s') :
    Apart (· ≠ none) (slotsOf s' t) :=
  h.cleared fun i => ((Outstanding.cleared_mixStep hs).slot i).imp_right not_not.mpr

/-- A step of a thread that waits. -/
theorem picking_waits (h : Picking t c) (hw : Waits (c.state.cast t).pc)
    (hs : mixStep c.state t silent = some s') :
    Picking t ⟨s', c.log ++ mixLog c.state t silent⟩ := by
  have hnil : Log.takenFrom (c.log ++ mixLog c.state t silent) = [] := by
    rw [takenFrom_append, h.waits hw]
    rcases takenFrom_mixLog c.state t silent with e | ⟨i, is, pp, d, hpc, -⟩
    · rw [e, List.append_nil]
    · rw [hpc] at hw
      exact hw.elim
  refine ⟨apart_mixStep h.apart hs, ?_, fun _ => hnil, fun is pp hpc => ⟨?_, ?_⟩⟩
  · show (Log.takenFrom _).Nodup
    rw [hnil]
    exact List.nodup_nil
  · rcases waits_next hw hs with hw' | hpc' | hpc'
    · rw [show (s'.cast t).pc = _ from hpc] at hw'
      exact hw'.elim
    · cases hpc'.symm.trans hpc
      exact List.nodup_finRange 8
    · cases hpc'.symm.trans hpc
  · show ∀ d ∈ Log.takenFrom _, _
    rw [hnil]
    exact List.forall_mem_nil _

/-- A step of a thread that has picked its packets. -/
theorem picking_mixes (h : Picking t c) (hm : Mixes (c.state.cast t).pc)
    (hs : mixStep c.state t silent = some s') :
    Picking t ⟨s', c.log ++ mixLog c.state t silent⟩ := by
  obtain ⟨hw', hp'⟩ := mixes_next hm hs
  have e : Log.takenFrom (c.log ++ mixLog c.state t silent) = c.log.takenFrom := by
    rw [takenFrom_append]
    rcases takenFrom_mixLog c.state t silent with e | ⟨i, is, pp, d, hpc, -⟩
    · rw [e, List.append_nil]
    · rw [hpc] at hm
      exact hm.elim
  exact ⟨apart_mixStep h.apart hs, e.symm ▸ h.nodup, fun hn => absurd hn hw',
    fun is pp hn => absurd hn (hp' is pp)⟩

/-- The slot `i` is passed. -/
theorem picking_pick (h : Picking t c) {i : Fin 8} {is : List (Fin 8)} {pp : List (Buf k)}
    (hpc : (c.state.cast t).pc = .pick (i :: is) pp) (hs : mixStep c.state t silent = some s') :
    Picking t ⟨s', c.log ++ mixLog c.state t silent⟩ := by
  obtain ⟨⟨pp', hpc'⟩, hslots⟩ := pick_next hpc hs
  obtain ⟨hnd, hbehind⟩ := h.pick _ _ hpc
  obtain ⟨hi, hnd'⟩ := List.nodup_cons.mp hnd
  have hold : ∀ d ∈ c.log.takenFrom, ∃ j, j ∉ is ∧ slotsOf s' t j = some d := by
    intro d hd
    obtain ⟨j, hj, hjd⟩ := hbehind d hd
    exact ⟨j, fun hm => hj (List.mem_cons_of_mem i hm), by rw [hslots]; exact hjd⟩
  have hnw : ¬ Waits (s'.cast t).pc := by
    rw [hpc']
    exact id
  have hpick : ∀ l : List ℤ, (∀ d ∈ l, ∃ j, j ∉ is ∧ slotsOf s' t j = some d) →
      ∀ is' pp, (s'.cast t).pc = .pick is' pp →
        is'.Nodup ∧ ∀ d ∈ l, ∃ j, j ∉ is' ∧ slotsOf s' t j = some d := by
    intro l hl is' pp hn
    cases hpc'.symm.trans hn
    exact ⟨hnd', hl⟩
  rcases takenFrom_mixLog c.state t silent with e | ⟨i', is', pp', d, hpc'', hd, e⟩
  · have hsame : Log.takenFrom (c.log ++ mixLog c.state t silent) = c.log.takenFrom := by
      rw [takenFrom_append, e, List.append_nil]
    exact ⟨apart_mixStep h.apart hs, hsame.symm ▸ h.nodup, fun hn => absurd hn hnw,
      hpick _ (hsame.symm ▸ hold)⟩
  · cases hpc.symm.trans hpc''
    have hsnoc : Log.takenFrom (c.log ++ mixLog c.state t silent) = c.log.takenFrom ++ [d] := by
      rw [takenFrom_append, e]
    -- the device is in no slot that is behind
    have hnew : d ∉ c.log.takenFrom := by
      intro hm
      obtain ⟨j, hj, hjd⟩ := hbehind d hm
      have hji := h.apart j i (by rw [hjd]; exact Option.some_ne_none d) (hjd.trans hd.symm)
      exact hj (hji ▸ List.mem_cons_self)
    have hnodup : (c.log.takenFrom ++ [d]).Nodup := by
      rw [← List.concat_eq_append]
      exact h.nodup.concat hnew
    refine ⟨apart_mixStep h.apart hs, hsnoc.symm ▸ hnodup, fun hn => absurd hn hnw,
      hpick _ (hsnoc.symm ▸ ?_)⟩
    intro x hx
    rcases List.mem_append.mp hx with hx | hx
    · exact hold x hx
    · rw [List.mem_singleton.mp hx]
      exact ⟨i, hi, by rw [hslots]; exact hd⟩

/-- **One event.** -/
theorem step_picking {e : Buffers.Event} (h : Picking t c) (hg : SlotsStay t c e)
    (hs : step t c e = some c') : Picking t c' := by
  rcases step_cases hs with ⟨silent, s', hrun, hs', rfl⟩ | rfl | ⟨s', rfl, hcast, hslots⟩
  · cases hpc : (c.state.cast t).pc with
    | get => exact absurd (hpc ▸ trivial) hrun
    | cast p => exact absurd (hpc ▸ trivial) hrun
    | flush is => exact picking_waits h (hpc ▸ trivial) hs'
    | wait n => exact picking_waits h (hpc ▸ trivial) hs'
    | waitRef d => exact picking_waits h (hpc ▸ trivial) hs'
    | mixed p pp => exact picking_mixes h (hpc ▸ trivial) hs'
    | pick is pp =>
      cases is with
      | nil => exact picking_mixes h (hpc ▸ trivial) hs'
      | cons i is => exact picking_pick h hpc hs'
  · exact h
  · have hsame : ∀ is pp, (c.state.cast t).pc = .pick is pp →
        slotsOf s' t = slotsOf c.state t := by
      intro is pp hpc
      rcases hslots with e | ⟨srv, rfl, e⟩
      · exact e
      · exact e.trans (hg.2 is pp hpc)
    refine ⟨?_, h.nodup, ?_, fun is pp hpc => ?_⟩
    · rcases hslots with e | ⟨srv, rfl, e⟩
      · exact e.symm ▸ h.apart
      · exact e.symm ▸ hg.1
    · show Waits (s'.cast t).pc → _
      rw [hcast]
      exact h.waits
    · replace hpc : (s'.cast t).pc = .pick is pp := hpc
      rw [hcast] at hpc
      obtain ⟨hnd, hbehind⟩ := h.pick is pp hpc
      refine ⟨hnd, fun d hd => ?_⟩
      show ∃ j, j ∉ is ∧ slotsOf s' t j = some d
      rw [hsame is pp hpc]
      exact hbehind d hd

theorem picking_start {s : State k} (h : Entered s t) (ha : Apart (· ≠ none) (slotsOf s t)) :
    Picking t ⟨s, []⟩ where
  apart := ha
  nodup := List.nodup_nil
  waits _ := rfl
  pick is pp hpc := by
    replace hpc : (s.cast t).pc = .pick is pp := hpc
    rcases h with h | h <;> cases h.symm.trans hpc

/-- **Along every call** in which the slots stay while packets are picked, one packet of each device
is taken at most. -/
theorem onePerDevice_along {s : State k} (h : Entered s t)
    (ha : Apart (· ≠ none) (slotsOf s t)) {es : List Buffers.Event}
    (hg : Guarded (step t) (SlotsStay t) ⟨s, []⟩ es) :
    Along (step t) (fun c => c.log.takenFrom.Nodup) ⟨s, []⟩ es :=
  along_of_guarded (I := Picking t) (E := fun _ => True) (fun _ h => h.nodup)
    (fun _ _ _ h _ hg hs => step_picking h hg hs) (picking_start h ha) (fun _ _ => trivial) hg

end Pick

/-! ## The whole call -/

section Whole
variable {s : State k} {t : ℤ} {es : List Buffers.Event}

/-- No buffer is lost. -/
def NoLeak (c : Call k) (e : Buffers.Event) : Prop := BufferRuns.NoLeak c.state e

/-- Where every buffer is in one place, a call goes on. -/
theorem step_total {c : Call k} {e : Buffers.Event} (h : BufferRuns.Inv c.state)
    (hg : NoLeak c e) : ∃ c', step t c e = some c' ∧ BufferRuns.Inv c'.state := by
  obtain ⟨s', hs', hinv⟩ := BufferRuns.step_inv h hg
  cases e with
  | mix t' silent =>
    simp only [step]
    split_ifs
    · exact ⟨c, rfl, h⟩
    · obtain ⟨s₁, hs₁, hinv₁⟩ := BufferRuns.mixStep_inv t silent h
      exact ⟨_, by rw [hs₁]; rfl, hinv₁⟩
    · exact ⟨_, by rw [hs']; rfl, hinv⟩
  | _ => exact ⟨⟨s', c.log⟩, by simp only [step, hs']; rfl, hinv⟩

theorem run_total (h : BufferRuns.Inv s) (hg : Guarded (step t) NoLeak ⟨s, []⟩ es) :
    ∃ c, run (step t) ⟨s, []⟩ es = some c := by
  have halways : Always (step t) (fun _ => True) ⟨s, []⟩ es :=
    always_of_guarded (I := fun c => BufferRuns.Inv c.state) (E := fun _ => True)
      (fun _ _ => trivial) (fun c e h _ hg => step_total h hg) h (fun _ _ => trivial) hg
  obtain ⟨c, hc, -⟩ := always_iff_reached.mp halways es List.prefix_rfl
  exact ⟨c, hc⟩

/-- **One call of `tag_mix_audio`.**  What the log says is what the steps do, every flush keeps the
newest packet, what is dequeued is freed or returned, a device gives one packet but for the flushes,
and a call never frees a free buffer. -/
theorem tagMixAudio_owned (h : Entered s t) (es : List Buffers.Event) :
    (∀ (s₁ s₂ : State k) (silent : Bool), ¬ Returned (s₁.cast t).pc →
      mixStep s₁ t silent = some s₂ →
      run act (store s₁) (mixLog s₁ t silent) = some (store s₂)) ∧
    (∀ (s₁ s₂ : State k) (d : ℤ), flushQueue s₁ d = some s₂ →
      (s₂.fifo d).contents = (s₁.fifo d).contents.getLast?.toList ∧
        ∀ d', d' ≠ d → s₂.fifo d' = s₁.fifo d') ∧
    Along (step t) (Owned t) ⟨s, []⟩ es ∧
    (Apart (· ≠ none) (slotsOf s t) → Guarded (step t) (SlotsStay t) ⟨s, []⟩ es →
      Along (step t) (fun c => c.log.takenFrom.Nodup) ⟨s, []⟩ es) ∧
    (BufferRuns.Inv s → Guarded (step t) NoLeak ⟨s, []⟩ es →
      ∃ c, run (step t) ⟨s, []⟩ es = some c) :=
  ⟨fun _ _ _ hrun hs => (mixLog_run (not_cast_of_running hrun) hs).does,
    fun _ _ _ hs => flushQueue_newest hs, owned_along h es,
    fun ha hg => onePerDevice_along h ha hg, fun hI hg => run_total hI hg⟩

/-- Three devices are outstanding in the tag 1, which is mixed here. -/
def three : Server :=
  let s := tagCreate { Server.boot OpenRuns.twoClients with
    devs := [101, 102, 103]
    dev := fun _ => { Devctl.newDev 0 with tag := 1, discussOpen := 1 }
    optMixer := .soft } 1
  tagAddOutstanding (tagAddOutstanding (tagAddOutstanding s 1 101) 1 102) 1 103

def threeStart : State packOrder :=
  start packOrder three { flush := false, syncPolicy := .wait, silenceDrop := false }
    fun _ => { repCount := 0, len := 0, data := .ofBytes [] }

/-- A datagram of audio. -/
def audio (d : Byte) (data : List Byte) : List Byte :=
  [0, 0, 0, d, 0, 0, 0, 0, PackType.audio.val, 0, 0, BitVec.ofNat 8 data.length] ++ data

/-- Each device sends a packet, and the thread of the tag takes `n` steps. -/
def threeSent (n : ℕ) (a b c : List Byte) : List Buffers.Event :=
  [.udpGet, .datagram (audio 101 a), .udpGet, .datagram (audio 102 b),
    .udpGet, .datagram (audio 103 c)] ++ List.replicate n (.mix 1 false)

/-- An event of the mixing thread, or a datagram of audio. -/
def Plays (e : Buffers.Event) : Prop :=
  (∃ silent, e = .mix 1 silent) ∨ e = .udpGet ∨ ∃ d data, e = .datagram (audio d data)

theorem plays_threeSent (n : ℕ) (a b c : List Byte) : ∀ e ∈ threeSent n a b c, Plays e := by
  intro e he
  rcases List.mem_append.mp he with he | he
  · simp only [List.mem_cons, List.not_mem_nil, or_false] at he
    obtain rfl | rfl | rfl | rfl | rfl | rfl := he
    all_goals first | exact .inr (.inl rfl) | exact .inr (.inr ⟨_, _, rfl⟩)
  · exact .inl ⟨false, (List.eq_of_mem_replicate he)⟩

theorem Plays.noLeak {e : Buffers.Event} (h : Plays e) (s : State packOrder) :
    BufferRuns.NoLeak s e := by
  rcases h with ⟨silent, rfl⟩ | rfl | ⟨d, data, rfl⟩
  · trivial
  · trivial
  · exact fun _ _ hu => hu.2 (.inr (.inl rfl))

theorem Plays.slotsStay {e : Buffers.Event} (h : Plays e) (c : Call packOrder) :
    SlotsStay 1 c e := by
  rcases h with ⟨silent, rfl⟩ | rfl | ⟨d, data, rfl⟩ <;> trivial

theorem inv_threeSent {s : State packOrder} {n : ℕ} {a b c : List Byte}
    (h : run Buffers.step threeStart (threeSent n a b c) = some s) : BufferRuns.Inv s := by
  refine of_run_forall (E := Plays) (fun s₁ e s₂ hI he hs => ?_) BufferRuns.start_inv
    (plays_threeSent n a b c) h
  obtain ⟨s', hs', hI'⟩ := BufferRuns.step_inv hI (he.noLeak s₁)
  exact Option.some.inj (hs'.symm.trans hs) ▸ hI'

/-- One call; the first device sends another packet meanwhile. -/
def threeCall : List Buffers.Event :=
  [.mix 1 false, .mix 1 false, .udpGet, .mix 1 false, .datagram (audio 101 [2, 0])] ++
    List.replicate 11 (.mix 1 false)

instance (s : State k) (t : ℤ) : Decidable (Apart (· ≠ none) (slotsOf s t)) :=
  inferInstanceAs (Decidable (∀ _ _, _ → _ → _))

theorem plays_threeCall : ∀ e ∈ threeCall, Plays e := by
  intro e he
  rcases List.mem_append.mp he with he | he
  · simp only [List.mem_cons, List.not_mem_nil, or_false] at he
    obtain rfl | rfl | rfl | rfl | rfl := he
    all_goals
      first | exact .inl ⟨_, rfl⟩ | exact .inr (.inl rfl) | exact .inr (.inr ⟨_, _, rfl⟩)
  · exact .inl ⟨false, (List.eq_of_mem_replicate he)⟩

/-- A packet of each device is taken, the first one is returned, and the others are freed. -/
theorem tagMixAudio_owned_three :
    ∃ s, run Buffers.step threeStart (threeSent 1 [1, 0] [1, 0] [1, 0]) = some s ∧
      (∀ (s₁ s₂ : State packOrder) (silent : Bool), ¬ Returned (s₁.cast 1).pc →
        mixStep s₁ 1 silent = some s₂ →
        run act (store s₁) (mixLog s₁ 1 silent) = some (store s₂)) ∧
      (∀ (s₁ s₂ : State packOrder) (d : ℤ), flushQueue s₁ d = some s₂ →
        (s₂.fifo d).contents = (s₁.fifo d).contents.getLast?.toList ∧
          ∀ d', d' ≠ d → s₂.fifo d' = s₁.fifo d') ∧
      Along (step 1) (Owned 1) ⟨s, []⟩ threeCall ∧
      Along (step 1) (fun c => c.log.takenFrom.Nodup) ⟨s, []⟩ threeCall ∧
      ∃ c, run (step 1) ⟨s, []⟩ threeCall = some c ∧ c.log.takenFrom = [101, 102, 103] ∧
        c.log.frees = c.log.outs.tail ∧ Returned (c.state.cast 1).pc ∧
        (c.state.fifo 101).len = 1 := by
  have hrun : ((run Buffers.step threeStart (threeSent 1 [1, 0] [1, 0] [1, 0])).any fun s =>
      decide ((s.cast 1).pc = .wait 0) && decide (Apart (· ≠ none) (slotsOf s 1)) &&
      (run (step 1) ⟨s, []⟩ threeCall).any fun c =>
        decide (c.log.takenFrom = [101, 102, 103] ∧ c.log.frees = c.log.outs.tail ∧
          Returned (c.state.cast 1).pc ∧ (c.state.fifo 101).len = 1)) = true := by
    decide +kernel
  obtain ⟨s, hs, h⟩ := (Option.any_eq_true _ _).mp hrun
  rw [Bool.and_eq_true, Bool.and_eq_true] at h
  obtain ⟨⟨hpc, ha⟩, hcall⟩ := h
  obtain ⟨c, hc, hend⟩ := (Option.any_eq_true _ _).mp hcall
  obtain ⟨hlog, hflush, howned, honce, htotal⟩ := tagMixAudio_owned (t := 1) (s := s)
    (.inr (of_decide_eq_true hpc)) threeCall
  have hslots : Guarded (step 1) (SlotsStay 1) ⟨s, []⟩ threeCall :=
    guarded_of_forall (I := fun _ => True) (E := Plays) (fun _ _ _ _ _ _ => trivial)
      (fun c _ _ he => he.slotsStay c) trivial plays_threeCall
  have hleak : Guarded (step 1) NoLeak ⟨s, []⟩ threeCall :=
    guarded_of_forall (I := fun _ => True) (E := Plays) (fun _ _ _ _ _ _ => trivial)
      (fun c _ _ he => he.noLeak c.state) trivial plays_threeCall
  obtain ⟨c', hc'⟩ := htotal (inv_threeSent hs) hleak
  obtain rfl := Option.some.inj (hc'.symm.trans hc)
  exact ⟨s, hs, hlog, hflush, howned, honce (of_decide_eq_true ha) hslots, c', hc,
    of_decide_eq_true hend⟩

end Whole

end GSConferencing.Serv.MixCall
