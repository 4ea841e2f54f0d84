import GSConferencing.Threadpool.Pool

/-!
# Runs of the pool

The threads that call the pool and those of the pool take their steps in any order.

* `along_once`: every job is started once, if no thread is let go without a signal.
* `along_sound`: the pool has at most `tp_max_index` threads, none of which ever leaves it, and a
  thread is given a job only while it has none.
* `rest_done`: the locks and the condition variables never hold anyone up; once no thread has a step
  to take, every call has returned and every job was run.
* `steps_le`: a call makes at most ten steps.
-/

namespace GSConferencing.Threadpool.Pool

open GSConferencing.Lib.Run GSConferencing.Lib.Tally

variable {J : Type*} {s t : State J} {n : ℤ} {callers : ℕ} {es : List (Event J)}

theorem once_createThreadpool (h : State.createThreadpool n callers = some s) : Once s := by
  unfold State.createThreadpool at h
  split_ifs at h
  obtain rfl := Option.some.inj h
  rw [once_iff_counts]
  intro f
  have hzero : ∀ w : Caller J → ℕ, w .out = 0 → tally w (List.replicate callers .out) = 0 :=
    fun w hw => tally_eq_zero_iff.mpr fun p hp => by rw [List.eq_of_mem_replicate hp, hw]
  refine ⟨?_, ?_, ?_⟩
  · simp only [tally_nil]
    rw [hzero _ rfl]
  · simp only [tally_nil]
    rw [hzero _ rfl]
  · rfl

/-- What one step keeps while no thread is let go without a signal. -/
theorem inv_once_step {e : Event J} {s' : State J} (h : (∃ o, Inv s o) ∧ Once s)
    (hg : Signalled s e) (hs : step s e = some s') : (∃ o, Inv s' o) ∧ Once s' := by
  obtain ⟨⟨o, ho⟩, honce⟩ := h
  exact ⟨inv_step ho hg hs, once_step honce ho hg hs⟩

theorem once_of_run (h : State.createThreadpool n callers = some s)
    (hg : Guarded step Signalled s es) (hrun : run step s es = some t) : Once t :=
  (of_run (I := fun s => (∃ o, Inv s o) ∧ Once s) (fun _ _ _ hi hg hs => inv_once_step hi hg hs)
    ⟨⟨none, inv_createThreadpool h⟩, once_createThreadpool h⟩ hg hrun).2

/-- **Every job once,** if no thread is let go without a signal: wherever the run stands, a job that
was called for waits at a caller, has failed, is on its way to a thread, or was started, and it is
in one of these places only. -/
theorem along_once (h : State.createThreadpool n callers = some s)
    (hg : Guarded step Signalled s es) : Along step Once s es :=
  along_of_guarded (I := fun s => (∃ o, Inv s o) ∧ Once s) (E := fun _ => True)
    (fun _ hs => hs.2) (fun _ _ _ hi _ hg hs => inv_once_step hi hg hs)
    ⟨⟨none, inv_createThreadpool h⟩, once_createThreadpool h⟩ (fun _ _ => trivial) hg

/-- Two calls of a pool of one thread: the second one waits until the thread is back. -/
def twoCalls : List (Event ℕ) :=
  [.call 0 7, .lock 0 true, .call 1 8, .lock 1 true, .start 0, .finish 0, .lockOwn 0,
    .save 0 (some 1), .wait 0, .lock 1 true, .signal 1, .relock 0, .start 0, .finish 0, .lockOwn 0,
    .save 0 none, .wait 0]

/-- The pool they are for. -/
def poolOfOne : State ℕ := ⟨none, [], 1, 0, [], [.out, .out], [], [], [], [], []⟩

theorem createThreadpool_one : State.createThreadpool 1 2 = some poolOfOne := rfl

theorem once_twoCalls : Along step Once poolOfOne twoCalls :=
  along_once createThreadpool_one (by decide +kernel)

/-! ## What never happens -/

/-- **The property:** who may be where. -/
structure Sound (s : State J) : Prop where
  threads_le : s.threads.length ≤ s.tpMaxIndex
  /-- `save_thread` never refuses a thread. -/
  room : ∀ th ∈ s.threads, th.pc = .save → s.tpMutex = none → s.tpList.length < s.tpMaxIndex
  staying : ∀ th ∈ s.threads, th.pc ≠ .leaving ∧ th.pc ≠ .exited
  /-- The threads in `tp_list` have nothing to do, and are in it once. -/
  free : s.tpList.Nodup ∧ ∀ i ∈ s.tpList, ∃ th, s.threads[i]? = some th ∧ th.pc.Parked
  /-- A thread is given its job while it has none; it is in `sp_thread_cond_wait` when the signal
  comes. -/
  given : ∀ (c i : ℕ) (j : J), s.callers[c]? = some (.lockThread i j) → i ∉ s.tpList ∧
    ∃ th, s.threads[i]? = some th ∧ th.job = j ∧ th.pc.Parked ∧ (th.mutex = false → th.pc = .wait)
  /-- One caller at a time. -/
  alone : ∀ (c c' i i' : ℕ) (j j' : J), s.callers[c]? = some (.lockThread i j) →
    s.callers[c']? = some (.lockThread i' j') → c = c'
  /-- No caller waits for a thread that is free, unless another one is about to look for it. -/
  wake : ∀ j, Caller.idleWait j ∈ s.callers → s.tpList ≠ [] → ∃ i, Caller.enter i ∈ s.callers

theorem Inv.sound {o : Taken J} (h : Inv s o) : Sound s where
  threads_le := h.total ▸ h.total_le
  room th hth hpc hmutex := by
    obtain rfl := h.of_mutex hmutex
    obtain ⟨i, hi⟩ := List.mem_iff_getElem?.mp hth
    exact h.room hi (by simp [Pc.Parked, hpc])
  staying th hth := (h.ok th hth).2
  free := ⟨h.nodup.of_append_right, fun i hi => (h.parked i).mp (List.mem_append_right _ hi)⟩
  given c i j hc := by
    obtain rfl := (h.taken c i j).mp hc
    have hnd : i ∉ s.tpList ∧ s.tpList.Nodup := List.nodup_cons.mp h.nodup
    obtain ⟨th, hth, hp⟩ := (h.parked i).mp List.mem_cons_self
    exact ⟨hnd.1, th, hth, h.job c i j rfl th hth, hp, fun hm => by rw [h.waiting hth hm]⟩
  alone c c' i i' j j' hc hc' := by
    have hsame := ((h.taken c i j).mp hc).symm.trans ((h.taken c' i' j').mp hc')
    simp only [Option.some.injEq, Prod.mk.injEq] at hsame
    exact hsame.1
  wake j hj hne := by
    have hwake := h.wake j hj
    have hpos : 0 < tally Caller.entering s.callers :=
      Nat.lt_of_lt_of_le (List.length_pos_of_ne_nil hne) hwake
    obtain ⟨p, hp, hin⟩ := tally_pos_iff.mp hpos
    cases p with
    | enter i => exact ⟨i, hp⟩
    | _ => exact absurd hin (Nat.lt_irrefl 0)

theorem inv_of_run (h : State.createThreadpool n callers = some s)
    (hg : Guarded step Signalled s es) (hrun : run step s es = some t) : ∃ o, Inv t o :=
  of_run (I := fun s => ∃ o, Inv s o) (fun _ _ _ ⟨_, ho⟩ hg hs => inv_step ho hg hs)
    ⟨none, inv_createThreadpool h⟩ hg hrun

/-- **The bounds of the pool,** in every run. -/
theorem along_sound (h : State.createThreadpool n callers = some s)
    (hg : Guarded step Signalled s es) : Along step Sound s es :=
  along_of_guarded (I := fun s => ∃ o, Inv s o) (E := fun _ => True)
    (fun _ ⟨_, ho⟩ => ho.sound) (fun _ _ _ ⟨_, ho⟩ _ hg hs => inv_step ho hg hs)
    ⟨none, inv_createThreadpool h⟩ (fun _ _ => trivial) hg

theorem sound_twoCalls : Along step Sound poolOfOne twoCalls :=
  along_sound createThreadpool_one (by decide +kernel)

/-! ## Nobody is held up -/

/-- The steps the pool takes of itself: no call, and nobody is let go without a signal. -/
def Event.inner : Event J → Bool
  | .call .. | .unsignalledIdle _ | .unsignalled _ => false
  | _ => true

/-- No thread has a step to take. -/
def Rest (s : State J) : Prop := ∀ e : Event J, e.inner = true → step s e = none

section Rest
variable {o : Taken J}

/-- The critical section has a result. -/
theorem Inv.lock_enabled (h : Inv s none) {c : ℕ} {j : J} (hc : s.callers[c]? = some (.enter j)) :
    ∃ s', step s (.lock c true) = some s' := by
  have hmutex : s.tpMutex = none := h.mutex
  rw [step, hmutex, hc]
  simp only [State.dispatch]
  split
  · split_ifs
    · exact ⟨_, rfl⟩
    · exact ⟨_, rfl⟩
  · rename_i i rest hlist
    have hin : i ∈ s.parked none := by
      rw [State.parked, hlist]
      exact List.mem_cons_self
    obtain ⟨th, hth, -⟩ := (h.parked i).mp hin
    rw [hth]
    exact ⟨_, rfl⟩

/-- `save_thread` has a result: there is a caller to let go, or there is none. -/
theorem save_enabled (hmutex : s.tpMutex = none) {i : ℕ} {j : J} {m : Bool}
    (hi : s.threads[i]? = some ⟨.save, j, m⟩) : ∃ w s', step s (.save i w) = some s' := by
  by_cases hno : ∀ p ∈ s.callers, ∀ k, p ≠ .idleWait k
  · refine ⟨none, ?_⟩
    rw [step, hmutex, hi]
    simp only [State.saveThread]
    split_ifs
    · refine ⟨_, if_pos (List.all_eq_true.mpr fun p hp => ?_)⟩
      cases p with
      | idleWait k => exact absurd rfl (hno _ hp k)
      | _ => rfl
    · exact ⟨_, rfl⟩
  · push Not at hno
    obtain ⟨p, hp, k, rfl⟩ := hno
    obtain ⟨c, hc⟩ := List.mem_iff_getElem?.mp hp
    refine ⟨some c, ?_⟩
    rw [step, hmutex, hi]
    simp only [State.saveThread]
    split_ifs
    · simp only [State.signalIdle, State.setThread, hc]
      exact ⟨_, rfl⟩
    · exact ⟨_, rfl⟩

/-- The caller that has `tp_mutex` goes on, or the thread it waits for does. -/
theorem Inv.not_rest_of_taken {c i : ℕ} {j : J} (h : Inv s (some (c, i, j))) : ¬ Rest s := by
  intro hrest
  have hc : s.callers[c]? = some (.lockThread i j) := (h.taken c i j).mpr rfl
  obtain ⟨⟨pc, k, m⟩, hth, hp⟩ := (h.parked i).mp List.mem_cons_self
  cases m with
  | false =>
    obtain ⟨rfl, rfl⟩ : pc = .wait ∧ k = j := by simpa using h.waiting hth rfl
    have hnone := hrest (.signal c) rfl
    rw [step, hc] at hnone
    simp only [hth] at hnone
    cases hnone
  | true =>
    rcases (h.ok _ (List.mem_of_getElem? hth)).1.mp rfl with hpc | hpc
    · rcases hp with hp | hp <;> cases hp.symm.trans hpc
    · obtain rfl : pc = .saved := hpc
      cases (hrest (.wait i) rfl).symm.trans (step_wait.mpr ⟨k, true, hth, rfl⟩)

/-- A thread that does not wait goes on, once nobody has `tp_mutex`. -/
theorem Inv.waiting_of_rest (h : Inv s none) (hrest : Rest s) :
    ∀ th ∈ s.threads, th.pc = .wait := by
  intro th hth
  obtain ⟨i, hi⟩ := List.mem_iff_getElem?.mp hth
  have hok := h.ok th hth
  have hmutex : s.tpMutex = none := h.mutex
  obtain ⟨pc, j, m⟩ := th
  have hfree : pc ≠ .save → pc ≠ .saved → m = false := fun h₁ h₂ =>
    Bool.eq_false_iff.mpr fun hm => (hok.1.mp hm).elim h₁ h₂
  cases pc with
  | wait => rfl
  | run => cases (hrest (.start i) rfl).symm.trans (step_start.mpr ⟨j, m, hi, rfl⟩)
  | busy => cases (hrest (.finish i) rfl).symm.trans (step_finish.mpr ⟨j, m, hi, rfl⟩)
  | done =>
    obtain rfl := hfree (by simp) (by simp)
    cases (hrest (.lockOwn i) rfl).symm.trans (step_lockOwn.mpr ⟨j, hi, rfl⟩)
  | save =>
    obtain ⟨w, s', hs'⟩ := save_enabled hmutex hi
    cases (hrest (.save i w) rfl).symm.trans hs'
  | saved => cases (hrest (.wait i) rfl).symm.trans (step_wait.mpr ⟨j, m, hi, rfl⟩)
  | woken =>
    obtain rfl := hfree (by simp) (by simp)
    cases (hrest (.relock i) rfl).symm.trans (step_relock.mpr ⟨j, hi, rfl⟩)
  | leaving => exact absurd rfl hok.2.1
  | exited => exact absurd rfl hok.2.2

/-- A caller that waits has a thread to wait for. -/
theorem Inv.out_of_rest (h : Inv s none) (hrest : Rest s) :
    ∀ p ∈ s.callers, p = .out := by
  have hwaiting := h.waiting_of_rest hrest
  have hno : ∀ j, Caller.enter j ∉ s.callers := fun j hj => by
    obtain ⟨c, hc⟩ := List.mem_iff_getElem?.mp hj
    obtain ⟨s', hs'⟩ := h.lock_enabled hc
    cases (hrest (.lock c true) rfl).symm.trans hs'
  intro p hp
  cases p with
  | out => rfl
  | enter j => exact absurd hp (hno j)
  | lockThread i j =>
    obtain ⟨c, hc⟩ := List.mem_iff_getElem?.mp hp
    cases (h.taken c i j).mp hc
  | idleWait j =>
    -- all threads there may be wait in `tp_list`, so a caller is on its way to them
    exfalso
    have hfull := h.full j hp
    have htotal := h.total
    have hpos := h.pos
    have hlt : 0 < s.threads.length := by omega
    obtain ⟨th, hth⟩ : ∃ th, s.threads[0]? = some th := ⟨_, List.getElem?_eq_getElem hlt⟩
    have hin : 0 ∈ s.tpList :=
      (h.parked 0).mpr ⟨th, hth, Or.inr (hwaiting th (List.mem_of_getElem? hth))⟩
    obtain ⟨i, hi⟩ := h.sound.wake j hp (List.ne_nil_of_mem hin)
    exact hno i hi

end Rest

/-- A pool whose threads wait has no step to take. -/
theorem rest_of_waiting (hout : ∀ p ∈ s.callers, p = .out)
    (hwait : ∀ th ∈ s.threads, th.pc = .wait) : Rest s := by
  have hc : ∀ (c : ℕ) p, s.callers[c]? = some p → p = .out := fun c p hc =>
    hout p (List.mem_of_getElem? hc)
  have ht : ∀ (i : ℕ) th, s.threads[i]? = some th → th.pc = .wait := fun i th ht =>
    hwait th (List.mem_of_getElem? ht)
  intro e he
  by_contra hne
  obtain ⟨s', hs⟩ := Option.ne_none_iff_exists'.mp hne
  cases e with
  | call c j => cases he
  | lock c created =>
    obtain ⟨-, j, hj, -⟩ := step_lock hs
    cases hc c _ hj
  | signal c =>
    obtain ⟨i, j, th, hj, -⟩ := step_signal hs
    cases hc c _ hj
  | unsignalledIdle c => cases he
  | start i =>
    obtain ⟨j, m, hi, -⟩ := step_start.mp hs
    cases ht i _ hi
  | finish i =>
    obtain ⟨j, m, hi, -⟩ := step_finish.mp hs
    cases ht i _ hi
  | lockOwn i =>
    obtain ⟨j, hi, -⟩ := step_lockOwn.mp hs
    cases ht i _ hi
  | save i w =>
    obtain ⟨-, j, m, hi, -⟩ := step_save hs
    cases ht i _ hi
  | wait i =>
    obtain ⟨j, m, hi, -⟩ := step_wait.mp hs
    cases ht i _ hi
  | relock i =>
    obtain ⟨j, hi, -⟩ := step_relock.mp hs
    cases ht i _ hi
  | leave i =>
    obtain ⟨-, j, m, hi, -⟩ := step_leave.mp hs
    cases ht i _ hi
  | unsignalled i => cases he

/-- A pool that has no step to take has nothing left to do. -/
theorem Inv.done_of_rest {o : Taken J} (h : Inv s o) (hrest : Rest s) :
    (∀ p ∈ s.callers, p = .out) ∧ (∀ th ∈ s.threads, th.pc = .wait) ∧
      s.waiting = [] ∧ s.pending = [] ∧ s.running = [] := by
  obtain rfl : o = none := by
    cases o with
    | none => rfl
    | some x => exact absurd hrest h.not_rest_of_taken
  have hout := h.out_of_rest hrest
  have hwait := h.waiting_of_rest hrest
  refine ⟨hout, hwait, ?_, List.append_eq_nil_iff.mpr ⟨?_, ?_⟩, ?_⟩
  · exact List.flatMap_eq_nil_iff.mpr fun p hp => by rw [hout p hp, Caller.waiting_out]
  · exact List.flatMap_eq_nil_iff.mpr fun p hp => by rw [hout p hp, Caller.given_out]
  · refine List.flatMap_eq_nil_iff.mpr fun ⟨pc, j, m⟩ hth => ?_
    obtain rfl : pc = .wait := hwait _ hth
    exact Thread.due_of_ne (by simp) (by simp)
  · refine List.flatMap_eq_nil_iff.mpr fun ⟨pc, j, m⟩ hth => ?_
    obtain rfl : pc = .wait := hwait _ hth
    exact Thread.running_of_ne (by simp)

/-- **Nobody is held up:** once no thread has a step to take, every call has returned, every thread
waits for its next job, and the jobs that a thread could be created for were all run. -/
theorem rest_done (h : State.createThreadpool n callers = some s)
    (hg : Guarded step Signalled s es) (hrun : run step s es = some t) (hrest : Rest t) :
    (∀ p ∈ t.callers, p = .out) ∧ (∀ th ∈ t.threads, th.pc = .wait) ∧
      t.called.Perm (t.failed ++ t.started) ∧ t.started.Perm t.finished := by
  obtain ⟨o, ho⟩ := inv_of_run h hg hrun
  have honce : Once t := once_of_run h hg hrun
  obtain ⟨hout, hwait, hwaiting, hpending, hrunning⟩ := ho.done_of_rest hrest
  obtain ⟨hcalled, hhanded, hstarted⟩ := honce
  rw [hwaiting, List.nil_append] at hcalled
  rw [hpending, List.nil_append] at hhanded
  rw [hrunning, List.nil_append] at hstarted
  exact ⟨hout, hwait, hcalled.trans (hhanded.append_left t.failed), hstarted⟩

/-- The pool after them. -/
def poolAtRest : State ℕ :=
  ⟨none, [0], 1, 1, [⟨.wait, 8, false⟩], [.out, .out], [8, 7], [8, 7], [], [8, 7], [8, 7]⟩

theorem run_twoCalls : run step poolOfOne twoCalls = some poolAtRest := rfl

theorem done_twoCalls : Rest poolAtRest ∧ poolAtRest.called.Perm poolAtRest.started ∧
    poolAtRest.started.Perm poolAtRest.finished :=
  have hrest : Rest poolAtRest := rest_of_waiting (by decide) (by decide)
  ⟨hrest, (rest_done createThreadpool_one (by decide +kernel) run_twoCalls hrest).2.2⟩

/-! ## How many steps there are -/

/-- The steps a caller has before it, those of the thread that gets its job among them. -/
def Caller.steps : Caller J → ℕ
  | .out => 0
  | .enter _ => 10
  | .idleWait _ => 9
  | .lockThread .. => 8

/-- The steps a thread has before it; the caller that `save_thread` lets go takes one, too. -/
def Pc.steps : Pc → ℕ
  | .woken => 7
  | .run => 6
  | .busy => 5
  | .done => 4
  | .save => 3
  | .saved | .leaving => 1
  | .wait | .exited => 0

/-- The steps all of them have before them. -/
def State.steps (s : State J) : ℕ :=
  tally Caller.steps s.callers + tally (fun th => th.pc.steps) s.threads

/-- What an event adds to them. -/
def Event.adds : Event J → ℕ
  | .call .. => 10
  | .unsignalledIdle _ => 1
  | .unsignalled _ => 7
  | _ => 0

/-- The step itself. -/
def Event.cost (e : Event J) : ℕ := e.inner.toNat

/-- A thread goes on. -/
theorem steps_setThread {i : ℕ} {a b : Thread J} {list : List ℕ} {total : ℕ}
    {started finished : List J}
    (ht : s.threads[i]? = some a) (hlt : b.pc.steps + 1 ≤ a.pc.steps) :
    State.steps { s.setThread i b with
      tpList := list
      tpTotal := total
      started := started
      finished := finished } + 1 ≤ s.steps := by
  have hd := tally_set (fun th => th.pc.steps) ht b
  simp only [State.steps, State.setThread] at *
  omega

/-- **What one step does:** it is one of those that were before somebody. -/
theorem steps_step {e : Event J} (hs : step s e = some t) :
    t.steps + e.cost ≤ s.steps + e.adds := by
  cases e with
  | call c j =>
    obtain ⟨hc, rfl⟩ := step_call.mp hs
    have hw : _ + 0 = _ + 10 := tally_set Caller.steps hc (.enter j)
    show tally Caller.steps (s.callers.set c _) + tally _ s.threads + 0 ≤ s.steps + 10
    rw [State.steps]
    omega
  | lock c created =>
    obtain ⟨-, j, hc, hcase⟩ := step_lock hs
    rcases hcase with ⟨-, -, rfl⟩ | ⟨-, -, -, rfl⟩ | ⟨-, -, -, rfl⟩ | ⟨i, rest, th, -, ht, rfl⟩
    · have hw : _ + 10 = _ + 9 := tally_set Caller.steps hc (.idleWait j)
      show tally Caller.steps (s.callers.set c _) + tally _ s.threads + 1 ≤ s.steps + 0
      rw [State.steps]
      omega
    · have hw : _ + 10 = _ + 0 := tally_set Caller.steps hc .out
      show tally Caller.steps (s.callers.set c _) + tally _ (s.threads ++ [_]) + 1 ≤ s.steps + 0
      rw [State.steps, tally_append]
      show _ + (_ + 6) + 1 ≤ _
      omega
    · have hw : _ + 10 = _ + 0 := tally_set Caller.steps hc .out
      show tally Caller.steps (s.callers.set c _) + tally _ s.threads + 1 ≤ s.steps + 0
      rw [State.steps]
      omega
    · have hw : _ + 10 = _ + 8 := tally_set Caller.steps hc (.lockThread i j)
      have hd : _ + th.pc.steps = _ + th.pc.steps :=
        tally_set (fun th => th.pc.steps) ht { th with job := j }
      show tally Caller.steps (s.callers.set c _) + tally _ (s.threads.set i _) + 1 ≤ s.steps + 0
      rw [State.steps]
      omega
  | signal c =>
    obtain ⟨i, j, th, hc, ht, -, hcase⟩ := step_signal hs
    have hw : _ + 8 = _ + 0 := tally_set Caller.steps hc .out
    rcases hcase with ⟨hpc, rfl⟩ | ⟨-, rfl⟩
    · have hd : _ = _ + 7 := tally_set (fun th => th.pc.steps) ht ⟨.woken, th.job, false⟩
      rw [hpc, Pc.steps] at hd
      show tally Caller.steps (s.callers.set c _) + tally _ (s.threads.set i _) + 1 ≤ s.steps + 0
      rw [State.steps]
      omega
    · show tally Caller.steps (s.callers.set c _) + tally _ s.threads + 1 ≤ s.steps + 0
      rw [State.steps]
      omega
  | unsignalledIdle c =>
    obtain ⟨j, hc, rfl⟩ := step_unsignalledIdle.mp hs
    have hw : _ + 9 = _ + 10 := tally_set Caller.steps hc (.enter j)
    show tally Caller.steps (s.callers.set c _) + tally _ s.threads + 0 ≤ s.steps + 1
    rw [State.steps]
    omega
  | start i =>
    obtain ⟨j, m, ht, rfl⟩ := step_start.mp hs
    exact steps_setThread (b := ⟨.busy, j, m⟩) ht le_rfl
  | finish i =>
    obtain ⟨j, m, ht, rfl⟩ := step_finish.mp hs
    exact steps_setThread (b := ⟨.done, j, m⟩) ht le_rfl
  | lockOwn i =>
    obtain ⟨j, ht, rfl⟩ := step_lockOwn.mp hs
    exact steps_setThread (b := ⟨.save, j, true⟩) ht le_rfl
  | save i w =>
    obtain ⟨-, j, m, ht, hcase⟩ := step_save hs
    rcases hcase with ⟨-, rfl⟩ | ⟨-, ⟨-, rfl⟩ | ⟨c, k, hc, rfl⟩⟩
    · exact steps_setThread (b := ⟨.leaving, j, false⟩) ht (Nat.le_succ 2)
    · exact steps_setThread (b := ⟨.saved, j, true⟩) ht (Nat.le_succ 2)
    · have hw : _ + 9 = _ + 10 := tally_set Caller.steps hc (.enter k)
      have hd : _ + 3 = _ + 1 := tally_set (fun th => th.pc.steps) ht ⟨.saved, j, true⟩
      show tally Caller.steps (s.callers.set c _) + tally _ (s.threads.set i _) + 1 ≤ s.steps + 0
      rw [State.steps]
      omega
  | wait i =>
    obtain ⟨j, m, ht, rfl⟩ := step_wait.mp hs
    exact steps_setThread (b := ⟨.wait, j, false⟩) ht le_rfl
  | relock i =>
    obtain ⟨j, ht, rfl⟩ := step_relock.mp hs
    exact steps_setThread (b := ⟨.run, j, false⟩) ht le_rfl
  | leave i =>
    obtain ⟨-, j, m, ht, rfl⟩ := step_leave.mp hs
    exact steps_setThread (b := ⟨.exited, j, m⟩) ht le_rfl
  | unsignalled i =>
    obtain ⟨j, m, ht, rfl⟩ := step_unsignalled.mp hs
    have hd : _ + 0 = _ + 7 := tally_set (fun th => th.pc.steps) ht ⟨.woken, j, m⟩
    show tally Caller.steps s.callers + tally _ (s.threads.set i _) + 0 ≤ s.steps + 7
    rw [State.steps]
    omega

/-- Along a run. -/
theorem steps_run (hrun : run step s es = some t) :
    t.steps + tally Event.cost es ≤ s.steps + tally Event.adds es := by
  induction es generalizing s with
  | nil =>
    rw [run_nil, Option.some.injEq] at hrun
    rw [hrun, tally_nil, tally_nil]
  | cons e es ih =>
    obtain ⟨s', hs', hrun⟩ := Option.bind_eq_some_iff.mp (run_cons s e es ▸ hrun)
    have hstep := steps_step hs'
    have hrest := ih hrun
    rw [tally_cons, tally_cons]
    omega

/-- **A call makes at most ten steps,** its thread's and those of the caller it wakes among them;
a thread that is let go without a signal makes seven more. -/
theorem steps_le (h : State.createThreadpool n callers = some s) (hrun : run step s es = some t) :
    tally Event.cost es ≤ tally Event.adds es := by
  have hle := steps_run hrun
  have hzero : s.steps = 0 := by
    unfold State.createThreadpool at h
    split_ifs at h
    obtain rfl := Option.some.inj h
    exact Nat.add_eq_zero_iff.mpr ⟨tally_eq_zero_iff.mpr fun p hp => by
      rw [List.eq_of_mem_replicate hp]; rfl, rfl⟩
  omega

theorem steps_twoCalls : tally Event.cost twoCalls ≤ tally Event.adds twoCalls :=
  steps_le createThreadpool_one run_twoCalls

end GSConferencing.Threadpool.Pool
