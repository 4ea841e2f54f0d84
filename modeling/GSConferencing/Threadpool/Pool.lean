import GSConferencing.Lib.Run
import GSConferencing.Lib.Tally

/-!
# The pool of threads

`dispatch_threadpool` gives a job, which is a function with its argument, to a thread of the pool
that has nothing to do, creates one if there is none, and waits on `tp_idle` once there are
`tp_max_index` of them.  A thread calls its function, puts itself into `tp_list` (`save_thread`) and
waits on its own `cond`.

A step is what one thread does from one lock to the next; what is in between is done at once.  The
locks that are held while the thread may wait for another one are part of the state: a caller has
`tp_mutex` while it waits for the mutex of the thread it took, and a thread has its own mutex while
it waits for `tp_mutex`.

* `step`: the steps, one event for each; `step_lock` and its like say what each of them does.
* `Inv`: the invariant; `inv_step`, the step lemma.
* A condition variable may let a thread go that nobody has signalled.  `dispatch_threadpool` looks
  again then, `wrapper_fn` does not: `Unsignalled` is the event.
* `Once`: every job is where it should be, once; `counts_step` for one step.
-/

namespace GSConferencing.Threadpool.Pool

open GSConferencing.Lib.Run GSConferencing.Lib.Tally

/-- `MAXT_IN_POOL`. -/
def maxtInPool : ℕ := 200

/-- Where a thread of the pool is, in `wrapper_fn`. -/
inductive Pc where
  /-- It is about to call `fn`. -/
  | run
  /-- It is in `fn`. -/
  | busy
  /-- `fn` has returned; it is about to lock its mutex. -/
  | done
  /-- It has its mutex and is in `save_thread`, about to lock `tp_mutex`. -/
  | save
  /-- `save_thread` has returned 0; it is about to wait. -/
  | saved
  /-- It waits on `cond`. -/
  | wait
  /-- It is back from `cond`, about to lock its mutex again. -/
  | woken
  /-- `save_thread` has returned -1; it is freed and about to count itself out. -/
  | leaving
  | exited
  deriving DecidableEq

/-- Where a caller of `dispatch_threadpool` is. -/
inductive Caller (J : Type*) where
  | out
  /-- It is about to lock `tp_mutex`. -/
  | enter (j : J)
  /-- It waits on `tp_idle`. -/
  | idleWait (j : J)
  /-- It has `tp_mutex` and is about to lock the mutex of the thread `t`, which has the job. -/
  | lockThread (t : ℕ) (j : J)
  deriving DecidableEq

/-- `struct _thread_st`; `job` is `fn` with `arg`. -/
structure Thread (J : Type*) where
  pc : Pc
  job : J
  /-- `mutex` is locked. -/
  mutex : Bool

/-- The pool, with its threads in the order of their creation, and those that call it. -/
structure State (J : Type*) where
  /-- The caller that has `tp_mutex` while it waits for another lock. -/
  tpMutex : Option ℕ
  /-- `tp_list` up to `tp_index`, the last entry first. -/
  tpList : List ℕ
  tpMaxIndex : ℕ
  tpTotal : ℕ
  threads : List (Thread J)
  callers : List (Caller J)
  /-- The jobs `dispatch_threadpool` was called with. -/
  called : List J
  /-- The jobs that were given to a thread. -/
  handed : List J
  /-- The jobs no thread could be created for. -/
  failed : List J
  /-- The jobs whose function was called. -/
  started : List J
  /-- The jobs whose function has returned. -/
  finished : List J

variable {J : Type*} {s s' : State J} {c t : ℕ} {j : J}

namespace State

def setCaller (s : State J) (c : ℕ) (p : Caller J) : State J :=
  { s with callers := s.callers.set c p }

def setThread (s : State J) (t : ℕ) (th : Thread J) : State J :=
  { s with threads := s.threads.set t th }

/-- `create_threadpool`, for `callers` threads that call it. -/
def createThreadpool (numThreadsInPool : ℤ) (callers : ℕ) : Option (State J) :=
  if numThreadsInPool ≤ 0 ∨ (maxtInPool : ℤ) < numThreadsInPool then none
  else some ⟨none, [], numThreadsInPool.toNat, 0, [], List.replicate callers .out, [], [], [],
    [], []⟩

/-- `dispatch_threadpool` from the lock of `tp_mutex` on; `created` says whether
`sp_thread_create` returns 0. -/
def dispatch (s : State J) (c : ℕ) (j : J) (created : Bool) : Option (State J) :=
  match s.tpList with
  | [] =>
    if s.tpMaxIndex ≤ s.tpTotal then some (s.setCaller c (.idleWait j))
    else if created then
      some { s.setCaller c .out with
        threads := s.threads ++ [⟨.run, j, false⟩]
        tpTotal := s.tpTotal + 1
        handed := j :: s.handed }
    else some { s.setCaller c .out with failed := j :: s.failed }
  | t :: rest =>
    match s.threads[t]? with
    | some th =>
      some { (s.setThread t { th with job := j }).setCaller c (.lockThread t j) with
        tpMutex := some c
        tpList := rest
        handed := j :: s.handed }
    | none => none

/-- The signal for `tp_idle` lets the caller `w` go, if one waits there. -/
def signalIdle (s : State J) : Option ℕ → Option (State J)
  | none => if s.callers.all fun | .idleWait _ => false | _ => true then some s else none
  | some w => match s.callers[w]? with
    | some (.idleWait j) => some (s.setCaller w (.enter j))
    | _ => none

/-- `save_thread` and the way to `cond` or out of the loop. -/
def saveThread (s : State J) (t : ℕ) (j : J) (w : Option ℕ) : Option (State J) :=
  if s.tpList.length < s.tpMaxIndex then
    { s.setThread t ⟨.saved, j, true⟩ with tpList := t :: s.tpList }.signalIdle w
  else some (s.setThread t ⟨.leaving, j, false⟩)

end State

/-- The steps. -/
inductive Event (J : Type*) where
  /-- The caller `c` calls `dispatch_threadpool`. -/
  | call (c : ℕ) (j : J)
  | lock (c : ℕ) (created : Bool)
  /-- The caller signals the thread it took, and returns. -/
  | signal (c : ℕ)
  /-- `tp_idle` lets a caller go that was not signalled. -/
  | unsignalledIdle (c : ℕ)
  | start (t : ℕ)
  /-- `fn` returns. -/
  | finish (t : ℕ)
  | lockOwn (t : ℕ)
  | save (t : ℕ) (w : Option ℕ)
  | wait (t : ℕ)
  | relock (t : ℕ)
  | leave (t : ℕ)
  /-- `cond` lets a thread go that was not signalled. -/
  | unsignalled (t : ℕ)

open State in
/-- **One step;** `none`: it is not the next step of that thread, or a lock is taken. -/
def step (s : State J) : Event J → Option (State J)
  | .call c j => match s.callers[c]? with
    | some .out => some { s.setCaller c (.enter j) with called := j :: s.called }
    | _ => none
  | .lock c created => match s.tpMutex, s.callers[c]? with
    | none, some (.enter j) => s.dispatch c j created
    | _, _ => none
  | .signal c => match s.callers[c]? with
    | some (.lockThread t _) => match s.threads[t]? with
      | some ⟨.wait, j, false⟩ =>
        some { (s.setThread t ⟨.woken, j, false⟩).setCaller c .out with tpMutex := none }
      | some ⟨_, _, false⟩ => some { s.setCaller c .out with tpMutex := none }
      | _ => none
    | _ => none
  | .unsignalledIdle c => match s.callers[c]? with
    | some (.idleWait j) => some (s.setCaller c (.enter j))
    | _ => none
  | .start t => match s.threads[t]? with
    | some ⟨.run, j, m⟩ => some { s.setThread t ⟨.busy, j, m⟩ with started := j :: s.started }
    | _ => none
  | .finish t => match s.threads[t]? with
    | some ⟨.busy, j, m⟩ => some { s.setThread t ⟨.done, j, m⟩ with finished := j :: s.finished }
    | _ => none
  | .lockOwn t => match s.threads[t]? with
    | some ⟨.done, j, false⟩ => some (s.setThread t ⟨.save, j, true⟩)
    | _ => none
  | .save t w => match s.tpMutex, s.threads[t]? with
    | none, some ⟨.save, j, _⟩ => s.saveThread t j w
    | _, _ => none
  | .wait t => match s.threads[t]? with
    | some ⟨.saved, j, _⟩ => some (s.setThread t ⟨.wait, j, false⟩)
    | _ => none
  | .relock t => match s.threads[t]? with
    | some ⟨.woken, j, false⟩ => some (s.setThread t ⟨.run, j, false⟩)
    | _ => none
  | .leave t => match s.tpMutex, s.threads[t]? with
    | none, some ⟨.leaving, j, m⟩ =>
      some { s.setThread t ⟨.exited, j, m⟩ with tpTotal := s.tpTotal - 1 }
    | _, _ => none
  | .unsignalled t => match s.threads[t]? with
    | some ⟨.wait, j, m⟩ => some (s.setThread t ⟨.woken, j, m⟩)
    | _ => none

/-! ## What each step does -/

theorem step_call : step s (.call c j) = some s' ↔ s.callers[c]? = some .out ∧
    { s.setCaller c (.enter j) with called := j :: s.called } = s' := by
  rw [step]
  split <;> simp_all

/-- **The critical section of `dispatch_threadpool`:** it waits, it creates a thread or fails to,
or it takes the last thread of `tp_list`. -/
theorem step_lock {created : Bool} (h : step s (.lock c created) = some s') : s.tpMutex = none ∧
    ∃ j, s.callers[c]? = some (.enter j) ∧
      (s.tpList = [] ∧ s.tpMaxIndex ≤ s.tpTotal ∧ s' = s.setCaller c (.idleWait j) ∨
      s.tpList = [] ∧ s.tpTotal < s.tpMaxIndex ∧ created = true ∧ s' = { s.setCaller c .out with
        threads := s.threads ++ [⟨.run, j, false⟩]
        tpTotal := s.tpTotal + 1
        handed := j :: s.handed } ∨
      s.tpList = [] ∧ s.tpTotal < s.tpMaxIndex ∧ created = false ∧
        s' = { s.setCaller c .out with failed := j :: s.failed } ∨
      ∃ t rest th, s.tpList = t :: rest ∧ s.threads[t]? = some th ∧
        s' = { (s.setThread t { th with job := j }).setCaller c (.lockThread t j) with
          tpMutex := some c
          tpList := rest
          handed := j :: s.handed }) := by
  rw [step] at h
  split at h
  · rename_i j hmutex hc
    refine ⟨hmutex, j, hc, ?_⟩
    unfold State.dispatch at h
    split at h
    · rename_i hlist
      split_ifs at h with hfull hcreated
      · exact Or.inl ⟨hlist, hfull, (Option.some.inj h).symm⟩
      · exact Or.inr (Or.inl ⟨hlist, by omega, hcreated, (Option.some.inj h).symm⟩)
      · exact Or.inr (Or.inr (Or.inl ⟨hlist, by omega, by simpa using hcreated,
          (Option.some.inj h).symm⟩))
    · rename_i t rest hlist
      split at h
      · rename_i th hth
        exact Or.inr (Or.inr (Or.inr ⟨t, rest, th, hlist, hth, (Option.some.inj h).symm⟩))
      · cases h
  · cases h

/-- **The signal** is lost, unless the thread is in `sp_thread_cond_wait`. -/
theorem step_signal (h : step s (.signal c) = some s') : ∃ t j th,
    s.callers[c]? = some (.lockThread t j) ∧ s.threads[t]? = some th ∧ th.mutex = false ∧
      (th.pc = .wait ∧ s' = { (s.setThread t ⟨.woken, th.job, false⟩).setCaller c .out with
        tpMutex := none } ∨
      th.pc ≠ .wait ∧ s' = { s.setCaller c .out with tpMutex := none }) := by
  rw [step] at h
  split at h
  · rename_i t j hc
    split at h
    · rename_i j' hth
      exact ⟨t, j, _, hc, hth, rfl, Or.inl ⟨rfl, (Option.some.inj h).symm⟩⟩
    · rename_i pc j' hne hth
      exact ⟨t, j, _, hc, hth, rfl, Or.inr ⟨hne,
        (Option.some.inj h).symm⟩⟩
    · cases h
  · cases h

theorem step_unsignalledIdle : step s (.unsignalledIdle c) = some s' ↔
    ∃ j, s.callers[c]? = some (.idleWait j) ∧ s.setCaller c (.enter j) = s' := by
  rw [step]
  split <;> simp_all

theorem step_start : step s (.start t) = some s' ↔ ∃ j m, s.threads[t]? = some ⟨.run, j, m⟩ ∧
    { s.setThread t ⟨.busy, j, m⟩ with started := j :: s.started } = s' := by
  rw [step]
  constructor
  · intro h
    split at h
    · exact ⟨_, _, ‹_›, Option.some.inj h⟩
    · cases h
  · rintro ⟨j, m, hth, rfl⟩
    rw [hth]

theorem step_finish : step s (.finish t) = some s' ↔ ∃ j m, s.threads[t]? = some ⟨.busy, j, m⟩ ∧
    { s.setThread t ⟨.done, j, m⟩ with finished := j :: s.finished } = s' := by
  rw [step]
  constructor
  · intro h
    split at h
    · exact ⟨_, _, ‹_›, Option.some.inj h⟩
    · cases h
  · rintro ⟨j, m, hth, rfl⟩
    rw [hth]

theorem step_lockOwn : step s (.lockOwn t) = some s' ↔
    ∃ j, s.threads[t]? = some ⟨.done, j, false⟩ ∧ s.setThread t ⟨.save, j, true⟩ = s' := by
  rw [step]
  constructor
  · intro h
    split at h
    · exact ⟨_, ‹_›, Option.some.inj h⟩
    · cases h
  · rintro ⟨j, hth, rfl⟩
    rw [hth]

/-- **`save_thread`** lets one of the callers go that wait on `tp_idle`, if there is one. -/
theorem step_save {w : Option ℕ} (h : step s (.save t w) = some s') : s.tpMutex = none ∧
    ∃ j m, s.threads[t]? = some ⟨.save, j, m⟩ ∧
      (s.tpMaxIndex ≤ s.tpList.length ∧ s' = s.setThread t ⟨.leaving, j, false⟩ ∨
      s.tpList.length < s.tpMaxIndex ∧
        ((∀ p ∈ s.callers, ∀ i, p ≠ .idleWait i) ∧
          s' = { s.setThread t ⟨.saved, j, true⟩ with tpList := t :: s.tpList } ∨
        ∃ c i, s.callers[c]? = some (.idleWait i) ∧
          s' = { (s.setThread t ⟨.saved, j, true⟩).setCaller c (.enter i) with
            tpList := t :: s.tpList })) := by
  rw [step] at h
  split at h
  · rename_i j m hmutex hth
    refine ⟨hmutex, j, m, hth, ?_⟩
    unfold State.saveThread at h
    split_ifs at h with hlen
    · refine Or.inr ⟨hlen, ?_⟩
      cases w with
      | none =>
        rw [State.signalIdle] at h
        split_ifs at h with hall
        refine Or.inl ⟨fun p hp i hpi => ?_, (Option.some.inj h).symm⟩
        have hno := List.all_eq_true.mp hall p hp
        simp [hpi] at hno
      | some c =>
        rw [State.signalIdle] at h
        split at h
        · rename_i i hi
          exact Or.inr ⟨c, i, hi, (Option.some.inj h).symm⟩
        · cases h
    · exact Or.inl ⟨by omega, (Option.some.inj h).symm⟩
  · cases h

theorem step_wait : step s (.wait t) = some s' ↔ ∃ j m, s.threads[t]? = some ⟨.saved, j, m⟩ ∧
    s.setThread t ⟨.wait, j, false⟩ = s' := by
  rw [step]
  constructor
  · intro h
    split at h
    · exact ⟨_, _, ‹_›, Option.some.inj h⟩
    · cases h
  · rintro ⟨j, m, hth, rfl⟩
    rw [hth]

theorem step_relock : step s (.relock t) = some s' ↔
    ∃ j, s.threads[t]? = some ⟨.woken, j, false⟩ ∧ s.setThread t ⟨.run, j, false⟩ = s' := by
  rw [step]
  constructor
  · intro h
    split at h
    · exact ⟨_, ‹_›, Option.some.inj h⟩
    · cases h
  · rintro ⟨j, hth, rfl⟩
    rw [hth]

theorem step_leave : step s (.leave t) = some s' ↔ s.tpMutex = none ∧
    ∃ j m, s.threads[t]? = some ⟨.leaving, j, m⟩ ∧
      { s.setThread t ⟨.exited, j, m⟩ with tpTotal := s.tpTotal - 1 } = s' := by
  rw [step]
  constructor
  · intro h
    split at h
    · exact ⟨‹_›, _, _, ‹_›, Option.some.inj h⟩
    · cases h
  · rintro ⟨hmutex, j, m, hth, rfl⟩
    rw [hmutex, hth]

theorem step_unsignalled : step s (.unsignalled t) = some s' ↔
    ∃ j m, s.threads[t]? = some ⟨.wait, j, m⟩ ∧ s.setThread t ⟨.woken, j, m⟩ = s' := by
  rw [step]
  constructor
  · intro h
    split at h
    · exact ⟨_, _, ‹_›, Option.some.inj h⟩
    · cases h
  · rintro ⟨j, m, hth, rfl⟩
    rw [hth]

/-! ## The invariant -/

/-- The thread has put itself into `tp_list`, or was taken from there and is not let go yet. -/
def Pc.Parked (pc : Pc) : Prop := pc = .saved ∨ pc = .wait

/-- The thread has its mutex where it should, and does not leave the pool. -/
def Thread.Ok (th : Thread J) : Prop :=
  (th.mutex = true ↔ th.pc = .save ∨ th.pc = .saved) ∧ th.pc ≠ .leaving ∧ th.pc ≠ .exited

def Caller.entering : Caller J → ℕ
  | .enter _ => 1
  | _ => 0

/-- The caller that has `tp_mutex` beside the thread it took and the job. -/
abbrev Taken (J : Type*) := Option (ℕ × ℕ × J)

/-- The threads that are in `tp_list` or were taken from there. -/
def State.parked (s : State J) (o : Taken J) : List ℕ := (o.map fun x => x.2.1).toList ++ s.tpList

/-- **The invariant,** where `o` is what the caller with `tp_mutex` has taken. -/
structure Inv (s : State J) (o : Taken J) : Prop where
  mutex : s.tpMutex = o.map fun x => x.1
  taken : ∀ c t j, s.callers[c]? = some (.lockThread t j) ↔ o = some (c, t, j)
  job : ∀ c t j, o = some (c, t, j) → ∀ th, s.threads[t]? = some th → th.job = j
  parked : ∀ t, t ∈ s.parked o ↔ ∃ th, s.threads[t]? = some th ∧ th.pc.Parked
  nodup : (s.parked o).Nodup
  ok : ∀ th ∈ s.threads, th.Ok
  total : s.tpTotal = s.threads.length
  total_le : s.tpTotal ≤ s.tpMaxIndex
  pos : 0 < s.tpMaxIndex
  /-- A caller waits only if there are as many threads as there may be. -/
  full : ∀ j, Caller.idleWait j ∈ s.callers → s.tpMaxIndex ≤ s.tpTotal
  /-- For every thread that is free while a caller waits there is a caller on its way in. -/
  wake : ∀ j, Caller.idleWait j ∈ s.callers → s.tpList.length ≤ tally Caller.entering s.callers

section Invariant
variable {o : Taken J} {th th' : Thread J} {p p' : Caller J}

theorem getElem?_set_of_some {α : Type*} {l : List α} {i k : ℕ} {a b : α} (h : l[i]? = some a) :
    (l.set i b)[k]? = if i = k then some b else l[k]? := by
  rw [List.getElem?_set]
  split_ifs with hik hlt
  · rfl
  · exact absurd (List.getElem?_eq_some_iff.mp h).1 hlt
  · rfl

/-- What holds of every entry still does, once one of them is written. -/
theorem forall_mem_set {α : Type*} {P : α → Prop} {l : List α} {i : ℕ} {a : α}
    (h : ∀ x ∈ l, P x) (ha : P a) : ∀ x ∈ l.set i a, P x := fun x hx =>
  (List.mem_or_eq_of_mem_set hx).elim (h x) fun he => he ▸ ha

theorem Inv.notMem_tpList (h : Inv s o) (ht : s.threads[t]? = some th) (hp : ¬ th.pc.Parked) :
    t ∉ s.tpList := fun hmem => by
  obtain ⟨th₁, hth₁, hp₁⟩ := (h.parked t).mp (List.mem_append_right _ hmem)
  rw [ht, Option.some.injEq] at hth₁
  exact hp (hth₁ ▸ hp₁)

theorem Inv.of_mutex (h : Inv s o) (hm : s.tpMutex = none) : o = none :=
  Option.map_eq_none_iff.mp (h.mutex.symm.trans hm)

/-- What the pool was called with, has handed over and started does not matter. -/
theorem Inv.withLogs (h : Inv s o) (called handed failed started finished : List J) :
    Inv { s with
      called := called
      handed := handed
      failed := failed
      started := started
      finished := finished } o :=
  { h with }

/-- A caller goes on outside the critical section. -/
theorem Inv.setCaller (h : Inv s o) (hc : s.callers[c]? = some p)
    (hp : ∀ t j, p ≠ .lockThread t j) (hp' : ∀ t j, p' ≠ .lockThread t j)
    (hfull : ∀ j, p' = .idleWait j → s.tpMaxIndex ≤ s.tpTotal ∧ s.tpList = [])
    (hin : s.tpList = [] ∨ p.entering ≤ p'.entering) : Inv (s.setCaller c p') o := by
  refine { h with taken := ?_, full := ?_, wake := ?_ }
  · intro c' t j
    rw [← h.taken, State.setCaller, getElem?_set_of_some hc]
    split_ifs with hcc
    · subst hcc
      rw [hc]
      exact ⟨fun he => absurd (Option.some.inj he) (hp' t j),
        fun he => absurd (Option.some.inj he) (hp t j)⟩
    · exact Iff.rfl
  · intro j hj
    rcases List.mem_or_eq_of_mem_set hj with hj | hj
    · exact h.full j hj
    · exact (hfull j hj.symm).1
  · intro j hj
    have hset := tally_set Caller.entering hc p'
    show s.tpList.length ≤ tally Caller.entering (s.callers.set c p')
    rcases hin with hnil | hle
    · exact hnil ▸ Nat.zero_le _
    · rcases List.mem_or_eq_of_mem_set hj with hj | hj
      · have hwake := h.wake j hj
        omega
      · exact (hfull j hj.symm).2 ▸ Nat.zero_le _

/-- A thread goes on and does not leave `tp_list` or enter it. -/
theorem Inv.setThread (h : Inv s o) (ht : s.threads[t]? = some th)
    (hp : th'.pc.Parked ↔ th.pc.Parked) (hjob : th'.job = th.job) (hok : th'.Ok) :
    Inv (s.setThread t th') o := by
  refine { h with job := ?_, parked := ?_, ok := forall_mem_set h.ok hok, total := ?_ }
  · intro c' t' j ho th₁ hth₁
    rw [State.setThread, getElem?_set_of_some ht] at hth₁
    split_ifs at hth₁ with htt
    · cases hth₁
      rw [hjob]
      exact h.job c' t' j ho th (htt ▸ ht)
    · exact h.job c' t' j ho th₁ hth₁
  · intro t'
    refine (h.parked t').trans ?_
    rw [State.setThread, getElem?_set_of_some ht]
    split_ifs with htt
    · subst htt
      simp [ht, hp]
    · exact Iff.rfl
  · exact h.total.trans (List.length_set ..).symm

/-- A thread is created. -/
theorem Inv.create (h : Inv s o) (hlt : s.tpTotal < s.tpMaxIndex) (j : J) :
    Inv { s with threads := s.threads ++ [⟨.run, j, false⟩], tpTotal := s.tpTotal + 1 } o := by
  have hlook : ∀ (t : ℕ) th, (s.threads ++ [⟨.run, j, false⟩])[t]? = some th →
      s.threads[t]? = some th ∨ t = s.threads.length ∧ th = ⟨.run, j, false⟩ := by
    intro t th hth
    rcases Nat.lt_trichotomy t s.threads.length with hlt | rfl | hgt
    · exact Or.inl (List.getElem?_append_left hlt ▸ hth)
    · rw [List.getElem?_concat_length] at hth
      exact Or.inr ⟨rfl, (Option.some.inj hth).symm⟩
    · rw [List.getElem?_eq_none (by simp; omega)] at hth
      cases hth
  refine { h with job := ?_, parked := ?_, ok := ?_, total := ?_, total_le := hlt, full := ?_ }
  · intro c t i ho th hth
    rcases hlook t th hth with hth | ⟨rfl, rfl⟩
    · exact h.job c t i ho th hth
    · have hin : s.threads.length ∈ s.parked o := by
        rw [ho]
        exact List.mem_cons_self
      obtain ⟨th, hth, -⟩ := (h.parked _).mp hin
      rw [List.getElem?_eq_none le_rfl] at hth
      cases hth
  · intro t
    refine (h.parked t).trans ⟨?_, ?_⟩
    · rintro ⟨th, hth, hp⟩
      exact ⟨th, by rw [List.getElem?_append_left (List.getElem?_eq_some_iff.mp hth).1, hth], hp⟩
    · rintro ⟨th, hth, hp⟩
      rcases hlook t th hth with hth | ⟨-, rfl⟩
      · exact ⟨th, hth, hp⟩
      · rcases hp with hp | hp <;> cases hp
  · intro th hth
    rcases List.mem_append.mp hth with hth | hth
    · exact h.ok th hth
    · obtain rfl := List.mem_singleton.mp hth
      simp [Thread.Ok]
  · show s.tpTotal + 1 = (s.threads ++ _).length
    rw [List.length_append, h.total]
    rfl
  · exact fun i hi => Nat.le_succ_of_le (h.full i hi)

/-- The last thread of `tp_list` is taken. -/
theorem Inv.take (h : Inv s none) (hc : s.callers[c]? = some (.enter j)) {rest : List ℕ}
    (hlist : s.tpList = t :: rest) (ht : s.threads[t]? = some th) :
    Inv { (s.setThread t { th with job := j }).setCaller c (.lockThread t j) with
      tpMutex := some c, tpList := rest } (some (c, t, j)) := by
  have hparked := h.parked
  have hnodup := h.nodup
  simp only [State.parked, hlist] at hparked hnodup
  refine { h with mutex := rfl, taken := ?_, job := ?_, parked := ?_, nodup := hnodup,
                  ok := forall_mem_set h.ok (h.ok th (List.mem_of_getElem? ht)),
                  total := h.total.trans (List.length_set ..).symm, full := ?_, wake := ?_ }
  · intro c' t' j'
    simp only [State.setCaller, State.setThread]
    rw [getElem?_set_of_some hc]
    split_ifs with hcc
    · subst hcc
      simp only [Option.some.injEq, Caller.lockThread.injEq, Prod.mk.injEq, true_and]
    · have hnone := h.taken c' t' j'
      simp only [Option.some.injEq, Prod.mk.injEq, hcc, false_and, iff_false]
      exact fun hlock => absurd (hnone.mp hlock) (by simp)
  · intro c' t' j' ho th₁ hth₁
    simp only [Option.some.injEq, Prod.mk.injEq] at ho
    obtain ⟨-, rfl, rfl⟩ := ho
    simp only [State.setCaller, State.setThread, getElem?_set_of_some ht, if_true,
      Option.some.injEq] at hth₁
    exact hth₁ ▸ rfl
  · intro t'
    refine (hparked t').trans ?_
    simp only [State.setCaller, State.setThread, getElem?_set_of_some ht]
    split_ifs with htt
    · subst htt
      simp [ht]
    · exact Iff.rfl
  · intro i hi
    rcases List.mem_or_eq_of_mem_set hi with hi | hi
    · exact h.full i hi
    · cases hi
  · intro i hi
    have hset := tally_set Caller.entering hc (.lockThread t j)
    simp only [State.setCaller, State.setThread] at hi ⊢
    rcases List.mem_or_eq_of_mem_set hi with hi | hi
    · have hwake := h.wake i hi
      rw [hlist, List.length_cons] at hwake
      simp only [Caller.entering] at hset
      omega
    · cases hi

/-- **No signal is lost:** the thread that was taken has its mutex free only once it waits. -/
theorem Inv.waiting (h : Inv s (some (c, t, j))) (ht : s.threads[t]? = some th)
    (hm : th.mutex = false) : th = ⟨.wait, j, false⟩ := by
  obtain ⟨th₁, hth₁, hp⟩ := (h.parked t).mp List.mem_cons_self
  obtain rfl : th = th₁ := Option.some.inj (ht.symm.trans hth₁)
  have hjob := h.job c t j rfl th ht
  have hok := h.ok th (List.mem_of_getElem? ht)
  obtain ⟨pc, i, m⟩ := th
  simp only at hp hjob hm
  subst hjob hm
  rcases hp with rfl | rfl
  · exact absurd (hok.1.mpr (Or.inr rfl)) (by simp)
  · rfl

/-- The thread that was taken is let go. -/
theorem Inv.letGo (h : Inv s (some (c, t, j))) (ht : s.threads[t]? = some ⟨.wait, j, false⟩) :
    Inv { (s.setThread t ⟨.woken, j, false⟩).setCaller c .out with tpMutex := none } none := by
  have hc : s.callers[c]? = some (.lockThread t j) := (h.taken c t j).mpr rfl
  have hnd : t ∉ s.tpList ∧ s.tpList.Nodup := List.nodup_cons.mp h.nodup
  refine { h with mutex := rfl, taken := ?_, job := ?_, parked := ?_, nodup := hnd.2,
                  ok := forall_mem_set h.ok (by simp [Thread.Ok]),
                  total := h.total.trans (List.length_set ..).symm, full := ?_, wake := ?_ }
  · intro c' t' j'
    simp only [State.setCaller, State.setThread, getElem?_set_of_some hc]
    split_ifs with hcc
    · simp
    · refine iff_of_false (fun hlock => hcc ?_) (by simp)
      have hsame := (h.taken c' t' j').mp hlock
      simp only [Option.some.injEq, Prod.mk.injEq] at hsame
      exact hsame.1
  · intro c' t' j' ho
    cases ho
  · intro t'
    have hold := h.parked t'
    simp only [State.parked, Option.map_some, Option.toList_some, List.singleton_append,
      List.mem_cons] at hold
    simp only [State.setCaller, State.setThread, State.parked, getElem?_set_of_some ht,
      Option.map_none, Option.toList_none, List.nil_append]
    split_ifs with htt
    · subst htt
      simp [hnd.1, Pc.Parked]
    · rw [← hold]
      simp [Ne.symm htt]
  · intro i hi
    rcases List.mem_or_eq_of_mem_set hi with hi | hi
    · exact h.full i hi
    · cases hi
  · intro i hi
    have hset := tally_set Caller.entering hc .out
    simp only [State.setCaller, State.setThread] at hi ⊢
    rcases List.mem_or_eq_of_mem_set hi with hi | hi
    · have hwake := h.wake i hi
      simp only [Caller.entering] at hset
      omega
    · cases hi

/-- **`save_thread` has room,** for the threads in `tp_list` are not all of them. -/
theorem Inv.room (h : Inv s none) (ht : s.threads[t]? = some th) (hp : ¬ th.pc.Parked) :
    s.tpList.length < s.tpMaxIndex := by
  have hlt : ∀ t' ∈ t :: s.tpList, t' < s.threads.length := by
    intro t' ht'
    rcases List.mem_cons.mp ht' with rfl | ht'
    · exact (List.getElem?_eq_some_iff.mp ht).1
    · obtain ⟨th₁, hth₁, -⟩ := (h.parked t').mp ht'
      exact (List.getElem?_eq_some_iff.mp hth₁).1
  have hnd : (t :: s.tpList).Nodup := List.nodup_cons.mpr ⟨h.notMem_tpList ht hp, h.nodup⟩
  have hsub : (t :: s.tpList).length ≤ (List.range s.threads.length).length :=
    (List.subperm_of_subset hnd fun t' ht' => List.mem_range.mpr (hlt t' ht')).length_le
  rw [List.length_cons, List.length_range] at hsub
  have htotal := h.total
  have hle := h.total_le
  omega

/-- A thread puts itself into `tp_list`. -/
theorem Inv.save (h : Inv s none) {m : Bool} (ht : s.threads[t]? = some ⟨.save, j, m⟩)
    (hwake : ∀ i, Caller.idleWait i ∈ s.callers →
      s.tpList.length + 1 ≤ tally Caller.entering s.callers) :
    Inv { s.setThread t ⟨.saved, j, true⟩ with tpList := t :: s.tpList } none := by
  have hmem : t ∉ s.tpList := h.notMem_tpList ht (by simp [Pc.Parked])
  refine { h with job := ?_, parked := ?_, nodup := List.nodup_cons.mpr ⟨hmem, h.nodup⟩,
                  ok := forall_mem_set h.ok (by simp [Thread.Ok]),
                  total := h.total.trans (List.length_set ..).symm, wake := hwake }
  · intro c' t' j' ho
    cases ho
  · intro t'
    have hold := h.parked t'
    simp only [State.parked, Option.map_none, Option.toList_none, List.nil_append,
      State.setThread, getElem?_set_of_some ht, List.mem_cons] at hold ⊢
    split_ifs with htt
    · simp [htt, Pc.Parked]
    · rw [← hold]
      simp [Ne.symm htt]

theorem inv_createThreadpool {n : ℤ} {callers : ℕ}
    (h : State.createThreadpool n callers = some s) : Inv s none := by
  unfold State.createThreadpool at h
  split_ifs at h with hn
  obtain rfl := Option.some.inj h
  constructor
  · rfl
  · intro c t j
    refine iff_of_false (fun hc => ?_) (by simp)
    have hout := List.eq_of_mem_replicate (List.mem_of_getElem? hc)
    cases hout
  · intro c t j ho
    cases ho
  · simp [State.parked]
  · exact List.nodup_nil
  · simp
  · rfl
  · exact Nat.zero_le _
  · show 0 < n.toNat
    omega
  · intro j hj
    cases List.eq_of_mem_replicate hj
  · intro j hj
    cases List.eq_of_mem_replicate hj

/-- **The guard:** a thread that waits on its `cond` is not let go without a signal. -/
def Signalled (s : State J) : Event J → Prop
  | .unsignalled t => s.threads[t]?.map Thread.pc ≠ some .wait
  | _ => True

instance (s : State J) : ∀ e, Decidable (Signalled s e)
  | .unsignalled t => inferInstanceAs (Decidable (s.threads[t]?.map Thread.pc ≠ some .wait))
  | .call .. | .lock .. | .signal _ | .unsignalledIdle _ | .start _ | .finish _ | .lockOwn _
  | .save .. | .wait _ | .relock _ | .leave _ => .isTrue trivial

/-- **The step lemma.** -/
theorem inv_step (h : Inv s o) {e : Event J} (hg : Signalled s e) (hs : step s e = some s') :
    ∃ o', Inv s' o' := by
  cases e with
  | call c j =>
    obtain ⟨hc, rfl⟩ := step_call.mp hs
    exact ⟨o, (h.setCaller hc (by simp) (by simp) (by simp)
      (Or.inr (Nat.zero_le _))).withLogs _ _ _ _ _⟩
  | lock c created =>
    obtain ⟨hmutex, j, hc, hcase⟩ := step_lock hs
    obtain rfl := h.of_mutex hmutex
    rcases hcase with ⟨hnil, hfull, rfl⟩ | ⟨hnil, hlt, -, rfl⟩ | ⟨hnil, -, -, rfl⟩ |
      ⟨t, rest, th, hlist, ht, rfl⟩
    · exact ⟨none, h.setCaller hc (by simp) (by simp) (fun _ _ => ⟨hfull, hnil⟩) (Or.inl hnil)⟩
    · have hout : Inv (s.setCaller c .out) none :=
        h.setCaller hc (by simp) (by simp) (by simp) (Or.inl hnil)
      exact ⟨none, (hout.create hlt j).withLogs _ _ _ _ _⟩
    · exact ⟨none, (h.setCaller hc (by simp) (by simp) (by simp) (Or.inl hnil)).withLogs _ _ _ _ _⟩
    · exact ⟨_, (h.take hc hlist ht).withLogs _ _ _ _ _⟩
  | signal c =>
    obtain ⟨t, j, th, hc, ht, hm, hcase⟩ := step_signal hs
    obtain rfl := (h.taken c t j).mp hc
    obtain rfl := h.waiting ht hm
    rcases hcase with ⟨-, rfl⟩ | ⟨hne, -⟩
    · exact ⟨none, h.letGo ht⟩
    · exact absurd rfl hne
  | unsignalledIdle c =>
    obtain ⟨j, hc, rfl⟩ := step_unsignalledIdle.mp hs
    exact ⟨o, h.setCaller hc (by simp) (by simp) (by simp) (Or.inr (Nat.zero_le _))⟩
  | start t =>
    obtain ⟨j, m, ht, rfl⟩ := step_start.mp hs
    have hok := h.ok _ (List.mem_of_getElem? ht)
    have hbusy : Inv (s.setThread t ⟨.busy, j, m⟩) o :=
      h.setThread ht (by simp [Pc.Parked]) rfl (by simpa [Thread.Ok] using hok)
    exact ⟨o, hbusy.withLogs _ _ _ _ _⟩
  | finish t =>
    obtain ⟨j, m, ht, rfl⟩ := step_finish.mp hs
    have hok := h.ok _ (List.mem_of_getElem? ht)
    have hdone : Inv (s.setThread t ⟨.done, j, m⟩) o :=
      h.setThread ht (by simp [Pc.Parked]) rfl (by simpa [Thread.Ok] using hok)
    exact ⟨o, hdone.withLogs _ _ _ _ _⟩
  | lockOwn t =>
    obtain ⟨j, ht, rfl⟩ := step_lockOwn.mp hs
    exact ⟨o, h.setThread ht (by simp [Pc.Parked]) rfl (by simp [Thread.Ok])⟩
  | save t w =>
    obtain ⟨hmutex, j, m, ht, hcase⟩ := step_save hs
    obtain rfl := h.of_mutex hmutex
    have hroom := h.room ht (by simp [Pc.Parked])
    rcases hcase with ⟨hle, -⟩ | ⟨-, hcase⟩
    · exact absurd hle (Nat.not_le.mpr hroom)
    · rcases hcase with ⟨hno, rfl⟩ | ⟨c, i, hc, rfl⟩
      · exact ⟨none, h.save ht fun i hi => absurd rfl (hno _ hi i)⟩
      · have hin : Inv (s.setCaller c (.enter i)) none :=
          h.setCaller hc (by simp) (by simp) (by simp) (Or.inr (Nat.zero_le _))
        refine ⟨none, hin.save ht fun k hk => ?_⟩
        have hwake := h.wake i (List.mem_of_getElem? hc)
        have hset := tally_set Caller.entering hc (.enter i)
        simp only [Caller.entering] at hset
        show s.tpList.length + 1 ≤ tally Caller.entering (s.callers.set c (.enter i))
        omega
  | wait t =>
    obtain ⟨j, m, ht, rfl⟩ := step_wait.mp hs
    exact ⟨o, h.setThread ht (by simp [Pc.Parked]) rfl (by simp [Thread.Ok])⟩
  | relock t =>
    obtain ⟨j, ht, rfl⟩ := step_relock.mp hs
    exact ⟨o, h.setThread ht (by simp [Pc.Parked]) rfl (by simp [Thread.Ok])⟩
  | leave t =>
    obtain ⟨-, j, m, ht, -⟩ := step_leave.mp hs
    exact absurd rfl (h.ok _ (List.mem_of_getElem? ht)).2.1
  | unsignalled t =>
    obtain ⟨j, m, ht, -⟩ := step_unsignalled.mp hs
    exact absurd (congrArg (Option.map Thread.pc) ht) hg

end Invariant

/-! ## Where the jobs are -/

/-- The job of a caller that has not given it to a thread yet. -/
def Caller.waiting : Caller J → List J
  | .enter j | .idleWait j => [j]
  | _ => []

/-- The job of a caller that has given it to a thread, and has not let the thread go yet. -/
def Caller.given : Caller J → List J
  | .lockThread _ j => [j]
  | _ => []

/-- The job of a thread that is going to start it. -/
def Thread.due (th : Thread J) : List J :=
  match th.pc with
  | .run | .woken => [th.job]
  | _ => []

/-- The job a thread is at. -/
def Thread.running (th : Thread J) : List J := if th.pc = .busy then [th.job] else []

section Jobs
variable {f : J → ℕ} {m : Bool} {pc : Pc}

@[simp] theorem Caller.waiting_out : (Caller.out : Caller J).waiting = [] := rfl

@[simp] theorem Caller.waiting_enter : (Caller.enter j).waiting = [j] := rfl

@[simp] theorem Caller.waiting_idleWait : (Caller.idleWait j).waiting = [j] := rfl

@[simp] theorem Caller.waiting_lockThread : (Caller.lockThread t j).waiting = [] := rfl

@[simp] theorem Caller.given_out : (Caller.out : Caller J).given = [] := rfl

@[simp] theorem Caller.given_enter : (Caller.enter j).given = [] := rfl

@[simp] theorem Caller.given_idleWait : (Caller.idleWait j).given = [] := rfl

@[simp] theorem Caller.given_lockThread : (Caller.lockThread t j).given = [j] := rfl

@[simp] theorem Thread.due_run : (Thread.mk .run j m).due = [j] := rfl

@[simp] theorem Thread.due_woken : (Thread.mk .woken j m).due = [j] := rfl

/-- A thread that is elsewhere has no job to start. -/
@[simp] theorem Thread.due_of_ne (h : pc ≠ .run) (h' : pc ≠ .woken) :
    (Thread.mk pc j m).due = [] := by
  cases pc with
  | run => exact absurd rfl h
  | woken => exact absurd rfl h'
  | _ => rfl

@[simp] theorem Thread.running_busy : (Thread.mk .busy j m).running = [j] := rfl

@[simp] theorem Thread.running_of_ne (h : pc ≠ .busy) : (Thread.mk pc j m).running = [] := if_neg h

end Jobs

namespace State

/-- The jobs of the calls that have not given theirs to a thread yet. -/
def waiting (s : State J) : List J := s.callers.flatMap Caller.waiting

/-- The jobs that were given to a thread and not started yet. -/
def pending (s : State J) : List J := s.callers.flatMap Caller.given ++ s.threads.flatMap Thread.due

/-- The jobs that were started and have not returned yet. -/
def running (s : State J) : List J := s.threads.flatMap Thread.running

/-- The jobs the pool was called with that have not returned. -/
def current (s : State J) : List J := s.waiting ++ s.failed ++ (s.pending ++ s.running)

end State

/-- **Every job once:** what the pool was called with waits, has failed, or was handed over once;
what was handed over is pending or was started once; what was started is running or has returned. -/
structure Once (s : State J) : Prop where
  called : s.called.Perm (s.waiting ++ s.failed ++ s.handed)
  handed : s.handed.Perm (s.pending ++ s.started)
  started : s.started.Perm (s.running ++ s.finished)

/-- `Once` for a weight. -/
structure Counts (f : J → ℕ) (s : State J) : Prop where
  called : tally f s.called = tally (fun p => tally f p.waiting) s.callers + tally f s.failed +
    tally f s.handed
  handed : tally f s.handed = tally (fun p => tally f p.given) s.callers +
    tally (fun th => tally f th.due) s.threads + tally f s.started
  started : tally f s.started = tally (fun th => tally f th.running) s.threads + tally f s.finished

theorem once_iff_counts : Once s ↔ ∀ f, Counts f s := by
  constructor
  · rintro ⟨hcalled, hhanded, hstarted⟩ f
    have h := tally_perm hcalled f
    have h' := tally_perm hhanded f
    have h'' := tally_perm hstarted f
    simp only [State.waiting, State.pending, State.running, tally_append, tally_flatMap] at h h' h''
    exact ⟨h, h', h''⟩
  · intro h
    refine ⟨perm_of_tally fun f => ?_, perm_of_tally fun f => ?_, perm_of_tally fun f => ?_⟩
    · rw [State.waiting, tally_append, tally_append, tally_flatMap]
      exact (h f).called
    · rw [State.pending, tally_append, tally_append, tally_flatMap, tally_flatMap]
      exact (h f).handed
    · rw [State.running, tally_append, tally_flatMap]
      exact (h f).started

/-- What a caller and a thread that go on do to the counts. -/
theorem counts_step {f : J → ℕ} {o : Taken J} (hc : Counts f s) (h : Inv s o) {e : Event J}
    (hg : Signalled s e) (hs : step s e = some s') : Counts f s' := by
  obtain ⟨hcalled, hhanded, hstarted⟩ := hc
  cases e with
  | call c j =>
    obtain ⟨hc, rfl⟩ := step_call.mp hs
    have hw := tally_set (fun p => tally f p.waiting) hc (.enter j)
    have hv := tally_set (fun p => tally f p.given) hc (.enter j)
    simp at hw hv
    refine ⟨?_, ?_, ?_⟩ <;> simp only [State.setCaller, tally_cons] <;> omega
  | lock c created =>
    obtain ⟨-, j, hc, hcase⟩ := step_lock hs
    rcases hcase with ⟨-, -, rfl⟩ | ⟨-, -, -, rfl⟩ | ⟨-, -, -, rfl⟩ | ⟨t, rest, th, hlist, ht, rfl⟩
    · have hw := tally_set (fun p => tally f p.waiting) hc (.idleWait j)
      have hv := tally_set (fun p => tally f p.given) hc (.idleWait j)
      simp at hw hv
      refine ⟨?_, ?_, ?_⟩ <;> simp only [State.setCaller] <;> omega
    · have hw := tally_set (fun p => tally f p.waiting) hc .out
      have hv := tally_set (fun p => tally f p.given) hc .out
      simp at hw hv
      refine ⟨?_, ?_, ?_⟩ <;> simp only [State.setCaller, tally_append, tally_cons, tally_nil,
        Thread.due_run, Thread.running_of_ne, ne_eq, reduceCtorEq, not_false_eq_true] <;> omega
    · have hw := tally_set (fun p => tally f p.waiting) hc .out
      have hv := tally_set (fun p => tally f p.given) hc .out
      simp at hw hv
      refine ⟨?_, ?_, ?_⟩ <;> simp only [State.setCaller, tally_cons] <;> omega
    · have hw := tally_set (fun p => tally f p.waiting) hc (.lockThread t j)
      have hv := tally_set (fun p => tally f p.given) hc (.lockThread t j)
      have hd := tally_set (fun th => tally f th.due) ht { th with job := j }
      have hr := tally_set (fun th => tally f th.running) ht { th with job := j }
      -- a thread in `tp_list` has nothing to start, whatever its job is
      have hin : t ∈ s.parked o := List.mem_append_right _ (hlist ▸ List.mem_cons_self)
      obtain ⟨th', ht', hp⟩ := (h.parked t).mp hin
      obtain rfl : th = th' := Option.some.inj (ht.symm.trans ht')
      have hdue : ∀ i : J, ({ th with job := i } : Thread J).due = [] := by
        intro i
        rcases hp with hp | hp <;> rw [hp] <;> simp
      have hrun : ∀ i : J, ({ th with job := i } : Thread J).running = [] := by
        intro i
        rcases hp with hp | hp <;> rw [hp] <;> simp
      rw [hdue, hdue] at hd
      rw [hrun, hrun] at hr
      simp at hw hv hd hr
      refine ⟨?_, ?_, ?_⟩ <;> simp only [State.setCaller, State.setThread, tally_cons] <;> omega
  | signal c =>
    obtain ⟨t, j, th, hc, ht, hm, hcase⟩ := step_signal hs
    obtain rfl := (h.taken c t j).mp hc
    obtain rfl := h.waiting ht hm
    rcases hcase with ⟨-, rfl⟩ | ⟨hne, -⟩
    · have hw := tally_set (fun p => tally f p.waiting) hc .out
      have hv := tally_set (fun p => tally f p.given) hc .out
      have hd := tally_set (fun th => tally f th.due) ht ⟨.woken, j, false⟩
      have hr := tally_set (fun th => tally f th.running) ht ⟨.woken, j, false⟩
      simp at hw hv hd hr
      refine ⟨?_, ?_, ?_⟩ <;> simp only [State.setCaller, State.setThread] <;> omega
    · exact absurd rfl hne
  | unsignalledIdle c =>
    obtain ⟨j, hc, rfl⟩ := step_unsignalledIdle.mp hs
    have hw := tally_set (fun p => tally f p.waiting) hc (.enter j)
    have hv := tally_set (fun p => tally f p.given) hc (.enter j)
    simp at hw hv
    refine ⟨?_, ?_, ?_⟩ <;> simp only [State.setCaller] <;> omega
  | start t =>
    obtain ⟨j, m, ht, rfl⟩ := step_start.mp hs
    have hd := tally_set (fun th => tally f th.due) ht ⟨.busy, j, m⟩
    have hr := tally_set (fun th => tally f th.running) ht ⟨.busy, j, m⟩
    simp at hd hr
    refine ⟨?_, ?_, ?_⟩ <;> simp only [State.setThread, tally_cons] <;> omega
  | finish t =>
    obtain ⟨j, m, ht, rfl⟩ := step_finish.mp hs
    have hd := tally_set (fun th => tally f th.due) ht ⟨.done, j, m⟩
    have hr := tally_set (fun th => tally f th.running) ht ⟨.done, j, m⟩
    simp at hd hr
    refine ⟨?_, ?_, ?_⟩ <;> simp only [State.setThread, tally_cons] <;> omega
  | lockOwn t =>
    obtain ⟨j, ht, rfl⟩ := step_lockOwn.mp hs
    have hd := tally_set (fun th => tally f th.due) ht ⟨.save, j, true⟩
    have hr := tally_set (fun th => tally f th.running) ht ⟨.save, j, true⟩
    simp at hd hr
    refine ⟨?_, ?_, ?_⟩ <;> simp only [State.setThread] <;> omega
  | save t w =>
    obtain ⟨-, j, m, ht, hcase⟩ := step_save hs
    rcases hcase with ⟨-, rfl⟩ | ⟨-, ⟨-, rfl⟩ | ⟨c, i, hc, rfl⟩⟩
    · have hd := tally_set (fun th => tally f th.due) ht ⟨.leaving, j, false⟩
      have hr := tally_set (fun th => tally f th.running) ht ⟨.leaving, j, false⟩
      simp at hd hr
      refine ⟨?_, ?_, ?_⟩ <;> simp only [State.setThread] <;> omega
    · have hd := tally_set (fun th => tally f th.due) ht ⟨.saved, j, true⟩
      have hr := tally_set (fun th => tally f th.running) ht ⟨.saved, j, true⟩
      simp at hd hr
      refine ⟨?_, ?_, ?_⟩ <;> simp only [State.setThread] <;> omega
    · have hd := tally_set (fun th => tally f th.due) ht ⟨.saved, j, true⟩
      have hr := tally_set (fun th => tally f th.running) ht ⟨.saved, j, true⟩
      have hw := tally_set (fun p => tally f p.waiting) hc (.enter i)
      have hv := tally_set (fun p => tally f p.given) hc (.enter i)
      simp at hw hv hd hr
      refine ⟨?_, ?_, ?_⟩ <;> simp only [State.setCaller, State.setThread] <;> omega
  | wait t =>
    obtain ⟨j, m, ht, rfl⟩ := step_wait.mp hs
    have hd := tally_set (fun th => tally f th.due) ht ⟨.wait, j, false⟩
    have hr := tally_set (fun th => tally f th.running) ht ⟨.wait, j, false⟩
    simp at hd hr
    refine ⟨?_, ?_, ?_⟩ <;> simp only [State.setThread] <;> omega
  | relock t =>
    obtain ⟨j, ht, rfl⟩ := step_relock.mp hs
    have hd := tally_set (fun th => tally f th.due) ht ⟨.run, j, false⟩
    have hr := tally_set (fun th => tally f th.running) ht ⟨.run, j, false⟩
    simp at hd hr
    refine ⟨?_, ?_, ?_⟩ <;> simp only [State.setThread] <;> omega
  | leave t =>
    obtain ⟨-, j, m, ht, -⟩ := step_leave.mp hs
    exact absurd rfl (h.ok _ (List.mem_of_getElem? ht)).2.1
  | unsignalled t =>
    obtain ⟨j, m, ht, -⟩ := step_unsignalled.mp hs
    exact absurd (congrArg (Option.map Thread.pc) ht) hg

theorem once_step {o : Taken J} {e : Event J} (h : Once s) (ho : Inv s o) (hg : Signalled s e)
    (hs : step s e = some s') : Once s' :=
  once_iff_counts.mpr fun f => counts_step (once_iff_counts.mp h f) ho hg hs

/-! ## What is current -/

theorem Once.current (h : Once s) : s.called.Perm (s.current ++ s.finished) := by
  have hhanded := h.handed.trans (h.started.append_left s.pending)
  rw [← List.append_assoc] at hhanded
  have hcalled := h.called.trans (hhanded.append_left (s.waiting ++ s.failed))
  rwa [← List.append_assoc] at hcalled

/-- Only a call adds a job, and only a job's return takes one away. -/
theorem current_call {o : Taken J} (h : Once s) (ho : Inv s o) (hs : step s (.call c j) = some s') :
    s'.current.Perm (j :: s.current) := by
  have hcur := (once_step (e := .call c j) h ho trivial hs).current
  obtain ⟨-, rfl⟩ := step_call.mp hs
  have hold : (j :: s.called).Perm (j :: s.current ++ s.finished) := h.current.cons j
  exact (List.perm_append_right_iff _).mp (hcur.symm.trans hold)

theorem current_finish {o : Taken J} {m : Bool} (h : Once s) (ho : Inv s o)
    (ht : s.threads[t]? = some ⟨.busy, j, m⟩) (hs : step s (.finish t) = some s') :
    s.current.Perm (j :: s'.current) := by
  have hcur := (once_step (e := .finish t) h ho trivial hs).current
  obtain ⟨j', m', ht', rfl⟩ := step_finish.mp hs
  obtain ⟨rfl, -⟩ : j = j' ∧ m = m' := by simpa using ht.symm.trans ht'
  have hmove : s.called.Perm (j :: _ ++ s.finished) := hcur.trans List.perm_middle
  exact (List.perm_append_right_iff _).mp (h.current.symm.trans hmove)

/-- The steps that are none of the two. -/
def Event.quiet : Event J → Bool
  | .call .. | .finish _ => false
  | _ => true

theorem logs_of_quiet {e : Event J} (he : e.quiet = true) (hs : step s e = some s') :
    s'.called = s.called ∧ s'.finished = s.finished := by
  cases e with
  | call c j => cases he
  | lock c created =>
    obtain ⟨-, j, -, hcase⟩ := step_lock hs
    rcases hcase with ⟨-, -, rfl⟩ | ⟨-, -, -, rfl⟩ | ⟨-, -, -, rfl⟩ | ⟨t, rest, th, -, -, rfl⟩ <;>
      exact ⟨rfl, rfl⟩
  | signal c =>
    obtain ⟨t, j, th, -, -, -, ⟨-, rfl⟩ | ⟨-, rfl⟩⟩ := step_signal hs <;> exact ⟨rfl, rfl⟩
  | unsignalledIdle c =>
    obtain ⟨j, -, rfl⟩ := step_unsignalledIdle.mp hs
    exact ⟨rfl, rfl⟩
  | start t =>
    obtain ⟨j, m, -, rfl⟩ := step_start.mp hs
    exact ⟨rfl, rfl⟩
  | finish t => cases he
  | lockOwn t =>
    obtain ⟨j, -, rfl⟩ := step_lockOwn.mp hs
    exact ⟨rfl, rfl⟩
  | save t w =>
    obtain ⟨-, j, m, -, ⟨-, rfl⟩ | ⟨-, ⟨-, rfl⟩ | ⟨c, i, -, rfl⟩⟩⟩ := step_save hs <;>
      exact ⟨rfl, rfl⟩
  | wait t =>
    obtain ⟨j, m, -, rfl⟩ := step_wait.mp hs
    exact ⟨rfl, rfl⟩
  | relock t =>
    obtain ⟨j, -, rfl⟩ := step_relock.mp hs
    exact ⟨rfl, rfl⟩
  | leave t =>
    obtain ⟨-, j, m, -, rfl⟩ := step_leave.mp hs
    exact ⟨rfl, rfl⟩
  | unsignalled t =>
    obtain ⟨j, m, -, rfl⟩ := step_unsignalled.mp hs
    exact ⟨rfl, rfl⟩

theorem current_of_quiet {o : Taken J} {e : Event J} (he : e.quiet = true) (h : Once s)
    (ho : Inv s o) (hg : Signalled s e) (hs : step s e = some s') : s'.current.Perm s.current := by
  obtain ⟨hcalled, hfinished⟩ := logs_of_quiet he hs
  have hcur := (once_step h ho hg hs).current
  rw [hcalled, hfinished] at hcur
  exact (List.perm_append_right_iff _).mp (hcur.symm.trans h.current)

/-- **A thread stays at its job** until that returns. -/
theorem busy_step {o : Taken J} {e : Event J} {m : Bool} (ho : Inv s o)
    (ht : s.threads[t]? = some ⟨.busy, j, m⟩) (he : e ≠ .finish t) (hs : step s e = some s') :
    s'.threads[t]? = some ⟨.busy, j, m⟩ := by
  -- the threads that a step is about are not at a job
  have hset : ∀ (i : ℕ) th th', s.threads[i]? = some th → th.pc ≠ .busy →
      (s.threads.set i th')[t]? = some ⟨.busy, j, m⟩ := by
    intro i th th' hi hne
    rw [List.getElem?_set_ne, ht]
    rintro rfl
    exact hne (congrArg Thread.pc (Option.some.inj (hi.symm.trans ht)))
  cases e with
  | call c j =>
    obtain ⟨-, rfl⟩ := step_call.mp hs
    exact ht
  | lock c created =>
    obtain ⟨-, i, -, hcase⟩ := step_lock hs
    rcases hcase with ⟨-, -, rfl⟩ | ⟨-, -, -, rfl⟩ | ⟨-, -, -, rfl⟩ | ⟨k, rest, th, hlist, hk, rfl⟩
    · exact ht
    · exact (List.getElem?_append_left (List.getElem?_eq_some_iff.mp ht).1).trans ht
    · exact ht
    · have hin : k ∈ s.parked o := List.mem_append_right _ (hlist ▸ List.mem_cons_self)
      obtain ⟨th', hth', hp⟩ := (ho.parked k).mp hin
      obtain rfl : th = th' := Option.some.inj (hk.symm.trans hth')
      exact hset k th _ hk (by rcases hp with hp | hp <;> rw [hp] <;> simp)
  | signal c =>
    obtain ⟨k, i, th, -, hk, -, ⟨hpc, rfl⟩ | ⟨-, rfl⟩⟩ := step_signal hs
    · exact hset k th _ hk (by simp [hpc])
    · exact ht
  | unsignalledIdle c =>
    obtain ⟨i, -, rfl⟩ := step_unsignalledIdle.mp hs
    exact ht
  | start k =>
    obtain ⟨i, m', hk, rfl⟩ := step_start.mp hs
    exact hset k _ _ hk (by simp)
  | finish k =>
    obtain ⟨i, m', hk, rfl⟩ := step_finish.mp hs
    have hne : k ≠ t := fun h => he (h ▸ rfl)
    exact (List.getElem?_set_ne hne).trans ht
  | lockOwn k =>
    obtain ⟨i, hk, rfl⟩ := step_lockOwn.mp hs
    exact hset k _ _ hk (by simp)
  | save k w =>
    obtain ⟨-, i, m', hk, ⟨-, rfl⟩ | ⟨-, ⟨-, rfl⟩ | ⟨c, i', -, rfl⟩⟩⟩ := step_save hs <;>
      exact hset k _ _ hk (by simp)
  | wait k =>
    obtain ⟨i, m', hk, rfl⟩ := step_wait.mp hs
    exact hset k _ _ hk (by simp)
  | relock k =>
    obtain ⟨i, hk, rfl⟩ := step_relock.mp hs
    exact hset k _ _ hk (by simp)
  | leave k =>
    obtain ⟨-, i, m', hk, rfl⟩ := step_leave.mp hs
    exact hset k _ _ hk (by simp)
  | unsignalled k =>
    obtain ⟨i, m', hk, rfl⟩ := step_unsignalled.mp hs
    exact hset k _ _ hk (by simp)

theorem mem_current_of_busy {m : Bool} (ht : s.threads[t]? = some ⟨.busy, j, m⟩) :
    j ∈ s.current := by
  refine List.mem_append_right _ (List.mem_append_right _ ?_)
  exact List.mem_flatMap.mpr ⟨_, List.mem_of_getElem? ht, List.mem_singleton.mpr rfl⟩

end GSConferencing.Threadpool.Pool
