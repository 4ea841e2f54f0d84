import GSConferencing.Lib.Run
import GSConferencing.Lib.Tally

/-!
# The blocking queue

`include/queue.h`: threads put items into a queue, and threads take them out, where one that finds
no more than `min` items waits.  Each function holds the mutex from its beginning to its end, but
while it waits; a thread that waits may be let go without a signal, too.

* `step`: one step of one thread.
* `Inv`: `len` is the length of the queue, and no thread waits that could go on; `inv_step`.
* `taken_in_order`: the items are taken in the order in which they were put.
-/

namespace GSConferencing.Include.Queue

open GSConferencing.Lib.Run GSConferencing.Lib.Tally

/-- Where a thread is that takes items. -/
inductive Taker where
  | out
  /-- In `blocking_deque_min(q, min)`, about to lock the mutex. -/
  | enter (min : ℕ)
  /-- It waits on `cond`. -/
  | wait (min : ℕ)
  deriving DecidableEq

/-- `struct blocking_queue`, with the threads that take items out of it. -/
structure State (α : Type*) where
  head : List α
  len : ℤ
  takers : List Taker
  /-- What was put into the queue, and what was taken out of it, in this order. -/
  entered : List α
  taken : List α

variable {α : Type*} {s s' t : State α} {c min : ℕ} {p : α}

/-- `blocking_queue_init`, for `n` threads that take items. -/
def blockingQueueInit (α : Type*) (n : ℕ) : State α := ⟨[], 0, List.replicate n .out, [], []⟩

/-- `pthread_cond_broadcast`. -/
def Taker.letGo : Taker → Taker
  | .wait min => .enter min
  | c => c

/-- `blocking_enque`. -/
def blockingEnque (s : State α) (p : α) : State α :=
  { s with
    head := s.head ++ [p]
    len := s.len + 1
    takers := s.takers.map Taker.letGo
    entered := s.entered ++ [p] }

/-- `blocking_deque_min` from the mutex on; `deque` of an empty queue would yield `NULL`, and has no
result. -/
def blockingDequeMin (s : State α) (c min : ℕ) : Option (State α) :=
  if ¬ (min : ℤ) < s.len then some { s with takers := s.takers.set c (.wait min) }
  else match s.head with
    | [] => none
    | p :: head => some { s with
      head := head
      len := s.len - 1
      takers := s.takers.set c .out
      taken := s.taken ++ [p] }

inductive Event (α : Type*) where
  | enque (p : α)
  /-- The thread `c` calls `blocking_deque_min`. -/
  | call (c min : ℕ)
  | lock (c : ℕ)
  /-- `cond` lets a thread go that was not signalled. -/
  | unsignalled (c : ℕ)

def step (s : State α) : Event α → Option (State α)
  | .enque p => some (blockingEnque s p)
  | .call c min => match s.takers[c]? with
    | some .out => some { s with takers := s.takers.set c (.enter min) }
    | _ => none
  | .lock c => match s.takers[c]? with
    | some (.enter min) => blockingDequeMin s c min
    | _ => none
  | .unsignalled c => match s.takers[c]? with
    | some (.wait min) => some { s with takers := s.takers.set c (.enter min) }
    | _ => none

/-! ## The invariant -/

/-- **The invariant.** -/
structure Inv (s : State α) : Prop where
  len : s.len = s.head.length
  fifo : s.entered = s.taken ++ s.head
  /-- No thread waits while there is enough for it. -/
  wait : ∀ min, Taker.wait min ∈ s.takers → s.head.length ≤ min

theorem inv_init (α : Type*) (n : ℕ) : Inv (blockingQueueInit α n) :=
  ⟨rfl, rfl, fun min h => by cases List.eq_of_mem_replicate h⟩

theorem inv_blockingEnque (h : Inv s) (p : α) : Inv (blockingEnque s p) := by
  refine ⟨?_, ?_, fun min hmin => ?_⟩
  · simp [blockingEnque, h.len]
  · simp [blockingEnque, h.fifo]
  · obtain ⟨c, -, hc⟩ := List.mem_map.mp hmin
    cases c <;> cases hc

/-- **Taking an item:** the first one, if there are more than `min`. -/
theorem blockingDequeMin_eq (h : Inv s) (c min : ℕ) : blockingDequeMin s c min =
    if s.head.length ≤ min then some { s with takers := s.takers.set c (.wait min) }
    else s.head.head?.map fun p => { s with
      head := s.head.tail
      len := s.len - 1
      takers := s.takers.set c .out
      taken := s.taken ++ [p] } := by
  unfold blockingDequeMin
  rw [h.len]
  by_cases hle : s.head.length ≤ min
  · rw [if_pos hle, if_pos (by omega)]
  · rw [if_neg hle, if_neg (by omega)]
    cases s.head <;> rfl

theorem inv_blockingDequeMin (h : Inv s) (hs : blockingDequeMin s c min = some s') : Inv s' := by
  rw [blockingDequeMin_eq h] at hs
  split_ifs at hs with hle
  · obtain rfl := Option.some.inj hs
    refine ⟨h.len, h.fifo, fun k hk => ?_⟩
    rcases List.mem_or_eq_of_mem_set hk with hk | hk
    · exact h.wait k hk
    · cases hk
      exact hle
  · obtain ⟨p, hp, rfl⟩ := Option.map_eq_some_iff.mp hs
    obtain ⟨head, hhead⟩ : ∃ head, s.head = p :: head := List.head?_eq_some_iff.mp hp
    have hlen := h.len
    have hfifo := h.fifo
    rw [hhead] at hlen hfifo
    refine ⟨?_, ?_, fun k hk => ?_⟩
    · simp only [hhead, List.tail_cons, List.length_cons] at hlen ⊢
      omega
    · simp [hhead, hfifo]
    · rcases List.mem_or_eq_of_mem_set hk with hk | hk
      · exact (by simp : s.head.tail.length ≤ s.head.length).trans (h.wait k hk)
      · cases hk

/-- A thread that does not wait afterwards keeps the invariant. -/
theorem Inv.setTaker (h : Inv s) {x : Taker} (hx : ∀ min, x ≠ .wait min) :
    Inv { s with takers := s.takers.set c x } :=
  { h with
    wait := fun k hk => (List.mem_or_eq_of_mem_set hk).elim (h.wait k) fun he =>
      absurd he.symm (hx k) }

/-- **The step lemma.** -/
theorem inv_step (h : Inv s) {e : Event α} (hs : step s e = some s') : Inv s' := by
  cases e with
  | enque p => exact Option.some.inj hs ▸ inv_blockingEnque h p
  | call c min =>
    rw [step] at hs
    split at hs
    · exact Option.some.inj hs ▸ h.setTaker (by simp)
    · cases hs
  | lock c =>
    rw [step] at hs
    split at hs
    · exact inv_blockingDequeMin h hs
    · cases hs
  | unsignalled c =>
    rw [step] at hs
    split at hs
    · exact Option.some.inj hs ▸ h.setTaker (by simp)
    · cases hs

/-! ## Runs -/

/-- The item that an event puts into the queue. -/
def Event.item : Event α → Option α
  | .enque p => some p
  | _ => none

theorem entered_step {e : Event α} (hs : step s e = some s') :
    s'.entered = s.entered ++ e.item.toList := by
  cases e with
  | enque p => exact Option.some.inj hs ▸ rfl
  | call c min =>
    rw [step] at hs
    split at hs
    · exact Option.some.inj hs ▸ (List.append_nil _).symm
    · cases hs
  | lock c =>
    rw [step] at hs
    split at hs
    · unfold blockingDequeMin at hs
      split_ifs at hs
      · split at hs
        · cases hs
        · exact Option.some.inj hs ▸ (List.append_nil _).symm
      · exact Option.some.inj hs ▸ (List.append_nil _).symm
    · cases hs
  | unsignalled c =>
    rw [step] at hs
    split at hs
    · exact Option.some.inj hs ▸ (List.append_nil _).symm
    · cases hs

theorem entered_run {es : List (Event α)} (hrun : run step s es = some t) :
    t.entered = s.entered ++ es.filterMap Event.item := by
  induction es generalizing s with
  | nil =>
    rw [run_nil, Option.some.injEq] at hrun
    rw [hrun, List.filterMap_nil, List.append_nil]
  | cons e es ih =>
    obtain ⟨s₁, hs₁, hrun⟩ := Option.bind_eq_some_iff.mp (run_cons s e es ▸ hrun)
    rw [ih hrun, entered_step hs₁, List.append_assoc, List.filterMap_cons]
    cases e.item <;> rfl

theorem inv_of_run {n : ℕ} {es : List (Event α)}
    (hrun : run step (blockingQueueInit α n) es = some t) : Inv t :=
  of_run_forall (I := Inv) (E := fun _ => True) (fun _ _ _ h _ hs => inv_step h hs) (inv_init α n)
    (fun _ _ => trivial) hrun

/-- **First in, first out:** what was taken, in this order, and what is in the queue is what was put
into it; a thread waits only for more items than there are. -/
theorem taken_in_order {n : ℕ} {es : List (Event α)}
    (hrun : run step (blockingQueueInit α n) es = some t) :
    es.filterMap Event.item = t.taken ++ t.head ∧ t.len = t.head.length ∧
      ∀ min, Taker.wait min ∈ t.takers → t.head.length ≤ min := by
  have h := inv_of_run hrun
  have hentered := entered_run hrun
  rw [show (blockingQueueInit α n).entered = [] from rfl, List.nil_append] at hentered
  exact ⟨hentered.symm.trans h.fifo, h.len, h.wait⟩

/-- Two threads; the one that asks first waits, as it wants an item to be left. -/
def twoTakers : List (Event ℕ) :=
  [.call 0 1, .lock 0, .enque 5, .lock 0, .call 1 0, .lock 1, .enque 6, .enque 7, .lock 0]

def twoTaken : State ℕ := ⟨[7], 1, [.out, .out], [5, 6, 7], [5, 6]⟩

theorem run_twoTakers : run step (blockingQueueInit ℕ 2) twoTakers = some twoTaken := rfl

theorem order_twoTakers : [5, 6, 7] = twoTaken.taken ++ twoTaken.head ∧
    twoTaken.len = twoTaken.head.length ∧
      ∀ min, Taker.wait min ∈ twoTaken.takers → twoTaken.head.length ≤ min :=
  taken_in_order run_twoTakers

/-- A thread that has the mutex before it goes on. -/
theorem lock_enabled (h : Inv s) (hc : s.takers[c]? = some (.enter min)) :
    ∃ s', step s (.lock c) = some s' := by
  rw [step, hc]
  show ∃ s', blockingDequeMin s c min = some s'
  rw [blockingDequeMin_eq h]
  split_ifs with hle
  · exact ⟨_, rfl⟩
  · obtain ⟨p, hp⟩ : ∃ p, s.head.head? = some p := by
      cases hhead : s.head with
      | nil => simp [hhead] at hle
      | cons p head => exact ⟨p, rfl⟩
    rw [hp]
    exact ⟨_, rfl⟩

end GSConferencing.Include.Queue
