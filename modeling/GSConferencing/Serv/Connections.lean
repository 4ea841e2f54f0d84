import GSConferencing.Include.Queue
import GSConferencing.Serv.Proceed

/-!
# The connections of the server

`network.c`: one thread accepts connections, puts each into a block of a pool that is limited, and
enqueues it; another one takes them out of the queue, one after the other, and answers the command
that each of them brings.

* `step`: the steps of the two threads; `stepped_of_step`: each of them, with where its thread was.
* `Inv`: where the connections and the blocks are; `inv_step`.
* `answered_in_order`: the connections are answered in the order in which they were accepted, each
  of them once.
* `all_answered`: once neither thread has a step to take, all are answered and all blocks are free.
* `connection_steps_le`: how many steps there are, but for the turns in which the listener looks for
  a block in vain; it does so only while the other thread has the blocks, and a step to take.
-/

namespace GSConferencing.Serv.Connections

open GSConferencing.Lib.Run GSConferencing.Lib.Tally
open GSConferencing.Include GSConferencing.Include.Pack
open GSConferencing.Serv.Handlers GSConferencing.Serv.Proceed GSConferencing.Serv.Strutil

/-- The count of `conn_pool`. -/
def connCount : ℕ := 256

/-- Where the thread is that accepts. -/
inductive Listener where
  | accepting
  /-- It looks for a block for the socket. -/
  | allocating (sock : ℕ)
  /-- It is about to enqueue the block. -/
  | enqueuing (b : ℕ)

/-- The table of handlers with the names and the handlers of its entries. -/
structure Cmds (α σ : Type*) where
  id : α → Str
  handler : Handler α σ
  table : Table α

structure State (σ : Type*) where
  /-- `free_list` of `conn_pool`. -/
  freeList : List ℕ
  /-- `c->sock` of the connection in each block. -/
  sock : ℕ → ℕ
  queue : Queue.State ℕ
  listener : Listener
  /-- The connection that is being proceeded. -/
  current : Option ℕ
  server : σ
  accepted : List ℕ
  /-- The sockets with what was sent to them. -/
  answered : List (ℕ × List Byte)

variable {α σ : Type*} {C : Cmds α σ} {s s' t : State σ}

/-- `run_listener_tcp` before its loop. -/
def start (server : σ) : State σ where
  freeList := List.range connCount
  sock := fun _ => 0
  queue := Queue.blockingQueueInit ℕ 1
  listener := .accepting
  current := none
  server := server
  accepted := []
  answered := []

inductive Event where
  | accept (sock : ℕ)
  | alloc
  /-- `alloc_block` has no block: the listener sleeps for a second and tries again. -/
  | retry
  | enque
  /-- `deque_connection` is called. -/
  | call
  | lock
  | unsignalled
  /-- The connection is proceeded; these are the pieces the stream has for it. -/
  | proceed (salt : Byte) (pieces : List (List Byte))

/-- **One step;** `none`: it is not the next step of that thread, no block is free, or the handler
has no result. -/
def step (C : Cmds α σ) (s : State σ) : Event → Option (State σ)
  | .accept sock => match s.listener with
    | .accepting => some { s with listener := .allocating sock, accepted := s.accepted ++ [sock] }
    | _ => none
  | .alloc => match s.listener, s.freeList with
    | .allocating sock, b :: l => some { s with
      freeList := l
      sock := Function.update s.sock b sock
      listener := .enqueuing b }
    | _, _ => none
  | .retry => match s.listener, s.freeList with
    | .allocating _, [] => some s
    | _, _ => none
  | .enque => match s.listener with
    | .enqueuing b => some { s with
      queue := Queue.blockingEnque s.queue b
      listener := .accepting }
    | _ => none
  | .call =>
    if s.current = none then (Queue.step s.queue (.call 0 0)).map fun q => { s with queue := q }
    else none
  | .lock => (Queue.step s.queue (.lock 0)).map fun q => { s with
    queue := q
    -- the thread is back from the queue with its first item
    current := if q.takers = [.out] then s.queue.head.head? else none }
  | .unsignalled => (Queue.step s.queue (.unsignalled 0)).map fun q => { s with queue := q }
  | .proceed salt pieces => match s.current with
    | some b => (proceedConnection C.id C.handler C.table s.server salt pieces).map fun r =>
      { s with
        freeList := b :: s.freeList
        current := none
        server := r.2
        answered := s.answered ++ [(s.sock b, r.1)] }
    | none => none

/-- **What a step is:** where the thread was before it, and the state after it. -/
inductive Stepped (C : Cmds α σ) (s : State σ) : Event → State σ → Prop where
  | accept {sock : ℕ} (hl : s.listener = .accepting) : Stepped C s (.accept sock)
      { s with listener := .allocating sock, accepted := s.accepted ++ [sock] }
  | alloc {sock b : ℕ} {l : List ℕ} (hl : s.listener = .allocating sock)
      (hfree : s.freeList = b :: l) : Stepped C s .alloc
      { s with freeList := l, sock := Function.update s.sock b sock, listener := .enqueuing b }
  | retry {sock : ℕ} (hl : s.listener = .allocating sock) (hfree : s.freeList = []) :
      Stepped C s .retry s
  | enque {b : ℕ} (hl : s.listener = .enqueuing b) : Stepped C s .enque
      { s with queue := Queue.blockingEnque s.queue b, listener := .accepting }
  | call {q : Queue.State ℕ} (hcur : s.current = none)
      (hq : Queue.step s.queue (.call 0 0) = some q) : Stepped C s .call { s with queue := q }
  | lock {q : Queue.State ℕ} (hq : Queue.step s.queue (.lock 0) = some q) : Stepped C s .lock
      { s with
        queue := q
        current := if q.takers = [.out] then s.queue.head.head? else none }
  | unsignalled {q : Queue.State ℕ} (hq : Queue.step s.queue (.unsignalled 0) = some q) :
      Stepped C s .unsignalled { s with queue := q }
  | proceed {salt : Byte} {pieces : List (List Byte)} {b : ℕ} {r : List Byte × σ}
      (hcur : s.current = some b)
      (hr : proceedConnection C.id C.handler C.table s.server salt pieces = some r) :
      Stepped C s (.proceed salt pieces)
      { s with
        freeList := b :: s.freeList
        current := none
        server := r.2
        answered := s.answered ++ [(s.sock b, r.1)] }

theorem stepped_of_step {e : Event} (hs : step C s e = some s') : Stepped C s e s' := by
  cases e with
  | accept sock =>
    rw [step] at hs
    split at hs
    · next hl => exact Option.some.inj hs ▸ .accept hl
    · cases hs
  | alloc =>
    rw [step] at hs
    split at hs
    · next hl hfree => exact Option.some.inj hs ▸ .alloc hl hfree
    · cases hs
  | retry =>
    rw [step] at hs
    split at hs
    · next hl hfree => exact Option.some.inj hs ▸ .retry hl hfree
    · cases hs
  | enque =>
    rw [step] at hs
    split at hs
    · next hl => exact Option.some.inj hs ▸ .enque hl
    · cases hs
  | call =>
    rw [step] at hs
    split_ifs at hs with hcur
    obtain ⟨q, hq, rfl⟩ := Option.map_eq_some_iff.mp hs
    exact .call hcur hq
  | lock =>
    obtain ⟨q, hq, rfl⟩ := Option.map_eq_some_iff.mp hs
    exact .lock hq
  | unsignalled =>
    obtain ⟨q, hq, rfl⟩ := Option.map_eq_some_iff.mp hs
    exact .unsignalled hq
  | proceed salt pieces =>
    rw [step] at hs
    split at hs
    · next hcur =>
      obtain ⟨r, hr, rfl⟩ := Option.map_eq_some_iff.mp hs
      exact .proceed hcur hr
    · cases hs

/-! ## Where the connections are -/

/-- The block the listener has. -/
def Listener.block : Listener → List ℕ
  | .enqueuing b => [b]
  | _ => []

/-- The blocks in the order in which their connections are proceeded. -/
def State.used (s : State σ) : List ℕ := s.current.toList ++ s.queue.head ++ s.listener.block

/-- The socket that has no block yet. -/
def Listener.sock : Listener → List ℕ
  | .allocating sock => [sock]
  | _ => []

/-- The sockets that are not answered yet, in this order. -/
def State.waiting (s : State σ) : List ℕ := s.used.map s.sock ++ s.listener.sock

/-- **The invariant.** -/
structure Inv (s : State σ) : Prop where
  queue : Queue.Inv s.queue
  taker : s.queue.takers = [.out] ∨
    s.current = none ∧ (s.queue.takers = [.enter 0] ∨ s.queue.takers = [.wait 0])
  blocks : (s.freeList ++ s.used).Perm (List.range connCount)
  order : s.accepted = s.answered.map Prod.fst ++ s.waiting

@[simp] theorem block_accepting : Listener.accepting.block = [] := rfl

@[simp] theorem block_allocating (sock : ℕ) : (Listener.allocating sock).block = [] := rfl

@[simp] theorem block_enqueuing (b : ℕ) : (Listener.enqueuing b).block = [b] := rfl

@[simp] theorem sock_accepting : Listener.accepting.sock = [] := rfl

@[simp] theorem sock_allocating (sock : ℕ) : (Listener.allocating sock).sock = [sock] := rfl

@[simp] theorem sock_enqueuing (b : ℕ) : (Listener.enqueuing b).sock = [] := rfl

theorem used_start (server : σ) : (start server).used = [] := rfl

theorem freeList_start (server : σ) : (start server).freeList = List.range connCount := by
  rw [start]

theorem inv_start (server : σ) : Inv (start server) := by
  refine ⟨Queue.inv_init ℕ 1, .inl rfl, ?_, ?_⟩
  · rw [freeList_start, used_start, List.append_nil]
  · rw [State.waiting, used_start]
    rfl

section Invariant

theorem Inv.nodup (h : Inv s) : (s.freeList ++ s.used).Nodup :=
  h.blocks.nodup_iff.mpr List.nodup_range

/-- A connection is accepted. -/
theorem Inv.accept (h : Inv s) {sock : ℕ} (hl : s.listener = .accepting) :
    Inv { s with listener := .allocating sock, accepted := s.accepted ++ [sock] } := by
  have hblocks := h.blocks
  have horder := h.order
  rw [State.used, hl] at hblocks
  rw [State.waiting, State.used, hl, sock_accepting, List.append_nil] at horder
  refine { h with blocks := hblocks, order := ?_ }
  rw [horder, List.append_assoc]
  rfl

/-- A block is taken for a socket. -/
theorem Inv.alloc (h : Inv s) {sock b : ℕ} {l : List ℕ} (hl : s.listener = .allocating sock)
    (hfree : s.freeList = b :: l) :
    Inv { s with
      freeList := l
      sock := Function.update s.sock b sock
      listener := .enqueuing b } := by
  have hblocks := h.blocks
  have hnd := h.nodup
  have horder := h.order
  have hused : s.used = s.current.toList ++ s.queue.head := by simp [State.used, hl]
  rw [hused, hfree, List.cons_append] at hblocks hnd
  rw [State.waiting, hused, hl, sock_allocating] at horder
  rw [List.nodup_cons, List.mem_append, not_or] at hnd
  have hne : ∀ b' ∈ s.current.toList ++ s.queue.head, b' ≠ b := by
    rintro b' hb' rfl
    exact hnd.1.2 hb'
  have hsocks : (s.current.toList ++ s.queue.head).map (Function.update s.sock b sock) =
      (s.current.toList ++ s.queue.head).map s.sock :=
    List.map_congr_left fun b' hb' => Function.update_of_ne (hne b' hb') ..
  have hnew : (s.current.toList ++ s.queue.head ++ [b]).map (Function.update s.sock b sock) =
      (s.current.toList ++ s.queue.head).map s.sock ++ [sock] := by
    rw [List.map_append, hsocks, List.map_singleton, Function.update_self]
  refine { h with blocks := ?_, order := ?_ }
  · show (l ++ (s.current.toList ++ s.queue.head ++ [b])).Perm (List.range connCount)
    rw [← List.append_assoc]
    exact (List.perm_append_singleton b _).trans hblocks
  · refine horder.trans ?_
    show _ = s.answered.map Prod.fst ++ ((s.current.toList ++ s.queue.head ++ [b]).map
      (Function.update s.sock b sock) ++ [])
    rw [List.append_nil, hnew]

/-- The connection is put into the queue. -/
theorem Inv.enque (h : Inv s) {b : ℕ} (hl : s.listener = .enqueuing b) :
    Inv { s with queue := Queue.blockingEnque s.queue b, listener := .accepting } := by
  have hblocks := h.blocks
  have horder := h.order
  have hused : State.used { s with
      queue := Queue.blockingEnque s.queue b, listener := .accepting } = s.used := by
    simp [State.used, Queue.blockingEnque, hl]
  refine ⟨Queue.inv_blockingEnque h.queue b, ?_, ?_, ?_⟩
  · rcases h.taker with ho | ⟨hc, hw⟩
    · exact .inl (by simp [Queue.blockingEnque, ho, Queue.Taker.letGo])
    · refine .inr ⟨hc, .inl ?_⟩
      rcases hw with hw | hw <;> simp [Queue.blockingEnque, hw, Queue.Taker.letGo]
  · rw [hused]
    exact hblocks
  · refine horder.trans ?_
    rw [State.waiting, State.waiting, hused, hl]
    rfl

/-- A step of the queue that leaves its items. -/
theorem Inv.setTakers (h : Inv s) {q : Queue.State ℕ} (hq : Queue.Inv q)
    (hhead : q.head = s.queue.head) (hcur : s.current = none)
    (htakers : q.takers = [.enter 0] ∨ q.takers = [.wait 0]) : Inv { s with queue := q } := by
  have hused : State.used { s with queue := q } = s.used := by
    show s.current.toList ++ q.head ++ s.listener.block = _
    rw [hhead, State.used]
  refine ⟨hq, .inr ⟨hcur, htakers⟩, ?_, ?_⟩
  · rw [hused]
    exact h.blocks
  · rw [State.waiting, hused]
    exact h.order

theorem call_cases (h : Inv s) {q : Queue.State ℕ} (hq : Queue.step s.queue (.call 0 0) = some q) :
    s.queue.takers = [.out] ∧ q.head = s.queue.head ∧ q.takers = [.enter 0] := by
  rw [Queue.step] at hq
  split at hq
  · next hout =>
    obtain rfl := Option.some.inj hq
    rcases h.taker with ho | ⟨-, ho | ho⟩
    · exact ⟨ho, rfl, by simp [ho]⟩
    · simp [ho] at hout
    · simp [ho] at hout
  · cases hq

/-- The thread calls `deque_connection`. -/
theorem Inv.call (h : Inv s) (hcur : s.current = none) {q : Queue.State ℕ}
    (hq : Queue.step s.queue (.call 0 0) = some q) : Inv { s with queue := q } := by
  obtain ⟨-, hhead, hx⟩ := call_cases h hq
  exact h.setTakers (Queue.inv_step h.queue hq) hhead hcur (.inl hx)

theorem unsignalled_cases (h : Inv s) {q : Queue.State ℕ}
    (hq : Queue.step s.queue (.unsignalled 0) = some q) :
    s.current = none ∧ s.queue.takers = [.wait 0] ∧ q.head = s.queue.head ∧
      q.takers = [.enter 0] := by
  rw [Queue.step] at hq
  split at hq
  · next min hwait =>
    obtain rfl := Option.some.inj hq
    rcases h.taker with ho | ⟨hcur, ho | ho⟩
    · simp [ho] at hwait
    · simp [ho] at hwait
    · obtain rfl : min = 0 := by simpa [ho, eq_comm] using hwait
      exact ⟨hcur, ho, rfl, by simp [ho]⟩
  · cases hq

/-- It is let go without a signal. -/
theorem Inv.unsignalled (h : Inv s) {q : Queue.State ℕ}
    (hq : Queue.step s.queue (.unsignalled 0) = some q) : Inv { s with queue := q } := by
  obtain ⟨hcur, -, hhead, hx⟩ := unsignalled_cases h hq
  exact h.setTakers (Queue.inv_step h.queue hq) hhead hcur (.inl hx)

/-- **The thread has the mutex:** it takes the first item, or it waits as there is none. -/
theorem lock_cases (h : Inv s) {q : Queue.State ℕ} (hq : Queue.step s.queue (.lock 0) = some q) :
    s.current = none ∧ s.queue.takers = [.enter 0] ∧
      (s.queue.head = [] ∧ q.head = [] ∧ q.takers = [.wait 0] ∨
        ∃ b, s.queue.head = b :: q.head ∧ q.takers = [.out]) := by
  rw [Queue.step] at hq
  split at hq
  · next min henter =>
    rcases h.taker with ho | ⟨hcur, ho | ho⟩
    · simp [ho] at henter
    · obtain rfl : min = 0 := by simpa [ho, eq_comm] using henter
      rw [Queue.blockingDequeMin_eq h.queue] at hq
      refine ⟨hcur, ho, ?_⟩
      split_ifs at hq with hle
      · obtain rfl := Option.some.inj hq
        have hnil : s.queue.head = [] := List.length_eq_zero_iff.mp (Nat.le_zero.mp hle)
        exact .inl ⟨hnil, hnil, by simp [ho]⟩
      · obtain ⟨b, hb, rfl⟩ := Option.map_eq_some_iff.mp hq
        obtain ⟨head, hhead⟩ : ∃ head, s.queue.head = b :: head := List.head?_eq_some_iff.mp hb
        exact .inr ⟨b, by simp [hhead], by simp [ho]⟩
    · simp [ho] at henter
  · cases hq

theorem Inv.lock (h : Inv s) {q : Queue.State ℕ} (hq : Queue.step s.queue (.lock 0) = some q) :
    Inv { s with
      queue := q
      current := if q.takers = [.out] then s.queue.head.head? else none } := by
  have hqi := Queue.inv_step h.queue hq
  obtain ⟨hcur, -, hcase⟩ := lock_cases h hq
  rcases hcase with ⟨hnil, hq', hwait⟩ | ⟨b, hhead, hout⟩
  · rw [if_neg (by simp [hwait])]
    have hsame := h.setTakers hqi (hq'.trans hnil.symm) hcur (.inr hwait)
    rwa [← hcur]
  · rw [if_pos hout, hhead]
    have hblocks := h.blocks
    have horder := h.order
    rw [State.waiting, State.used, hcur, hhead] at horder
    rw [State.used, hcur, hhead] at hblocks
    exact ⟨hqi, .inl hout, hblocks, horder⟩

/-- The connection is answered, and its block is free. -/
theorem Inv.proceed (h : Inv s) {b : ℕ} {sent : List Byte} {server : σ}
    (hcur : s.current = some b) : Inv { s with
      freeList := b :: s.freeList
      current := none
      server := server
      answered := s.answered ++ [(s.sock b, sent)] } := by
  have hblocks := h.blocks
  have horder := h.order
  have hused : s.used = b :: (s.queue.head ++ s.listener.block) := by rw [State.used, hcur]; rfl
  rw [hused] at hblocks
  rw [State.waiting, hused] at horder
  refine ⟨h.queue, .inl ?_, ?_, ?_⟩
  · rcases h.taker with ho | ⟨hc, -⟩
    · exact ho
    · rw [hcur] at hc
      cases hc
  · exact List.perm_middle.symm.trans hblocks
  · rw [horder]
    show _ = (s.answered ++ [(s.sock b, sent)]).map Prod.fst ++
      ((s.queue.head ++ s.listener.block).map s.sock ++ s.listener.sock)
    simp

/-- **The step lemma.** -/
theorem inv_step (h : Inv s) {e : Event} (hs : step C s e = some s') : Inv s' := by
  cases stepped_of_step hs with
  | accept hl => exact h.accept hl
  | alloc hl hfree => exact h.alloc hl hfree
  | retry => exact h
  | enque hl => exact h.enque hl
  | call hcur hq => exact h.call hcur hq
  | lock hq => exact h.lock hq
  | unsignalled hq => exact h.unsignalled hq
  | proceed hcur => exact h.proceed hcur

end Invariant

/-! ## Runs -/

/-- The connection that an event accepts. -/
def Event.sock : Event → Option ℕ
  | .accept sock => some sock
  | _ => none

/-- What the stream has for the connection that an event proceeds. -/
def Event.stream : Event → Option (Byte × List (List Byte))
  | .proceed salt pieces => some (salt, pieces)
  | _ => none

/-- Connections that are answered one after the other: what is sent to each, and the server. -/
def serve (C : Cmds α σ) (server : σ) :
    List (Byte × List (List Byte)) → Option (List (List Byte) × σ)
  | [] => some ([], server)
  | x :: xs => (proceedConnection C.id C.handler C.table server x.1 x.2).bind fun r =>
    (serve C r.2 xs).map fun rs => (r.1 :: rs.1, rs.2)

/-- What a step adds to the accepted and to the answered ones. -/
structure Adds (C : Cmds α σ) (s : State σ) (e : Event) (s' : State σ) : Prop where
  accepted : s'.accepted = s.accepted ++ e.sock.toList
  served : ∃ sent, s'.answered.map Prod.snd = s.answered.map Prod.snd ++ sent ∧
    serve C s.server e.stream.toList = some (sent, s'.server)

theorem Adds.of_same {e : Event} (hsock : e.sock = none) (hstream : e.stream = none)
    (haccepted : s'.accepted = s.accepted) (hanswered : s'.answered = s.answered)
    (hserver : s'.server = s.server) : Adds C s e s' := by
  refine ⟨?_, [], ?_, ?_⟩
  · rw [hsock, haccepted]
    exact (List.append_nil _).symm
  · rw [hanswered, List.append_nil]
  · rw [hstream, hserver]
    rfl

theorem adds_step {e : Event} (hs : step C s e = some s') : Adds C s e s' := by
  cases stepped_of_step hs with
  | accept => exact ⟨rfl, [], (List.append_nil _).symm, rfl⟩
  | alloc => exact .of_same rfl rfl rfl rfl rfl
  | retry => exact .of_same rfl rfl rfl rfl rfl
  | enque => exact .of_same rfl rfl rfl rfl rfl
  | call => exact .of_same rfl rfl rfl rfl rfl
  | lock => exact .of_same rfl rfl rfl rfl rfl
  | unsignalled => exact .of_same rfl rfl rfl rfl rfl
  | @proceed salt pieces b r hcur hr =>
    refine ⟨(List.append_nil _).symm, [r.1], List.map_append, ?_⟩
    show (proceedConnection _ _ _ _ _ _).bind _ = _
    rw [hr]
    rfl

theorem serve_append {server : σ} {xs ys : List (Byte × List (List Byte))}
    {sent sent' : List (List Byte)} {server' server'' : σ}
    (hxs : serve C server xs = some (sent, server'))
    (hys : serve C server' ys = some (sent', server'')) :
    serve C server (xs ++ ys) = some (sent ++ sent', server'') := by
  induction xs generalizing server sent with
  | nil =>
    obtain ⟨rfl, rfl⟩ := Prod.mk.inj (Option.some.inj hxs)
    exact hys
  | cons x xs ih =>
    obtain ⟨r, hr, hxs⟩ := Option.bind_eq_some_iff.mp hxs
    obtain ⟨rs, hrs, heq⟩ := Option.map_eq_some_iff.mp hxs
    obtain ⟨rfl, rfl⟩ := Prod.mk.inj heq
    rw [List.cons_append, serve, hr, Option.bind_some, ih hrs]
    rfl

/-- Along a run. -/
theorem adds_run {es : List Event} (hrun : run (step C) s es = some t) :
    t.accepted = s.accepted ++ es.filterMap Event.sock ∧
      ∃ sent, t.answered.map Prod.snd = s.answered.map Prod.snd ++ sent ∧
        serve C s.server (es.filterMap Event.stream) = some (sent, t.server) := by
  induction es generalizing s with
  | nil =>
    rw [run_nil, Option.some.injEq] at hrun
    rw [hrun]
    exact ⟨(List.append_nil _).symm, [], (List.append_nil _).symm, rfl⟩
  | cons e es ih =>
    obtain ⟨s₁, hs₁, hrun⟩ := Option.bind_eq_some_iff.mp (run_cons s e es ▸ hrun)
    obtain ⟨haccepted, sent, hsent, hserve⟩ := adds_step hs₁
    obtain ⟨haccepted', sent', hsent', hserve'⟩ := ih hrun
    have hsock : (e :: es).filterMap Event.sock = e.sock.toList ++ es.filterMap Event.sock := by
      rw [List.filterMap_cons]
      cases e.sock <;> rfl
    have hstream : (e :: es).filterMap Event.stream =
        e.stream.toList ++ es.filterMap Event.stream := by
      rw [List.filterMap_cons]
      cases e.stream <;> rfl
    refine ⟨?_, sent ++ sent', ?_, ?_⟩
    · rw [haccepted', haccepted, hsock, List.append_assoc]
    · rw [hsent', hsent, List.append_assoc]
    · rw [hstream]
      exact serve_append hserve hserve'

theorem inv_of_run {server : σ} {es : List Event} (hrun : run (step C) (start server) es = some t) :
    Inv t :=
  of_run_forall (I := Inv) (E := fun _ => True) (fun _ _ _ h _ hs => inv_step h hs)
    (inv_start server) (fun _ _ => trivial) hrun

/-- **In order:** the connections are answered in the order in which they were accepted, each of
them once and as if the server had nothing else to do; a block is free, or it has one of those that
wait.
-/
theorem answered_in_order {server : σ} {es : List Event}
    (hrun : run (step C) (start server) es = some t) :
    es.filterMap Event.sock = t.answered.map Prod.fst ++ t.waiting ∧
      serve C server (es.filterMap Event.stream) = some (t.answered.map Prod.snd, t.server) ∧
      (t.freeList ++ t.used).Perm (List.range connCount) := by
  have h := inv_of_run hrun
  obtain ⟨haccepted, sent, hsent, hserve⟩ := adds_run hrun
  refine ⟨haccepted.symm.trans h.order, ?_, h.blocks⟩
  rw [show t.answered.map Prod.snd = sent from hsent]
  exact hserve

/-! ## At rest -/

/-- Neither thread has a step to take, other than to accept a connection, and none is being
proceeded.
-/
structure Rest (C : Cmds α σ) (s : State σ) : Prop where
  alloc : step C s .alloc = none
  enque : step C s .enque = none
  call : step C s .call = none
  lock : step C s .lock = none
  current : s.current = none

/-- The thread that answers waits, and nothing is in the queue. -/
theorem Inv.head_of_waiting (h : Inv s) (hcur : s.current = none) (hcall : step C s .call = none)
    (hlock : step C s .lock = none) : s.queue.head = [] := by
  rcases h.taker with ho | ⟨-, he | hw⟩
  · rw [step, if_pos hcur, Queue.step, ho] at hcall
    cases hcall
  · obtain ⟨q, hq⟩ := Queue.lock_enabled h.queue
      (show s.queue.takers[0]? = some (.enter 0) by rw [he]; rfl)
    rw [step, hq] at hlock
    cases hlock
  · have hle := h.queue.wait 0 (by rw [hw]; exact List.mem_singleton.mpr rfl)
    exact List.length_eq_zero_iff.mp (Nat.le_zero.mp hle)

theorem Inv.queue_of_rest (h : Inv s) (hr : Rest C s) : s.queue.head = [] :=
  h.head_of_waiting hr.current hr.call hr.lock

theorem Inv.listener_of_rest (h : Inv s) (hr : Rest C s) : s.listener = .accepting := by
  cases hl : s.listener with
  | accepting => rfl
  | allocating sock =>
    have hused : s.used = [] := by
      simp [State.used, hr.current, h.queue_of_rest hr, hl]
    have halloc := hr.alloc
    have hlen := h.blocks.length_eq
    rw [hused, List.append_nil, List.length_range] at hlen
    cases hfree : s.freeList with
    | nil =>
      rw [hfree] at hlen
      cases hlen
    | cons b l =>
      rw [step, hl, hfree] at halloc
      cases halloc
  | enqueuing b =>
    have henque := hr.enque
    rw [step, hl] at henque
    cases henque

/-- **All are answered:** once there is nothing to do, the connections that were accepted have their
answers, in their order, and every block is free. -/
theorem all_answered {server : σ} {es : List Event}
    (hrun : run (step C) (start server) es = some t) (hr : Rest C t) :
    t.answered.map Prod.fst = es.filterMap Event.sock ∧
      t.freeList.Perm (List.range connCount) := by
  have h := inv_of_run hrun
  have hused : t.used = [] := by
    simp [State.used, hr.current, h.queue_of_rest hr, h.listener_of_rest hr]
  have hwaiting : t.waiting = [] := by
    rw [State.waiting, hused, h.listener_of_rest hr]
    rfl
  have horder := h.order
  have hblocks := h.blocks
  have haccepted := (adds_run hrun).1
  rw [hwaiting, List.append_nil] at horder
  rw [hused, List.append_nil] at hblocks
  exact ⟨horder.symm.trans haccepted, hblocks⟩

/-! ## How many steps there are -/

/-- The steps that are left until the listener accepts again and the connection is answered. -/
def Listener.steps : Listener → ℕ
  | .accepting => 0
  | .allocating _ => 6
  | .enqueuing _ => 5

/-- The steps that are left until the thread waits. -/
def takerSteps (current : Option ℕ) : Queue.Taker → ℕ
  | .out => if current = none then 2 else 3
  | .enter _ => 1
  | .wait _ => 0

def State.steps (s : State σ) : ℕ :=
  s.listener.steps + 3 * s.queue.head.length + tally (takerSteps s.current) s.queue.takers

/-- The steps that an event gives rise to; a turn that finds no block is one of its own. -/
def Event.adds : Event → ℕ
  | .accept _ => 7
  | .unsignalled => 2
  | .retry => 1
  | _ => 0

theorem steps_setTakers {q : Queue.State ℕ} (hhead : q.head = s.queue.head) {x x' : Queue.Taker}
    (hx : s.queue.takers = [x]) (hx' : q.takers = [x']) :
    State.steps { s with queue := q } + takerSteps s.current x =
      s.steps + takerSteps s.current x' := by
  show s.listener.steps + 3 * q.head.length + tally (takerSteps s.current) q.takers + _ = _
  rw [State.steps, hhead, hx, hx', tally_cons, tally_cons, tally_nil]
  omega

/-- Each step takes one of those that are left. -/
theorem steps_step (h : Inv s) {e : Event} (hs : step C s e = some s') :
    s'.steps + 1 ≤ s.steps + e.adds := by
  cases stepped_of_step hs with
  | accept hl =>
    show 6 + 3 * s.queue.head.length + tally (takerSteps s.current) s.queue.takers + 1 ≤
      s.steps + 7
    rw [State.steps]
    omega
  | alloc hl hfree =>
    show 5 + 3 * s.queue.head.length + tally (takerSteps s.current) s.queue.takers + 1 ≤
      s.steps + 0
    rw [State.steps, hl, Listener.steps]
    omega
  | retry => exact le_rfl
  | @enque b hl =>
    have htakers : tally (takerSteps s.current) (s.queue.takers.map Queue.Taker.letGo) ≤
        tally (takerSteps s.current) s.queue.takers + 1 := by
      rcases h.taker with hx | ⟨-, hx | hx⟩ <;>
        simp [hx, Queue.Taker.letGo, takerSteps]
    show 0 + 3 * (s.queue.head ++ [b]).length +
      tally (takerSteps s.current) (s.queue.takers.map Queue.Taker.letGo) + 1 ≤ s.steps + 0
    rw [State.steps, hl, Listener.steps, List.length_append, List.length_singleton]
    omega
  | call hcur hq =>
    obtain ⟨hx, hhead, hx'⟩ := call_cases h hq
    have hsteps := steps_setTakers hhead hx hx'
    rw [takerSteps, takerSteps, if_pos hcur] at hsteps
    exact Nat.le_of_succ_le_succ hsteps.le
  | @lock q hq =>
    obtain ⟨hcur, hx, hcase⟩ := lock_cases h hq
    rcases hcase with ⟨hnil, hnil', hx'⟩ | ⟨b, hhead, hx'⟩
    · rw [if_neg (by simp [hx']), ← hcur]
      have hsteps := steps_setTakers (hnil'.trans hnil.symm) hx hx'
      rw [takerSteps, takerSteps] at hsteps
      exact hsteps.le
    · rw [if_pos hx', hhead]
      show s.listener.steps + 3 * q.head.length + tally (takerSteps (some b)) q.takers + 1 ≤
        s.steps + 0
      have hout : takerSteps (some b) .out = 3 := rfl
      have henter : takerSteps s.current (.enter 0) = 1 := rfl
      rw [State.steps, hhead, hx, hx', tally_cons, tally_cons, tally_nil, tally_nil, hout, henter,
        List.length_cons]
      omega
  | unsignalled hq =>
    obtain ⟨-, hx, hhead, hx'⟩ := unsignalled_cases h hq
    have hsteps := steps_setTakers hhead hx hx'
    rw [takerSteps, takerSteps] at hsteps
    show _ + 1 ≤ s.steps + 2
    omega
  | proceed hcur =>
    have hx : s.queue.takers = [.out] := by
      rcases h.taker with ho | ⟨hc, -⟩
      · exact ho
      · rw [hcur] at hc
        cases hc
    show s.listener.steps + 3 * s.queue.head.length + tally (takerSteps none) s.queue.takers + 1 ≤
      s.steps + 0
    rw [State.steps, hcur, hx]
    exact le_rfl

theorem steps_run (h : Inv s) {es : List Event} (hrun : run (step C) s es = some t) :
    t.steps + es.length ≤ s.steps + tally Event.adds es := by
  induction es generalizing s with
  | nil =>
    rw [run_nil, Option.some.injEq] at hrun
    rw [hrun]
    exact le_rfl
  | cons e es ih =>
    obtain ⟨s₁, hs₁, hrun⟩ := Option.bind_eq_some_iff.mp (run_cons s e es ▸ hrun)
    have hstep := steps_step h hs₁
    have hrest := ih (inv_step h hs₁) hrun
    rw [tally_cons, List.length_cons]
    omega

/-- One handler, which counts its calls. -/
def countCmds : Cmds ℕ ℕ where
  id _ := ['s', 'u', 'b']
  handler _ n cmd := some (0, CmdHandler.repOk cmd, n + 1)
  table := (registerCmdHandler (fun _ => ['s', 'u', 'b']) emptyTable 0).getD emptyTable

/-- A request for a handler of this name. -/
def request (name : Str) : List (List Byte) :=
  [Include.Encode.encode 3#8 (bytes (cmdLine 7 [name]))]

/-- Three clients: the first one sends a command, and the others come while it is answered, one with
the name of no command and one that closes at once. -/
def threeClients : List Event :=
  [.call, .lock, .accept 5, .alloc, .enque, .lock, .accept 6,
    .proceed 9#8 (request ['s', 'u', 'b']), .call, .alloc, .lock, .unsignalled, .enque, .accept 7,
    .lock, .alloc, .proceed 0#8 (request ['x']), .enque, .call, .lock, .proceed 0#8 [], .call,
    .lock]

theorem rest_threeClients : ∃ t, run (step countCmds) (start 0) threeClients = some t ∧
    Rest countCmds t := by
  have h : ((run (step countCmds) (start 0) threeClients).any fun t =>
      (step countCmds t .alloc).isNone && (step countCmds t .enque).isNone &&
        (step countCmds t .call).isNone && (step countCmds t .lock).isNone &&
          t.current.isNone) = true := by
    decide +kernel
  obtain ⟨t, ht, hrest⟩ := (Option.any_eq_true _ _).mp h
  simp only [Bool.and_eq_true, Option.isNone_iff_eq_none] at hrest
  obtain ⟨⟨⟨⟨halloc, henque⟩, hcall⟩, hlock⟩, hcurrent⟩ := hrest
  exact ⟨t, ht, halloc, henque, hcall, hlock, hcurrent⟩

theorem answered_threeClients : ∃ t, run (step countCmds) (start 0) threeClients = some t ∧
    [5, 6, 7] = t.answered.map Prod.fst ++ t.waiting ∧
      serve countCmds 0 (threeClients.filterMap Event.stream) =
        some (t.answered.map Prod.snd, t.server) ∧
      (t.freeList ++ t.used).Perm (List.range connCount) := by
  obtain ⟨t, ht, -⟩ := rest_threeClients
  exact ⟨t, ht, answered_in_order ht⟩

theorem all_threeClients : ∃ t, run (step countCmds) (start 0) threeClients = some t ∧
    t.answered.map Prod.fst = [5, 6, 7] ∧ t.freeList.Perm (List.range connCount) := by
  obtain ⟨t, ht, hrest⟩ := rest_threeClients
  exact ⟨t, ht, all_answered ht hrest⟩

end GSConferencing.Serv.Connections
