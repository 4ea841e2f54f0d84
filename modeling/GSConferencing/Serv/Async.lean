import GSConferencing.Include.Pack
import GSConferencing.Lib.Memory
import GSConferencing.Threadpool.PoolRuns

/-!
# Sending without waiting

`async.c`: a message for a device is copied into a block and left to a thread of the pool, which
sends it and gives the block back.  The blocks are in one area, one behind the other; there are as
many of them as threads.

* `step`: the steps of the pool with those that are in between: `async_sendto_dev` up to the call
  of the pool, `sendto_dev_tcp`, and `free_block`.
* `Inv`: every block is free or the block of one message; `inv_step`.
* `sent_once`: every message that is accepted is sent once, as it was; none is sent beside them.
* `sent_all`: once no thread has a step to take, all of them are sent and all blocks are free, but
  for those that no thread could be created for.
-/

namespace GSConferencing.Serv.Async

open GSConferencing.Lib.Run GSConferencing.Lib.Memory GSConferencing.Include.Pack
open GSConferencing.Threadpool

/-- `THREADS`. -/
def threads : ℕ := 128

/-- `BLKSZ`. -/
def blksz : ℕ := 10240

/-- The offset of `buf` of a `struct _send_args` in a block. -/
structure Layout where
  bufOffset : ℕ
  bufOffset_lt : bufOffset < 100

/-- What `async_sendto_dev` reads of a device, and its address. -/
structure Device where
  address : ℕ
  id : ℤ
  active : Bool

/-- `_sendto_dev` with the block that has its arguments, or what `async_run` was called with. -/
inductive Job (K : Type*) where
  | send (b : ℕ)
  | other (k : K)
  deriving DecidableEq

/-- The device and the message. -/
abbrev Msg := ℕ × List Byte

structure State (K : Type*) where
  pool : Pool.State (Job K)
  /-- `free_list` of the block pool, by the places of the blocks in the area. -/
  freeList : List ℕ
  /-- `d` and `len` of the arguments in each block. -/
  args : ℕ → ℕ × ℕ
  mem : List Byte
  /-- The blocks whose message is sent, and which are about to be given back. -/
  unfreed : List ℕ
  /-- The messages that were not dropped. -/
  accepted : List Msg
  /-- What `sendto_dev_tcp` was called with. -/
  sent : List Msg

variable {K : Type*} {L : Layout} {s s' t : State K} {b i : ℕ}

/-- Where the message in the block `b` begins. -/
def Layout.buf (L : Layout) (b : ℕ) : ℕ := b * blksz + L.bufOffset

/-- The message in the block `b`. -/
def State.msg (L : Layout) (s : State K) (b : ℕ) : Msg :=
  ((s.args b).1, part s.mem (L.buf b) (s.args b).2)

/-- `async_init`, where `callers` threads call it. -/
def asyncInit (K : Type*) (callers : ℕ) : Option (State K) :=
  (Pool.State.createThreadpool threads callers).map fun pool =>
    { pool := pool
      freeList := List.range threads
      args := fun _ => (0, 0)
      mem := List.replicate (threads * blksz) 0
      unfreed := []
      accepted := []
      sent := [] }

inductive Event (K : Type*) where
  /-- `async_sendto_dev` up to the call of `dispatch_threadpool`, by the thread `c`. -/
  | send (c : ℕ) (buf : List Byte) (d : Device)
  /-- `async_run`, likewise. -/
  | run (c : ℕ) (k : K)
  /-- `sendto_dev_tcp` returns in the thread `i`. -/
  | sendtoDevTcp (i : ℕ)
  /-- The job of the thread `i` returns; a message's block is given back before. -/
  | finish (i : ℕ)
  /-- A step of the pool. -/
  | pool (e : Pool.Event (Job K))

/-- A message is dropped, if the device is inactive or it is too long. -/
def Dropped (buf : List Byte) (d : Device) : Prop :=
  (d.active = false ∧ d.id ≠ 1) ∨ blksz - 100 < buf.length

instance (buf : List Byte) (d : Device) : Decidable (Dropped buf d) :=
  inferInstanceAs (Decidable ((d.active = false ∧ d.id ≠ 1) ∨ blksz - 100 < buf.length))

/-- **One step;** `none`: no block is free, so that the caller looks again later, or it is not the
next step of that thread. -/
def step (L : Layout) (s : State K) : Event K → Option (State K)
  | .send c buf d =>
    if Dropped buf d then some s
    else match s.freeList with
      | [] => none
      | b :: l => (Pool.step s.pool (.call c (.send b))).map fun p =>
        { s with
          pool := p
          freeList := l
          args := Function.update s.args b (d.address, buf.length)
          mem := overwrite s.mem (L.buf b) buf
          accepted := (d.address, buf) :: s.accepted }
  | .run c k => (Pool.step s.pool (.call c (.other k))).map fun p => { s with pool := p }
  | .sendtoDevTcp i => match s.pool.threads[i]? with
    | some ⟨.busy, .send b, _⟩ =>
      if b ∈ s.unfreed then none
      else some { s with unfreed := b :: s.unfreed, sent := s.msg L b :: s.sent }
    | _ => none
  | .finish i => match s.pool.threads[i]? with
    | some ⟨.busy, .send b, _⟩ =>
      if b ∈ s.unfreed then (Pool.step s.pool (.finish i)).map fun p =>
        { s with pool := p, freeList := b :: s.freeList, unfreed := s.unfreed.erase b }
      else none
    | _ => (Pool.step s.pool (.finish i)).map fun p => { s with pool := p }
  | .pool e =>
    if e.quiet then (Pool.step s.pool e).map fun p => { s with pool := p } else none

/-- **The guard:** no thread of the pool is let go without a signal. -/
def Signalled (s : State K) : Event K → Prop
  | .pool e => Pool.Signalled s.pool e
  | _ => True

instance (s : State K) : ∀ e, Decidable (Signalled s e)
  | .pool e => inferInstanceAs (Decidable (Pool.Signalled s.pool e))
  | .send .. | .run .. | .sendtoDevTcp _ | .finish _ => .isTrue trivial

/-- The block of a job. -/
def Job.block : Job K → Option ℕ
  | .send b => some b
  | .other _ => none

/-- The blocks of messages whose job is not over. -/
def State.used (s : State K) : List ℕ := s.pool.current.filterMap Job.block

/-! ## The blocks -/

/-- **The invariant.** -/
structure Inv (L : Layout) (s : State K) : Prop where
  pool : ∃ o, Pool.Inv s.pool o
  once : Pool.Once s.pool
  /-- Every block is free or used, once. -/
  blocks : (s.freeList ++ s.used).Perm (List.range threads)
  unfreed_nodup : s.unfreed.Nodup
  unfreed : ∀ b ∈ s.unfreed, ∃ (i : ℕ) (m : Bool), s.pool.threads[i]? = some ⟨.busy, .send b, m⟩
  /-- What was sent beside what is in the blocks. -/
  messages : (s.accepted ++ s.unfreed.map (s.msg L)).Perm (s.sent ++ s.used.map (s.msg L))
  area : s.mem.length = threads * blksz
  fits : ∀ b ∈ s.used, (s.args b).2 ≤ blksz - 100

section Invariant

/-- The messages of two blocks do not overlap. -/
theorem buf_apart (L : Layout) {b b' n n' : ℕ} (h : b ≠ b') (hn : n ≤ blksz - 100)
    (hn' : n' ≤ blksz - 100) : L.buf b + n ≤ L.buf b' ∨ L.buf b' + n' ≤ L.buf b := by
  have hoff := L.bufOffset_lt
  have hsz : blksz = 10240 := rfl
  unfold Layout.buf
  rcases Nat.lt_or_gt_of_ne h with hlt | hgt
  · have hmul : (b + 1) * blksz ≤ b' * blksz := Nat.mul_le_mul_right _ hlt
    rw [Nat.succ_mul] at hmul
    omega
  · have hmul : (b' + 1) * blksz ≤ b * blksz := Nat.mul_le_mul_right _ hgt
    rw [Nat.succ_mul] at hmul
    omega

/-- A message is inside the area. -/
theorem buf_inside (L : Layout) {n : ℕ} (hb : b < threads) (hn : n ≤ blksz - 100) :
    L.buf b + n ≤ threads * blksz := by
  have hoff := L.bufOffset_lt
  have hsz : blksz = 10240 := rfl
  have hmul : (b + 1) * blksz ≤ threads * blksz := Nat.mul_le_mul_right _ hb
  rw [Nat.succ_mul] at hmul
  unfold Layout.buf
  omega

theorem mem_used_of_busy {m : Bool} (hi : s.pool.threads[i]? = some ⟨.busy, .send b, m⟩) :
    b ∈ s.used :=
  List.mem_filterMap.mpr ⟨.send b, Pool.mem_current_of_busy hi, rfl⟩

theorem Inv.nodup (h : Inv L s) : (s.freeList ++ s.used).Nodup :=
  h.blocks.nodup_iff.mpr List.nodup_range

theorem Inv.lt_threads (h : Inv L s) (hb : b ∈ s.freeList ++ s.used) : b < threads :=
  List.mem_range.mp (h.blocks.mem_iff.mp hb)

/-- A message is put into a block that was free. -/
theorem Inv.send (h : Inv L s) {c : ℕ} {buf : List Byte} {d : Device} {l : List ℕ}
    {p : Pool.State (Job K)} (hlen : buf.length ≤ blksz - 100) (hfree : s.freeList = b :: l)
    (hp : Pool.step s.pool (.call c (.send b)) = some p) :
    Inv L { s with
      pool := p
      freeList := l
      args := Function.update s.args b (d.address, buf.length)
      mem := overwrite s.mem (L.buf b) buf
      accepted := (d.address, buf) :: s.accepted } := by
  obtain ⟨o, ho⟩ := h.pool
  have hcur : p.current.Perm (.send b :: s.pool.current) := Pool.current_call h.once ho hp
  have hused : (p.current.filterMap Job.block).Perm (b :: s.used) := hcur.filterMap _
  have hnd := h.nodup
  rw [hfree, List.cons_append, List.nodup_cons, List.mem_append, not_or] at hnd
  have hlt : b < threads := h.lt_threads (by rw [hfree]; exact List.mem_cons_self)
  have hinside : L.buf b + buf.length ≤ s.mem.length := h.area ▸ buf_inside L hlt hlen
  have hbusy : ∀ b' ∈ s.unfreed, b' ∈ s.used := fun b' hb' => by
    obtain ⟨i, m, hi⟩ := h.unfreed b' hb'
    exact mem_used_of_busy hi
  -- the messages in the other blocks stay
  have hmsg : ∀ b' ∈ s.used, ((Function.update s.args b (d.address, buf.length) b').1,
      part (overwrite s.mem (L.buf b) buf) (L.buf b')
        (Function.update s.args b (d.address, buf.length) b').2) = s.msg L b' := by
    intro b' hb'
    have hne : b' ≠ b := fun he => hnd.1.2 (he ▸ hb')
    rw [Function.update_of_ne hne,
      part_overwrite_out hinside (buf_apart L hne (h.fits b' hb') hlen), State.msg]
  constructor
  · exact Pool.inv_step (e := .call c (.send b)) ho trivial hp
  · exact Pool.once_step (e := .call c (.send b)) h.once ho trivial hp
  · have hblocks := h.blocks
    rw [hfree] at hblocks
    exact ((hused.append_left l).trans List.perm_middle).trans hblocks
  · exact h.unfreed_nodup
  · intro b' hb'
    obtain ⟨i, m, hi⟩ := h.unfreed b' hb'
    exact ⟨i, m, Pool.busy_step ho hi (by simp) hp⟩
  · have hsame : (s.unfreed.map fun b' => s.msg L b') = s.unfreed.map _ :=
      List.map_congr_left fun b' hb' => (hmsg b' (hbusy b' hb')).symm
    have hsame' : (s.used.map fun b' => s.msg L b') = s.used.map _ :=
      List.map_congr_left fun b' hb' => (hmsg b' hb').symm
    have hnew := hused.map fun b' => ((Function.update s.args b (d.address, buf.length) b').1,
      part (overwrite s.mem (L.buf b) buf) (L.buf b')
        (Function.update s.args b (d.address, buf.length) b').2)
    rw [List.map_cons, Function.update_self, part_overwrite_self hinside] at hnew
    have hold := (h.messages.cons (d.address, buf)).trans List.perm_middle.symm
    rw [hsame, hsame'] at hold
    exact hold.trans (hnew.symm.append_left s.sent)
  · exact (length_overwrite hinside).trans h.area
  · intro b' hb'
    show (Function.update s.args b (d.address, buf.length) b').2 ≤ blksz - 100
    rcases List.mem_cons.mp (hused.mem_iff.mp hb') with rfl | hb'
    · rw [Function.update_self]
      exact hlen
    · have hne : b' ≠ b := fun he => hnd.1.2 (he ▸ hb')
      rw [Function.update_of_ne hne]
      exact h.fits b' hb'

/-- The pool goes on, and no message is put into a block or is done. -/
theorem Inv.withPool (h : Inv L s) {p : Pool.State (Job K)} (hpool : ∃ o, Pool.Inv p o)
    (honce : Pool.Once p) (hcur : (p.current.filterMap Job.block).Perm s.used)
    (hbusy : ∀ (i : ℕ) b m, s.pool.threads[i]? = some ⟨.busy, .send b, m⟩ →
      p.threads[i]? = some ⟨.busy, .send b, m⟩) : Inv L { s with pool := p } where
  pool := hpool
  once := honce
  blocks := (hcur.append_left s.freeList).trans h.blocks
  unfreed_nodup := h.unfreed_nodup
  unfreed b hb := by
    obtain ⟨i, m, hi⟩ := h.unfreed b hb
    exact ⟨i, m, hbusy i b m hi⟩
  messages := h.messages.trans ((hcur.symm.map _).append_left s.sent)
  area := h.area
  fits b hb := h.fits b (hcur.mem_iff.mp hb)

/-- A message is sent. -/
theorem Inv.sendtoDevTcp (h : Inv L s) {m : Bool}
    (hi : s.pool.threads[i]? = some ⟨.busy, .send b, m⟩) (hb : b ∉ s.unfreed) :
    Inv L { s with unfreed := b :: s.unfreed, sent := s.msg L b :: s.sent } where
  pool := h.pool
  once := h.once
  blocks := h.blocks
  unfreed_nodup := List.nodup_cons.mpr ⟨hb, h.unfreed_nodup⟩
  unfreed b' hb' := by
    rcases List.mem_cons.mp hb' with rfl | hb'
    · exact ⟨i, m, hi⟩
    · exact h.unfreed b' hb'
  messages := List.perm_middle.trans (h.messages.cons _)
  area := h.area
  fits := h.fits

/-- A message that was sent gives its block back. -/
theorem Inv.finish (h : Inv L s) {m : Bool} {p : Pool.State (Job K)}
    (hi : s.pool.threads[i]? = some ⟨.busy, .send b, m⟩) (hb : b ∈ s.unfreed)
    (hp : Pool.step s.pool (.finish i) = some p) :
    Inv L { s with pool := p, freeList := b :: s.freeList, unfreed := s.unfreed.erase b } := by
  obtain ⟨o, ho⟩ := h.pool
  have hcur : s.used.Perm (b :: p.current.filterMap Job.block) :=
    (Pool.current_finish h.once ho hi hp).filterMap _
  constructor
  · exact Pool.inv_step (e := .finish i) ho trivial hp
  · exact Pool.once_step (e := .finish i) h.once ho trivial hp
  · exact (List.perm_middle.symm.trans (hcur.symm.append_left s.freeList)).trans h.blocks
  · exact h.unfreed_nodup.erase b
  · intro b' hb'
    obtain ⟨hne, hb'⟩ := h.unfreed_nodup.mem_erase_iff.mp hb'
    obtain ⟨i', m', hi'⟩ := h.unfreed b' hb'
    refine ⟨i', m', Pool.busy_step ho hi' ?_ hp⟩
    rintro ⟨⟩
    have hsame := hi.symm.trans hi'
    simp only [Option.some.injEq, Pool.Thread.mk.injEq, Job.send.injEq, true_and] at hsame
    exact hne hsame.1.symm
  · have hunfreed := (List.perm_cons_erase hb).map fun b' => s.msg L b'
    have hused := hcur.map fun b' => s.msg L b'
    have hold := (hunfreed.append_left s.accepted).symm.trans
      (h.messages.trans (hused.append_left s.sent))
    exact (List.perm_middle.symm.trans (hold.trans List.perm_middle)).cons_inv
  · exact h.area
  · exact fun b' hb' => h.fits b' (hcur.mem_iff.mpr (List.mem_cons_of_mem b hb'))

/-- **The step lemma.** -/
theorem inv_step (h : Inv L s) {e : Event K} (hg : Signalled s e) (hs : step L s e = some s') :
    Inv L s' := by
  obtain ⟨o, ho⟩ := h.pool
  cases e with
  | send c buf d =>
    rw [step] at hs
    split_ifs at hs with hdrop
    · exact Option.some.inj hs ▸ h
    · split at hs
      · cases hs
      · rename_i b l hfree
        obtain ⟨p, hp, rfl⟩ := Option.map_eq_some_iff.mp hs
        have hlen : ¬ blksz - 100 < buf.length := fun hlt => hdrop (Or.inr hlt)
        exact h.send (by omega) hfree hp
  | run c k =>
    obtain ⟨p, hp, rfl⟩ := Option.map_eq_some_iff.mp hs
    have hcur : (p.current.filterMap Job.block).Perm s.used :=
      (Pool.current_call h.once ho hp).filterMap _
    exact h.withPool (Pool.inv_step (e := .call c (.other k)) ho trivial hp)
      (Pool.once_step (e := .call c (.other k)) h.once ho trivial hp) hcur
      fun i b m hi => Pool.busy_step ho hi (by simp) hp
  | sendtoDevTcp i =>
    rw [step] at hs
    split at hs
    · rename_i b m hi
      split_ifs at hs with hb
      exact Option.some.inj hs ▸ h.sendtoDevTcp hi hb
    · cases hs
  | finish i =>
    rw [step] at hs
    split at hs
    · rename_i b m hi
      split_ifs at hs with hb
      obtain ⟨p, hp, rfl⟩ := Option.map_eq_some_iff.mp hs
      exact h.finish hi hb hp
    · rename_i hnone
      obtain ⟨p, hp, rfl⟩ := Option.map_eq_some_iff.mp hs
      obtain ⟨j, m, hi, -⟩ := Pool.step_finish.mp hp
      cases j with
      | send b => exact absurd hi (hnone b m)
      | other k =>
        have hcur : s.used.Perm (p.current.filterMap Job.block) :=
          (Pool.current_finish h.once ho hi hp).filterMap _
        refine h.withPool (Pool.inv_step (e := .finish i) ho trivial hp)
          (Pool.once_step (e := .finish i) h.once ho trivial hp) hcur.symm fun i' b m' hi' =>
          Pool.busy_step ho hi' ?_ hp
        rintro ⟨⟩
        cases hi.symm.trans hi'
  | pool e =>
    rw [step] at hs
    split_ifs at hs with hquiet
    obtain ⟨p, hp, rfl⟩ := Option.map_eq_some_iff.mp hs
    have hcur : (p.current.filterMap Job.block).Perm s.used :=
      (Pool.current_of_quiet hquiet h.once ho hg hp).filterMap _
    refine h.withPool (Pool.inv_step ho hg hp) (Pool.once_step h.once ho hg hp) hcur
      fun i b m hi => Pool.busy_step ho hi ?_ hp
    rintro rfl
    cases hquiet

end Invariant

theorem inv_asyncInit {callers : ℕ} (h : asyncInit K callers = some s) : Inv L s := by
  obtain ⟨p, hp, rfl⟩ := Option.map_eq_some_iff.mp h
  have honce := Pool.once_createThreadpool hp
  have hcur : p.current = [] := by
    have hperm := honce.current
    unfold Pool.State.createThreadpool at hp
    split_ifs at hp
    obtain rfl := Option.some.inj hp
    exact (List.append_eq_nil_iff.mp hperm.symm.eq_nil).1
  have hused : p.current.filterMap Job.block = [] := by rw [hcur]; rfl
  constructor
  · exact ⟨none, Pool.inv_createThreadpool hp⟩
  · exact honce
  · show (List.range threads ++ p.current.filterMap Job.block).Perm (List.range threads)
    rw [hused, List.append_nil]
  · exact List.nodup_nil
  · intro b hb
    cases hb
  · show ([] : List Msg).Perm ([] ++ (p.current.filterMap Job.block).map _)
    rw [hused]
    exact List.Perm.refl _
  · exact List.length_replicate
  · intro b hb
    have hmem : b ∈ p.current.filterMap Job.block := hb
    rw [hused] at hmem
    cases hmem

/-! ## What is sent -/

/-- The message that an event brings. -/
def Event.message : Event K → Option Msg
  | .send _ buf d => if Dropped buf d then none else some (d.address, buf)
  | _ => none

/-- The messages whose job is not over and that are not sent yet. -/
def State.unsent (L : Layout) (s : State K) : List Msg := (s.used.diff s.unfreed).map (s.msg L)

section Runs
variable {es : List (Event K)} {callers : ℕ}

theorem accepted_step {e : Event K} (hs : step L s e = some s') :
    s'.accepted = e.message.toList ++ s.accepted := by
  cases e with
  | send c buf d =>
    rw [step] at hs
    rw [Event.message]
    split_ifs at hs ⊢ with hdrop
    · exact Option.some.inj hs ▸ rfl
    · split at hs
      · cases hs
      · obtain ⟨p, -, rfl⟩ := Option.map_eq_some_iff.mp hs
        rfl
  | run c k =>
    obtain ⟨p, -, rfl⟩ := Option.map_eq_some_iff.mp hs
    rfl
  | sendtoDevTcp i =>
    rw [step] at hs
    split at hs
    · split_ifs at hs
      exact Option.some.inj hs ▸ rfl
    · cases hs
  | finish i =>
    rw [step] at hs
    split at hs
    · split_ifs at hs
      obtain ⟨p, -, rfl⟩ := Option.map_eq_some_iff.mp hs
      rfl
    · obtain ⟨p, -, rfl⟩ := Option.map_eq_some_iff.mp hs
      rfl
  | pool e =>
    rw [step] at hs
    split_ifs at hs
    obtain ⟨p, -, rfl⟩ := Option.map_eq_some_iff.mp hs
    rfl

/-- What is accepted in a run are the messages of its events. -/
theorem accepted_run (hrun : run (step L) s es = some t) :
    t.accepted.Perm (es.filterMap Event.message ++ s.accepted) := by
  induction es generalizing s with
  | nil =>
    rw [run_nil, Option.some.injEq] at hrun
    rw [hrun, List.filterMap_nil, List.nil_append]
  | cons e es ih =>
    obtain ⟨s₁, hs₁, hrun⟩ := Option.bind_eq_some_iff.mp (run_cons s e es ▸ hrun)
    refine (ih hrun).trans ?_
    rw [accepted_step hs₁, List.filterMap_cons]
    cases e.message with
    | none => exact List.Perm.refl _
    | some x => exact List.perm_middle

theorem inv_of_run (h : asyncInit K callers = some s) (hg : Guarded (step L) Signalled s es)
    (hrun : run (step L) s es = some t) : Inv L t :=
  of_run (I := Inv L) (fun _ _ _ hi hg hs => inv_step hi hg hs) (inv_asyncInit h) hg hrun

/-- What is sent and what is still in a block are what was accepted. -/
theorem Inv.accepted (h : Inv L s) : s.accepted.Perm (s.sent ++ s.unsent L) := by
  have hsub : s.unfreed.Subperm s.used := List.subperm_of_subset h.unfreed_nodup fun b hb => by
    obtain ⟨i, m, hi⟩ := h.unfreed b hb
    exact mem_used_of_busy hi
  have hused : s.used.Perm (s.unfreed ++ s.used.diff s.unfreed) :=
    (List.subperm_append_diff_self_of_count_le (List.subperm_ext_iff.mp hsub)).symm
  have hmap := (hused.map (s.msg L)).trans (by rw [List.map_append])
  have hall := h.messages.trans (hmap.append_left s.sent)
  have hswap : (s.unfreed.map (s.msg L) ++ s.accepted).Perm
      (s.unfreed.map (s.msg L) ++ (s.sent ++ s.unsent L)) := by
    refine List.perm_append_comm.trans (hall.trans ?_)
    rw [← List.append_assoc, ← List.append_assoc]
    exact List.perm_append_comm.append_right _
  exact (List.perm_append_left_iff _).mp hswap

/-- The messages that were accepted are those of the calls that found a block. -/
theorem accepted_of_init (h : asyncInit K callers = some s) (hrun : run (step L) s es = some t) :
    t.accepted.Perm (es.filterMap Event.message) := by
  have haccepted := accepted_run hrun
  obtain ⟨p, -, rfl⟩ := Option.map_eq_some_iff.mp h
  rwa [List.append_nil] at haccepted

/-- **Every message once:** in every run the messages that were not dropped are those that were
sent, as they were, and those that are still in a block; every block is free or used, once. -/
theorem sent_once (h : asyncInit K callers = some s) (hg : Guarded (step L) Signalled s es)
    (hrun : run (step L) s es = some t) :
    (es.filterMap Event.message).Perm (t.sent ++ t.unsent L) ∧
      (t.freeList ++ t.used).Perm (List.range threads) := by
  have hi := inv_of_run h hg hrun
  exact ⟨(accepted_of_init h hrun).symm.trans hi.accepted, hi.blocks⟩

/-- No thread has a step to take, and nobody calls. -/
def Rest (L : Layout) (s : State K) : Prop :=
  (∀ i, step L s (.sendtoDevTcp i) = none) ∧ (∀ i, step L s (.finish i) = none) ∧
    ∀ e : Pool.Event (Job K), e.inner = true → step L s (.pool e) = none

/-- The pool has none either. -/
theorem Rest.pool (h : Rest L s) : Pool.Rest s.pool := by
  obtain ⟨hsend, hfinish, hpool⟩ := h
  intro e he
  by_cases hquiet : e.quiet = true
  · have hnone := hpool e he
    rw [step, if_pos hquiet] at hnone
    exact Option.map_eq_none_iff.mp hnone
  · cases e with
    | call c j => cases he
    | finish i =>
      have hnone := hfinish i
      rw [step] at hnone
      split at hnone
      · rename_i b m hi
        have hsent := hsend i
        rw [step, hi] at hsent
        split_ifs at hnone with hb
        · exact Option.map_eq_none_iff.mp hnone
        · simp only [if_neg hb] at hsent
          cases hsent
      · exact Option.map_eq_none_iff.mp hnone
    | _ => exact absurd rfl hquiet

/-- **Nothing is left behind:** once no thread has a step to take, all calls have returned, and
everything is sent and every block is free, but for the messages that no thread could be created
for. -/
theorem sent_all (h : asyncInit K callers = some s) (hg : Guarded (step L) Signalled s es)
    (hrun : run (step L) s es = some t) (hrest : Rest L t) :
    (∀ p ∈ t.pool.callers, p = .out) ∧
      (es.filterMap Event.message).Perm
        (t.sent ++ (t.pool.failed.filterMap Job.block).map (t.msg L)) ∧
      (t.freeList ++ t.pool.failed.filterMap Job.block).Perm (List.range threads) := by
  have hi := inv_of_run h hg hrun
  have hsent := (accepted_of_init h hrun).symm.trans hi.accepted
  have hblocks := hi.blocks
  obtain ⟨o, ho⟩ := hi.pool
  obtain ⟨hout, hwait, hwaiting, hpending, hrunning⟩ := ho.done_of_rest hrest.pool
  have hused : t.used = t.pool.failed.filterMap Job.block := by
    rw [State.used, Pool.State.current, hwaiting, hpending, hrunning, List.nil_append,
      List.append_nil, List.append_nil]
  have hunfreed : t.unfreed = [] := List.eq_nil_iff_forall_not_mem.mpr fun b hb => by
    obtain ⟨i, m, hbusy⟩ := hi.unfreed b hb
    cases hwait _ (List.mem_of_getElem? hbusy)
  rw [State.unsent, hunfreed, List.diff_nil, hused] at hsent
  rw [hused] at hblocks
  exact ⟨hout, hsent, hblocks⟩

end Runs

/-! ## A run -/

/-- A pool whose threads wait has no step to take. -/
theorem rest_of_waiting (hout : ∀ p ∈ s.pool.callers, p = .out)
    (hwait : ∀ th ∈ s.pool.threads, th.pc = .wait) : Rest L s := by
  have hrest : Pool.Rest s.pool := Pool.rest_of_waiting hout hwait
  have hbusy : ∀ (i : ℕ) j m, s.pool.threads[i]? ≠ some ⟨.busy, j, m⟩ := fun i j m hi => by
    cases hwait _ (List.mem_of_getElem? hi)
  refine ⟨fun i => ?_, fun i => ?_, fun e he => ?_⟩
  · rw [step]
    split
    · rename_i b m hi
      exact absurd hi (hbusy i _ m)
    · rfl
  · rw [step]
    split
    · rename_i b m hi
      exact absurd hi (hbusy i _ m)
    · exact Option.map_eq_none_iff.mpr (hrest _ rfl)
  · rw [step, hrest e he]
    exact ite_self none

theorem bufOffset_lp64 : 28 < 100 := by decide

/-- Pointers of eight bytes: two in `struct list_head`, one and an `int` before `buf`. -/
def lp64 : Layout := ⟨28, bufOffset_lp64⟩

/-- A thread of the pool is back at its `cond` once its message is sent. -/
def sendsAndWaits (i : ℕ) : List (Event Unit) :=
  [.sendtoDevTcp i, .finish i, .pool (.lockOwn i), .pool (.save i none), .pool (.wait i)]

/-- Two messages at a time, one for a device that is not active, and another one, for which there is
a thread already. -/
def threeMessages : List (Event Unit) :=
  [.send 0 [104, 105] ⟨5, 5, true⟩, .send 1 [106] ⟨6, 6, true⟩, .pool (.lock 1 true),
    .pool (.lock 0 true), .pool (.start 1), .pool (.start 0)] ++ sendsAndWaits 1 ++
  [.send 0 [107] ⟨7, 7, false⟩] ++ sendsAndWaits 0 ++
  [.send 1 [108] ⟨5, 5, true⟩, .pool (.lock 1 true), .pool (.signal 1), .pool (.relock 0),
    .pool (.start 0)] ++ sendsAndWaits 0

/-- Two threads call it. -/
def ofTwo : State Unit where
  pool := ⟨none, [], 128, 0, [], [.out, .out], [], [], [], [], []⟩
  freeList := List.range threads
  args := fun _ => (0, 0)
  mem := List.replicate (threads * blksz) 0
  unfreed := []
  accepted := []
  sent := []

theorem asyncInit_two : asyncInit Unit 2 = some ofTwo := rfl

theorem rest_threeMessages :
    ∃ t, run (step lp64) ofTwo threeMessages = some t ∧ Rest lp64 t ∧ t.pool.failed = [] := by
  have hrun : ((run (step lp64) ofTwo threeMessages).any fun t =>
      t.pool.callers.all (· == .out) && t.pool.threads.all (·.pc == .wait) &&
        t.pool.failed.isEmpty) = true := by
    decide +kernel
  obtain ⟨t, ht, hend⟩ := (Option.any_eq_true _ _).mp hrun
  rw [Bool.and_eq_true, Bool.and_eq_true, List.all_eq_true, List.all_eq_true] at hend
  obtain ⟨⟨hout, hwait⟩, hfailed⟩ := hend
  exact ⟨t, ht, rest_of_waiting (fun p hp => eq_of_beq (hout p hp))
    (fun th hth => eq_of_beq (hwait th hth)), List.isEmpty_iff.mp hfailed⟩

theorem sent_threeMessages : ∃ t, run (step lp64) ofTwo threeMessages = some t ∧
    [(5, [104, 105]), (6, [106]), (5, [108])].Perm (t.sent ++ t.unsent lp64) ∧
    (t.freeList ++ t.used).Perm (List.range threads) := by
  obtain ⟨t, ht, -⟩ := rest_threeMessages
  exact ⟨t, ht, sent_once asyncInit_two (by decide +kernel) ht⟩

theorem all_threeMessages : ∃ t, run (step lp64) ofTwo threeMessages = some t ∧
    [(5, [104, 105]), (6, [106]), (5, [108])].Perm t.sent ∧
    t.freeList.Perm (List.range threads) := by
  obtain ⟨t, ht, hrest, hfailed⟩ := rest_threeMessages
  obtain ⟨-, hsent, hblocks⟩ := sent_all asyncInit_two (by decide +kernel) ht hrest
  rw [hfailed, List.filterMap_nil, List.map_nil, List.append_nil] at hsent
  rw [hfailed, List.filterMap_nil, List.append_nil] at hblocks
  exact ⟨t, ht, hsent, hblocks⟩

end GSConferencing.Serv.Async
