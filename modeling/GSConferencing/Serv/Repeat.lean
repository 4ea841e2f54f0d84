import GSConferencing.Lib.Window
import GSConferencing.Serv.BufferRuns

/-!
# The repeat window of a tag

`cast.c`: the thread of `tag_run_casting` keeps the packets it casts in a ring, and casts them again
for repeat requests.  Other threads put requests into the fifo, and do what they like with the
buffers that are not in the ring.

* `repeatLoop_some`, `repeatLoop_none`: what the search of `__repeat_cast` finds.
* `Served`: what each step has to do; a request that waits is answered and leaves the fifo, and a
  packet that is cast makes the 16th one before it free.
* `castPack_spec`, `tagRepeats_spec`: a packet is cast, a request is answered.
* `windowed_always`: along every run each step does what it has to, and the last 16 packets are in
  use.
* `owned_of_conserved`: a packet that a mixing thread of `BufferRuns` casts is not in the ring.
-/

namespace GSConferencing.Serv.Repeat

open GSConferencing.Include.Pack GSConferencing.Include.Cfifo
open GSConferencing.Lib.Places GSConferencing.Lib.Ring GSConferencing.Lib.Run
open GSConferencing.Lib.Window
open GSConferencing.Serv.Packet GSConferencing.Serv.Mixing GSConferencing.Serv.Buffers

variable {k : ℕ}

/-! ## The thread -/

/-- `REP_CAST_SIZE`. -/
abbrev repCastSize : ℕ := 2 ^ 4

/-- What is passed to `broadcast`: the data and their length. -/
abbrev Sent := PackData × ℕ

/-- The answer that a packet is outdated. -/
def outdated (t : ℤ) (seq : BitVec 32) : Sent :=
  (PackData.hton ⟨0, seq, PackType.seqOutdate.val, BitVec.ofInt 8 t, 0, []⟩, headlen)

/-- The loop of `__repeat_cast` over the places `rep_pos + i`, from the last one down, with what is
broadcast and the packets it has looked at. -/
def repeatLoop (s : State k) (t : ℤ) (seq : BitVec 32) : ℕ → State k × Option Sent × List (Buf k)
  | 0 => (s, some (outdated t seq), [])
  | i + 1 => match (s.cast t).repPack (place 4 ((s.cast t).repPos.val + i)) with
    | none => repeatLoop s t seq i
    | some r =>
      let P := s.mem r
      if htonl P.data.seq = seq then
        if P.repCount < 8 then
          (s.setMem r fun P => { P with repCount := P.repCount + 1 }, some (P.data, P.len), [r])
        else (s, none, [r])
      else
        let x := repeatLoop s t seq i
        (x.1, x.2.1, r :: x.2.2)

/-- `__repeat_cast`. -/
def repeatCast (s : State k) (t : ℤ) (seq : BitVec 32) : State k × Option Sent × List (Buf k) :=
  repeatLoop s t seq repCastSize

/-- A packet as it was cast. -/
structure Cast (k : ℕ) where
  pack : Buf k
  sent : Sent

/-- The number it was cast with. -/
def Cast.seq (c : Cast k) : BitVec 32 := htonl c.sent.1.seq

/-- What the thread has done. -/
inductive Obs (k : ℕ) where
  | cast (c : Cast k)
  /-- A request was answered; the packets in `used` were looked at. -/
  | request (seq : BitVec 32) (sent : Option Sent) (used : List (Buf k))

/-- `opt_broadcast` and `opt_tcp_audio`. -/
structure CastOpts where
  broadcast : Bool
  tcpAudio : Bool

/-- The server with `rep_reqs` of the tag, and what its thread has done, newest first. -/
structure Thread (k : ℕ) where
  st : State k
  repReqs : Fifo (ℤ × BitVec 32) 4
  log : List (Obs k)

/-- `tag_req_repeat`, by the thread that received the request. -/
def tagReqRepeat (o : CastOpts) (x : Thread k) (d : ℤ) (seq : BitVec 32) : Thread k :=
  if o.broadcast = false ∧ o.tcpAudio = true then x
  else if x.repReqs.full then x
  else { x with repReqs := (x.repReqs.write (d, seq)).putIn }

/-- A turn of the loop of `tag_repeats`. -/
def tagRepeats (o : CastOpts) (t : ℤ) (x : Thread k) : Thread k :=
  if o.broadcast = false ∧ o.tcpAudio = true then x
  else if x.repReqs.empty then x
  else
    let seq := x.repReqs.getOut.2
    let r := repeatCast x.st t seq
    { st := r.1
      repReqs := x.repReqs.takeOut
      log := .request seq r.2.1 r.2.2 :: x.log }

/-- `MIX_GET` has returned `p`: `tag_cast_pack` and `__outdate_pack`. -/
def castPack (t : ℤ) (x : Thread k) (p : Buf k) : Option (Thread k) :=
  let s := tagCastPack x.st t p
  (outdatePack s t p).map fun s' =>
    { x with
      st := s'
      log := .cast ⟨p, (s.mem p).data, (s.mem p).len⟩ :: x.log }

/-- The packets in the ring. -/
def ring (s : State k) (t : ℤ) : List (Buf k) := slots (s.cast t).repPack

/-- A packet that `MIX_GET` returns is the thread's own: in use, and not in the ring yet. -/
def Owned (s : State k) (t : ℤ) (p : Buf k) : Prop := p ∉ ring s t ∧ ¬ s.pools.IsFree p

instance (s : State k) (t : ℤ) (p : Buf k) : Decidable (Owned s t p) :=
  inferInstanceAs (Decidable (_ ∧ _))

/-- The server goes on to `s'`, without the thread: what is in the ring is not changed and not
freed. -/
def goOn (s s' : State k) (t : ℤ) : State k :=
  if ∀ b ∈ ring s t, ¬ s'.pools.IsFree b then
    { s' with
      mem := fun b => if b ∈ ring s t then s.mem b else s'.mem b
      cast := Function.update s'.cast t
        { s'.cast t with
          seq := (s.cast t).seq
          repPack := (s.cast t).repPack
          repPos := (s.cast t).repPos } }
  else s

/-- What happens next. -/
inductive Event (k : ℕ) where
  | request (d : ℤ) (seq : BitVec 32)
  | repeats
  | cast (p : Buf k)
  | others (s' : State k)

def step (o : CastOpts) (t : ℤ) (x : Thread k) : Event k → Option (Thread k)
  | .request d seq => some (tagReqRepeat o x d seq)
  | .repeats => some (tagRepeats o t x)
  | .cast p => if Owned x.st t p then castPack t x p else some x
  | .others s' => some { x with st := goOn x.st s' t }

/-- `tag_create` has cleared the ring. -/
def start (st : State k) (t : ℤ) : Thread k where
  st := { st with cast := Function.update st.cast t (newCast k) }
  repReqs := .new (0, 0)
  log := []

/-! ## What is asked of it -/

/-- The packets that were cast, newest first. -/
def casts : List (Obs k) → List (Cast k)
  | [] => []
  | .cast c :: log => c :: casts log
  | .request _ _ _ :: log => casts log

/-- The last 16 of them. -/
def recent (log : List (Obs k)) : List (Cast k) := (casts log).take repCastSize

/-- How often something was sent for requests of a number, since a packet was cast with it. -/
def repeats (seq : BitVec 32) : List (Obs k) → ℕ
  | [] => 0
  | .cast c :: log => if c.seq = seq then 0 else repeats seq log
  | .request seq' sent _ :: log => repeats seq log + if seq' = seq ∧ sent.isSome then 1 else 0

/-- **The answer to a request,** after what is in the log. -/
structure Answered (t : ℤ) (log : List (Obs k)) (seq : BitVec 32) (sent : Option Sent) : Prop where
  again : ∀ c ∈ recent log, c.seq = seq → repeats seq log < 8 → sent = some c.sent
  enough : ∀ c ∈ recent log, c.seq = seq → 8 ≤ repeats seq log → sent = none
  outdated : (∀ c ∈ recent log, c.seq ≠ seq) → ∃ resp, sent = some (resp, headlen) ∧
    resp.hton = ⟨0, seq, PackType.seqOutdate.val, BitVec.ofInt 8 t, 0, []⟩

/-- The packets of the last 16 casts. -/
def recentPacks (log : List (Obs k)) : List (Buf k) := (recent log).map Cast.pack

/-- **The first request that waits** is answered and leaves the fifo; only the last 16 packets are
used for it, and none is freed. -/
structure Repeated (t : ℤ) (x : Thread k) (req : ℤ × BitVec 32) (x' : Thread k) : Prop where
  reqs : x.repReqs.contents = req :: x'.repReqs.contents
  log : ∃ sent used, x'.log = .request req.2 sent used :: x.log ∧ Answered t x.log req.2 sent ∧
    ∀ b ∈ used, b ∈ recentPacks x.log
  pools : x'.st.pools = x.st.pools
  others : ∀ b, b ∉ recentPacks x.log → x'.st.mem b = x.st.mem b

/-- **The packet `p` is cast** with the next number and the id of the tag, and the 16th one before
it is freed, and no other. -/
structure CastNext (t : ℤ) (x : Thread k) (p : Buf k) (x' : Thread k) : Prop where
  log : x'.log = .cast ⟨p, { (x.st.mem p).data with
      seq := htonl ((x.st.cast t).seq + 1), tag := BitVec.ofInt 8 t }, (x.st.mem p).len⟩ :: x.log
  seq : (x'.st.cast t).seq = (x.st.cast t).seq + 1
  reqs : x'.repReqs = x.repReqs
  freed : ∀ b, x'.st.pools.IsFree b ↔
    x.st.pools.IsFree b ∨ (casts x.log)[repCastSize - 1]?.map Cast.pack = some b

/-- The thread has done nothing, and what it needs is as before. -/
structure LeftAlone (t : ℤ) (x x' : Thread k) : Prop where
  log : x'.log = x.log
  reqs : x'.repReqs = x.repReqs
  seq : (x'.st.cast t).seq = (x.st.cast t).seq
  mem : ∀ b ∈ recentPacks x.log, x'.st.mem b = x.st.mem b

/-- Nothing is repeated. -/
def CastOpts.Off (o : CastOpts) : Prop := o.broadcast = false ∧ o.tcpAudio = true

/-- A request is put into the fifo, unless this is full. -/
structure Requested (o : CastOpts) (x : Thread k) (req : ℤ × BitVec 32) (x' : Thread k) : Prop where
  log : x'.log = x.log
  st : x'.st = x.st
  put : ¬ o.Off → ¬ x.repReqs.full → x'.repReqs.contents = x.repReqs.contents ++ [req]
  dropped : o.Off ∨ x.repReqs.full → x'.repReqs = x.repReqs

/-- A turn of `tag_repeats`: while requests wait, the first one is answered. -/
structure Turn (o : CastOpts) (t : ℤ) (x x' : Thread k) : Prop where
  answers : ¬ o.Off → ∀ req l, x.repReqs.contents = req :: l → Repeated t x req x'
  rests : o.Off ∨ x.repReqs.contents = [] → x' = x

/-- **What a step has to do.** -/
def Served (o : CastOpts) (t : ℤ) (x : Thread k) : Event k → Thread k → Prop
  | .request d seq, x' => Requested o x (d, seq) x'
  | .repeats, x' => Turn o t x x'
  | .cast p, x' => if Owned x.st t p then CastNext t x p x' else x' = x
  | .others _, x' => LeftAlone t x x'

/-- The last 16 packets have not been freed. -/
def InUse (x : Thread k) : Prop := ∀ b ∈ recentPacks x.log, ¬ x.st.pools.IsFree b

/-! ## The search -/

section Search
variable {s : State k} {t : ℤ} {seq : BitVec 32} {n : ℕ}

/-- The items that the loop looks at. -/
abbrev items (s : State k) (t : ℤ) (n : ℕ) : List (Option (Buf k)) :=
  ringItems (s.cast t).repPack (s.cast t).repPos n

theorem mem_items {r : Buf k} : some r ∈ items s t repCastSize ↔ r ∈ ring s t :=
  mem_ringItems.trans mem_slots.symm

theorem repeatLoop_used (s : State k) (t : ℤ) (seq : BitVec 32) (n : ℕ) :
    ∀ b ∈ (repeatLoop s t seq n).2.2, some b ∈ items s t n := by
  induction n with
  | zero => exact fun b hb => absurd hb List.not_mem_nil
  | succ n ih =>
    intro b hb
    rw [items, ringItems_succ]
    unfold repeatLoop at hb
    split at hb
    · exact List.mem_cons_of_mem _ (ih b hb)
    · next r hr =>
      rw [hr]
      dsimp only at hb
      split_ifs at hb
      · rw [List.mem_singleton.mp hb]
        exact List.mem_cons_self
      · rw [List.mem_singleton.mp hb]
        exact List.mem_cons_self
      · rcases List.mem_cons.mp hb with rfl | hb
        · exact List.mem_cons_self
        · exact List.mem_cons_of_mem _ (ih b hb)

/-- **No packet has the number.** -/
theorem repeatLoop_none (h : ∀ r, some r ∈ items s t n → htonl (s.mem r).data.seq ≠ seq) :
    (repeatLoop s t seq n).1 = s ∧ (repeatLoop s t seq n).2.1 = some (outdated t seq) := by
  induction n with
  | zero => exact ⟨rfl, rfl⟩
  | succ n ih =>
    rw [items, ringItems_succ] at h
    have hrest := ih fun r hr => h r (List.mem_cons_of_mem _ hr)
    unfold repeatLoop
    split
    · exact hrest
    · next r hr =>
      dsimp only
      rw [if_neg (h r (hr ▸ List.mem_cons_self))]
      exact hrest

/-- **One packet has the number.** -/
theorem repeatLoop_some {r : Buf k} (hr : some r ∈ items s t n)
    (hseq : htonl (s.mem r).data.seq = seq)
    (huniq : ∀ r', some r' ∈ items s t n → htonl (s.mem r').data.seq = seq → r' = r) :
    (repeatLoop s t seq n).1 = (if (s.mem r).repCount < 8 then
        s.setMem r fun P => { P with repCount := P.repCount + 1 } else s) ∧
      (repeatLoop s t seq n).2.1 =
        if (s.mem r).repCount < 8 then some ((s.mem r).data, (s.mem r).len) else none := by
  induction n with
  | zero => exact absurd hr List.not_mem_nil
  | succ n ih =>
    rw [items, ringItems_succ] at hr huniq
    have hrest : ∀ r', some r' ∈ items s t n → htonl (s.mem r').data.seq = seq → r' = r :=
      fun r' hr' => huniq r' (List.mem_cons_of_mem _ hr')
    unfold repeatLoop
    split
    · next hnone =>
      rw [hnone] at hr
      exact ih ((List.mem_cons.mp hr).resolve_left nofun) hrest
    · next r' hr' =>
      rw [hr'] at hr huniq
      dsimp only
      by_cases hthis : htonl (s.mem r').data.seq = seq
      · obtain rfl := huniq r' List.mem_cons_self hthis
        rw [if_pos hthis]
        split_ifs <;> exact ⟨rfl, rfl⟩
      · rw [if_neg hthis]
        refine ih ((List.mem_cons.mp hr).resolve_left fun heq => hthis ?_) hrest
        rw [← Option.some.inj heq, hseq]

end Search

/-! ## The invariant -/

/-- The ring holds the last 16 packets, with consecutive numbers, as they were cast. -/
structure Inv (t : ℤ) (x : Thread k) : Prop where
  inUse : InUse x
  ring : items x.st t repCastSize =
    window repCastSize none (((casts x.log).map Cast.pack).map some)
  seqs : ∀ j c, (casts x.log)[j]? = some c → c.seq = (x.st.cast t).seq - BitVec.ofNat 32 j
  mem : ∀ c ∈ recent x.log, x.st.mem c.pack = ⟨repeats c.seq x.log, c.sent.2, c.sent.1⟩
  apart : (recentPacks x.log).Nodup

section Steps
variable {t : ℤ} {x : Thread k} {o : CastOpts}

/-- What is in the ring. -/
theorem Inv.mem_ring (h : Inv t x) {b : Buf k} :
    b ∈ Repeat.ring x.st t ↔ b ∈ recentPacks x.log := by
  rw [← mem_items, h.ring, some_mem_window, recentPacks, recent, List.map_take]

theorem ofNat_inj {i j : ℕ} (hi : i < repCastSize) (hj : j < repCastSize)
    (h : BitVec.ofNat 32 i = BitVec.ofNat 32 j) : i = j := by
  have hsize : repCastSize = 16 := rfl
  have hval := congrArg BitVec.toNat h
  rwa [BitVec.toNat_ofNat, BitVec.toNat_ofNat, Nat.mod_eq_of_lt (by omega),
    Nat.mod_eq_of_lt (by omega)] at hval

/-- The last 16 packets have different numbers. -/
theorem Inv.seq_inj (h : Inv t x) {c c' : Cast k} (hc : c ∈ recent x.log) (hc' : c' ∈ recent x.log)
    (hseq : c.seq = c'.seq) : c = c' := by
  obtain ⟨i, hi, hci⟩ := mem_take_iff.mp hc
  obtain ⟨j, hj, hcj⟩ := mem_take_iff.mp hc'
  rw [h.seqs i c hci, h.seqs j c' hcj] at hseq
  obtain rfl := ofNat_inj hi hj (sub_right_inj.mp hseq)
  exact Option.some.inj (hci.symm.trans hcj)

/-- One more answer, which has changed no more than the counts of the packets. -/
theorem Inv.request (h : Inv t x) {s' : State k} {reqs : Fifo (ℤ × BitVec 32) 4} {seq : BitVec 32}
    {sent : Option Sent} {used : List (Buf k)} (hcast : s'.cast = x.st.cast)
    (hpools : s'.pools = x.st.pools)
    (hmem : ∀ c ∈ recent x.log, s'.mem c.pack =
      ⟨repeats c.seq x.log + if seq = c.seq ∧ sent.isSome then 1 else 0, c.sent.2, c.sent.1⟩) :
    Inv t ⟨s', reqs, .request seq sent used :: x.log⟩ where
  inUse := fun b hb => hpools ▸ h.inUse b hb
  ring := by
    show ringItems (s'.cast t).repPack (s'.cast t).repPos _ = _
    rw [hcast]
    exact h.ring
  seqs := fun j c hj => hcast ▸ h.seqs j c hj
  mem := fun c hc => by
    rw [repeats]
    push_cast
    exact hmem c hc
  apart := h.apart

/-- The number in a packet of the ring is the one it was cast with. -/
theorem Inv.num (h : Inv t x) {c : Cast k} (hc : c ∈ recent x.log) :
    htonl (x.st.mem c.pack).data.seq = c.seq := by
  rw [h.mem c hc]
  rfl

theorem Inv.of_items (h : Inv t x) {r : Buf k} (hr : some r ∈ items x.st t repCastSize) :
    ∃ c ∈ recent x.log, c.pack = r :=
  List.mem_map.mp (h.mem_ring.mp (mem_items.mp hr))

/-- **The search for a number** of the last 16 packets. -/
theorem Inv.repeat_some (h : Inv t x) {c : Cast k} (hc : c ∈ recent x.log) :
    (repeatCast x.st t c.seq).1 = (if ((repeats c.seq x.log : ℕ) : ℤ) < 8 then
        x.st.setMem c.pack fun P => { P with repCount := P.repCount + 1 } else x.st) ∧
      (repeatCast x.st t c.seq).2.1 =
        if ((repeats c.seq x.log : ℕ) : ℤ) < 8 then some c.sent else none := by
  have hmem : some c.pack ∈ items x.st t repCastSize :=
    mem_items.mpr (h.mem_ring.mpr (List.mem_map_of_mem hc))
  obtain ⟨hstate, hsent⟩ := repeatLoop_some hmem (h.num hc) fun r hr hseq => by
    obtain ⟨c', hc', rfl⟩ := h.of_items hr
    rw [h.seq_inj hc' hc ((h.num hc').symm.trans hseq)]
  rw [h.mem c hc] at hstate hsent
  exact ⟨hstate, hsent⟩

/-- **The search for another number.** -/
theorem Inv.repeat_none (h : Inv t x) {seq : BitVec 32} (hno : ∀ c ∈ recent x.log, c.seq ≠ seq) :
    (repeatCast x.st t seq).1 = x.st ∧
      (repeatCast x.st t seq).2.1 = some (outdated t seq) := by
  refine repeatLoop_none fun r hr => ?_
  obtain ⟨c, hc, rfl⟩ := h.of_items hr
  rw [h.num hc]
  exact hno c hc

/-- What an answer has done to the packets. -/
structure Counted (x : Thread k) (seq : BitVec 32) (sent : Option Sent) (s' : State k) : Prop where
  state : ∃ mem, s' = { x.st with mem := mem }
  mem : ∀ c ∈ recent x.log, s'.mem c.pack =
    ⟨repeats c.seq x.log + if seq = c.seq ∧ sent.isSome then 1 else 0, c.sent.2, c.sent.1⟩
  others : ∀ b, b ∉ recentPacks x.log → s'.mem b = x.st.mem b

/-- An answer that counts nowhere. -/
theorem Inv.counted_same (h : Inv t x) {seq : BitVec 32} {sent : Option Sent}
    (hno : ∀ c ∈ recent x.log, ¬ (seq = c.seq ∧ sent.isSome)) : Counted x seq sent x.st := by
  refine ⟨⟨_, rfl⟩, fun c hc => ?_, fun _ _ => rfl⟩
  rw [h.mem c hc, if_neg (hno c hc), add_zero]

/-- An answer that counts for the packet it has found. -/
theorem Inv.counted_again (h : Inv t x) {c : Cast k} (hc : c ∈ recent x.log) :
    Counted x c.seq (some c.sent)
      (x.st.setMem c.pack fun P => { P with repCount := P.repCount + 1 }) := by
  refine ⟨⟨_, rfl⟩, fun c' hc' => ?_, fun b hb => Function.update_of_ne ?_ ..⟩
  · show Function.update _ _ _ _ = _
    by_cases hthis : c' = c
    · subst hthis
      rw [Function.update_self, h.mem c' hc', if_pos ⟨rfl, rfl⟩]
    · have hpack : c'.pack ≠ c.pack := fun heq =>
        hthis (List.inj_on_of_nodup_map h.apart hc' hc heq)
      rw [Function.update_of_ne hpack, h.mem c' hc',
        if_neg fun heq => hthis (h.seq_inj hc' hc heq.1.symm), add_zero]
  · rintro rfl
    exact hb (List.mem_map_of_mem hc)

/-- **A search answers its request.** -/
theorem Inv.repeatCast_spec (h : Inv t x) (seq : BitVec 32) :
    Answered t x.log seq (repeatCast x.st t seq).2.1 ∧
      Counted x seq (repeatCast x.st t seq).2.1 (repeatCast x.st t seq).1 := by
  by_cases hex : ∃ c ∈ recent x.log, c.seq = seq
  · obtain ⟨c, hc, rfl⟩ := hex
    obtain ⟨hstate, hsent⟩ := h.repeat_some hc
    rw [hstate, hsent]
    have hother : ∀ c' ∈ recent x.log, c'.seq = c.seq → c' = c := fun c' hc' => h.seq_inj hc' hc
    by_cases hfew : ((repeats c.seq x.log : ℕ) : ℤ) < 8
    · -- it is cast again
      rw [if_pos hfew, if_pos hfew]
      exact ⟨⟨fun c' hc' hseq _ => by rw [hother c' hc' hseq],
        fun _ _ _ hmany => by omega, fun hno => absurd rfl (hno c hc)⟩, h.counted_again hc⟩
    · -- it has been repeated often enough
      rw [if_neg hfew, if_neg hfew]
      exact ⟨⟨fun _ _ _ hlt => by omega, fun _ _ _ _ => rfl, fun hno => absurd rfl (hno c hc)⟩,
        h.counted_same fun _ _ => by rintro ⟨-, hsome⟩; cases hsome⟩
  · push Not at hex
    obtain ⟨hstate, hsent⟩ := h.repeat_none hex
    rw [hstate, hsent]
    exact ⟨⟨fun c hc hseq => absurd hseq (hex c hc), fun c hc hseq => absurd hseq (hex c hc),
      fun _ => ⟨_, rfl, PackData.ntoh_hton _⟩⟩, h.counted_same fun c hc heq => hex c hc heq.1.symm⟩

/-- **A turn of `tag_repeats`** answers the first request that waits. -/
theorem tagRepeats_spec (h : Inv t x) :
    Turn o t x (tagRepeats o t x) ∧ Inv t (tagRepeats o t x) := by
  unfold tagRepeats
  split_ifs with hoff hempty
  · exact ⟨⟨fun hon => absurd hoff hon, fun _ => rfl⟩, h⟩
  · refine ⟨⟨fun _ req l hreqs => ?_, fun _ => rfl⟩, h⟩
    rw [empty_iff.mp hempty] at hreqs
    cases hreqs
  · have hout := contents_out hempty
    obtain ⟨hanswered, hcounted⟩ := h.repeatCast_spec x.repReqs.getOut.2
    obtain ⟨mem, hmem⟩ := hcounted.state
    have hpools : (repeatCast x.st t x.repReqs.getOut.2).1.pools = x.st.pools := by rw [hmem]
    have hcast : (repeatCast x.st t x.repReqs.getOut.2).1.cast = x.st.cast := by rw [hmem]
    have hused : ∀ b ∈ (repeatCast x.st t x.repReqs.getOut.2).2.2, b ∈ recentPacks x.log :=
      fun b hb => h.mem_ring.mp (mem_items.mp (repeatLoop_used _ _ _ repCastSize b hb))
    refine ⟨⟨fun _ req l hreqs => ?_, fun hrests => ?_⟩, h.request hcast hpools hcounted.mem⟩
    · obtain ⟨rfl, -⟩ := List.cons.inj (hreqs.symm.trans hout)
      exact ⟨hout, ⟨_, _, rfl, hanswered, hused⟩, hpools, hcounted.others⟩
    · rcases hrests with hrests | hrests
      · exact absurd hrests hoff
      · exact absurd (empty_iff.mpr hrests) hempty

/-- The oldest packet of the ring is freed, if it is full. -/
theorem outdatePack_spec {s : State k} {p : Buf k}
    (h : ∀ out, (s.cast t).repPack (s.cast t).repPos = some out → ¬ s.pools.IsFree out) :
    ∃ P, outdatePack s t p = some { keepPack s t p with pools := P } ∧
      ∀ b, P.IsFree b ↔ (s.cast t).repPack (s.cast t).repPos = some b ∨ s.pools.IsFree b := by
  unfold outdatePack
  cases hout : (s.cast t).repPack (s.cast t).repPos with
  | none =>
    refine ⟨s.pools, rfl, fun b => ?_⟩
    simp only [reduceCtorEq, false_or]
  | some out =>
    obtain ⟨P, hP, hperm⟩ := packFree_perm (mem_free.not.mpr (h out hout))
    have hfree : (keepPack s t p).pools.packFree out = some P := hP
    refine ⟨P, ?_, fun b => ?_⟩
    · simp only [State.packFree, hfree, Option.map_some]
    · rw [← mem_free, hperm.mem_iff, List.mem_cons, mem_free, Option.some.injEq, eq_comm]

/-- What a packet that is cast does to the memory and to the ring. -/
theorem keepPack_tagCastPack (s : State k) (t : ℤ) (p : Buf k) :
    let s₁ := tagCastPack s t p
    let s₂ := keepPack s₁ t p
    (s₁.cast t).repPack = (s.cast t).repPack ∧ (s₁.cast t).repPos = (s.cast t).repPos ∧
      htonl (s₁.mem p).data.seq = (s.cast t).seq + 1 ∧
      s₂.mem p = ⟨0, (s₁.mem p).len, (s₁.mem p).data⟩ ∧ (∀ b, b ≠ p → s₂.mem b = s.mem b) ∧
      (s₂.cast t).repPack = Function.update (s.cast t).repPack (s.cast t).repPos (some p) ∧
      (s₂.cast t).repPos = place 4 ((s.cast t).repPos.val + 1) ∧
      (s₂.cast t).seq = (s.cast t).seq + 1 := by
  simp only [keepPack, tagCastPack, State.setMem, State.setCast, Function.update_self, htonl_htonl,
    true_and, and_true]
  intro b hb
  rw [Function.update_of_ne hb, Function.update_of_ne hb]

theorem mem_recent {log : List (Obs k)} {c : Cast k}
    (hc : c ∈ (casts log).take (repCastSize - 1)) : c ∈ recent log :=
  List.take_subset_take_left _ (by decide) hc

theorem recentPacks_cast {log : List (Obs k)} {c : Cast k} : recentPacks (.cast c :: log) =
    c.pack :: ((casts log).take (repCastSize - 1)).map Cast.pack := rfl

/-- The oldest of 16 packets is none of the others. -/
theorem Inv.oldest (h : Inv t x) {c : Cast k} (hc : c ∈ (casts x.log).take (repCastSize - 1)) :
    (casts x.log)[repCastSize - 1]?.map Cast.pack ≠ some c.pack := by
  intro heq
  obtain ⟨d, hd, hpack⟩ := Option.map_eq_some_iff.mp heq
  obtain ⟨j, hlt, hj⟩ := mem_take_iff.mp hc
  have hdr : d ∈ recent x.log := mem_take_iff.mpr ⟨_, by decide, hd⟩
  obtain rfl := List.inj_on_of_nodup_map h.apart hdr (mem_recent hc) hpack
  have hseq := (h.seqs _ d hd).symm.trans (h.seqs _ d hj)
  have := ofNat_inj (by decide) (by omega) (sub_right_inj.mp hseq)
  omega

/-- The slot that is written next holds the oldest of 16 packets. -/
theorem Inv.slot (h : Inv t x) : (x.st.cast t).repPack (x.st.cast t).repPos =
    (casts x.log)[repCastSize - 1]?.map Cast.pack := by
  have hlast := getElem?_ringItems (x.st.cast t).repPack (x.st.cast t).repPos
  rw [show ringItems _ _ _ = _ from h.ring, getElem?_window (by decide), List.getElem?_map]
    at hlast
  exact (Option.some.inj hlast).symm

theorem Inv.ring_inUse (h : Inv t x) {b : Buf k} (hb : b ∈ Repeat.ring x.st t) :
    ¬ x.st.pools.IsFree b := by
  exact h.inUse b (h.mem_ring.mp hb)

/-- The numbers, when a packet has got the next one. -/
theorem Inv.seqs_cons (h : Inv t x) {c₀ : Cast k} (hnum : c₀.seq = (x.st.cast t).seq + 1) :
    ∀ j c, (c₀ :: casts x.log)[j]? = some c →
      c.seq = (x.st.cast t).seq + 1 - BitVec.ofNat 32 j := by
  intro j c hj
  cases j with
  | zero =>
    obtain rfl := Option.some.inj hj
    exact hnum.trans (sub_zero _).symm
  | succ j =>
    rw [h.seqs j c hj, BitVec.ofNat_add]
    exact (add_sub_add_right_eq_sub _ _ _).symm

/-- The next number is none of those of the last 15 packets. -/
theorem Inv.seq_new (h : Inv t x) {c₀ c : Cast k} (hnum : c₀.seq = (x.st.cast t).seq + 1)
    (hc : c ∈ (casts x.log).take (repCastSize - 1)) : c₀.seq ≠ c.seq := by
  intro heq
  obtain ⟨j, hj, hcj⟩ := mem_take_iff.mp hc
  have hfirst := h.seqs_cons hnum 0 c₀ rfl
  rw [heq, h.seqs_cons hnum (j + 1) c hcj] at hfirst
  exact absurd (ofNat_inj (by omega) (by decide) (sub_right_inj.mp hfirst)) (Nat.succ_ne_zero j)

/-- The packets that are kept are in use, once the 16th one before them has been freed. -/
theorem Inv.inUse_cast (h : Inv t x) {c₀ : Cast k} (hp : Owned x.st t c₀.pack) {P : Pools k}
    (hfree : ∀ b, P.IsFree b ↔
      x.st.pools.IsFree b ∨ (casts x.log)[repCastSize - 1]?.map Cast.pack = some b) :
    ∀ b ∈ recentPacks (.cast c₀ :: x.log), ¬ P.IsFree b := by
  obtain ⟨hring, huse⟩ := hp
  intro b hb hf
  rw [recentPacks_cast] at hb
  rcases List.mem_cons.mp hb with rfl | hb
  · exact ((hfree _).mp hf).elim huse fun ho => hring (mem_slots.mpr ⟨_, h.slot.trans ho⟩)
  · obtain ⟨c, hc, rfl⟩ := List.mem_map.mp hb
    exact ((hfree _).mp hf).elim (h.inUse c.pack (List.mem_map_of_mem (mem_recent hc)))
      fun ho => h.oldest hc ho

/-- One more packet, which has got the next number. -/
theorem Inv.cast (h : Inv t x) {c₀ : Cast k} {s' : State k}
    (hnew : c₀.pack ∉ Repeat.ring x.st t) (hnum : c₀.seq = (x.st.cast t).seq + 1)
    (hseq : (s'.cast t).seq = (x.st.cast t).seq + 1)
    (hring : items s' t repCastSize = (some c₀.pack :: items x.st t repCastSize).take repCastSize)
    (hself : s'.mem c₀.pack = ⟨0, c₀.sent.2, c₀.sent.1⟩)
    (hother : ∀ b, b ≠ c₀.pack → s'.mem b = x.st.mem b)
    (huse : ∀ b ∈ recentPacks (.cast c₀ :: x.log), ¬ s'.pools.IsFree b) :
    Inv t ⟨s', x.repReqs, .cast c₀ :: x.log⟩ := by
  have hne : ∀ c ∈ (casts x.log).take (repCastSize - 1), c.pack ≠ c₀.pack := fun c hc heq =>
    hnew (heq ▸ h.mem_ring.mpr (List.mem_map_of_mem (mem_recent hc)))
  refine ⟨huse, ?_, fun j c hj => hseq ▸ h.seqs_cons hnum j c hj, fun c hc => ?_, ?_⟩
  · rw [hring, h.ring]
    exact window_cons.symm
  · rcases List.mem_cons.mp (show c ∈ c₀ :: (casts x.log).take (repCastSize - 1) from hc)
      with rfl | hc
    · rw [hself, repeats, if_pos rfl]
      rfl
    · rw [hother _ (hne c hc), h.mem c (mem_recent hc), repeats, if_neg (h.seq_new hnum hc)]
  · rw [recentPacks_cast]
    refine List.nodup_cons.mpr ⟨fun hmem => ?_, ?_⟩
    · obtain ⟨c, hc, heq⟩ := List.mem_map.mp hmem
      exact hne c hc heq
    · exact h.apart.sublist ((List.take_sublist_take_left (by decide)).map _)

/-- **A packet is cast,** and the 16th one before it is freed. -/
theorem castPack_spec (h : Inv t x) {p : Buf k} (hp : Owned x.st t p) :
    ∃ x', castPack t x p = some x' ∧ CastNext t x p x' ∧ Inv t x' := by
  obtain ⟨hpack, hpos, hnum, hself, hother, hpack', hpos', hseq'⟩ :=
    keepPack_tagCastPack x.st t p
  obtain ⟨P, hP, hfree⟩ := outdatePack_spec (s := tagCastPack x.st t p) (t := t) (p := p)
    fun out ho => h.ring_inUse (mem_slots.mpr ⟨_, by rwa [hpack, hpos] at ho⟩)
  rw [hpack, hpos, h.slot] at hfree
  have hfreed : ∀ b, P.IsFree b ↔ x.st.pools.IsFree b ∨
      (casts x.log)[repCastSize - 1]?.map Cast.pack = some b := fun b => (hfree b).trans or_comm
  refine ⟨_, Option.map_eq_some_iff.mpr ⟨_, hP, rfl⟩, ⟨?_, hseq', rfl, hfreed⟩,
    h.cast hp.1 hnum hseq' ?_ hself hother (h.inUse_cast hp hfreed)⟩
  · simp only [tagCastPack, State.setMem, State.setCast, Function.update_self]
  · show ringItems ((keepPack (tagCastPack x.st t p) t p).cast t).repPack
      ((keepPack (tagCastPack x.st t p) t p).cast t).repPos _ = _
    rw [hpack', hpos']
    exact ringItems_write ..

/-- The others leave the ring alone. -/
theorem goOn_spec (h : Inv t x) (s' : State k) :
    LeftAlone t x { x with st := goOn x.st s' t } ∧ Inv t { x with st := goOn x.st s' t } := by
  unfold goOn
  split_ifs with hkeep
  · refine ⟨⟨rfl, rfl, ?_, fun b hb => if_pos (h.mem_ring.mpr hb)⟩, fun b hb => ?_, ?_,
      fun j c hj => ?_, fun c hc => ?_, h.apart⟩
    · simp only [Function.update_self]
    · exact hkeep b (h.mem_ring.mpr hb)
    · simp only [items, Function.update_self]
      exact h.ring
    · simp only [Function.update_self]
      exact h.seqs j c hj
    · dsimp only
      rw [if_pos (h.mem_ring.mpr (List.mem_map_of_mem hc))]
      exact h.mem c hc
  · exact ⟨⟨rfl, rfl, rfl, fun _ _ => rfl⟩, h⟩

theorem tagReqRepeat_spec (h : Inv t x) (d : ℤ) (seq : BitVec 32) :
    Requested o x (d, seq) (tagReqRepeat o x d seq) ∧ Inv t (tagReqRepeat o x d seq) := by
  unfold tagReqRepeat
  split_ifs with hoff hfull
  · exact ⟨⟨rfl, rfl, fun hon => absurd hoff hon, fun _ => rfl⟩, h⟩
  · exact ⟨⟨rfl, rfl, fun _ hroom => absurd hfull hroom, fun _ => rfl⟩, h⟩
  · refine ⟨⟨rfl, rfl, fun _ _ => contents_put hfull (d, seq), ?_⟩, h.inUse, h.ring, h.seqs, h.mem,
      h.apart⟩
    rintro (hno | hno)
    · exact absurd hno hoff
    · exact absurd hno hfull

theorem inv_start (st : State k) (t : ℤ) : Inv t (start st t) := by
  have hcast : (start st t).st.cast t = newCast k := by
    simp only [start, Function.update_self]
  refine ⟨fun b hb => absurd hb List.not_mem_nil, ?_, fun j c hj => ?_,
    fun c hc => absurd hc List.not_mem_nil, List.nodup_nil⟩
  · rw [items, hcast]
    exact ringItems_const none _
  · rw [show casts (start st t).log = [] from rfl, List.getElem?_nil] at hj
    cases hj

/-- **The step lemma.** -/
theorem step_served (h : Inv t x) (e : Event k) :
    ∃ x', step o t x e = some x' ∧ Served o t x e x' ∧ Inv t x' := by
  cases e with
  | request d seq => exact ⟨_, rfl, tagReqRepeat_spec h d seq⟩
  | repeats => exact ⟨_, rfl, tagRepeats_spec h⟩
  | cast p =>
    by_cases hp : Owned x.st t p
    · obtain ⟨x', hx', hnext, hI⟩ := castPack_spec h hp
      refine ⟨x', (if_pos hp).trans hx', ?_, hI⟩
      rw [Served, if_pos hp]
      exact hnext
    · refine ⟨x, if_neg hp, ?_, h⟩
      rw [Served, if_neg hp]
  | others s' => exact ⟨_, rfl, goOn_spec h s'⟩

end Steps

/-- **The repeat window:** along every run of the thread, whatever the others do, a request that
waits is answered from the last 16 packets, and a packet is freed when the 16th later one is cast,
not before. -/
theorem windowed_always (o : CastOpts) (st : State k) (t : ℤ) (es : List (Event k)) :
    Stepwise (step o t) (Served o t) (start st t) es ∧
      Always (step o t) InUse (start st t) es := by
  constructor
  · exact stepwise_of_guarded (I := Inv t) (fun _ e h _ => step_served h e) (inv_start st t)
      (guarded_true ..)
  · refine always_of_guarded (I := Inv t) (E := fun _ => True) (fun _ h => h.inUse) ?_
      (inv_start st t) (fun _ _ => trivial) (guarded_true ..)
    intro x e h _ _
    obtain ⟨x', hx', -, h'⟩ := step_served h e
    exact ⟨x', hx', h'⟩

/-! ## In the server -/

/-- **A packet at `tag_cast_pack`** is in no ring, and not free. -/
theorem owned_of_conserved {s : State k} {t : ℤ} {p : Buf k} (h : BufferRuns.Conserved s)
    (hp : (s.cast t).pc = .cast p) : Owned s t p := by
  have hhands : p ∈ BufferRuns.holding s (.mixer t) := by
    show p ∈ (s.cast t).pc.hands
    rw [hp]
    exact List.mem_singleton.mpr rfl
  refine ⟨h.not_mem (q := .ring t) hhands (by simp), fun hf => ?_⟩
  exact h.not_mem (q := .free) hhands (by simp) (mem_free.mpr hf)

end GSConferencing.Serv.Repeat
