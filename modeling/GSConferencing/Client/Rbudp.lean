import GSConferencing.Include.Cfifo
import GSConferencing.Include.Pack

/-!
# Retransmittive broadcast UDP

`rbudp.c`: the sender with its cache of packets, and the receiver with its queue of packets that
wait for a missing one.  The broadcast that makes a packet is kept in the packet (`no`); the code
has no such field and never reads it.
-/

namespace GSConferencing.Client.Rbudp

open GSConferencing.Lib.Ring
open GSConferencing.Include.Cfifo GSConferencing.Include.Pack

/-- `RBUDP_PACKET`. -/
def rbudpPacket : Byte := 0

/-- `RBUDP_RETRAN`. -/
def rbudpRetran : Byte := 1

/-- `RBUDP_REPAIR`. -/
def rbudpRepair : Byte := 2

/-- The places of the caches hold 2048 bytes, of which the head takes 8. -/
def dataMax : ℕ := 2040

/-- `struct rbudp_packet` with the `len` bytes of its data. -/
structure Packet where
  tag : Byte
  type : Byte
  seq : BitVec 16
  extra : BitVec 16
  data : List Byte
  fits : data.length ≤ dataMax
  /-- The call of `rbudp_broadcast` that made the packet. -/
  no : ℕ

/-- The zeroed memory of a packet. -/
def Packet.zero : Packet where
  tag := 0
  type := 0
  seq := 0
  extra := 0
  data := []
  fits := Nat.zero_le _
  no := 0

/-- Where a datagram comes from: the socket `snd_sock` or `rep_sock` of the sender, or another. -/
inductive Addr where
  | snd
  | rep
  | other (n : ℕ)
  deriving DecidableEq

/-! ## The sender -/

/-- What is handed to `rbudp_broadcast`. -/
structure Payload where
  tag : ℤ
  data : List Byte
  fits : data.length ≤ dataMax
  extra : ℤ

/-- `seq`, `rep_bufs`, `rep_seq` and `rep_count`, and the number of calls so far. -/
structure Sender where
  seq : BitVec 16
  repBufs : Fin (2 ^ 5) → Packet
  repSeq : Fin (2 ^ 5) → BitVec 16
  repCount : Fin (2 ^ 5) → ℕ
  calls : ℕ

def Sender.new : Sender where
  seq := 0
  repBufs := fun _ => Packet.zero
  repSeq := fun _ => 0
  repCount := fun _ => 0
  calls := 0

/-- `seq & REP_MASK`. -/
def slot (seq : BitVec 16) : Fin (2 ^ 5) := place 5 seq.toNat

/-- `++seq`, which skips 0. -/
def nextSeq (seq : BitVec 16) : BitVec 16 := if seq + 1 = 0 then 1 else seq + 1

/-- The packet of a broadcast. -/
def newPacket (s : Sender) (b : Payload) : Packet where
  tag := BitVec.ofInt 8 b.tag
  type := rbudpPacket
  seq := nextSeq s.seq
  extra := BitVec.ofInt 16 b.extra
  data := b.data
  fits := b.fits
  no := s.calls + 1

/-- `rbudp_broadcast`; `ok` says whether `sendto` succeeds.  The packet is sent from `snd_sock`. -/
def rbudpBroadcast (s : Sender) (b : Payload) (ok : Bool) : Sender × Option Packet :=
  let p := newPacket s b
  let cached := if ok then { p with type := rbudpRepair } else p
  ({ s with
      seq := p.seq
      repBufs := Function.update s.repBufs (slot p.seq) cached
      calls := s.calls + 1 },
    if ok then some p else none)

/-- The destination of a repair. -/
inductive Dest where
  | to (other : Addr)
  | br
  deriving DecidableEq

/-- A request as `req_repeat` writes it. -/
structure Request where
  tag : Byte
  type : Byte
  seq : BitVec 16

/-- One round of `run_retransmit`: what is sent from `rep_sock`, and where to. -/
def runRetransmit (s : Sender) (req : Request) (other : Addr) : Sender × Option (Packet × Dest) :=
  if req.type ≠ rbudpRetran then (s, none)
  else
    let i := slot req.seq
    let p := s.repBufs i
    if p.seq ≠ req.seq then (s, none)
    else
      let count := if s.repSeq i ≠ req.seq then 0 else s.repCount i
      ({ s with
          repSeq := Function.update s.repSeq i req.seq
          repCount := Function.update s.repCount i (count + 1) },
        if count < 8 then some (p, .to other) else if count < 20 then some (p, .br) else none)

/-! ## The receiver -/

/-- `rcv_tag`, `expect_seq`, `wait_packs`, and `src`, which is not set at first. -/
structure Receiver where
  rcvTag : ℤ
  expectSeq : BitVec 16
  wait : Fifo Packet 3
  src : Option Addr

def Receiver.new : Receiver where
  rcvTag := 0
  expectSeq := 0
  wait := .new Packet.zero
  src := none

/-- What a receiver does: it calls `recv_cb`, or it sends a request. -/
inductive Out where
  | deliver (tag : ℤ) (p : Packet)
  | request (req : Request) (dest : Option Addr)

/-- `rbudp_set_recv_tag`. -/
def rbudpSetRecvTag (r : Receiver) (tag : ℤ) : Receiver := { r with rcvTag := tag, expectSeq := 0 }

/-- `put_wait`. -/
def putWait (w : Fifo Packet 3) (p : Packet) : Fifo Packet 3 := (w.write p).putIn

/-- A pointer to a packet: to the buffer of `recvfrom`, or into the queue. -/
inductive Ptr where
  | buf
  | wait (i : Fin (2 ^ 3))

/-- The packet that is there, if the buffer has `p`. -/
def Ptr.read (w : Fifo Packet 3) (p : Packet) : Ptr → Packet
  | .buf => p
  | .wait i => w.data i

/-- `get_wait`: a pointer to the oldest packet, whose place is free from now on. -/
def getWait (w : Fifo Packet 3) : Option (Ptr × Fifo Packet 3) :=
  if w.empty then none else some (.wait w.out, w.takeOut)

/-- `req_repeat`. -/
def reqRepeat (r : Receiver) : Out :=
  .request { tag := BitVec.ofInt 8 r.rcvTag, type := rbudpRetran, seq := r.expectSeq } r.src

/-- The loop that delivers `next` and then all packets that wait; at most `2 ^ 3` rounds. -/
def commit : ℕ → Receiver → Packet → Ptr → Option (Receiver × List Out)
  | 0, _, _, _ => none
  | fuel + 1, r, p, next =>
    let q := next.read r.wait p
    let r := { r with expectSeq := q.seq + 1 }
    match getWait r.wait with
    | none => some (r, [.deliver r.rcvTag q])
    | some (next, w) => (commit fuel { r with wait := w } p next).map fun (r', outs) =>
        (r', .deliver r.rcvTag q :: outs)

/-- A packet with a number above the expected one: without packets that wait the receiver goes on
from it, unless only one is missing. -/
def advance (r : Receiver) (p : Packet) : Receiver :=
  if r.expectSeq.toNat < p.seq.toNat ∧ r.wait.empty ∧ 1 < p.seq.toNat - r.expectSeq.toNat then
    { r with expectSeq := p.seq }
  else r

/-- The packet is delivered, or it waits; a full queue is delivered. -/
def accept (r : Receiver) (p : Packet) : Option (Receiver × List Out) :=
  if p.seq = r.expectSeq ∨ r.expectSeq = 0 then commit 8 r p .buf
  else if r.wait.full then
    (getWait r.wait).bind fun (next, w) => commit 8 { r with wait := putWait w p } p next
  else some ({ r with wait := putWait r.wait p }, if r.wait.empty then [reqRepeat r] else [])

/-- One round of `rbudp_run_recv`. -/
def runRecv (r : Receiver) (p : Packet) (other : Addr) : Option (Receiver × List Out) :=
  if (p.tag.toNat : ℤ) ≠ r.rcvTag then some (r, [])
  else
    -- a repair does not say where requests go to
    let r := if p.type = rbudpPacket then { r with src := some other } else r
    if p.seq.toNat < r.expectSeq.toNat then
      if r.expectSeq.toNat - p.seq.toNat < 100 then some (r, [])
      else accept { r with wait := r.wait.clear, expectSeq := 0 } p
    else accept (advance r p) p

/-! ## What one datagram does -/

/-- The packets are delivered. -/
def delivers (tag : ℤ) (ps : List Packet) : List Out := ps.map (.deliver tag)

section Commit
variable {r : Receiver} {p : Packet}

/-- The loop delivers the packet it starts with and all that wait. -/
theorem commit_spec {fuel : ℕ} (next : Ptr) (h : r.wait.contents.length < fuel) {l : List Packet}
    {last : Packet} (hl : next.read r.wait p :: r.wait.contents = l ++ [last]) :
    ∃ r', commit fuel r p next = some (r', delivers r.rcvTag (l ++ [last])) ∧
      r'.wait.contents = [] ∧ r'.rcvTag = r.rcvTag ∧ r'.src = r.src ∧
      r'.expectSeq = last.seq + 1 := by
  induction fuel generalizing r next l with
  | zero => exact absurd h (Nat.not_lt_zero _)
  | succ fuel ih =>
    rw [← hl]
    unfold commit getWait
    by_cases he : r.wait.empty
    · have hnil := empty_iff.mp he
      rw [hnil] at hl ⊢
      obtain ⟨rfl, hlast⟩ := List.append_eq_singleton_iff.mp hl.symm |>.resolve_right (by simp)
      simp only [if_pos he]
      refine ⟨_, rfl, hnil, rfl, rfl, ?_⟩
      rw [List.singleton_inj.mp hlast]
    · have hcons := contents_out he
      rw [hcons] at hl ⊢
      obtain ⟨l', rfl⟩ : ∃ l', l = next.read r.wait p :: l' := by
        cases l with
        | nil => simp at hl
        | cons x l' => exact ⟨l', by rw [(List.cons.inj hl).1]⟩
      rw [hcons, List.length_cons] at h
      obtain ⟨r', hr', hw, htag, hsrc, hexp⟩ := ih
        (r := { r with expectSeq := (next.read r.wait p).seq + 1, wait := r.wait.takeOut })
        (.wait r.wait.out) (by exact Nat.lt_of_succ_lt_succ h) (List.cons.inj hl).2
      simp only [if_neg he]
      rw [hr', (List.cons.inj hl).2]
      exact ⟨r', rfl, hw, htag, hsrc, hexp⟩

theorem wait_length_le (w : Fifo Packet 3) : w.contents.length ≤ 7 := by
  have hlt : w.len < 2 ^ 3 := len_lt
  rw [length_contents]
  omega

/-- The queue is full with seven packets. -/
theorem wait_full_iff (w : Fifo Packet 3) : w.full ↔ w.contents.length = 7 := by
  rw [full_iff_len, length_contents]
  omega

end Commit

/-- What a datagram with the packet `p` does to a receiver. -/
inductive Handled (r : Receiver) (p : Packet) : Receiver → List Out → Prop
  | foreign (htag : (p.tag.toNat : ℤ) ≠ r.rcvTag) : Handled r p r []
  | outdated {r' : Receiver} (htag : (p.tag.toNat : ℤ) = r.rcvTag)
      (hlt : p.seq.toNat < r.expectSeq.toNat) (hwin : r.expectSeq.toNat - p.seq.toNat < 100)
      (hwait : r'.wait.contents = r.wait.contents) (hexp : r'.expectSeq = r.expectSeq) :
      Handled r p r' []
  | jumped {r' : Receiver} (htag : (p.tag.toNat : ℤ) = r.rcvTag)
      (hlt : p.seq.toNat < r.expectSeq.toNat) (hwin : 100 ≤ r.expectSeq.toNat - p.seq.toNat)
      (hwait : r'.wait.contents = []) (hexp : r'.expectSeq = p.seq + 1) :
      Handled r p r' (delivers r.rcvTag [p])
  | delivered {r' : Receiver} {l : List Packet} {last : Packet}
      (htag : (p.tag.toNat : ℤ) = r.rcvTag) (hle : r.expectSeq.toNat ≤ p.seq.toNat)
      (hnow : p.seq = r.expectSeq ∨ r.expectSeq = 0 ∨
        r.wait.contents = [] ∧ r.expectSeq.toNat + 1 < p.seq.toNat)
      (hl : p :: r.wait.contents = l ++ [last]) (hwait : r'.wait.contents = [])
      (hexp : r'.expectSeq = last.seq + 1) :
      Handled r p r' (delivers r.rcvTag (p :: r.wait.contents))
  | queued {r' : Receiver} (htag : (p.tag.toNat : ℤ) = r.rcvTag)
      (hlt : r.expectSeq.toNat < p.seq.toNat) (h0 : r.expectSeq ≠ 0)
      (hgap : r.wait.contents = [] → p.seq.toNat = r.expectSeq.toNat + 1)
      (hroom : r.wait.contents.length < 7) (hwait : r'.wait.contents = r.wait.contents ++ [p])
      (hexp : r'.expectSeq = r.expectSeq) :
      Handled r p r' (if r.wait.contents = [] then [reqRepeat { r with src := r'.src }] else [])
  | forced {r' : Receiver} (htag : (p.tag.toNat : ℤ) = r.rcvTag)
      (hlt : r.expectSeq.toNat < p.seq.toNat) (h0 : r.expectSeq ≠ 0)
      (hfull : r.wait.contents.length = 7) (hwait : r'.wait.contents = [])
      (hexp : r'.expectSeq = p.seq + 1) :
      Handled r p r' (delivers r.rcvTag (r.wait.contents ++ [p]))

section Receive
variable {r : Receiver} {p : Packet} {other : Addr}

theorem seq_eq_iff {a b : BitVec 16} : a = b ↔ a.toNat = b.toNat := BitVec.toNat_inj.symm

theorem seq_zero_iff {a : BitVec 16} : a = 0 ↔ a.toNat = 0 := seq_eq_iff

theorem mem_of_append_singleton {α : Type*} (x : α) (l : List α) :
    ∃ l' last, x :: l = l' ++ [last] :=
  ⟨_, _, (List.dropLast_append_getLast (List.cons_ne_nil x l)).symm⟩

/-- A packet that is delivered at once. -/
theorem accept_now (h : p.seq = r.expectSeq ∨ r.expectSeq = 0) {l : List Packet} {last : Packet}
    (hl : p :: r.wait.contents = l ++ [last]) :
    ∃ r', accept r p = some (r', delivers r.rcvTag (p :: r.wait.contents)) ∧
      r'.wait.contents = [] ∧ r'.rcvTag = r.rcvTag ∧ r'.src = r.src ∧
      r'.expectSeq = last.seq + 1 := by
  have hlen := wait_length_le r.wait
  obtain ⟨r', hr', hspec⟩ := commit_spec (p := p) .buf (show _ < 8 by omega) hl
  refine ⟨r', ?_, hspec⟩
  unfold accept
  rw [if_pos h, hr', hl]

/-- A packet that finds the queue full. -/
theorem accept_full (h : ¬ (p.seq = r.expectSeq ∨ r.expectSeq = 0)) (hf : r.wait.full) :
    ∃ r', accept r p = some (r', delivers r.rcvTag (r.wait.contents ++ [p])) ∧
      r'.wait.contents = [] ∧ r'.rcvTag = r.rcvTag ∧ r'.src = r.src ∧
      r'.expectSeq = p.seq + 1 := by
  have he : ¬ r.wait.empty := not_empty_of_full (by decide) hf
  have hcons := contents_out he
  have hlen := wait_length_le r.wait
  -- the place that has been taken out is not the one that is written
  have hroom : ¬ r.wait.takeOut.full := by
    rw [wait_full_iff]
    rw [hcons, List.length_cons] at hlen
    omega
  have hput : (putWait r.wait.takeOut p).contents = r.wait.takeOut.contents ++ [p] :=
    contents_put hroom p
  have hread : (Ptr.wait r.wait.out).read (putWait r.wait.takeOut p) p = r.wait.getOut :=
    Function.update_of_ne he ..
  have hl : (Ptr.wait r.wait.out).read (putWait r.wait.takeOut p) p ::
      (putWait r.wait.takeOut p).contents = r.wait.contents ++ [p] := by
    rw [hread, hput, hcons, List.cons_append]
  have hlen' : (putWait r.wait.takeOut p).contents.length < 8 := by
    have := wait_length_le (putWait r.wait.takeOut p)
    omega
  obtain ⟨r', hr', hspec⟩ := commit_spec (r := { r with wait := putWait r.wait.takeOut p })
    (.wait r.wait.out) hlen' hl
  refine ⟨r', ?_, hspec⟩
  unfold accept getWait
  rw [if_neg h, if_pos hf, if_neg he]
  exact hr'

/-- A packet that does not jump back, at a receiver that sends its requests to `x`. -/
theorem accept_advance (x : Option Addr) (htag : (p.tag.toNat : ℤ) = r.rcvTag)
    (hle : r.expectSeq.toNat ≤ p.seq.toNat) :
    ∃ r' outs, accept (advance { r with src := x } p) p = some (r', outs) ∧
      r'.rcvTag = r.rcvTag ∧ r'.src = x ∧ Handled r p r' outs := by
  obtain ⟨l, last, hl⟩ := mem_of_append_singleton p r.wait.contents
  unfold advance
  by_cases hadv : r.expectSeq.toNat < p.seq.toNat ∧ r.wait.empty ∧
      1 < p.seq.toNat - r.expectSeq.toNat
  · -- the receiver goes on from this packet
    rw [if_pos hadv]
    obtain ⟨r', hr', hwait, htag', hsrc, hexp⟩ := accept_now
      (r := { r with src := x, expectSeq := p.seq }) (.inl rfl) hl
    exact ⟨r', _, hr', htag', hsrc, .delivered htag hle
      (.inr (.inr ⟨empty_iff.mp hadv.2.1, by omega⟩)) hl hwait hexp⟩
  rw [if_neg hadv]
  by_cases hnow : p.seq = r.expectSeq ∨ r.expectSeq = 0
  · obtain ⟨r', hr', hwait, htag', hsrc, hexp⟩ := accept_now (r := { r with src := x }) hnow hl
    exact ⟨r', _, hr', htag', hsrc, .delivered htag hle (hnow.imp_right .inl) hl hwait hexp⟩
  have hlt : r.expectSeq.toNat < p.seq.toNat :=
    lt_of_le_of_ne hle fun h => hnow (.inl (seq_eq_iff.mpr h.symm))
  have h0 : r.expectSeq ≠ 0 := fun h => hnow (.inr h)
  by_cases hf : r.wait.full
  · obtain ⟨r', hr', hwait, htag', hsrc, hexp⟩ := accept_full (r := { r with src := x }) hnow hf
    exact ⟨r', _, hr', htag', hsrc, .forced htag hlt h0 ((wait_full_iff _).mp hf) hwait hexp⟩
  · have hroom : r.wait.contents.length < 7 := by
      have := wait_length_le r.wait
      have := mt (wait_full_iff r.wait).mpr hf
      omega
    have hgap : r.wait.contents = [] → p.seq.toNat = r.expectSeq.toNat + 1 := by
      intro hnil
      have := not_and.mp (not_and.mp hadv hlt) (empty_iff.mpr hnil)
      omega
    have hreq : (if r.wait.empty then [reqRepeat { r with src := x }] else []) =
        if r.wait.contents = [] then [reqRepeat { r with src := x }] else [] :=
      if_congr empty_iff rfl rfl
    unfold accept
    rw [if_neg hnow, if_neg hf]
    refine ⟨_, _, rfl, rfl, rfl, ?_⟩
    rw [hreq]
    exact .queued htag hlt h0 hgap hroom (contents_put hf p) rfl

/-- **One datagram:** what it does to a receiver. -/
theorem runRecv_spec (r : Receiver) (p : Packet) (other : Addr) :
    ∃ r' outs, runRecv r p other = some (r', outs) ∧ r'.rcvTag = r.rcvTag ∧
      r'.src = (if (p.tag.toNat : ℤ) = r.rcvTag ∧ p.type = rbudpPacket then some other
        else r.src) ∧ Handled r p r' outs := by
  unfold runRecv
  by_cases htag : (p.tag.toNat : ℤ) = r.rcvTag
  swap
  · rw [if_pos htag]
    exact ⟨r, [], rfl, rfl, (if_neg fun h => htag h.1).symm, .foreign htag⟩
  rw [if_neg (not_not.mpr htag), if_congr (and_iff_right htag) rfl rfl]
  have hr₁ : (if p.type = rbudpPacket then { r with src := some other } else r) =
      { r with src := if p.type = rbudpPacket then some other else r.src } := by
    split_ifs <;> rfl
  rw [hr₁]
  set x := if p.type = rbudpPacket then some other else r.src
  by_cases hlt : p.seq.toNat < r.expectSeq.toNat
  swap
  · simp only [if_neg hlt]
    exact accept_advance x htag (not_lt.mp hlt)
  simp only [if_pos hlt]
  by_cases hwin : r.expectSeq.toNat - p.seq.toNat < 100
  · rw [if_pos hwin]
    exact ⟨_, [], rfl, rfl, rfl, .outdated htag hlt hwin rfl rfl⟩
  · rw [if_neg hwin]
    have hclear : p :: r.wait.clear.contents = [] ++ [p] := by
      rw [contents_clear]
      rfl
    obtain ⟨r', hr', hwait, htag', hsrc, hexp⟩ := accept_now
      (r := { r with src := x, wait := r.wait.clear, expectSeq := 0 }) (.inr rfl) hclear
    refine ⟨r', _, hr', htag', hsrc, ?_⟩
    rw [hclear]
    exact .jumped htag hlt (not_lt.mp hwin) hwait hexp

end Receive

end GSConferencing.Client.Rbudp
