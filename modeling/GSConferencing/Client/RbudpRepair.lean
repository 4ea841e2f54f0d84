import GSConferencing.Client.RbudpOrder

/-!
# Repairs

* `repair_service`: while no sequence number is used again with its request counter still up, every
  request is answered as the history of broadcasts and requests says.
* `repair_exact`: repairs are recognizable as such, and requests go to the socket that is read,
  exactly when no answered request is for a broadcast that could not be sent, and no request is
  made before an original packet has come.
-/

namespace GSConferencing.Client.RbudpRepair

open GSConferencing.Lib.Run
open GSConferencing.Include.Cfifo GSConferencing.Include.Pack
open GSConferencing.Client.Rbudp GSConferencing.Client.RbudpRecv

/-! ## Requests and answers -/

/-- The counter of a number, as `run_retransmit` sees it. -/
def counted (s : Sender) (seq : BitVec 16) : ℕ :=
  if s.repSeq (slot seq) ≠ seq then 0 else s.repCount (slot seq)

/-- The request finds its packet in the cache. -/
def Found (s : Sender) (req : Request) : Prop :=
  req.type = rbudpRetran ∧ (s.repBufs (slot req.seq)).seq = req.seq

instance (s : Sender) (req : Request) : Decidable (Found s req) :=
  inferInstanceAs (Decidable (_ ∧ _))

/-- Where the answer to the request number `n` goes, if there is one. -/
def destOf (n : ℕ) (other : Addr) : Option Dest :=
  if n < 8 then some (.to other) else if n < 20 then some .br else none

section Answers
variable {s : Sender} {req : Request} {other : Addr}

/-- A request that finds its packet is counted. -/
theorem runRetransmit_found (h : Found s req) : runRetransmit s req other =
    ({ s with
        repSeq := Function.update s.repSeq (slot req.seq) req.seq
        repCount := Function.update s.repCount (slot req.seq) (counted s req.seq + 1) },
      (destOf (counted s req.seq) other).map fun dest => (s.repBufs (slot req.seq), dest)) := by
  unfold runRetransmit destOf
  rw [if_neg (not_not.mpr h.1)]
  simp only [if_neg (not_not.mpr h.2)]
  congr 1
  rw [apply_ite (Option.map _), apply_ite (Option.map _)]
  rfl

theorem runRetransmit_not_found (h : ¬ Found s req) : runRetransmit s req other = (s, none) := by
  unfold runRetransmit
  by_cases ht : req.type ≠ rbudpRetran
  · rw [if_pos ht]
  · rw [if_neg ht]
    exact if_pos fun hseq => h ⟨not_not.mp ht, hseq⟩

end Answers

/-! ## The service as the history has it -/

/-- The sender, the packets of all broadcasts, newest first, and for each number the requests since
its latest broadcast. -/
structure History where
  sender : Sender
  broadcasts : List Packet
  since : BitVec 16 → ℕ

def History.new : History where
  sender := .new
  broadcasts := []
  since := fun _ => 0

inductive Event where
  | broadcast (b : Payload)
  | request (req : Request) (other : Addr)

/-- One step; all sends succeed. -/
def step (x : History) : Event → Option History
  | .broadcast b => some
    { sender := (rbudpBroadcast x.sender b true).1
      broadcasts := newPacket x.sender b :: x.broadcasts
      since := Function.update x.since (newPacket x.sender b).seq 0 }
  | .request req other => some
    { x with
      sender := (runRetransmit x.sender req other).1
      since := if req.type = rbudpRetran then
          Function.update x.since req.seq (x.since req.seq + 1)
        else x.since }

/-- The latest broadcast whose packet has the place `i` of the cache. -/
def latest (x : History) (i : Fin (2 ^ 5)) : Option Packet :=
  x.broadcasts.find? fun p => slot p.seq = i

/-- The packet of a broadcast as a repair. -/
def repair (p : Packet) : Packet := { p with type := rbudpRepair }

/-- The answer that a request for the number `seq` should get: the latest broadcast with this
number, if it has not been overwritten, goes to the requester for the first 8 requests since it was
made, and to everybody for the next 12. -/
def answer (x : History) (seq : BitVec 16) (other : Addr) : Option (Packet × Dest) :=
  match latest x (slot seq) with
  | none => none
  | some p => if p.seq = seq then (destOf (x.since seq) other).map fun dest => (repair p, dest)
      else none

/-- Every request for a number other than 0 gets the answer that it should get. -/
def Served (x : History) : Prop :=
  ∀ req other, req.type = rbudpRetran → req.seq ≠ 0 →
    (runRetransmit x.sender req other).2 = answer x req.seq other

/-- A number is not used again while the requests for its last broadcast are still counted. -/
def CounterDown (x : History) : Event → Prop
  | .broadcast _ => counted x.sender (nextSeq x.sender.seq) = 0
  | .request _ _ => True

instance (x : History) : (e : Event) → Decidable (CounterDown x e)
  | .broadcast _ => inferInstanceAs (Decidable (_ = 0))
  | .request _ _ => .isTrue trivial

/-- The cache has the latest broadcasts, and the counters of the numbers in the cache are right. -/
structure Inv (x : History) : Prop where
  cache : ∀ i, x.sender.repBufs i = ((latest x i).map repair).getD Packet.zero
  counts : ∀ seq, seq ≠ 0 → (x.sender.repBufs (slot seq)).seq = seq →
    counted x.sender seq = x.since seq

section Service
variable {x x' : History} {e : Event}

theorem Inv.served (h : Inv x) : Served x := by
  intro req other htype h0
  unfold answer
  have hcache := h.cache (slot req.seq)
  cases hp : latest x (slot req.seq) with
  | none =>
    rw [hp] at hcache
    have hno : ¬ Found x.sender req := fun hf => h0 (by rw [← hf.2, hcache]; rfl)
    rw [runRetransmit_not_found hno]
  | some p =>
    rw [hp] at hcache
    replace hcache : x.sender.repBufs (slot req.seq) = repair p := hcache
    have hseq : (x.sender.repBufs (slot req.seq)).seq = p.seq := by rw [hcache]; rfl
    by_cases heq : p.seq = req.seq
    · have hf : Found x.sender req := ⟨htype, hseq.trans heq⟩
      rw [runRetransmit_found hf, h.counts req.seq h0 hf.2, hcache]
      simp only [if_pos heq]
    · have hno : ¬ Found x.sender req := fun hf => heq (hseq.symm.trans hf.2)
      rw [runRetransmit_not_found hno]
      simp only [if_neg heq]

theorem inv_new : Inv History.new where
  cache := fun _ => rfl
  counts := fun _ _ _ => by
    unfold counted
    split_ifs <;> rfl

/-- The cache after a broadcast. -/
theorem repBufs_broadcast (s : Sender) (b : Payload) (ok : Bool) (i : Fin (2 ^ 5)) :
    (rbudpBroadcast s b ok).1.repBufs i = if i = slot (newPacket s b).seq then
      (if ok then repair (newPacket s b) else newPacket s b) else s.repBufs i := by
  by_cases h : i = slot (newPacket s b).seq
  · rw [if_pos h, h]
    exact Function.update_self ..
  · rw [if_neg h]
    exact Function.update_of_ne h ..

theorem step_inv (h : Inv x) (hg : CounterDown x e) : ∃ x', step x e = some x' ∧ Inv x' := by
  cases e with
  | broadcast b =>
    refine ⟨_, rfl, fun i => ?_, fun seq h0 hseq => ?_⟩
    · show (rbudpBroadcast x.sender b true).1.repBufs i =
        ((List.find? (fun p => slot p.seq = i) (newPacket x.sender b :: x.broadcasts)).map
          repair).getD Packet.zero
      rw [repBufs_broadcast]
      by_cases hi : i = slot (newPacket x.sender b).seq
      · rw [if_pos hi, List.find?_cons, decide_eq_true hi.symm]
        rfl
      · rw [if_neg hi, List.find?_cons, decide_eq_false fun h' => hi h'.symm]
        exact h.cache i
    · replace hseq : ((rbudpBroadcast x.sender b true).1.repBufs (slot seq)).seq = seq := hseq
      rw [repBufs_broadcast] at hseq
      show counted x.sender seq = Function.update x.since _ 0 seq
      by_cases hi : slot seq = slot (newPacket x.sender b).seq
      · -- the number that has just been used
        rw [if_pos hi] at hseq
        replace hseq : (newPacket x.sender b).seq = seq := hseq
        rw [hseq, Function.update_self, ← hseq]
        exact hg
      · have hne : seq ≠ (newPacket x.sender b).seq := fun h' => hi (congrArg slot h')
        rw [if_neg hi] at hseq
        rw [Function.update_of_ne hne]
        exact h.counts seq h0 hseq
  | request req other =>
    refine ⟨_, rfl, ?_⟩
    by_cases hf : Found x.sender req
    · rw [runRetransmit_found hf, if_pos hf.1]
      refine ⟨h.cache, fun seq h0 hseq => ?_⟩
      show (if Function.update x.sender.repSeq (slot req.seq) req.seq (slot seq) ≠ seq then 0
        else Function.update x.sender.repCount (slot req.seq) _ (slot seq)) =
          Function.update x.since req.seq (x.since req.seq + 1) seq
      by_cases hi : slot seq = slot req.seq
      · -- the cache has one number for this place
        have heq : seq = req.seq := by
          rw [← hf.2, ← hi]
          exact hseq.symm
        subst heq
        rw [Function.update_self, if_neg (not_not.mpr rfl), Function.update_self,
          Function.update_self, h.counts req.seq h0 hf.2]
      · have hne : seq ≠ req.seq := fun h' => hi (congrArg slot h')
        rw [Function.update_of_ne hi, Function.update_of_ne hi, Function.update_of_ne hne]
        exact h.counts seq h0 hseq
    · rw [runRetransmit_not_found hf]
      refine ⟨h.cache, fun seq h0 hseq => ?_⟩
      show counted x.sender seq = (if req.type = rbudpRetran then
        Function.update x.since req.seq (x.since req.seq + 1) else x.since) seq
      by_cases htype : req.type = rbudpRetran
      · have hne : seq ≠ req.seq := fun h' => hf ⟨htype, h' ▸ hseq⟩
        rw [if_pos htype, Function.update_of_ne hne]
        exact h.counts seq h0 hseq
      · rw [if_neg htype]
        exact h.counts seq h0 hseq

end Service

/-- **While no number is used again with its counter still up, every request is answered** with the
latest broadcast of its number if that is still in the cache, to the requester for the first 8
requests since it was made, to everybody for the next 12, and then no more. -/
theorem repair_service {es : List Event} (hg : Guarded step CounterDown History.new es) :
    Always step Served History.new es :=
  always_of_guarded (I := Inv) (E := fun _ => True) (fun _ h => h.served)
    (fun _ _ h _ hg => step_inv h hg) inv_new (fun _ _ => trivial) hg

/-- A number and the requests for it. -/
def request (seq : BitVec 16) : Event :=
  .request { tag := 0, type := rbudpRetran, seq := seq } (.other 0)

theorem repair_service_two : Always step Served History.new
    [.broadcast RbudpOrder.empty, request 1, .broadcast RbudpOrder.empty, request 1, request 2] :=
  repair_service (by decide)

/-! ## Past the end of the numbers -/

section Wrap
variable {x : History} {b : Payload}

theorem toNat_nextSeq (a : BitVec 16) :
    (nextSeq a).toNat = if a.toNat = 65535 then 1 else a.toNat + 1 := by
  have hlt := a.isLt
  have hadd : (a + 1).toNat = (a.toNat + 1) % 65536 := BitVec.toNat_add a 1
  have hzero : a + 1 = 0 ↔ a.toNat = 65535 := by
    rw [seq_zero_iff, hadd]
    omega
  unfold nextSeq
  by_cases h : a.toNat = 65535
  · rw [if_pos (hzero.mpr h), if_pos h]
    rfl
  · rw [if_neg (mt hzero.mp h), if_neg h, hadd]
    omega

/-- The numbers come back after 65535 broadcasts. -/
theorem toNat_iterate_nextSeq (n : ℕ) : (nextSeq^[n] 1).toNat = n % 65535 + 1 := by
  induction n with
  | zero => rfl
  | succ n ih =>
    rw [Function.iterate_succ_apply', toNat_nextSeq, ih]
    split_ifs <;> omega

/-- The packet with the last number is in the cache, and has not been requested. -/
structure JustSent (x : History) : Prop where
  cached : (x.sender.repBufs (slot x.sender.seq)).seq = x.sender.seq
  latest : (latest x (slot x.sender.seq)).map Packet.seq = some x.sender.seq
  since : x.since x.sender.seq = 0

/-- A broadcast takes the next number and leaves the counters of the sender alone. -/
theorem broadcast_spec (x : History) (b : Payload) : ∃ x', step x (.broadcast b) = some x' ∧
    x'.sender.seq = nextSeq x.sender.seq ∧ x'.sender.repSeq = x.sender.repSeq ∧
    x'.sender.repCount = x.sender.repCount ∧ JustSent x' := by
  refine ⟨_, rfl, rfl, rfl, rfl, ?_, ?_, Function.update_self ..⟩
  · show ((rbudpBroadcast x.sender b true).1.repBufs (slot (newPacket x.sender b).seq)).seq = _
    rw [repBufs_broadcast, if_pos rfl]
    rfl
  · show (List.find? (fun p => slot p.seq = slot (newPacket x.sender b).seq)
      (newPacket x.sender b :: x.broadcasts)).map Packet.seq = some (newPacket x.sender b).seq
    rw [List.find?_cons, decide_eq_true rfl]
    rfl

theorem run_broadcasts (x : History) (b : Payload) (n : ℕ) :
    ∃ x', run step x (List.replicate (n + 1) (.broadcast b)) = some x' ∧
      x'.sender.seq = nextSeq^[n + 1] x.sender.seq ∧ x'.sender.repSeq = x.sender.repSeq ∧
      x'.sender.repCount = x.sender.repCount ∧ JustSent x' := by
  induction n with
  | zero =>
    obtain ⟨x', hx', h⟩ := broadcast_spec x b
    refine ⟨x', ?_, h⟩
    show run step x [.broadcast b] = some x'
    rw [run_cons, hx']
    rfl
  | succ n ih =>
    obtain ⟨x₁, hx₁, hseq₁, hrep₁, hcount₁, -⟩ := ih
    obtain ⟨x', hx', hseq, hrep, hcount, hsent⟩ := broadcast_spec x₁ b
    refine ⟨x', ?_, ?_, hrep.trans hrep₁, hcount.trans hcount₁, hsent⟩
    · rw [List.replicate_succ', run_append, hx₁, Option.bind_some, run_cons, hx']
      rfl
    · rw [hseq, hseq₁, Function.iterate_succ_apply' _ (n + 1)]

/-- The number 1 is requested eight times and comes back after the end of the numbers. -/
def wrapRun : List Event :=
  (.broadcast RbudpOrder.empty :: List.replicate 8 (request 1)) ++
    List.replicate (65534 + 1) (.broadcast RbudpOrder.empty)

/-- The requests for the first packet with the number are counted against the second one. -/
theorem wrap_keeps_counter : ¬ Always step Served History.new wrapRun := by
  intro h
  obtain ⟨x', hx', hserved⟩ := always_iff_reached.mp h _ (List.prefix_refl _)
  have hfirst : (run step History.new
      (.broadcast RbudpOrder.empty :: List.replicate 8 (request 1))).map (fun x =>
        (x.sender.seq, x.sender.repSeq (slot 1), x.sender.repCount (slot 1))) = some (1, 1, 8) := by
    decide
  obtain ⟨x, hx, hval⟩ := Option.map_eq_some_iff.mp hfirst
  simp only [Prod.mk.injEq] at hval
  obtain ⟨hone, hrep, hcount⟩ := hval
  obtain ⟨x₂, hx₂, hseq₂, hrep₂, hcount₂, hsent⟩ := run_broadcasts x RbudpOrder.empty 65534
  rw [wrapRun, run_append, hx, Option.bind_some, hx₂, Option.some.injEq] at hx'
  subst hx'
  have hseq : x₂.sender.seq = 1 := by
    rw [hseq₂, hone, seq_eq_iff, toNat_iterate_nextSeq]
    rfl
  obtain ⟨hcached, hlatest, hsince⟩ := hsent
  rw [hseq] at hcached hlatest hsince
  have hfound : Found x₂.sender { tag := 0, type := rbudpRetran, seq := 1 } := ⟨rfl, hcached⟩
  have hcounted : counted x₂.sender 1 = 8 := by
    unfold counted
    rw [hrep₂, hrep, if_neg (not_not.mpr rfl), hcount₂, hcount]
  obtain ⟨p, hp, hpseq⟩ := Option.map_eq_some_iff.mp hlatest
  have hans := hserved { tag := 0, type := rbudpRetran, seq := 1 } (.other 0) rfl (by decide)
  rw [runRetransmit_found hfound, hcounted] at hans
  unfold answer at hans
  simp only [hp, if_pos hpseq, hsince] at hans
  have hdest := congrArg (Option.map Prod.snd) hans
  exact absurd hdest (by simp [destOf])

end Wrap

/-! ## Where repairs and requests come from -/

/-- The system of a sender and a receiver, and for each place of the cache whether the broadcast in
it has been sent; nothing has been put there at first. -/
structure Watched where
  sys : RbudpOrder.System
  cachedOk : Fin (2 ^ 5) → Bool

def Watched.new : Watched where
  sys := { sender := .new, net := [], recv := .new, outs := [] }
  cachedOk := fun _ => false

/-- What happens: as in `RbudpOrder`, and the receive tag may change. -/
inductive Act where
  | setTag (tag : ℤ)
  | event (e : RbudpOrder.Event)

/-- The broadcasts that are put into the cache. -/
def noteCached (x : Watched) : RbudpOrder.Event → Fin (2 ^ 5) → Bool
  | .broadcast b ok => Function.update x.cachedOk (slot (newPacket x.sys.sender b).seq) ok
  | _ => x.cachedOk

/-- One step. -/
def act (x : Watched) : Act → Option Watched
  | .setTag tag => some { x with sys := { x.sys with recv := rbudpSetRecvTag x.sys.recv tag } }
  | .event e => (RbudpOrder.step x.sys e).map fun sys =>
      { sys := sys, cachedOk := noteCached x e }

/-- Repairs are marked as such, and requests go to `snd_sock`. -/
structure Recognizable (x : RbudpOrder.System) : Prop where
  repairs : ∀ d ∈ x.net, d.2 = .rep → d.1.type = rbudpRepair
  requests : ∀ req dest, Out.request req dest ∈ x.outs → dest = some .snd

/-- The request is answered. -/
def Answered (s : Sender) (req : Request) : Prop := Found s req ∧ counted s req.seq < 20

/-- The packet is the first to wait, so that the one before it is requested. -/
def Requests (r : Receiver) (p : Packet) : Prop :=
  (p.tag.toNat : ℤ) = r.rcvTag ∧ r.wait.contents = [] ∧ r.expectSeq ≠ 0 ∧
    p.seq.toNat = r.expectSeq.toNat + 1

/-- A request that is answered is for a broadcast that could be sent, and a packet that makes the
receiver send a request is an original one or comes after one. -/
def Sound (x : Watched) : Act → Prop
  | .event (.retransmit req _) => Answered x.sys.sender req → x.cachedOk (slot req.seq) = true
  | .event (.arrive i) => ∀ d ∈ x.sys.net[i]?, Requests x.sys.recv d.1 →
      d.1.type = rbudpPacket ∨ x.sys.recv.src ≠ none
  | _ => True

/-- The packets in the cache and on the way are marked by where they come from. -/
structure Marked (x : Watched) : Prop where
  cache : ∀ i, (x.sys.sender.repBufs i).type = if x.cachedOk i then rbudpRepair else rbudpPacket
  net : ∀ d ∈ x.sys.net, d.2 = .snd ∨ d.2 = .rep ∧ d.1.type = rbudpRepair
  src : x.sys.recv.src = none ∨ x.sys.recv.src = some .snd
  requests : ∀ req dest, Out.request req dest ∈ x.sys.outs → dest = some .snd

section Marks
variable {x x' : Watched} {a : Act} {p : Packet} {other : Addr} {r : Receiver} {outs : List Out}

theorem Marked.recognizable (h : Marked x) : Recognizable x.sys := by
  refine ⟨fun d hd hrep => ?_, h.requests⟩
  rcases h.net d hd with hsnd | ⟨-, htype⟩
  · rw [hsnd] at hrep
    cases hrep
  · exact htype

theorem marked_new : Marked Watched.new where
  cache := fun _ => rfl
  net := fun d hd => by cases hd
  src := .inl rfl
  requests := fun req dest h => by cases h

/-- What is sent is on the way from then on. -/
theorem mem_sent {net : List (Packet × Addr)} {q : Option Packet} {a : Addr} {d : Packet × Addr} :
    d ∈ RbudpOrder.sent net q a ↔ d ∈ net ∨ q = some d.1 ∧ d.2 = a := by
  unfold RbudpOrder.sent
  rw [List.mem_append, Option.mem_toList, Option.map_eq_some_iff]
  constructor
  · rintro (hd | ⟨p, rfl, rfl⟩)
    · exact .inl hd
    · exact .inr ⟨rfl, rfl⟩
  · rintro (hd | ⟨hq, ha⟩)
    · exact .inl hd
    · exact .inr ⟨d.1, hq, by rw [← ha]⟩

/-- No request is among deliveries. -/
theorem request_notMem_delivers {tag : ℤ} {ps : List Packet} {req : Request} {dest : Option Addr} :
    Out.request req dest ∉ delivers tag ps := by
  intro h
  obtain ⟨p, -, hp⟩ := List.mem_map.mp h
  cases hp

/-- Only the first packet to wait makes the receiver send a request. -/
theorem request_of_handled (h : Handled x.sys.recv p r outs) {req : Request} {dest : Option Addr}
    (hmem : Out.request req dest ∈ outs) : Requests x.sys.recv p ∧ dest = r.src := by
  cases h with
  | foreign => cases hmem
  | outdated => cases hmem
  | jumped => exact absurd hmem request_notMem_delivers
  | delivered => exact absurd hmem request_notMem_delivers
  | forced => exact absurd hmem request_notMem_delivers
  | queued htag hlt h0 hgap hroom hwait hexp =>
    split_ifs at hmem with hnil
    · have heq := List.mem_singleton.mp hmem
      unfold reqRepeat at heq
      cases heq
      exact ⟨⟨htag, hnil, h0, hgap hnil⟩, rfl⟩
    · cases hmem

/-- The first packet to wait makes the receiver send a request. -/
theorem request_of_requests (h : Handled x.sys.recv p r outs) (hreq : Requests x.sys.recv p) :
    ∃ req, Out.request req r.src ∈ outs := by
  obtain ⟨htag, hnil, h0, hseq⟩ := hreq
  cases h with
  | foreign hno => exact absurd htag hno
  | outdated _ hlt => omega
  | jumped _ hlt => omega
  | delivered _ _ hnow =>
    rcases hnow with heq | hz | ⟨-, hgap⟩
    · rw [heq] at hseq
      omega
    · exact absurd hz h0
    · omega
  | forced _ _ _ hfull =>
    rw [hnil] at hfull
    cases hfull
  | queued =>
    rw [if_pos hnil]
    exact ⟨_, List.mem_singleton_self _⟩

/-- Where the receiver sends its requests after a datagram from the sender. -/
theorem src_of_datagram (h : Marked x) {d : Packet × Addr} (hd : d ∈ x.sys.net)
    (hsrc : r.src = (if (d.1.tag.toNat : ℤ) = x.sys.recv.rcvTag ∧ d.1.type = rbudpPacket then
      some d.2 else x.sys.recv.src)) :
    (r.src = none ∨ r.src = some .snd) ∧
    ((d.1.tag.toNat : ℤ) = x.sys.recv.rcvTag →
      (r.src ≠ none ↔ d.1.type = rbudpPacket ∨ x.sys.recv.src ≠ none)) := by
  rw [hsrc]
  split_ifs with hc
  · refine ⟨.inr ?_, fun _ => ⟨fun _ => .inl hc.2, fun _ => Option.some_ne_none _⟩⟩
    rcases h.net d hd with hsnd | ⟨-, htype⟩
    · rw [hsnd]
    · rw [hc.2] at htype
      exact absurd htype (by decide)
  · exact ⟨h.src, fun htag => ⟨.inr, fun h' => h'.resolve_left fun ht => hc ⟨htag, ht⟩⟩⟩

/-- A request changes no packet of the cache. -/
theorem repBufs_retransmit (s : Sender) (req : Request) (other : Addr) :
    (runRetransmit s req other).1.repBufs = s.repBufs := by
  by_cases hf : Found s req
  · rw [runRetransmit_found hf]
  · rw [runRetransmit_not_found hf]

/-- A request is answered with the packet in its place of the cache. -/
theorem retransmit_answer (s : Sender) (req : Request) (other : Addr) {q : Packet} :
    ((runRetransmit s req other).2.map Prod.fst = some q) ↔
      Answered s req ∧ q = s.repBufs (slot req.seq) := by
  by_cases hf : Found s req
  · rw [runRetransmit_found hf]
    unfold Answered destOf
    by_cases h8 : counted s req.seq < 8
    · have h20 : counted s req.seq < 20 := by omega
      simp [if_pos h8, hf, h20, eq_comm]
    · by_cases h20 : counted s req.seq < 20
      · simp [if_neg h8, hf, h20, eq_comm]
      · simp [if_neg h8, h20]
  · rw [runRetransmit_not_found hf]
    exact ⟨fun h => absurd h (Option.some_ne_none q).symm, fun h => absurd h.1.1 hf⟩

theorem act_arrive {i : ℕ} {d : Packet × Addr} (hi : x.sys.net[i]? = some d)
    (hr : runRecv x.sys.recv d.1 d.2 = some (r, outs)) : act x (.event (.arrive i)) =
      some { x with sys := { x.sys with recv := r, outs := x.sys.outs ++ outs } } := by
  unfold act RbudpOrder.step RbudpOrder.stepArrive
  simp only [hi, hr]
  rfl

theorem act_marked (h : Marked x) (hg : Sound x a) : ∃ x', act x a = some x' ∧ Marked x' := by
  cases a with
  | setTag tag => exact ⟨_, rfl, h.cache, h.net, h.src, h.requests⟩
  | event e =>
  cases e with
  | broadcast b ok =>
    refine ⟨_, rfl, fun i => ?_, fun d hd => ?_, h.src, h.requests⟩
    · show ((rbudpBroadcast x.sys.sender b ok).1.repBufs i).type =
        if Function.update x.cachedOk (slot (newPacket x.sys.sender b).seq) ok i then rbudpRepair
        else rbudpPacket
      rw [repBufs_broadcast]
      by_cases hi : i = slot (newPacket x.sys.sender b).seq
      · rw [if_pos hi, hi, Function.update_self]
        cases ok <;> rfl
      · rw [if_neg hi, Function.update_of_ne hi]
        exact h.cache i
    · rcases mem_sent.mp hd with hd | ⟨-, hsnd⟩
      · exact h.net d hd
      · exact .inl hsnd
  | retransmit req other =>
    refine ⟨_, rfl, fun i => ?_, fun d hd => ?_, h.src, h.requests⟩
    · show ((runRetransmit x.sys.sender req other).1.repBufs i).type = _
      rw [repBufs_retransmit]
      exact h.cache i
    · rcases mem_sent.mp hd with hd | ⟨hq, hrep⟩
      · exact h.net d hd
      · obtain ⟨hans, hd⟩ := (retransmit_answer x.sys.sender req other).mp hq
        refine .inr ⟨hrep, ?_⟩
        rw [hd, h.cache, if_pos (hg hans)]
  | arrive i =>
    cases hi : x.sys.net[i]? with
    | none =>
      refine ⟨x, ?_, h⟩
      unfold act RbudpOrder.step RbudpOrder.stepArrive
      simp only [hi]
      rfl
    | some d =>
      obtain ⟨r, outs, hr, -, hsrc, hh⟩ := runRecv_spec x.sys.recv d.1 d.2
      obtain ⟨hsrc', hset⟩ := src_of_datagram h (List.mem_of_getElem? hi) hsrc
      refine ⟨_, act_arrive hi hr, h.cache, h.net, hsrc', fun req dest hmem => ?_⟩
      rcases List.mem_append.mp hmem with hmem | hmem
      · exact h.requests req dest hmem
      · obtain ⟨hreq, rfl⟩ := request_of_handled hh hmem
        exact hsrc'.resolve_left ((hset hreq.1).mpr (hg d hi hreq))

theorem act_bad (h : Marked x) (hg : ¬ Sound x a) (hx' : act x a = some x') :
    ¬ Recognizable x'.sys := by
  cases a with
  | setTag tag => exact absurd trivial hg
  | event e =>
  cases e with
  | broadcast b ok => exact absurd trivial hg
  | retransmit req other =>
    unfold Sound at hg
    push Not at hg
    obtain ⟨hans, hno⟩ := hg
    cases hx'
    intro hok
    have htype := hok.repairs (x.sys.sender.repBufs (slot req.seq), .rep) (mem_sent.mpr (.inr
      ⟨(retransmit_answer x.sys.sender req other).mpr ⟨hans, rfl⟩, rfl⟩)) rfl
    rw [h.cache, if_neg hno] at htype
    exact absurd htype (by decide)
  | arrive i =>
    unfold Sound at hg
    push Not at hg
    obtain ⟨d, hi, hreq, hno⟩ := hg
    obtain ⟨r, outs, hr, -, hsrc, hh⟩ := runRecv_spec x.sys.recv d.1 d.2
    rw [act_arrive hi hr, Option.some.injEq] at hx'
    subst hx'
    intro hok
    obtain ⟨-, hset⟩ := src_of_datagram h (List.mem_of_getElem? hi) hsrc
    obtain ⟨req, hmem⟩ := request_of_requests hh hreq
    have hsnd := hok.requests req r.src (List.mem_append_right _ hmem)
    rcases (hset hreq.1).mp (by rw [hsnd]; exact Option.some_ne_none _) with htype | hold
    · exact hno.1 htype
    · exact hold hno.2

end Marks

/-- **Repairs are marked as such, and requests go to `snd_sock`, exactly when** every answered
request is for a broadcast that could be sent, and every request is made after an original packet
has come. -/
theorem repair_exact (as : List Act) :
    Always act (fun x => Recognizable x.sys) Watched.new as ↔ Guarded act Sound Watched.new as :=
  always_iff_guarded (I := Marked) (E := fun _ => True) (fun _ h => h.recognizable)
    (fun _ _ h _ hg => act_marked h hg) (fun _ _ _ h _ hg hx' => act_bad h hg hx')
    marked_new fun _ _ => trivial

/-- A broadcast cannot be sent, and is requested. -/
def failedRun : List Act :=
  [.event (.broadcast RbudpOrder.empty false),
    .event (.retransmit { tag := 1, type := rbudpRetran, seq := 1 } (.other 0))]

/-- A packet that could not be sent is repaired as an original. -/
theorem failed_send_is_original :
    ¬ Always act (fun x => Recognizable x.sys) Watched.new failedRun := by
  intro h
  have hrun : (run act Watched.new failedRun).map (fun x =>
      x.sys.net.map fun d => (d.1.type, d.2)) = some [(rbudpPacket, .rep)] := by
    decide
  obtain ⟨x, hok, hnet⟩ := h.observed hrun
  have hmem : (rbudpPacket, Addr.rep) ∈ x.sys.net.map fun d => (d.1.type, d.2) := by
    rw [hnet]
    exact List.mem_singleton_self _
  obtain ⟨d, hd, hval⟩ := List.mem_map.mp hmem
  rw [Prod.mk.injEq] at hval
  have htype := hok.repairs d hd hval.2
  rw [hval.1] at htype
  exact absurd htype (by decide)

end GSConferencing.Client.RbudpRepair
