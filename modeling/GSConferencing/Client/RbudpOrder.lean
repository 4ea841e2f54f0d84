import GSConferencing.Client.RbudpRecv

/-!
# The order of deliveries

The system of one sender, a network that may lose, repeat, delay and reorder datagrams, and a
receiver with one receive tag.

* `step_inv`: what a datagram in order does to the packets delivered and the packets that wait.
* `delivered_increasing`: while no datagram is out of order, the packets are delivered in the order
  of their broadcasts, each at most once.
* `arrival_breaks`: a datagram out of order breaks the order, at once or after repeats of it.
* `delivered_exact`: both together.
-/

namespace GSConferencing.Client.RbudpOrder

open GSConferencing.Lib.Run
open GSConferencing.Include.Cfifo GSConferencing.Include.Pack
open GSConferencing.Client.Rbudp GSConferencing.Client.RbudpRecv

/-- The sender, all datagrams it has sent so far with the socket they came from, the receiver and
what it has done. -/
structure System where
  sender : Sender
  net : List (Packet × Addr)
  recv : Receiver
  outs : List Out

def System.new (tag : ℤ) : System where
  sender := .new
  net := []
  recv := rbudpSetRecvTag .new tag
  outs := []

/-- What happens; the network may bring a datagram that has been sent at any time and any number of
times. -/
inductive Event where
  | broadcast (b : Payload) (ok : Bool)
  /-- The sender gets a request, from this receiver or another one. -/
  | retransmit (req : Request) (other : Addr)
  | arrive (i : ℕ)

/-- The packet has been sent from the socket `a`. -/
def sent (net : List (Packet × Addr)) (p : Option Packet) (a : Addr) : List (Packet × Addr) :=
  net ++ (p.map fun p => (p, a)).toList

/-- A datagram arrives, if it has been sent. -/
def stepArrive (x : System) (i : ℕ) : Option System :=
  match x.net[i]? with
  | none => some x
  | some (p, other) => (runRecv x.recv p other).map fun (r, outs) =>
      { x with recv := r, outs := x.outs ++ outs }

/-- One step. -/
def step (x : System) : Event → Option System
  | .broadcast b ok =>
    let (s, p) := rbudpBroadcast x.sender b ok
    some { x with sender := s, net := sent x.net p .snd }
  | .retransmit req other =>
    let (s, p) := runRetransmit x.sender req other
    some { x with sender := s, net := sent x.net (p.map Prod.fst) .rep }
  | .arrive i => stepArrive x i

/-- The broadcasts that have been delivered, in the order of delivery. -/
def delivered (x : System) : List ℕ := (deliveries x.outs).map Packet.no

/-- The broadcasts that have been delivered or wait. -/
def held (x : System) : List ℕ := delivered x ++ x.recv.wait.contents.map Packet.no

/-- The packet is of a later broadcast than all that have been delivered. -/
def Newer (x : System) (p : Packet) : Prop := ∀ n ∈ delivered x, n < p.no

/-- A packet is in order: one that is not newer than all that have been delivered has a number less
than 100 below the expected one, and a newer one is older than all packets that wait if it is the
expected one, and newer than all of them if its number is above that. -/
structure InOrder (x : System) (p : Packet) : Prop where
  late : ¬ Newer x p → p.seq.toNat < x.recv.expectSeq.toNat ∧
    x.recv.expectSeq.toNat - p.seq.toNat < 100
  expected : Newer x p → p.seq = x.recv.expectSeq →
    ∀ q ∈ x.recv.wait.contents, p.no < q.no
  above : Newer x p → x.recv.expectSeq.toNat < p.seq.toNat →
    ∀ q ∈ x.recv.wait.contents, q.no < p.no

/-- The datagram that arrives, if it has the receive tag, is in order. -/
def ArrivesInOrder (x : System) : Event → Prop
  | .arrive i => ∀ d ∈ x.net[i]?, (d.1.tag.toNat : ℤ) = x.recv.rcvTag → InOrder x d.1
  | _ => True

instance (x : System) (p : Packet) : Decidable (Newer x p) :=
  inferInstanceAs (Decidable (∀ n ∈ delivered x, n < p.no))

instance (x : System) (p : Packet) : Decidable (InOrder x p) :=
  decidable_of_iff ((¬ Newer x p → p.seq.toNat < x.recv.expectSeq.toNat ∧
      x.recv.expectSeq.toNat - p.seq.toNat < 100) ∧
    (Newer x p → p.seq = x.recv.expectSeq → ∀ q ∈ x.recv.wait.contents, p.no < q.no) ∧
    (Newer x p → x.recv.expectSeq.toNat < p.seq.toNat → ∀ q ∈ x.recv.wait.contents, q.no < p.no))
    ⟨fun h => ⟨h.1, h.2.1, h.2.2⟩, fun h => ⟨h.late, h.expected, h.above⟩⟩

instance (x : System) : (e : Event) → Decidable (ArrivesInOrder x e)
  | .broadcast _ _ => .isTrue trivial
  | .retransmit _ _ => .isTrue trivial
  | .arrive i => inferInstanceAs (Decidable (∀ d ∈ x.net[i]?, _ → InOrder x d.1))

/-- The packets that wait continue what has been delivered. -/
structure Inv (x : System) : Prop where
  sorted : (held x).Pairwise (· < ·)
  gap : x.recv.wait.contents ≠ [] → x.recv.expectSeq ≠ 0

section Steps
variable {x x' : System} {e : Event} {p : Packet} {r : Receiver} {outs : List Out}

theorem Inv.increasing (h : Inv x) : (delivered x).Pairwise (· < ·) :=
  (List.pairwise_append.mp h.sorted).1

theorem delivered_append : delivered { x with recv := r, outs := x.outs ++ outs } =
    delivered x ++ (deliveries outs).map Packet.no := by
  unfold delivered deliveries
  rw [List.filterMap_append, List.map_append]

/-- Packets are delivered after all others, and none waits afterwards. -/
theorem inv_delivered {ps : List Packet} (hps : (delivered x ++ ps.map Packet.no).Pairwise (· < ·))
    (hout : deliveries outs = ps) (hwait : r.wait.contents = []) :
    Inv { x with recv := r, outs := x.outs ++ outs } := by
  refine ⟨?_, fun h => absurd hwait h⟩
  unfold held
  rw [delivered_append, hout, hwait, List.map_nil, List.append_nil]
  exact hps

theorem pairwise_newer (h : Inv x) (hnew : Newer x p) :
    (delivered x ++ [p].map Packet.no).Pairwise (· < ·) := by
  refine List.pairwise_append.mpr ⟨h.increasing, List.pairwise_singleton _ _, ?_⟩
  intro n hn m hm
  rw [List.map_singleton, List.mem_singleton] at hm
  exact hm ▸ hnew n hn

/-- A packet that comes before all that wait. -/
theorem pairwise_first (h : Inv x) :
    (delivered x ++ (p :: x.recv.wait.contents).map Packet.no).Pairwise (· < ·) ↔
      Newer x p ∧ ∀ q ∈ x.recv.wait.contents, p.no < q.no := by
  obtain ⟨hd, hw, hdw⟩ := List.pairwise_append.mp h.sorted
  rw [List.map_cons]
  constructor
  · intro hsorted
    obtain ⟨-, hfirst, hnew⟩ := List.pairwise_append.mp hsorted
    exact ⟨fun n hn => hnew n hn p.no List.mem_cons_self,
      List.forall_mem_map.mp (List.pairwise_cons.mp hfirst).1⟩
  · rintro ⟨hnew, hfirst⟩
    refine List.pairwise_append.mpr ⟨hd, ?_, ?_⟩
    · exact List.pairwise_cons.mpr ⟨List.forall_mem_map.mpr hfirst, hw⟩
    · intro n hn m hm
      rcases List.mem_cons.mp hm with rfl | hm
      · exact hnew n hn
      · exact hdw n hn m hm

/-- A packet that comes after all that wait. -/
theorem pairwise_last (h : Inv x) :
    (delivered x ++ (x.recv.wait.contents ++ [p]).map Packet.no).Pairwise (· < ·) ↔
      Newer x p ∧ ∀ q ∈ x.recv.wait.contents, q.no < p.no := by
  rw [List.map_append, ← List.append_assoc, List.map_singleton]
  constructor
  · intro hsorted
    obtain ⟨-, -, hlast⟩ := List.pairwise_append.mp hsorted
    have hall : ∀ n ∈ held x, n < p.no := fun n hn => hlast n hn p.no List.mem_cons_self
    exact ⟨fun n hn => hall n (List.mem_append_left _ hn),
      fun q hq => hall q.no (List.mem_append_right _ (List.mem_map_of_mem hq))⟩
  · rintro ⟨hnew, hlast⟩
    refine List.pairwise_append.mpr ⟨h.sorted, List.pairwise_singleton _ _, ?_⟩
    intro n hn m hm
    rw [List.mem_singleton] at hm
    subst hm
    rcases List.mem_append.mp hn with hn | hn
    · exact hnew n hn
    · obtain ⟨q, hq, rfl⟩ := List.mem_map.mp hn
      exact hlast q hq

/-- **A packet in order** leaves what is held in order. -/
theorem handled_inv (h : Inv x) (hok : (p.tag.toNat : ℤ) = x.recv.rcvTag → InOrder x p)
    (hh : Handled x.recv p r outs) : Inv { x with recv := r, outs := x.outs ++ outs } := by
  -- a packet that is not dropped is newer than all that have been delivered
  have hnew : (p.tag.toNat : ℤ) = x.recv.rcvTag → (p.seq.toNat < x.recv.expectSeq.toNat →
      100 ≤ x.recv.expectSeq.toNat - p.seq.toNat) → Newer x p := by
    intro htag hwin
    by_contra hno
    obtain ⟨hlt, h100⟩ := (hok htag).late hno
    have := hwin hlt
    omega
  cases hh with
  | foreign =>
    rw [List.append_nil]
    exact h
  | outdated _ _ _ hwait hexp =>
    refine ⟨?_, ?_⟩
    · unfold held
      rw [delivered_append, hwait, show deliveries [] = [] from rfl, List.map_nil, List.append_nil]
      exact h.sorted
    · show r.wait.contents ≠ [] → r.expectSeq ≠ 0
      rw [hwait, hexp]
      exact h.gap
  | jumped htag hlt hwin hwait _ =>
    exact inv_delivered (pairwise_newer h (hnew htag fun _ => hwin)) (deliveries_delivers _ _) hwait
  | delivered htag hle hnow _ hwait _ =>
    have hnewer := hnew htag fun hlt => absurd hlt (not_lt.mpr hle)
    refine inv_delivered ((pairwise_first h).mpr ⟨hnewer, ?_⟩) (deliveries_delivers _ _) hwait
    by_cases hnil : x.recv.wait.contents = []
    · rw [hnil]
      exact fun q hq => absurd hq List.not_mem_nil
    · rcases hnow with heq | h0 | ⟨hnil', -⟩
      · exact (hok htag).expected hnewer heq
      · exact absurd h0 (h.gap hnil)
      · exact absurd hnil' hnil
  | queued htag hlt h0 _ _ hwait hexp =>
    have hnewer := hnew htag fun hlt' => absurd hlt' (not_lt.mpr hlt.le)
    refine ⟨?_, ?_⟩
    · unfold held
      rw [delivered_append, hwait, deliveries_request, List.map_nil, List.append_nil]
      exact (pairwise_last h).mpr ⟨hnewer, (hok htag).above hnewer hlt⟩
    · show r.wait.contents ≠ [] → r.expectSeq ≠ 0
      rw [hexp]
      exact fun _ => h0
  | forced htag hlt _ _ hwait _ =>
    have hnewer := hnew htag fun hlt' => absurd hlt' (not_lt.mpr hlt.le)
    exact inv_delivered ((pairwise_last h).mpr ⟨hnewer, (hok htag).above hnewer hlt⟩)
      (deliveries_delivers _ _) hwait

theorem step_inv (h : Inv x) (hg : ArrivesInOrder x e) : ∃ x', step x e = some x' ∧ Inv x' := by
  cases e with
  | broadcast b ok => exact ⟨_, rfl, h.sorted, h.gap⟩
  | retransmit req other => exact ⟨_, rfl, h.sorted, h.gap⟩
  | arrive i =>
    cases hi : x.net[i]? with
    | none =>
      refine ⟨x, ?_, h⟩
      rw [step, stepArrive, hi]
    | some d =>
      obtain ⟨p, other⟩ := d
      obtain ⟨r, outs, hr, -, -, hh⟩ := runRecv_spec x.recv p other
      refine ⟨{ x with recv := r, outs := x.outs ++ outs }, ?_, handled_inv h (hg _ hi) hh⟩
      simp only [step, stepArrive, hi, hr]
      rfl

/-! ## A datagram out of order -/

/-- The datagram that arrives. -/
theorem arrive_spec {i : ℕ} {d : Packet × Addr} (hi : x.net[i]? = some d) :
    ∃ r outs, step x (.arrive i) = some { x with recv := r, outs := x.outs ++ outs } ∧
      r.rcvTag = x.recv.rcvTag ∧ Handled x.recv d.1 r outs := by
  obtain ⟨r, outs, hr, htag, -, hh⟩ := runRecv_spec x.recv d.1 d.2
  refine ⟨r, outs, ?_, htag, hh⟩
  simp only [step, stepArrive, hi, hr]
  rfl

theorem not_pairwise_append {l l' : List ℕ} (h : ¬ l.Pairwise (· < ·)) :
    ¬ (l ++ l').Pairwise (· < ·) :=
  fun hsorted => h (List.pairwise_append.mp hsorted).1

/-- The packets that wait are out of order, and the datagram `i` has a number above the expected
one. -/
structure Stuck (x : System) (i : ℕ) (d : Packet × Addr) : Prop where
  sent : x.net[i]? = some d
  tag : (d.1.tag.toNat : ℤ) = x.recv.rcvTag
  above : x.recv.expectSeq.toNat < d.1.seq.toNat
  expect : x.recv.expectSeq ≠ 0
  disorder : ¬ (held x).Pairwise (· < ·)

/-- One repeat: it waits as well, or all are delivered. -/
theorem Stuck.arrive {i : ℕ} {d : Packet × Addr} (h : Stuck x i d) :
    ∃ x', step x (.arrive i) = some x' ∧ (¬ (delivered x').Pairwise (· < ·) ∨
      Stuck x' i d ∧ x'.recv.wait.contents.length = x.recv.wait.contents.length + 1) := by
  obtain ⟨hi, htag, hlt, h0, hbad⟩ := h
  obtain ⟨r, outs, hstep, hrtag, hh⟩ := arrive_spec hi
  refine ⟨_, hstep, ?_⟩
  cases hh with
  | foreign hno => exact absurd htag hno
  | outdated _ hlt' => omega
  | jumped _ hlt' => omega
  | delivered _ _ hnow _ _ _ =>
    left
    have hnil : x.recv.wait.contents = [] := by
      rcases hnow with heq | h0' | ⟨hnil, -⟩
      · exact absurd (heq ▸ hlt) (lt_irrefl _)
      · exact absurd h0' h0
      · exact hnil
    rw [held, hnil, List.map_nil, List.append_nil] at hbad
    rw [delivered_append]
    exact not_pairwise_append hbad
  | queued _ _ _ _ _ hwait hexp =>
    right
    refine ⟨⟨hi, hrtag ▸ htag, hexp ▸ hlt, hexp ▸ h0, ?_⟩, ?_⟩
    · rw [held, delivered_append, deliveries_request, List.map_nil, List.append_nil, hwait,
        List.map_append, ← List.append_assoc]
      exact not_pairwise_append hbad
    · rw [hwait, List.length_append, List.length_singleton]
  | forced _ _ _ _ _ _ =>
    left
    rw [delivered_append, deliveries_delivers, List.map_append, ← List.append_assoc]
    exact not_pairwise_append hbad

/-- **Repeats fill the queue,** and then it is delivered as it is. -/
theorem Stuck.breaks {i : ℕ} {d : Packet × Addr} (h : Stuck x i d) :
    ∃ k x', run step x (List.replicate k (.arrive i)) = some x' ∧
      ¬ (delivered x').Pairwise (· < ·) := by
  obtain ⟨n, hn⟩ : ∃ n, x.recv.wait.contents.length + n = 7 :=
    ⟨_, Nat.add_sub_cancel' (wait_length_le x.recv.wait)⟩
  induction n generalizing x with
  | zero =>
    obtain ⟨x', hx', hbad | ⟨-, hlen⟩⟩ := h.arrive
    · exact ⟨1, x', by rw [List.replicate_one, run_cons, hx']; rfl, hbad⟩
    · have hle := wait_length_le x'.recv.wait
      omega
  | succ n ih =>
    obtain ⟨x', hx', hbad | ⟨h', hlen⟩⟩ := h.arrive
    · exact ⟨1, x', by rw [List.replicate_one, run_cons, hx']; rfl, hbad⟩
    · obtain ⟨k, t, ht, hbad⟩ := ih h' (by omega)
      refine ⟨k + 1, t, ?_, hbad⟩
      rw [List.replicate_succ, run_cons, hx']
      exact ht

/-- **A datagram out of order** breaks the order, at once or after repeats of it. -/
theorem arrival_breaks (h : Inv x) (hg : ¬ ArrivesInOrder x e) :
    ∃ k x', run step x (List.replicate (k + 1) e) = some x' ∧
      ¬ (delivered x').Pairwise (· < ·) := by
  cases e with
  | broadcast b ok => exact absurd trivial hg
  | retransmit req other => exact absurd trivial hg
  | arrive i =>
    obtain ⟨d, hi, htag, hno⟩ : ∃ d, x.net[i]? = some d ∧
        (d.1.tag.toNat : ℤ) = x.recv.rcvTag ∧ ¬ InOrder x d.1 := by
      simpa [ArrivesInOrder] using hg
    obtain ⟨r, outs, hstep, hrtag, hh⟩ := arrive_spec hi
    -- the order is broken, or the queue is
    suffices hcase : ¬ (delivered x ++ (deliveries outs).map Packet.no).Pairwise (· < ·) ∨
        Stuck { x with recv := r, outs := x.outs ++ outs } i d by
      rcases hcase with hbad | hstuck
      · refine ⟨0, _, by rw [List.replicate_one, run_cons, hstep]; rfl, ?_⟩
        rwa [delivered_append]
      · obtain ⟨k, t, ht, hbad⟩ := hstuck.breaks
        refine ⟨k, t, ?_, hbad⟩
        rw [List.replicate_succ, run_cons, hstep]
        exact ht
    cases hh with
    | foreign hforeign => exact absurd htag hforeign
    | outdated _ hlt hwin _ _ =>
      refine absurd ⟨fun _ => ⟨hlt, hwin⟩, fun _ heq => ?_, fun _ hlt' => ?_⟩ hno
      · exact absurd (heq ▸ hlt) (lt_irrefl _)
      · exact absurd hlt (not_lt.mpr hlt'.le)
    | jumped _ hlt _ _ _ =>
      left
      rw [deliveries_delivers]
      intro hsorted
      refine hno ⟨fun hold => absurd ?_ hold, fun _ heq => ?_, fun _ hlt' => ?_⟩
      · intro n hn
        exact (List.pairwise_append.mp hsorted).2.2 n hn d.1.no List.mem_cons_self
      · exact absurd (heq ▸ hlt) (lt_irrefl _)
      · exact absurd hlt (not_lt.mpr hlt'.le)
    | delivered _ _ hnow _ _ _ =>
      left
      rw [deliveries_delivers, pairwise_first h]
      rintro ⟨hnew, hfirst⟩
      refine hno ⟨fun hold => absurd hnew hold, fun _ _ => hfirst, fun _ hlt => ?_⟩
      have hnil : x.recv.wait.contents = [] := by
        rcases hnow with heq | h0 | ⟨hnil, -⟩
        · exact absurd (heq ▸ hlt) (lt_irrefl _)
        · by_contra hne
          exact h.gap hne h0
        · exact hnil
      rw [hnil]
      exact fun q hq => absurd hq List.not_mem_nil
    | queued _ hlt h0 _ _ hwait hexp =>
      right
      refine ⟨hi, hrtag ▸ htag, hexp ▸ hlt, hexp ▸ h0, ?_⟩
      rw [held, delivered_append, deliveries_request, List.map_nil, List.append_nil, hwait,
        pairwise_last h]
      rintro ⟨hnew, hlast⟩
      exact hno ⟨fun hold => absurd hnew hold, fun _ heq => absurd (heq ▸ hlt) (lt_irrefl _),
        fun _ _ => hlast⟩
    | forced _ hlt _ _ _ _ =>
      left
      rw [deliveries_delivers, pairwise_last h]
      rintro ⟨hnew, hlast⟩
      exact hno ⟨fun hold => absurd hnew hold, fun _ heq => absurd (heq ▸ hlt) (lt_irrefl _),
        fun _ _ => hlast⟩

end Steps

theorem inv_new (tag : ℤ) : Inv (System.new tag) := by
  refine ⟨?_, fun h => absurd (contents_new _) h⟩
  unfold held
  rw [show (System.new tag).recv.wait.contents = [] from contents_new _]
  exact List.Pairwise.nil

/-- **While every datagram arrives in order, the packets are delivered in strictly increasing order
of their broadcasts.** -/
theorem delivered_increasing (tag : ℤ) {es : List Event}
    (hg : Guarded step ArrivesInOrder (System.new tag) es) :
    Always step (fun x => (delivered x).Pairwise (· < ·)) (System.new tag) es :=
  always_of_guarded (I := Inv) (E := fun _ => True) (fun _ h => h.increasing)
    (fun _ _ h _ hg => step_inv h hg) (inv_new tag) (fun _ _ => trivial) hg

/-- **No other datagram can be let in:** after a run of datagrams in order, one that is not in order
breaks the order of the deliveries, if it is repeated often enough. -/
theorem delivered_exact (tag : ℤ) {es : List Event}
    (hg : Guarded step ArrivesInOrder (System.new tag) es) :
    Always step (fun x => (delivered x).Pairwise (· < ·)) (System.new tag) es ∧
      ∀ x e, run step (System.new tag) es = some x → ¬ ArrivesInOrder x e →
        ∃ k, ¬ Always step (fun x => (delivered x).Pairwise (· < ·)) (System.new tag)
          (es ++ List.replicate (k + 1) e) := by
  refine ⟨delivered_increasing tag hg, fun x e hx hno => ?_⟩
  have hinv : Inv x := of_run (fun x e x' h hg hx' => by
    obtain ⟨t, ht, hI⟩ := step_inv h hg
    cases hx'.symm.trans ht
    exact hI) (inv_new tag) hg hx
  obtain ⟨k, t, ht, hbad⟩ := arrival_breaks hinv hno
  refine ⟨k, fun halways => hbad (halways.final ?_)⟩
  rw [run_append, hx]
  exact ht

/-- An empty payload with the tag 1. -/
def empty : Payload where
  tag := 1
  data := []
  fits := Nat.zero_le _
  extra := 0

/-- Three broadcasts, of which the second one arrives last. -/
def lateRun : List Event :=
  [.broadcast empty true, .broadcast empty true, .broadcast empty true, .arrive 0, .arrive 2,
    .arrive 1]

theorem delivered_exact_late :
    Always step (fun x => (delivered x).Pairwise (· < ·)) (System.new 1) lateRun ∧
      ∀ x e, run step (System.new 1) lateRun = some x → ¬ ArrivesInOrder x e →
        ∃ k, ¬ Always step (fun x => (delivered x).Pairwise (· < ·)) (System.new 1)
          (lateRun ++ List.replicate (k + 1) e) :=
  delivered_exact 1 (by decide)

/-- The third one arrives twice before the second one. -/
def doubleRun : List Event :=
  [.broadcast empty true, .broadcast empty true, .broadcast empty true, .arrive 0, .arrive 2,
    .arrive 2, .arrive 1]

/-- A packet that comes to wait twice is delivered twice. -/
theorem double_is_delivered_twice :
    ¬ Always step (fun x => (delivered x).Pairwise (· < ·)) (System.new 1) doubleRun := by
  intro h
  have hrun : (run step (System.new 1) doubleRun).map delivered = some [1, 2, 3, 3] := by
    decide
  obtain ⟨x, hok, hdel⟩ := h.observed hrun
  rw [hdel] at hok
  exact absurd hok (by decide)

end GSConferencing.Client.RbudpOrder
