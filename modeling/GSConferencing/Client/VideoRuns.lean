import Mathlib
import GSConferencing.Lib.Run
import GSConferencing.Client.Video

/-!
# Runs of a video sender and a receiver

One sender, one receiver, and a network that loses, repeats and reorders datagrams: a fragment
that was sent may arrive at any time later, any number of times.

* `frames_intact`: what is shown is a frame that was sent, in every run in which a fragment that
  has the current frame id is of the current frame and was not received yet.
* `not_intact_repeated`: a fragment received twice completes a frame that has a hole.
-/

namespace GSConferencing.Client.VideoRuns

open GSConferencing.Lib.Run GSConferencing.Include.Pack GSConferencing.Client.Video

/-- A datagram that was sent: fragment `index` of the frame number `frame`. -/
structure Datagram where
  frame : ℕ
  index : ℕ
  pack : PackData
  deriving DecidableEq

/-- The static `fseq` of the sender, what it has sent, the receiver, the events it has raised, and
the datagrams it has received since it last turned to another frame id, newest first. -/
structure System where
  fseq : Byte
  sent : List Frame
  net : List Datagram
  rcv : Receiver
  shown : List EventVideo
  cur : List Datagram

def System.init : System :=
  { fseq := 0, sent := [], net := [], rcv := .init, shown := [], cur := [] }

/-- `send_video` is called, or the datagram number `n` arrives. -/
inductive Event where
  | send (b : Frame)
  | arrive (n : ℕ)

def stepSend (id : BitVec 32) (x : System) (b : Frame) : Option System :=
  (sendVideo id x.fseq b.bytes b.bytes.length).map fun y =>
    { x with
      fseq := y.2.1
      sent := x.sent ++ [b]
      net := x.net ++ y.2.2.zipIdx.map fun p => ⟨x.sent.length, p.2, p.1⟩ }

def stepArrive (x : System) (d : Datagram) : Option System :=
  (udpRecved x.rcv d.pack).map fun y =>
    { x with
      rcv := y.1
      shown := x.shown ++ y.2
      cur := if x.rcv.fseq = d.pack.tag.toNat then d :: x.cur else [d] }

def step (id : BitVec 32) (x : System) : Event → Option System
  | .send b => stepSend id x b
  | .arrive n => (x.net[n]?).elim (some x) (stepArrive x)

/-- Every frame shown is one of the frames sent. -/
def Intact (x : System) : Prop := ∀ e ∈ x.shown, ∃ b ∈ x.sent, e.Shows b.bytes

instance (x : System) : Decidable (Intact x) := inferInstanceAs (Decidable (∀ e ∈ x.shown, _))

/-- A fragment that has the current frame id is of the frame that is put together, and it was not
received since that began. -/
def Fresh (x : System) : Event → Prop
  | .send _ => True
  | .arrive n => ∀ d ∈ x.net[n]?, x.rcv.fseq = d.pack.tag.toNat →
      ∀ g ∈ x.cur, g.frame = d.frame ∧ g.index ≠ d.index

instance (x : System) : ∀ e, Decidable (Fresh x e)
  | .send _ => .isTrue trivial
  | .arrive n => inferInstanceAs (Decidable (∀ d ∈ x.net[n]?, _))

/-! ## The invariant -/

/-- The id of the frame number `k`. -/
def tagOf (k : ℕ) : Byte := BitVec.ofNat 8 (k + 1)

/-- The datagram is the fragment of the frame that it says it is. -/
def Sent (id : BitVec 32) (sent : List Frame) (d : Datagram) (b : Frame) : Prop :=
  sent[d.frame]? = some b ∧ d.index < b.frags ∧ d.pack = b.frag id (tagOf d.frame) d.index

structure Inv (id : BitVec 32) (x : System) : Prop where
  fseq : x.fseq = BitVec.ofNat 8 x.sent.length
  net : ∀ d ∈ x.net, ∃ b, Sent id x.sent d b
  intact : Intact x
  cur : x.rcv.fseq = -1 ∨ ∃ k b, x.sent[k]? = some b ∧ x.cur ≠ [] ∧ (∀ g ∈ x.cur, g.frame = k) ∧
    Collecting b (tagOf k) (x.cur.map Datagram.index) x.rcv

theorem inv_init (id : BitVec 32) : Inv id System.init :=
  ⟨rfl, List.forall_mem_nil _, List.forall_mem_nil _, .inl rfl⟩

theorem getElem?_sent {l : List Frame} {k : ℕ} {b : Frame} (b' : Frame) (h : l[k]? = some b) :
    (l ++ [b'])[k]? = some b := by
  rw [List.getElem?_append_left (List.getElem?_eq_some_iff.mp h).1, h]

theorem inv_send {id : BitVec 32} {x : System} (hx : Inv id x) (b : Frame) :
    ∃ x', stepSend id x b = some x' ∧ Inv id x' := by
  have htag : x.fseq + 1 = tagOf x.sent.length := by
    rw [hx.fseq, tagOf, BitVec.ofNat_add]
    rfl
  refine ⟨_, by rw [stepSend, sendVideo_eq, Option.map_some], ⟨?_, ?_, ?_, ?_⟩⟩
  · show x.fseq + 1 = BitVec.ofNat 8 (x.sent ++ [b]).length
    rw [List.length_append, htag]
    rfl
  · intro d hd
    rcases List.mem_append.mp hd with hd | hd
    · obtain ⟨b', hb', hi, hp⟩ := hx.net d hd
      exact ⟨b', getElem?_sent b hb', hi, hp⟩
    · obtain ⟨⟨p, i⟩, hp, rfl⟩ := List.mem_map.mp hd
      obtain ⟨-, hi, hpi⟩ := List.mem_zipIdx hp
      rw [List.length_map, List.length_range, Nat.zero_add] at hi
      refine ⟨b, List.getElem?_concat_length .., hi, ?_⟩
      show p = b.frag id (tagOf x.sent.length) i
      rw [hpi, ← htag]
      simp only [Nat.sub_zero, List.getElem_map, List.getElem_range]
  · intro e he
    obtain ⟨b', hb', h⟩ := hx.intact e he
    exact ⟨b', List.mem_append_left _ hb', h⟩
  · refine hx.cur.imp_right ?_
    rintro ⟨k, b', hk, h⟩
    exact ⟨k, b', getElem?_sent b hk, h⟩

/-- The receiver is ready for the datagram: it turns to its frame, or it collects that frame and
misses the fragment. -/
theorem Inv.ready {id : BitVec 32} {x : System} {d : Datagram} {b : Frame} (hx : Inv id x)
    (hd : Sent id x.sent d b)
    (hfresh : x.rcv.fseq = d.pack.tag.toNat → ∀ g ∈ x.cur, g.frame = d.frame ∧ g.index ≠ d.index) :
    ∃ r c, udpRecved x.rcv d.pack = udpRecved r d.pack ∧ Collecting b (tagOf d.frame) c r ∧
      d.index ∉ c ∧ d.index :: c =
        ((if x.rcv.fseq = d.pack.tag.toNat then d :: x.cur else [d]).map Datagram.index) ∧
      ∀ g ∈ (if x.rcv.fseq = d.pack.tag.toNat then d :: x.cur else [d]), g.frame = d.frame := by
  obtain ⟨hk, hi, hp⟩ := hd
  have htag : d.pack.tag = tagOf d.frame := by
    rw [hp]
    rfl
  by_cases hseq : x.rcv.fseq = d.pack.tag.toNat
  · have hsame := hfresh hseq
    rw [if_pos hseq]
    rcases hx.cur with hnone | ⟨k, b', hk', hne, hcur, hcol⟩
    · omega
    · obtain ⟨g, gs, hg⟩ := List.exists_cons_of_ne_nil hne
      have hmem : g ∈ x.cur := hg ▸ List.mem_cons_self
      obtain rfl : k = d.frame := (hcur g hmem).symm.trans (hsame g hmem).1
      obtain rfl : b' = b := Option.some.inj (hk'.symm.trans hk)
      refine ⟨x.rcv, x.cur.map Datagram.index, rfl, hcol, fun h => ?_, rfl,
        List.forall_mem_cons.mpr ⟨rfl, hcur⟩⟩
      obtain ⟨g', hg', heq⟩ := List.mem_map.mp h
      exact (hsame g' hg').2 heq
  · rw [if_neg hseq]
    rw [htag] at hseq
    refine ⟨x.rcv.turn (tagOf d.frame), [], ?_, .start b hseq, List.not_mem_nil, rfl,
      List.forall_mem_singleton.mpr rfl⟩
    rw [hp, udpRecved_turn b id hi hseq]

theorem inv_arrive {id : BitVec 32} {x : System} {d : Datagram} (hx : Inv id x) (hd : d ∈ x.net)
    (hfresh : x.rcv.fseq = d.pack.tag.toNat →
      ∀ g ∈ x.cur, g.frame = d.frame ∧ g.index ≠ d.index) :
    ∃ x', stepArrive x d = some x' ∧ Inv id x' := by
  obtain ⟨b, hs⟩ := hx.net d hd
  obtain ⟨r, c, hturn, hcol, hc, hcur, hframe⟩ := hx.ready hs hfresh
  obtain ⟨hk, hi, hp⟩ := hs
  obtain ⟨r', out, heq, hshow, hr'⟩ := hcol.recv id hi hc
  rw [← hp, ← hturn] at heq
  refine ⟨_, by rw [stepArrive, heq, Option.map_some], ?_⟩
  refine ⟨hx.fseq, hx.net, ?_, ?_⟩
  · intro e he
    rcases List.mem_append.mp he with he | he
    · exact hx.intact e he
    · exact ⟨b, List.mem_of_getElem? hk, hshow e he⟩
  · refine hr'.imp_right fun hcol' => ⟨d.frame, b, hk, ?_, hframe, hcur ▸ hcol'⟩
    show (if x.rcv.fseq = d.pack.tag.toNat then d :: x.cur else [d]) ≠ []
    split_ifs <;> exact List.cons_ne_nil _ _

theorem inv_step {id : BitVec 32} {x : System} {e : Event} (hx : Inv id x) (hg : Fresh x e) :
    ∃ x', step id x e = some x' ∧ Inv id x' := by
  cases e with
  | send b => exact inv_send hx b
  | arrive n =>
    show ∃ x', (x.net[n]?).elim (some x) (stepArrive x) = some x' ∧ Inv id x'
    cases hd : x.net[n]? with
    | none => exact ⟨x, rfl, hx⟩
    | some d => exact inv_arrive hx (List.mem_of_getElem? hd) (hg d hd)

/-- **Frames shown are frames sent,** as long as a fragment that has the current frame id is of the
frame that is put together, and was not received for it before. -/
theorem frames_intact (id : BitVec 32) (es : List Event)
    (hg : Guarded (step id) Fresh System.init es) : Always (step id) Intact System.init es :=
  always_of_guarded (I := Inv id) (E := fun _ => True) (fun _ hx => hx.intact)
    (fun _ _ hx _ hfresh => inv_step hx hfresh) (inv_init id) (fun _ _ => trivial) hg

/-- A black frame and a white one, of two fragments each. -/
def black : Frame := ⟨List.replicate 2800 0, by rw [List.length_replicate]; decide⟩

def white : Frame := ⟨List.replicate 2800 255, by rw [List.length_replicate]; decide⟩

/-- The fragments of the black frame out of order, the white frame and a small one, and a fragment
of the black frame again. -/
theorem frames_intact_twoColours :
    Always (step 7) Intact System.init
      [.send black, .arrive 1, .arrive 0, .send white, .arrive 2, .arrive 3,
        .send ⟨[3], by decide⟩, .arrive 4, .arrive 1] :=
  frames_intact 7 _ (by decide +kernel)

/-! ## The run of a repeated fragment -/

/-- The black frame, then the first half of the white one, twice. -/
def repeated : List Event :=
  [.send black, .arrive 0, .arrive 1, .send white, .arrive 2, .arrive 2]

/-- The frame shown is half white and half black. -/
theorem not_intact_repeated :
    ∃ x, run (step 7) System.init repeated = some x ∧ ¬ Intact x := by
  have h : (run (step 7) System.init repeated).map (fun x => decide (Intact x)) = some false := by
    decide +kernel
  obtain ⟨x, hx, hn⟩ := Option.map_eq_some_iff.mp h
  exact ⟨x, hx, of_decide_eq_false hn⟩

end GSConferencing.Client.VideoRuns
