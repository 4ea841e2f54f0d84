import GSConferencing.Lib.Run
import GSConferencing.Client.Rbudp

/-!
# The queue of the receiver

* `receiver_keeps`: with one receive tag, each packet is outdated, waits or is delivered, and the
  packets that wait are all delivered with the next packet that is delivered.
* `tag_exact`: packets are delivered under their own tag exactly when no packet with another tag
  waits as a packet with the receive tag arrives.
-/

namespace GSConferencing.Client.RbudpRecv

open GSConferencing.Lib.Run
open GSConferencing.Include.Cfifo GSConferencing.Include.Pack GSConferencing.Client.Rbudp

/-- The packets that are handed to `recv_cb`. -/
def deliveries (outs : List Out) : List Packet :=
  outs.filterMap fun
    | .deliver _ p => some p
    | .request _ _ => none

@[simp] theorem deliveries_delivers (tag : ℤ) (ps : List Packet) :
    deliveries (delivers tag ps) = ps := by
  induction ps with
  | nil => rfl
  | cons p ps ih => exact congrArg (p :: ·) ih

/-! ## One receive tag -/

/-- The receiver, and the packets that have arrived since the last delivery, neither outdated nor
with another tag. -/
structure Session where
  recv : Receiver
  waits : List Packet

/-- The receiver with the receive tag `tag`. -/
def Session.new (tag : ℤ) : Session where
  recv := rbudpSetRecvTag .new tag
  waits := []

/-- The packet has the receive tag and is not outdated. -/
def Current (r : Receiver) (p : Packet) : Prop :=
  (p.tag.toNat : ℤ) = r.rcvTag ∧
    ¬ (p.seq.toNat < r.expectSeq.toNat ∧ r.expectSeq.toNat - p.seq.toNat < 100)

instance (r : Receiver) (p : Packet) : Decidable (Current r p) :=
  inferInstanceAs (Decidable (_ ∧ _))

/-- A datagram arrives. -/
def sessionStep (x : Session) (d : Packet × Addr) : Option Session :=
  (runRecv x.recv d.1 d.2).map fun (r, outs) =>
    { recv := r
      waits := if deliveries outs ≠ [] then []
        else if Current x.recv d.1 then x.waits ++ [d.1] else x.waits }

/-- What becomes of a packet with the receive tag, while the packets `waits` wait. -/
inductive Fate (r : Receiver) (waits : List Packet) (p : Packet) (r' : Receiver)
    (outs : List Out) : Prop
  | outdated (hlt : p.seq.toNat < r.expectSeq.toNat)
      (hwin : r.expectSeq.toNat - p.seq.toNat < 100) (hno : deliveries outs = [])
      (hsame : r'.wait.contents = waits)
  | queued (hno : deliveries outs = []) (hput : r'.wait.contents = waits ++ [p])
  | delivered (hall : deliveries outs = p :: waits ∨ deliveries outs = waits ++ [p])
      (hempty : r'.wait.contents = [])
  /-- A jump back by 100 or more empties the queue. -/
  | jumped (hlt : p.seq.toNat < r.expectSeq.toNat)
      (hwin : 100 ≤ r.expectSeq.toNat - p.seq.toNat) (hone : deliveries outs = [p])
      (hempty : r'.wait.contents = [])

section Keeps
variable {r : Receiver} {p : Packet} {r' : Receiver} {outs : List Out} {x x' : Session}

theorem deliveries_request (r : Receiver) (c : Prop) [Decidable c] :
    deliveries (if c then [reqRepeat r] else []) = [] := by
  split_ifs <;> rfl

theorem fate_of_handled (h : Handled r p r' outs) (htag : (p.tag.toNat : ℤ) = r.rcvTag) :
    Fate r r.wait.contents p r' outs := by
  cases h with
  | foreign hno => exact absurd htag hno
  | outdated _ hlt hwin hwait _ => exact .outdated hlt hwin rfl hwait
  | jumped _ hlt hwin hwait _ => exact .jumped hlt hwin (deliveries_delivers _ _) hwait
  | delivered _ _ _ _ hwait _ => exact .delivered (.inl (deliveries_delivers _ _)) hwait
  | queued _ _ _ _ _ hwait _ => exact .queued (deliveries_request _ _) hwait
  | forced _ _ _ _ hwait _ => exact .delivered (.inr (deliveries_delivers _ _)) hwait

/-- What the history of a session makes of a packet. -/
theorem waits_step (h : Handled x.recv p r' outs) (hx : x.recv.wait.contents = x.waits) :
    r'.wait.contents = if deliveries outs ≠ [] then []
      else if Current x.recv p then x.waits ++ [p] else x.waits := by
  cases h with
  | foreign hno =>
    rw [if_neg (by simp [deliveries]), if_neg fun hc => hno hc.1, hx]
  | outdated _ hlt hwin hwait _ =>
    rw [if_neg (by simp [deliveries]), if_neg fun hc => hc.2 ⟨hlt, hwin⟩, hwait, hx]
  | jumped _ _ _ hwait _ => rw [if_pos (by simp), hwait]
  | delivered _ _ _ _ hwait _ => rw [if_pos (by simp), hwait]
  | queued htag hlt _ _ _ hwait _ =>
    have hcur : Current x.recv p := ⟨htag, fun h => absurd h.1 (not_lt.mpr hlt.le)⟩
    rw [if_neg (not_not.mpr (deliveries_request _ _)), if_pos hcur, hwait, hx]
  | forced _ _ _ _ hwait _ => rw [if_pos (by simp), hwait]

/-- The ring holds the packets of the history, under the tag of the session. -/
structure Kept (tag : ℤ) (x : Session) : Prop where
  tag : x.recv.rcvTag = tag
  waits : x.recv.wait.contents = x.waits

theorem kept_new (tag : ℤ) : Kept tag (Session.new tag) :=
  ⟨rfl, contents_new _⟩

theorem sessionStep_kept {tag : ℤ} (h : Kept tag x) (d : Packet × Addr) :
    ∃ x', sessionStep x d = some x' ∧ Kept tag x' := by
  obtain ⟨r', outs, hr', htag, -, hhandled⟩ := runRecv_spec x.recv d.1 d.2
  exact ⟨_, by rw [sessionStep, hr']; rfl, htag.trans h.tag, waits_step hhandled h.waits⟩

theorem run_kept {tag : ℤ} (h : Kept tag x) (ds : List (Packet × Addr)) :
    ∃ x', run sessionStep x ds = some x' ∧ Kept tag x' := by
  induction ds generalizing x with
  | nil => exact ⟨x, rfl, h⟩
  | cons d ds ih =>
    obtain ⟨x₁, hx₁, h₁⟩ := sessionStep_kept h d
    obtain ⟨x', hx', h'⟩ := ih h₁
    exact ⟨x', by rw [run_cons, hx₁]; exact hx', h'⟩

end Keeps

/-- **The receiver loses nothing it holds:** after any datagrams the queue has the packets that
have come to wait since the last delivery, at most seven, unmodified and in order; a packet with
the receive tag is outdated, or is put after them, or is delivered together with all of them, which
empties the queue, as a jump back does. -/
theorem receiver_keeps {tag : ℤ} (ds : List (Packet × Addr)) {p : Packet} (other : Addr)
    (htag : (p.tag.toNat : ℤ) = tag) :
    ∃ x, run sessionStep (Session.new tag) ds = some x ∧ x.recv.wait.contents = x.waits ∧
      x.waits.length ≤ 7 ∧ ∃ r' outs, runRecv x.recv p other = some (r', outs) ∧
        Fate x.recv x.waits p r' outs := by
  obtain ⟨x, hx, hkept⟩ := run_kept (kept_new tag) ds
  obtain ⟨r', outs, hr', -, -, hhandled⟩ := runRecv_spec x.recv p other
  refine ⟨x, hx, hkept.waits, ?_, r', outs, hr', ?_⟩
  · rw [← hkept.waits]
    exact wait_length_le _
  · rw [← hkept.waits]
    exact fate_of_handled hhandled (htag.trans hkept.tag.symm)

/-- A packet without data. -/
def packet (tag : Byte) (seq : BitVec 16) (no : ℕ) : Packet where
  tag := tag
  type := rbudpPacket
  seq := seq
  extra := 0
  data := []
  fits := Nat.zero_le _
  no := no

theorem receiver_keeps_two : ∃ x, run sessionStep (Session.new 1)
      [(packet 1 5 1, .snd), (packet 1 7 3, .snd)] = some x ∧ x.recv.wait.contents = x.waits ∧
    x.waits.length ≤ 7 ∧ ∃ r' outs, runRecv x.recv (packet 1 6 2) .snd = some (r', outs) ∧
      Fate x.recv x.waits (packet 1 6 2) r' outs :=
  receiver_keeps [(packet 1 5 1, .snd), (packet 1 7 3, .snd)] .snd rfl

/-! ## Changing the receive tag -/

/-- The receiver, and what it has done so far. -/
structure Log where
  recv : Receiver
  outs : List Out

def Log.new : Log where
  recv := .new
  outs := []

inductive Event where
  | setTag (tag : ℤ)
  | datagram (p : Packet) (other : Addr)

/-- One step. -/
def step (x : Log) : Event → Option Log
  | .setTag tag => some { x with recv := rbudpSetRecvTag x.recv tag }
  | .datagram p other => (runRecv x.recv p other).map fun (r, outs) =>
      { recv := r, outs := x.outs ++ outs }

/-- A packet that is delivered has been received with the tag of the delivery. -/
def Out.TagOk : Out → Prop
  | .deliver tag p => (p.tag.toNat : ℤ) = tag
  | .request _ _ => True

/-- Every packet has been delivered under its own tag. -/
def TagsOk (x : Log) : Prop := ∀ o ∈ x.outs, Out.TagOk o

/-- No packet with another tag waits as a packet with the receive tag arrives. -/
def OwnTag (x : Log) : Event → Prop
  | .setTag _ => True
  | .datagram p _ => (p.tag.toNat : ℤ) = x.recv.rcvTag →
      ∀ q ∈ x.recv.wait.contents, (q.tag.toNat : ℤ) = x.recv.rcvTag

/-- Packets with another tag wait only until the next packet. -/
structure Inv (x : Log) : Prop where
  tags : TagsOk x
  waits : x.recv.expectSeq ≠ 0 → ∀ q ∈ x.recv.wait.contents, (q.tag.toNat : ℤ) = x.recv.rcvTag

theorem inv_new : Inv Log.new where
  tags := fun o ho => by cases ho
  waits := fun h0 => absurd rfl h0

section Tags
variable {x x' : Log} {e : Event}

theorem tagOk_delivers {tag : ℤ} {ps : List Packet} :
    (∀ o ∈ delivers tag ps, Out.TagOk o) ↔ ∀ q ∈ ps, (q.tag.toNat : ℤ) = tag := by
  unfold delivers
  rw [List.forall_mem_map]
  rfl

theorem tagsOk_append {outs : List Out} {r : Receiver} :
    TagsOk { recv := r, outs := x.outs ++ outs } ↔ TagsOk x ∧ ∀ o ∈ outs, Out.TagOk o :=
  List.forall_mem_append

theorem tagOk_request (r : Receiver) (c : Prop) [Decidable c] :
    ∀ o ∈ (if c then [reqRepeat r] else []), Out.TagOk o := by
  intro o ho
  split_ifs at ho
  · rw [List.mem_singleton.mp ho]
    trivial
  · cases ho

theorem step_inv (h : Inv x) (hg : OwnTag x e) : ∃ x', step x e = some x' ∧ Inv x' := by
  cases e with
  | setTag tag => exact ⟨_, rfl, h.tags, fun hne => absurd rfl hne⟩
  | datagram p other =>
    obtain ⟨r', outs, hr', htag', -, hhandled⟩ := runRecv_spec x.recv p other
    refine ⟨_, by rw [step, hr']; rfl, ?_⟩
    cases hhandled with
    | foreign => exact ⟨tagsOk_append.mpr ⟨h.tags, fun o ho => by cases ho⟩, h.waits⟩
    | outdated _ _ _ hwait hexp =>
      refine ⟨tagsOk_append.mpr ⟨h.tags, fun o ho => by cases ho⟩, fun hne => ?_⟩
      show ∀ q ∈ r'.wait.contents, (q.tag.toNat : ℤ) = r'.rcvTag
      rw [hwait, htag']
      exact h.waits (hexp ▸ hne)
    | jumped htag _ _ hwait _ =>
      refine ⟨tagsOk_append.mpr ⟨h.tags, tagOk_delivers.mpr ?_⟩, fun _ q hq => ?_⟩
      · exact fun q hq => (List.mem_singleton.mp hq) ▸ htag
      · exact absurd (hwait ▸ hq) List.not_mem_nil
    | delivered htag _ _ _ hwait _ =>
      refine ⟨tagsOk_append.mpr ⟨h.tags, tagOk_delivers.mpr ?_⟩, fun _ q hq => ?_⟩
      · exact List.forall_mem_cons.mpr ⟨htag, hg htag⟩
      · exact absurd (hwait ▸ hq) List.not_mem_nil
    | queued htag hlt h0 _ _ hwait hexp =>
      refine ⟨tagsOk_append.mpr ⟨h.tags, tagOk_request _ _⟩, fun _ => ?_⟩
      show ∀ q ∈ r'.wait.contents, (q.tag.toNat : ℤ) = r'.rcvTag
      rw [hwait, htag']
      exact List.forall_mem_append.mpr ⟨hg htag, List.forall_mem_singleton.mpr htag⟩
    | forced htag _ _ _ hwait _ =>
      refine ⟨tagsOk_append.mpr ⟨h.tags, tagOk_delivers.mpr ?_⟩, fun _ q hq => ?_⟩
      · exact List.forall_mem_append.mpr ⟨hg htag, List.forall_mem_singleton.mpr htag⟩
      · exact absurd (hwait ▸ hq) List.not_mem_nil

/-- A packet with another tag that waits is delivered under the wrong tag. -/
theorem step_bad (h : Inv x) (hg : ¬ OwnTag x e) (hx' : step x e = some x') : ¬ TagsOk x' := by
  cases e with
  | setTag tag => exact absurd trivial hg
  | datagram p other =>
    unfold OwnTag at hg
    push Not at hg
    obtain ⟨htag, q, hq, hne⟩ := hg
    -- the queue is as it was when the tag changed
    have h0 : x.recv.expectSeq = 0 := by
      by_contra h0
      exact hne (h.waits h0 q hq)
    have hzero : x.recv.expectSeq.toNat = 0 := seq_zero_iff.mp h0
    obtain ⟨r', outs, hr', -, -, hhandled⟩ := runRecv_spec x.recv p other
    rw [step, hr'] at hx'
    cases hx'
    intro hok
    have hnew := (tagsOk_append.mp hok).2
    cases hhandled with
    | foreign hno => exact hno htag
    | outdated _ hlt => omega
    | jumped _ hlt => omega
    | queued _ _ h0' => exact h0' h0
    | forced _ _ h0' => exact h0' h0
    | delivered =>
      exact hne (tagOk_delivers.mp hnew q (List.mem_cons_of_mem p hq))

end Tags

/-- **Every packet is delivered under the tag it was received with exactly when no packet with
another tag waits as a packet with the receive tag arrives.** -/
theorem tag_exact (es : List Event) :
    Always step TagsOk Log.new es ↔ Guarded step OwnTag Log.new es :=
  always_iff_guarded (I := Inv) (E := fun _ => True) (fun _ h => h.tags)
    (fun _ _ h _ hg => step_inv h hg) (fun _ _ _ h _ hg hx' => step_bad h hg hx')
    inv_new fun _ _ => trivial

/-- A packet waits as the tag changes. -/
def switchRun : List Event :=
  [.setTag 1, .datagram (packet 1 5 1) .snd, .datagram (packet 1 7 3) .snd, .setTag 2,
    .datagram (packet 2 8 4) .snd]

/-- The tags of a delivery: that of `recv_cb`, and that of the packet. -/
def Out.tags : Out → Option (ℤ × ℤ)
  | .deliver tag p => some (tag, p.tag.toNat)
  | .request _ _ => none

/-- The packet that waits is delivered under the new tag. -/
theorem switch_mixes_tags : ¬ Always step TagsOk Log.new switchRun := by
  intro h
  have hrun : (run step Log.new switchRun).map (fun x => x.outs.filterMap Out.tags) =
      some [(1, 1), (2, 2), (2, 1)] := by
    decide
  obtain ⟨x, hok, htags⟩ := h.observed hrun
  have hmem : (2, 1) ∈ x.outs.filterMap Out.tags := by
    rw [htags]
    decide
  obtain ⟨o, ho, htag⟩ := List.mem_filterMap.mp hmem
  cases o with
  | request => cases htag
  | deliver tag p =>
    have heq : (p.tag.toNat : ℤ) = tag := hok _ ho
    simp only [Out.tags, Option.some.injEq, Prod.mk.injEq] at htag
    omega

end GSConferencing.Client.RbudpRecv
