import GSConferencing.Lib.Run

/-!
# The channel a client receives on

`reg`, `sub`, `unsub` and `handle_interp_rep_cmd` of `client.c` keep the subscribed tag, the tag that
replicates it, the multicast groups the client has joined, and the tag `rbudp` receives.

* `step_agrees_iff`: which calls keep the groups and the `rbudp` tag at the effective tag.
* `agrees_iff`: they agree with it along a run exactly when every call is one of these.
-/

namespace GSConferencing.Client.Channel

open GSConferencing.Lib.Run

/-! ## The groups -/

/-- `INADDR_NONE`, what `inet_addr` returns for a malformed address. -/
def inaddrNone : BitVec 32 := BitVec.allOnes 32

/-- `get_mcast_addr`: what `inet_addr` makes of `225.1.1.` and the tag, in network order. -/
def getMcastAddr (tag : ℤ) : BitVec 32 :=
  if 0 ≤ tag ∧ tag < 256 then BitVec.ofNat 32 (225 * 2 ^ 24 + 2 ^ 16 + 2 ^ 8 + tag.toNat)
  else inaddrNone

/-- The group of tag 0 is that of no other tag. -/
theorem getMcastAddr_zero {tag : ℤ} : getMcastAddr 0 = getMcastAddr tag ↔ tag = 0 := by
  refine ⟨fun h => ?_, fun h => h ▸ rfl⟩
  have hnat : (getMcastAddr 0).toNat = (getMcastAddr tag).toNat := congrArg BitVec.toNat h
  by_cases ht : 0 ≤ tag ∧ tag < 256
  · rw [getMcastAddr, getMcastAddr, if_pos (by decide), if_pos ht, BitVec.toNat_ofNat,
      BitVec.toNat_ofNat, Nat.mod_eq_of_lt (by decide), Nat.mod_eq_of_lt (by omega)] at hnat
    simp only [Int.toNat_zero] at hnat
    omega
  · rw [getMcastAddr, getMcastAddr, if_neg ht] at hnat
    exact absurd hnat (by decide)

/-! ## The receiver -/

/-- The options of the audio receiver. -/
structure Opts where
  audioRbudpRecv : Bool
  audioMcastRecv : Bool

/-- The static variables, the groups that `mc_sock` has joined, and `rcv_tag` of `rbudp.c`. -/
structure Receiver where
  subscription0 : ℤ
  subscription1 : ℤ
  replicate0 : ℤ
  replicate1 : ℤ
  joined : Finset (BitVec 32)
  rcvTag : ℤ

/-- After `client_init`, for a client that registers (a `netplay` client does not). -/
def init : Receiver := ⟨0, 0, 0, 0, ∅, 0⟩

namespace Receiver

/-- `mcast_join_tag`. -/
def mcastJoinTag (s : Receiver) (tag : ℤ) : Receiver :=
  { s with joined := insert (getMcastAddr tag) s.joined }

/-- `mcast_quit_tag`. -/
def mcastQuitTag (s : Receiver) (tag : ℤ) : Receiver :=
  { s with joined := s.joined.erase (getMcastAddr tag) }

/-- `rbudp_set_recv_tag`. -/
def rbudpSetRecvTag (s : Receiver) (tag : ℤ) : Receiver := { s with rcvTag := tag }

/-- `if(oldrep) mcast_quit_tag(oldrep)`. -/
def mcastQuitOld (s : Receiver) (oldrep : ℤ) : Receiver :=
  if oldrep ≠ 0 then s.mcastQuitTag oldrep else s

/-- The end of `sub` and of `handle_interp_rep_cmd`: the groups when `rep` replicates `tag`. -/
def mcastSwitch (s : Receiver) (tag rep oldrep : ℤ) : Receiver :=
  if rep ≠ 0 then ((s.mcastQuitTag tag).mcastQuitOld oldrep).mcastJoinTag rep
  else (s.mcastQuitOld oldrep).mcastJoinTag tag

end Receiver

/-- The tag that `_POST_REG` subscribes to, when the reply has `sub0`. -/
def regTag (s : Receiver) (sub0 : ℤ) : ℤ := if sub0 = 0 ∧ s.subscription1 = 0 then 1 else sub0

/-- `_POST_REG`. -/
def postReg (o : Opts) (s : Receiver) (sub0 : ℤ) : Receiver :=
  let s := { s with subscription0 := regTag s sub0 }
  let s := if o.audioRbudpRecv then s.rbudpSetRecvTag s.subscription0 else s
  if o.audioMcastRecv then s.mcastJoinTag s.subscription0 else s

/-- `sub`, when the server answers with the replicate `rep`. -/
def sub (o : Opts) (s : Receiver) (tag rep : ℤ) : Receiver :=
  if s.subscription0 = tag ∨ s.subscription1 = tag then s
  else
    let oldrep := s.replicate0
    let s := { s with subscription0 := tag, replicate0 := if 0 < rep then rep else 0 }
    let s := if o.audioRbudpRecv then
        s.rbudpSetRecvTag (if s.replicate0 ≠ 0 then s.replicate0 else s.subscription0)
      else s
    if o.audioMcastRecv then s.mcastSwitch tag rep oldrep else s

/-- `unsub`. -/
def unsub (o : Opts) (s : Receiver) (tag : ℤ) : Receiver :=
  if s.subscription0 = tag then
    let oldrep := s.replicate0
    let s := { s with subscription0 := 0, replicate0 := 0 }
    let s := if o.audioRbudpRecv then s.rbudpSetRecvTag 0 else s
    if o.audioMcastRecv then (s.mcastQuitTag tag).mcastQuitOld oldrep else s
  else s

/-- What `handle_interp_rep_cmd` does once the replicate is set. -/
def followRep (o : Opts) (s : Receiver) (tag rep oldrep : ℤ) : Receiver :=
  let s := if o.audioRbudpRecv then s.rbudpSetRecvTag (if rep ≠ 0 then rep else tag) else s
  if o.audioMcastRecv then s.mcastSwitch tag rep oldrep else s

/-- `handle_interp_rep_cmd`. -/
def handleInterpRepCmd (o : Opts) (s : Receiver) (tag rep : ℤ) : Receiver :=
  if s.subscription0 = tag then followRep o { s with replicate0 := rep } tag rep s.replicate0
  else if s.subscription1 = tag then
    followRep o { s with replicate1 := rep } tag rep s.replicate1
  else s

/-- A call that succeeds, with what the server answers, or a notification. -/
inductive Event where
  | reg (sub0 : ℤ)
  | sub (tag rep : ℤ)
  | unsub (tag : ℤ)
  | interpRep (tag rep : ℤ)

def step (o : Opts) (s : Receiver) : Event → Option Receiver
  | .reg sub0 => some (postReg o s sub0)
  | .sub tag rep => some (sub o s tag rep)
  | .unsub tag => some (unsub o s tag)
  | .interpRep tag rep => some (handleInterpRepCmd o s tag rep)

/-! ## The effective tag -/

/-- The tag the client is to receive. -/
def effective (s : Receiver) : ℤ := if s.replicate0 ≠ 0 then s.replicate0 else s.subscription0

/-- The groups of the effective tag. -/
def groups (tag : ℤ) : Finset (BitVec 32) := if tag = 0 then ∅ else {getMcastAddr tag}

/-- The groups and the `rbudp` tag are those of the effective tag. -/
def Agrees (o : Opts) (s : Receiver) : Prop :=
  (o.audioMcastRecv → s.joined = groups (effective s)) ∧
    (o.audioRbudpRecv → s.rcvTag = effective s)

instance (o : Opts) (s : Receiver) : Decidable (Agrees o s) := inferInstanceAs (Decidable (_ ∧ _))

/-- What keeps the agreement. -/
def Fits (o : Opts) (s : Receiver) : Event → Prop
  -- the registered tag is the effective one, or there was none
  | .reg sub0 =>
    (o.audioMcastRecv → effective s = 0 ∨ getMcastAddr (effective s) = getMcastAddr (regTag s sub0)) ∧
      (o.audioRbudpRecv → s.replicate0 = 0 ∨ s.replicate0 = regTag s sub0)
  -- no group is left behind, which `sub` quits only when it is that of a replicate
  | .sub tag rep => s.subscription0 = tag ∨ s.subscription1 = tag ∨ (o.audioMcastRecv →
      (s.replicate0 ≠ 0 ∨ s.subscription0 = 0 ∨ getMcastAddr s.subscription0 = getMcastAddr tag ∨
        rep ≠ 0 ∧ getMcastAddr s.subscription0 = getMcastAddr rep) ∧
      (0 ≤ rep ∨ getMcastAddr rep = getMcastAddr tag))
  | .unsub _ => True
  -- tag 0 is taken for a place of `subscription` that is free
  | .interpRep tag rep =>
    (s.subscription0 = tag → o.audioMcastRecv → tag ≠ 0 ∨ rep ≠ 0) ∧
      (s.subscription0 ≠ tag → s.subscription1 = tag →
        (o.audioMcastRecv → rep ≠ 0 ∧ getMcastAddr rep = getMcastAddr (effective s)) ∧
        (o.audioRbudpRecv → rep = effective s))

/-! ## What the calls do -/

/-- The groups after `mcastSwitch`. -/
def switched (joined : Finset (BitVec 32)) (tag rep oldrep : ℤ) : Finset (BitVec 32) :=
  insert (getMcastAddr (if rep ≠ 0 then rep else tag)) (joined.filter fun g =>
    ¬ (rep ≠ 0 ∧ g = getMcastAddr tag) ∧ ¬ (oldrep ≠ 0 ∧ g = getMcastAddr oldrep))

theorem mcastSwitch_eq (s : Receiver) (tag rep oldrep : ℤ) :
    s.mcastSwitch tag rep oldrep = { s with joined := switched s.joined tag rep oldrep } := by
  unfold Receiver.mcastSwitch Receiver.mcastQuitOld Receiver.mcastQuitTag Receiver.mcastJoinTag
    switched
  by_cases hr : rep = 0 <;> by_cases ho : oldrep = 0 <;> simp [hr, ho] <;> ext g <;> simp <;> tauto

theorem mem_groups {e : ℤ} {g : BitVec 32} : g ∈ groups e ↔ e ≠ 0 ∧ g = getMcastAddr e := by
  unfold groups
  split_ifs with h <;> simp [h]

theorem groups_of_ne {e : ℤ} (h : e ≠ 0) : groups e = {getMcastAddr e} := if_neg h

theorem insert_eq_singleton_iff {a b : BitVec 32} {t : Finset (BitVec 32)} :
    insert a t = {b} ↔ a = b ∧ ∀ x ∈ t, x = b := by
  rw [Finset.eq_singleton_iff_unique_mem]
  constructor
  · rintro ⟨-, h⟩
    exact ⟨h a (Finset.mem_insert_self a t), fun x hx => h x (Finset.mem_insert_of_mem hx)⟩
  · rintro ⟨rfl, h⟩
    exact ⟨Finset.mem_insert_self a t, fun x hx => (Finset.mem_insert.mp hx).elim id (h x)⟩

/-- When the groups that were joined for `e` become those of a tag. -/
theorem switched_eq_iff {e tag rep oldrep new : ℤ} :
    switched (groups e) tag rep oldrep = groups new ↔ new ≠ 0 ∧
      getMcastAddr (if rep ≠ 0 then rep else tag) = getMcastAddr new ∧
      (e = 0 ∨ getMcastAddr e = getMcastAddr new ∨ (rep ≠ 0 ∧ getMcastAddr e = getMcastAddr tag) ∨
        (oldrep ≠ 0 ∧ getMcastAddr e = getMcastAddr oldrep)) := by
  by_cases hnew : new = 0
  · simp [hnew, groups, switched]
  · rw [groups_of_ne hnew, switched, insert_eq_singleton_iff]
    simp only [Finset.mem_filter, mem_groups, ne_eq, hnew, not_false_eq_true, true_and]
    refine and_congr_right fun _ => ⟨fun h => ?_, fun h x hx => ?_⟩
    · by_contra hn
      push Not at hn
      have := h (getMcastAddr e) ⟨⟨hn.1, rfl⟩, fun h' => hn.2.2.1 h'.1 h'.2,
        fun h' => hn.2.2.2 h'.1 h'.2⟩
      exact hn.2.1 this
    · obtain ⟨⟨he, rfl⟩, h1, h2⟩ := hx
      tauto

/-- The invariant; `subscription[1]` is never set. -/
structure Inv (o : Opts) (s : Receiver) : Prop where
  sub1 : s.subscription1 = 0
  agrees : Agrees o s

theorem regTag_ne_zero {s : Receiver} (h : s.subscription1 = 0) (sub0 : ℤ) :
    regTag s sub0 ≠ 0 := by
  unfold regTag
  split_ifs with h0
  · decide
  · exact fun h' => h0 ⟨h', h⟩

theorem agrees_postReg {o : Opts} {s : Receiver} (hI : Inv o s) (sub0 : ℤ) :
    Agrees o (postReg o s sub0) ↔ Fits o s (.reg sub0) := by
  have hreg := regTag_ne_zero hI.sub1 sub0
  have heff : effective (postReg o s sub0) =
      if s.replicate0 ≠ 0 then s.replicate0 else regTag s sub0 := by
    cases o with | mk r m => cases r <;> cases m <;> rfl
  refine and_congr (imp_congr_right fun hm => ?_) (imp_congr_right fun hr => ?_)
  · have hjoined : (postReg o s sub0).joined = insert (getMcastAddr (regTag s sub0)) s.joined := by
      simp only [postReg, hm, if_true, Receiver.mcastJoinTag]
      split_ifs <;> rfl
    rw [hjoined, hI.agrees.1 hm, heff]
    unfold effective
    by_cases hrep : s.replicate0 = 0
    · simp only [hrep, ne_eq, not_true_eq_false, if_false]
      rw [groups_of_ne hreg, insert_eq_singleton_iff]
      simp only [mem_groups, true_and]
      exact ⟨fun h => or_iff_not_imp_left.mpr fun h0 => h _ ⟨h0, rfl⟩,
        fun h x hx => hx.2 ▸ h.resolve_left hx.1⟩
    · simp only [ne_eq, hrep, not_false_eq_true, if_true, false_or]
      rw [groups_of_ne hrep, insert_eq_singleton_iff]
      simp [eq_comm]
  · have hrcv : (postReg o s sub0).rcvTag = regTag s sub0 := by
      simp only [postReg, hr, if_true, Receiver.rbudpSetRecvTag]
      split_ifs <;> rfl
    rw [hrcv, heff]
    split_ifs with hrep
    · simp [hrep, eq_comm]
    · simp [not_not.mp hrep]

theorem sub_fields (o : Opts) {s : Receiver} {tag : ℤ} (hnot : ¬ (s.subscription0 = tag ∨
    s.subscription1 = tag)) (rep : ℤ) :
    effective (sub o s tag rep) = (if 0 < rep then rep else tag) ∧
      (o.audioMcastRecv → (sub o s tag rep).joined = switched s.joined tag rep s.replicate0) ∧
      (o.audioRbudpRecv → (sub o s tag rep).rcvTag = if 0 < rep then rep else tag) := by
  have hif : (if (if 0 < rep then rep else 0) ≠ 0 then (if 0 < rep then rep else 0) else tag) =
      if 0 < rep then rep else tag := by
    split_ifs <;> omega
  obtain ⟨r, m⟩ := o
  unfold sub
  rw [if_neg hnot]
  simp only [mcastSwitch_eq, Receiver.rbudpSetRecvTag, hif]
  cases r <;> cases m <;> exact ⟨hif, by simp, by simp⟩

theorem agrees_sub {o : Opts} {s : Receiver} (hI : Inv o s) (tag rep : ℤ) :
    Agrees o (sub o s tag rep) ↔ Fits o s (.sub tag rep) := by
  by_cases hnot : s.subscription0 = tag ∨ s.subscription1 = tag
  · have hsame : sub o s tag rep = s := by rw [sub, if_pos hnot]
    rw [hsame]
    exact iff_of_true hI.agrees (hnot.elim .inl fun h => .inr (.inl h))
  · have htag : tag ≠ 0 := fun h => hnot (.inr (hI.sub1.trans h.symm))
    obtain ⟨heff, hjoined, hrcv⟩ := sub_fields o hnot rep
    have hmcast : switched (groups (effective s)) tag rep s.replicate0 =
        groups (if 0 < rep then rep else tag) ↔
        (s.replicate0 ≠ 0 ∨ s.subscription0 = 0 ∨
          getMcastAddr s.subscription0 = getMcastAddr tag ∨
          rep ≠ 0 ∧ getMcastAddr s.subscription0 = getMcastAddr rep) ∧
        (0 ≤ rep ∨ getMcastAddr rep = getMcastAddr tag) := by
      rw [switched_eq_iff]
      unfold effective
      rcases lt_trichotomy rep 0 with hneg | rfl | hpos
      · have h1 : ¬ 0 < rep := by omega
        have h2 : ¬ 0 ≤ rep := by omega
        by_cases h0 : s.replicate0 = 0
        · simp only [ne_eq, hneg.ne, not_false_eq_true, if_true, h1, if_false, htag, h0, true_and,
            not_true_eq_false, false_and, or_false, h2, false_or, or_self]
          exact ⟨fun h => ⟨h.2.imp_right .inl, h.1⟩,
            fun h => ⟨h.2, h.1.imp_right fun h' => h'.elim id (·.trans h.2)⟩⟩
        · simp [hneg.ne, h0, h1, h2, htag]
      · by_cases h0 : s.replicate0 = 0 <;> simp [h0, htag]
      · by_cases h0 : s.replicate0 = 0
        · simp only [ne_eq, hpos.ne', not_false_eq_true, if_true, hpos, h0, true_and,
            not_true_eq_false, if_false, false_and, or_false, false_or, hpos.le, true_or, and_true]
          exact or_congr_right or_comm
        · simp [hpos, hpos.ne', h0, hpos.le]
    unfold Agrees
    rw [heff]
    constructor
    · rintro ⟨hm, -⟩
      refine .inr (.inr fun ho => ?_)
      rw [← hmcast, ← hI.agrees.1 ho, ← hjoined ho]
      exact hm ho
    · intro hfit
      refine ⟨fun ho => ?_, hrcv⟩
      rw [hjoined ho, hI.agrees.1 ho, hmcast]
      exact ((hfit.resolve_left (hnot ∘ .inl)).resolve_left (hnot ∘ .inr)) ho

theorem unsub_fields (o : Opts) (s : Receiver) :
    effective (unsub o s s.subscription0) = 0 ∧
      (o.audioMcastRecv → ∀ g ∈ (unsub o s s.subscription0).joined, g ∈ s.joined ∧
        g ≠ getMcastAddr s.subscription0 ∧
        (s.replicate0 ≠ 0 → g ≠ getMcastAddr s.replicate0)) ∧
      (o.audioRbudpRecv → (unsub o s s.subscription0).rcvTag = 0) := by
  obtain ⟨r, m⟩ := o
  unfold unsub
  rw [if_pos rfl]
  simp only [Receiver.mcastQuitOld, Receiver.mcastQuitTag, Receiver.rbudpSetRecvTag]
  by_cases h0 : s.replicate0 = 0
  · cases r <;> cases m <;> simp +contextual [effective, h0]
  · cases r <;> cases m <;> simp +contextual [effective, h0]

/-- `unsub` is right whatever was received. -/
theorem agrees_unsub {o : Opts} {s : Receiver} (hI : Inv o s) (tag : ℤ) :
    Agrees o (unsub o s tag) := by
  by_cases htag : s.subscription0 = tag
  · subst htag
    obtain ⟨heff, hjoined, hrcv⟩ := unsub_fields o s
    refine ⟨fun hm => ?_, fun hr => ?_⟩
    · rw [heff, groups, if_pos rfl, Finset.eq_empty_iff_forall_notMem]
      intro g hg
      obtain ⟨hin, hsub, hrep⟩ := hjoined hm g hg
      rw [hI.agrees.1 hm, mem_groups] at hin
      unfold effective at hin
      split_ifs at hin with h0
      · exact hrep h0 hin.2
      · exact hsub hin.2
    · rw [heff, hrcv hr]
  · have hsame : unsub o s tag = s := by rw [unsub, if_neg htag]
    rw [hsame]
    exact hI.agrees

theorem followRep_fields (o : Opts) (s : Receiver) (tag rep oldrep : ℤ) :
    effective (followRep o s tag rep oldrep) = effective s ∧
      (o.audioMcastRecv →
        (followRep o s tag rep oldrep).joined = switched s.joined tag rep oldrep) ∧
      (o.audioRbudpRecv →
        (followRep o s tag rep oldrep).rcvTag = if rep ≠ 0 then rep else tag) := by
  obtain ⟨r, m⟩ := o
  unfold followRep
  simp only [mcastSwitch_eq, Receiver.rbudpSetRecvTag]
  cases r <;> cases m <;> exact ⟨rfl, by simp, by simp⟩

theorem agrees_interpRep {o : Opts} {s : Receiver} (hI : Inv o s) (tag rep : ℤ) :
    Agrees o (handleInterpRepCmd o s tag rep) ↔ Fits o s (.interpRep tag rep) := by
  unfold handleInterpRepCmd
  by_cases h0 : s.subscription0 = tag
  · -- the tag that is subscribed
    rw [if_pos h0]
    subst h0
    obtain ⟨heff, hjoined, hrcv⟩ :=
      followRep_fields o { s with replicate0 := rep } s.subscription0 rep s.replicate0
    have hmcast : switched (groups (effective s)) s.subscription0 rep s.replicate0 =
        groups (effective { s with replicate0 := rep }) ↔ s.subscription0 ≠ 0 ∨ rep ≠ 0 := by
      rw [switched_eq_iff]
      unfold effective
      by_cases hrep : rep = 0 <;> by_cases hold : s.replicate0 = 0 <;> simp [hrep, hold]
    simp only [Fits, forall_const, ne_eq, not_true_eq_false, false_implies, and_true]
    unfold Agrees
    rw [heff]
    constructor
    · intro h hm
      rw [← hmcast, ← hI.agrees.1 hm, ← h.1 hm, hjoined hm]
    · intro h
      refine ⟨fun hm => ?_, hrcv⟩
      rw [hjoined hm, hI.agrees.1 hm]
      exact hmcast.mpr (h hm)
  · rw [if_neg h0]
    by_cases h1 : s.subscription1 = tag
    · -- tag 0, while another tag is subscribed
      rw [if_pos h1]
      obtain rfl : tag = 0 := h1.symm.trans hI.sub1
      obtain ⟨heff, hjoined, hrcv⟩ :=
        followRep_fields o { s with replicate1 := rep } 0 rep s.replicate1
      have hne : effective s ≠ 0 := by
        unfold effective
        split_ifs with hr
        · exact hr
        · exact h0
      have hmcast : switched (groups (effective s)) 0 rep s.replicate1 = groups (effective s) ↔
          rep ≠ 0 ∧ getMcastAddr rep = getMcastAddr (effective s) := by
        rw [switched_eq_iff]
        by_cases hrep : rep = 0
        · simp [hrep, getMcastAddr_zero, hne]
        · simp [hrep, hne]
      have hfit : Fits o s (.interpRep 0 rep) ↔
          (o.audioMcastRecv → rep ≠ 0 ∧ getMcastAddr rep = getMcastAddr (effective s)) ∧
            (o.audioRbudpRecv → rep = effective s) :=
        ⟨fun h => h.2 h0 h1, fun h => ⟨fun h' => absurd h' h0, fun _ _ => h⟩⟩
      rw [hfit]
      refine and_congr (imp_congr_right fun hm => ?_) (imp_congr_right fun hr => ?_)
      · rw [hjoined hm, heff]
        exact (hI.agrees.1 hm).symm ▸ hmcast
      · rw [hrcv hr, heff]
        have hsame : effective { s with replicate1 := rep } = effective s := rfl
        have hif : (if rep ≠ 0 then rep else 0) = rep := by split_ifs <;> omega
        rw [hsame, hif]
    · rw [if_neg h1]
      exact iff_of_true hI.agrees ⟨fun h => absurd h h0, fun _ h => absurd h h1⟩

/-! ## Runs -/

theorem subscription1_mcastSwitch (s : Receiver) (tag rep oldrep : ℤ) :
    (s.mcastSwitch tag rep oldrep).subscription1 = s.subscription1 := by
  rw [mcastSwitch_eq]

/-- `subscription[1]` keeps its value. -/
theorem subscription1_step {o : Opts} {s s' : Receiver} {e : Event} (h : step o s e = some s') :
    s'.subscription1 = s.subscription1 := by
  cases e with
  | reg sub0 =>
    obtain rfl := Option.some.inj h
    simp only [postReg, Receiver.mcastJoinTag, Receiver.rbudpSetRecvTag]
    split_ifs <;> rfl
  | sub tag rep =>
    obtain rfl := Option.some.inj h
    unfold sub
    simp only [Receiver.rbudpSetRecvTag]
    split_ifs <;> simp only [subscription1_mcastSwitch]
  | unsub tag =>
    obtain rfl := Option.some.inj h
    unfold unsub
    simp only [Receiver.mcastQuitOld, Receiver.mcastQuitTag, Receiver.rbudpSetRecvTag]
    split_ifs <;> rfl
  | interpRep tag rep =>
    obtain rfl := Option.some.inj h
    unfold handleInterpRepCmd followRep
    simp only [Receiver.rbudpSetRecvTag]
    split_ifs <;> simp only [subscription1_mcastSwitch]

/-- **One call** keeps the agreement exactly when it fits. -/
theorem step_agrees_iff {o : Opts} {s s' : Receiver} {e : Event} (hI : Inv o s)
    (h : step o s e = some s') : Agrees o s' ↔ Fits o s e := by
  cases e with
  | reg sub0 => exact Option.some.inj h ▸ agrees_postReg hI sub0
  | sub tag rep => exact Option.some.inj h ▸ agrees_sub hI tag rep
  | unsub tag => exact Option.some.inj h ▸ iff_of_true (agrees_unsub hI tag) trivial
  | interpRep tag rep => exact Option.some.inj h ▸ agrees_interpRep hI tag rep

theorem step_total (o : Opts) (s : Receiver) (e : Event) : ∃ s', step o s e = some s' := by
  cases e <;> exact ⟨_, rfl⟩

theorem inv_init (o : Opts) : Inv o init := ⟨rfl, fun _ => rfl, fun _ => rfl⟩

/-- **The channel:** along a run the groups and the `rbudp` tag are those of the effective tag
exactly when every call fits. -/
theorem agrees_iff (o : Opts) (es : List Event) :
    Always (step o) (Agrees o) init es ↔ Guarded (step o) (Fits o) init es := by
  refine always_iff_guarded (I := Inv o) (E := fun _ => True) (fun _ h => h.agrees)
    (fun s e hI _ hg => ?_) (fun s e s' hI _ hg h hP => hg ((step_agrees_iff hI h).mp hP))
    (inv_init o) (fun _ _ => trivial)
  obtain ⟨s', hs'⟩ := step_total o s e
  exact ⟨s', hs', (subscription1_step hs').trans hI.sub1, (step_agrees_iff hI hs').mpr hg⟩

/-- A client that registers with tag 1 and then subscribes to tag 2 stays in the group of tag 1. -/
theorem agrees_fails :
    ¬ Always (step ⟨false, true⟩) (Agrees ⟨false, true⟩) init [.reg 1, .sub 2 0] := by
  intro h
  have hrun : (run (step ⟨false, true⟩) init [.reg 1, .sub 2 0]).map
      (fun s => decide (Agrees ⟨false, true⟩ s)) = some false := by decide
  obtain ⟨t, hP, hobs⟩ := h.observed hrun
  exact decide_eq_false_iff_not.mp hobs hP

end GSConferencing.Client.Channel
