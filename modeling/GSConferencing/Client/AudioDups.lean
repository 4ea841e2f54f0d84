import GSConferencing.Client.Channel
import GSConferencing.Client.Recent
import GSConferencing.Include.Pack

/-!
# The duplicate filter of a client that does not mix

`audio_recved` of `client.c` without `audio_direct_mix`: `is_recved` keeps one ring of eight
sequence numbers, zeros at first, for the packets of all senders and all tags, and every sender
numbers its packets on its own.

* `audioRecved_cases`: what becomes of a packet, and what is left in the ring.
* `onlyRepeats_iff`: only repetitions are dropped exactly as long as no new packet has the number
  that the ring keeps of another stream.
* `onlyRepeats_of_numbered`: this is so as long as one sender is heard on one tag.
* `others_number`: the first packet of a sender after the channel has been switched.
-/

namespace GSConferencing.Client.AudioDups

open GSConferencing.Include.Pack GSConferencing.Client.Recent GSConferencing.Client.Channel
open GSConferencing.Lib.Run GSConferencing.Lib.Window

/-! ## The player -/

/-- The static variables that `audio_recved` reads, with the ring of `is_recved`, and the packets
that were accepted, newest first. -/
structure Player where
  ucastAudio : Bool
  mixCast : Bool
  tagId : ℤ
  channel : Receiver
  recent : RecentInfo (BitVec 32) 3
  accepted : List PackData

/-- After `client_init`; the rest depends on the kind of the client. -/
def init (ucastAudio mixCast : Bool) (tagId : ℤ) (channel : Receiver) : Player :=
  ⟨ucastAudio, mixCast, tagId, channel, .new 0, []⟩

/-- What becomes of a packet. -/
inductive Fate where
  | raw
  | ignored
  | malformed
  | duplicate
  | accepted
  deriving DecidableEq

/-- The tags that are received. -/
def tags (r : Receiver) : ℤ × ℤ :=
  if r.replicate0 ≠ 0 ∨ r.replicate1 ≠ 0 then (r.replicate0, r.replicate1)
  else (r.subscription0, r.subscription1)

/-- The tag of a broadcasted packet is received. -/
def Interested (r : Receiver) (tag : Byte) : Prop :=
  (tag.toNat : ℤ) = (tags r).1 ∨ (tag.toNat : ℤ) = (tags r).2

instance (r : Receiver) (tag : Byte) : Decidable (Interested r tag) :=
  inferInstanceAs (Decidable (_ ∨ _))

/-- `audio_recved`, of a datagram with the packet `qitem` in it. -/
def audioRecved (s : Player) (qitem : PackData) : Fate × Player :=
  -- the application gets the whole packet
  if s.ucastAudio ∨ s.mixCast then
    (if (qitem.tag.toNat : ℤ) = s.tagId then .raw else .ignored, s)
  else if s.channel.subscription0 = 0 ∧ s.channel.subscription1 = 0 then (.ignored, s)
  else if ¬ Interested s.channel qitem.tag then (.ignored, s)
  else if ¬ qitem.size ≤ qitem.len then (.malformed, s)
  else match recentTest s.recent qitem.seq with
    | (true, r) => (.duplicate, { s with recent := r })
    | (false, r) => (.accepted, { s with recent := r, accepted := qitem :: s.accepted })

/-- A packet is received, `reg` or `switch_tag` sets the tag of the client, or the channel
changes. -/
inductive Event where
  | audio (qitem : PackData)
  | tag (tagId : ℤ)
  | call (e : Channel.Event)

def step (o : Opts) (s : Player) : Event → Option Player
  | .audio qitem => some (audioRecved s qitem).2
  | .tag tagId => some { s with tagId := tagId }
  | .call e => (Channel.step o s.channel e).map fun r => { s with channel := r }

/-! ## Streams -/

/-- The tag and the sender of a packet. -/
def stream (p : PackData) : Byte × BitVec 32 := (p.tag, p.id &&& 0xffffff)

/-- The packet has been accepted before. -/
def Repeats (s : Player) (p : PackData) : Prop :=
  ∃ q ∈ s.accepted, stream q = stream p ∧ q.seq = p.seq

instance (s : Player) (p : PackData) : Decidable (Repeats s p) :=
  inferInstanceAs (Decidable (∃ q ∈ _, _))

/-- A packet that is dropped as a duplicate has been accepted before. -/
def Justified (s : Player) : Event → Prop
  | .audio p => (audioRecved s p).1 = .duplicate → Repeats s p
  | _ => True

instance (s : Player) : DecidablePred (Justified s)
  | .audio _ => inferInstanceAs (Decidable (_ → _))
  | .tag _ | .call _ => .isTrue trivial

/-- The packet passes the tests of the tag and the length. -/
def Wanted (s : Player) (p : PackData) : Prop :=
  ¬ (s.ucastAudio ∨ s.mixCast) ∧
    ¬ (s.channel.subscription0 = 0 ∧ s.channel.subscription1 = 0) ∧
    Interested s.channel p.tag ∧ p.size ≤ p.len

instance (s : Player) (p : PackData) : Decidable (Wanted s p) :=
  inferInstanceAs (Decidable (_ ∧ _))

/-- A number with its stream; the zeros that the ring starts with are of none. -/
abbrev Mark := Option (Byte × BitVec 32) × BitVec 32

def mark (p : PackData) : Mark := (some (stream p), p.seq)

/-- The numbers of the last eight packets that were accepted. -/
def lastEight (s : Player) : List Mark := window 8 (none, 0) (s.accepted.map mark)

/-- The number of a packet that has not been accepted before is none of the last eight that are of
another stream, or of none. -/
def NotBorrowed (s : Player) : Event → Prop
  | .audio p => Wanted s p →
    (∃ x ∈ lastEight s, x.1 ≠ some (stream p) ∧ x.2 = p.seq) → Repeats s p
  | _ => True

/-! ## What is kept -/

/-- The ring holds the numbers of the last eight packets. -/
def FilterInv (s : Player) : Prop := Holds s.recent 0 (s.accepted.map PackData.seq)

section Filter
variable {s s' : Player} {p : PackData} {e : Event} {o : Opts}

theorem filter_init (ucastAudio mixCast : Bool) (tagId : ℤ) (channel : Receiver) :
    FilterInv (init ucastAudio mixCast tagId channel) := holds_new 0

/-- The numbers of the ring, with their streams. -/
theorem mem_ring : p.seq ∈ window (2 ^ 3) 0 (s.accepted.map PackData.seq) ↔
    ∃ x ∈ lastEight s, x.2 = p.seq := by
  have hmap : s.accepted.map PackData.seq = (s.accepted.map mark).map Prod.snd := by
    rw [List.map_map]
    rfl
  rw [hmap]
  exact mem_window_map (f := Prod.snd) (z := ((none, 0) : Mark))

/-- **What becomes of a packet:** it is not wanted, or it is a duplicate if its number is one of the
last eight, and else it is accepted. -/
theorem audioRecved_cases (h : FilterInv s) (p : PackData) :
    (¬ Wanted s p ∧ (audioRecved s p).1 ≠ .duplicate ∧ (audioRecved s p).2 = s) ∨
    (Wanted s p ∧ (∃ x ∈ lastEight s, x.2 = p.seq) ∧ audioRecved s p = (.duplicate, s)) ∨
    (Wanted s p ∧ (¬ ∃ x ∈ lastEight s, x.2 = p.seq) ∧ (audioRecved s p).1 = .accepted ∧
      (audioRecved s p).2.accepted = p :: s.accepted ∧ FilterInv (audioRecved s p).2) := by
  unfold audioRecved Wanted
  by_cases hmode : s.ucastAudio ∨ s.mixCast
  · rw [if_pos hmode]
    refine .inl ⟨fun hw => hw.1 hmode, ?_, rfl⟩
    split_ifs <;> exact Fate.noConfusion
  rw [if_neg hmode]
  by_cases hsub : s.channel.subscription0 = 0 ∧ s.channel.subscription1 = 0
  · rw [if_pos hsub]
    exact .inl ⟨fun hw => hw.2.1 hsub, Fate.noConfusion, rfl⟩
  rw [if_neg hsub]
  by_cases htag : Interested s.channel p.tag
  swap
  · rw [if_pos htag]
    exact .inl ⟨fun hw => htag hw.2.2.1, Fate.noConfusion, rfl⟩
  rw [if_neg (not_not_intro htag)]
  by_cases hlen : p.size ≤ p.len
  swap
  · rw [if_pos hlen]
    exact .inl ⟨fun hw => hlen hw.2.2.2, Fate.noConfusion, rfl⟩
  rw [if_neg (not_not_intro hlen)]
  refine .inr ?_
  rcases recentTest_spec h p.seq with ⟨hin, ht⟩ | ⟨hin, r', ht, hr'⟩
  · rw [ht]
    exact .inl ⟨⟨hmode, hsub, htag, hlen⟩, mem_ring.mp hin, rfl⟩
  · rw [ht]
    exact .inr ⟨⟨hmode, hsub, htag, hlen⟩, mem_ring.not.mp hin, rfl, rfl, hr'⟩

theorem filter_inv (h : FilterInv s) (hs : step o s e = some s') : FilterInv s' := by
  cases e with
  | audio p =>
    cases hs
    rcases audioRecved_cases h p with ⟨-, -, hs⟩ | ⟨-, -, hs⟩ | ⟨-, -, -, -, hI⟩
    · rw [hs]
      exact h
    · rw [hs]
      exact h
    · exact hI
  | tag tagId =>
    cases hs
    exact h
  | call e =>
    obtain ⟨r, -, rfl⟩ := Option.map_eq_some_iff.mp hs
    exact h

/-- A number that is kept for the packet's own stream is that of a packet that was accepted. -/
theorem repeats_of_own {x : Mark} (hx : x ∈ lastEight s) (hstream : x.1 = some (stream p))
    (hseq : x.2 = p.seq) : Repeats s p := by
  rcases mem_of_mem_window hx with hx | rfl
  · obtain ⟨q, hq, rfl⟩ := List.mem_map.mp hx
    exact ⟨q, hq, Option.some.inj hstream, hseq⟩
  · cases hstream

theorem justified_step (h : FilterInv s) (e : Event) : Justified s e ↔ NotBorrowed s e := by
  cases e with
  | audio p =>
    constructor
    · rintro hj hw ⟨x, hx, -, hseq⟩
      rcases audioRecved_cases h p with ⟨hn, -⟩ | ⟨-, -, hd⟩ | ⟨-, hn, -⟩
      · exact absurd hw hn
      · exact hj (congrArg Prod.fst hd)
      · exact absurd ⟨x, hx, hseq⟩ hn
    · intro hn hd
      rcases audioRecved_cases h p with ⟨-, hf, -⟩ | ⟨hw, ⟨x, hx, hseq⟩, -⟩ | ⟨-, -, hf, -⟩
      · exact absurd hd hf
      · by_cases hstream : x.1 = some (stream p)
        · exact repeats_of_own hx hstream hseq
        · exact hn hw ⟨x, hx, hstream, hseq⟩
      · rw [hf] at hd
        cases hd
  | _ => exact Iff.rfl

end Filter

/-! ## Runs -/

section Runs
variable (o : Opts) (ucastAudio mixCast : Bool) (tagId : ℤ) (channel : Receiver)

/-- **Only repetitions are dropped** along a run exactly if no new packet has a number that the ring
keeps of another stream, or a zero of its start. -/
theorem onlyRepeats_iff (es : List Event) :
    Guarded (step o) Justified (init ucastAudio mixCast tagId channel) es ↔
      Guarded (step o) NotBorrowed (init ucastAudio mixCast tagId channel) es :=
  guarded_congr (I := FilterInv) (fun _ _ _ h hs => filter_inv h hs)
    (fun _ e h => justified_step h e) (filter_init ucastAudio mixCast tagId channel)

/-- The packet is of the stream `k`, and has been numbered by `++qseq`. -/
def Numbered (k : Byte × BitVec 32) (p : PackData) : Prop := stream p = k ∧ p.seq ≠ 0

/-- **One sender** on one tag: then only repetitions are dropped. -/
theorem onlyRepeats_of_numbered {k : Byte × BitVec 32} {es : List Event}
    (hes : ∀ e ∈ es, ∀ p, e = .audio p → Numbered k p) :
    Guarded (step o) Justified (init ucastAudio mixCast tagId channel) es := by
  refine (onlyRepeats_iff o ucastAudio mixCast tagId channel es).mpr ?_
  refine guarded_of_forall (I := fun s => FilterInv s ∧ ∀ q ∈ s.accepted, Numbered k q)
    (fun s e s' hI hE hs => ?_) (fun s e hI hE => ?_)
    ⟨filter_init ucastAudio mixCast tagId channel, fun _ hq => absurd hq List.not_mem_nil⟩ hes
  · refine ⟨filter_inv hI.1 hs, ?_⟩
    cases e with
    | audio p =>
      cases hs
      rcases audioRecved_cases hI.1 p with ⟨-, -, hs⟩ | ⟨-, -, hs⟩ | ⟨-, -, -, hacc, -⟩
      · rw [hs]
        exact hI.2
      · rw [hs]
        exact hI.2
      · rw [hacc]
        exact List.forall_mem_cons.mpr ⟨hE p rfl, hI.2⟩
    | tag tagId =>
      cases hs
      exact hI.2
    | call e =>
      obtain ⟨r, -, rfl⟩ := Option.map_eq_some_iff.mp hs
      exact hI.2
  · cases e with
    | audio p =>
      rintro - ⟨x, hx, hother, hseq⟩
      obtain ⟨hk, hne⟩ := hE p rfl
      rcases mem_of_mem_window hx with hx | rfl
      · obtain ⟨q, hq, rfl⟩ := List.mem_map.mp hx
        exact absurd (congrArg some ((hI.2 q hq).1.trans hk.symm)) hother
      · exact absurd hseq.symm hne
    | tag tagId => trivial
    | call e => trivial

end Runs

/-- A packet without samples. -/
def packet (tag : Byte) (d seq : ℕ) : PackData :=
  ⟨BitVec.ofNat 32 d, BitVec.ofNat 32 seq, PackType.audio.val, tag, 0, []⟩

/-- Device 101 speaks on channel 1.  The client switches to channel 2, and drops the first packet
that device 102 sends there. -/
def switched : List Event :=
  [.call (.reg 1), .audio (packet 1 101 1), .call (.sub 2 0), .audio (packet 2 102 1)]

theorem others_number :
    ¬ Guarded (step ⟨false, true⟩) Justified (init false false 1 Channel.init) switched := by
  decide

end GSConferencing.Client.AudioDups
