import GSConferencing.Serv.MixFrame
import GSConferencing.Serv.Repeat

/-!
# The repeat window in the server

The receivers and the mixing threads of `Buffers` with the repeat requests of one tag: what they do
leaves the ring of the tag alone, as `Repeat` takes it.

* `step_reading`: an event of the server changes neither the ring nor the packets in it, but for the
  cast of the tag's own thread.
* `goOn_of_step`: so it is one of the steps of the others in `Repeat`.
* `step_server`: the requests aside, the machine is the one of `Buffers`.
* `Served`: what each step of the server has to do for the requests.
* `windowed_guarded`: the repeat window, in every run in which no buffer is lost.
-/

namespace GSConferencing.Serv.RepeatRuns

open GSConferencing.Include.Pack GSConferencing.Include.Cfifo GSConferencing.Lib.Places
open GSConferencing.Lib.Run
open GSConferencing.Serv.Dev GSConferencing.Serv.Packet GSConferencing.Serv.Mixing
open GSConferencing.Serv.Buffers (fill start newCast)
open GSConferencing.Serv.MixFrame GSConferencing.Serv.Repeat
open GSConferencing.Serv.BufferRuns (holding NoLeak)

variable {k : ℕ} {s s' : State k} {t : ℤ} {b : Buf k}

/-! ## The ring and its packets -/

/-- What is left alone: the ring of the tag, and the packets `R`. -/
def reading (R : List (Buf k)) (t : ℤ) (s : State k) :
    BitVec 32 × (Fin (2 ^ 4) → Option (Buf k)) × Fin (2 ^ 4) × ({b // b ∈ R} → Packet) :=
  ((s.cast t).seq, (s.cast t).repPack, (s.cast t).repPos, fun b => s.mem b)

section Reading
variable {R : List (Buf k)}

theorem reading_setMem (hb : b ∉ R) (s : State k) (f : Packet → Packet) :
    reading R t (s.setMem b f) = reading R t s := by
  have hmem : (fun x : {x // x ∈ R} => (s.setMem b f).mem x) = fun x : {x // x ∈ R} => s.mem x := by
    funext ⟨x, hx⟩
    have hne : x ≠ b := by
      rintro rfl
      exact hb hx
    exact Function.update_of_ne hne ..
  unfold reading
  rw [hmem]
  rfl

/-- What else a thread keeps. -/
theorem reading_setCast (s : State k) {t' : ℤ} {T : TagCast k} (hseq : T.seq = (s.cast t').seq)
    (hpack : T.repPack = (s.cast t').repPack) (hpos : T.repPos = (s.cast t').repPos) :
    reading R t (s.setCast t' T) = reading R t s := by
  unfold reading
  by_cases ht : t = t'
  · subst ht
    rw [show (s.setCast t T).cast t = T from Function.update_self .., hseq, hpack, hpos]
    rfl
  · rw [show (s.setCast t' T).cast t = s.cast t from Function.update_of_ne ht ..]
    rfl

theorem reading_goto (s : State k) (t' : ℤ) (pc : Pc k) :
    reading R t (s.goto t' pc) = reading R t s :=
  reading_setCast s rfl rfl rfl

end Reading

/-- A packet that is somewhere else is not in the ring. -/
theorem not_ring_of_holding (h : BufferRuns.Inv s) {p : BufferRuns.Place} (hp : p ≠ .ring t)
    (hb : b ∈ holding s p) : b ∉ ring s t :=
  h.1.not_mem hb hp.symm

/-- A packet in a queue. -/
theorem not_ring_of_fifo (h : BufferRuns.Inv s) {d : ℤ} (hne : ¬ (s.fifo d).empty)
    (hget : (s.fifo d).getOut = some b) : b ∉ ring s t := by
  refine not_ring_of_holding (p := .fifo d) h (by simp) ?_
  show b ∈ (s.fifo d).contents.reduceOption
  rw [contents_out hne, hget, List.reduceOption_cons_of_some]
  exact List.mem_cons_self

/-- A packet that a receiver fills. -/
theorem not_ring_of_receiver (h : BufferRuns.Inv s)
    (hb : s.udp = some b ∨ ∃ c C, s.conns c = some C ∧ C.pack = some b) : b ∉ ring s t := by
  rcases hb with hb | ⟨c, C, hC, hb⟩
  · refine not_ring_of_holding (p := .udp) h (by simp) ?_
    show b ∈ s.udp.toList
    rw [hb]
    exact List.mem_singleton.mpr rfl
  · refine not_ring_of_holding (p := .conn c) h (by simp) ?_
    show b ∈ ((s.conns c).bind Conn.pack).toList
    rw [hC, Option.bind_some, hb]
    exact List.mem_singleton.mpr rfl

/-- The thread of another tag. -/
theorem cast_reading {p : Buf k} {t' : ℤ} (ht : t ≠ t') (hp : p ∉ ring s t)
    (h : outdatePack (tagCastPack s t' p) t' p = some s') :
    reading (ring s t) t s' = reading (ring s t) t s := by
  have hset : ∀ (s₁ : State k) T, reading (ring s t) t (s₁.setCast t' T) =
      reading (ring s t) t s₁ := fun s₁ T => by
    simp only [reading, State.setCast, Function.update_of_ne ht]
  have htag : reading (ring s t) t (tagCastPack s t' p) = reading (ring s t) t s := by
    unfold tagCastPack
    rw [reading_setMem hp, hset]
  have hkeep : reading (ring s t) t (keepPack (tagCastPack s t' p) t' p) =
      reading (ring s t) t (tagCastPack s t' p) := by
    unfold keepPack
    rw [hset, reading_setMem hp]
  unfold outdatePack at h
  split at h
  · cases h
    exact hkeep.trans htag
  · exact (packFree_same (fun _ _ => rfl) h).trans (hkeep.trans htag)

/-- The packet that the thread of the tag casts at an event. -/
def castOf (s : State k) (t : ℤ) : Buffers.Event → Option (Buf k)
  | .mix t' _ =>
    match (s.cast t).pc with
    | .cast p => if t' = t ∧ t ∈ s.srv.tags then some p else none
    | _ => none
  | _ => none

/-- **What the others do:** they leave the ring and its packets alone. -/
theorem step_reading (h : BufferRuns.Inv s) {e : Buffers.Event} (hcast : castOf s t e = none)
    (hs : Buffers.step s e = some s') : reading (ring s t) t s' = reading (ring s t) t s := by
  cases e with
  | mix t' silent =>
    simp only [Buffers.step] at hs
    split_ifs at hs with htags
    · by_cases hpc : ∃ p, (s.cast t').pc = .cast p
      · obtain ⟨p, hp⟩ := hpc
        have hhand : p ∈ holding s (.mixer t') := by
          show p ∈ (s.cast t').pc.hands
          rw [hp]
          exact List.mem_singleton.mpr rfl
        have ht : t ≠ t' := by
          rintro rfl
          simp [castOf, hp, htags] at hcast
        unfold mixStep at hs
        rw [hp] at hs
        obtain ⟨s₁, hs₁, rfl⟩ := Option.map_eq_some_iff.mp hs
        rw [reading_goto]
        exact cast_reading ht (not_ring_of_holding h (by simp) hhand) hs₁
      · push Not at hpc
        exact mixStep_same (fun _ _ => rfl) (fun _ _ _ => rfl) (fun _ _ => rfl)
          (fun s pc => reading_goto s t' pc) (fun _ _ _ => rfl)
          (fun d b hne hget s => reading_setMem (not_ring_of_fifo h hne hget) ..)
          (fun s n => reading_setCast s rfl rfl rfl) hpc hs
    · cases hs
      rfl
  | control srv =>
    cases hs
    rfl
  | _ =>
    exact receive_same (fun _ _ _ => rfl) (fun _ _ => rfl) (fun _ _ => rfl) (fun _ _ => rfl)
      (fun _ _ _ => rfl) (fun b hb s bytes => reading_setMem (not_ring_of_receiver h hb) ..)
      (by simp) (by simp) hs

/-- A state that has kept the ring, and freed nothing of it, is one that `goOn` reaches. -/
theorem goOn_eq (hfree : ∀ b ∈ ring s t, ¬ s'.pools.IsFree b)
    (h : reading (ring s t) t s' = reading (ring s t) t s) : goOn s s' t = s' := by
  obtain ⟨hseq, h⟩ := Prod.mk.inj h
  obtain ⟨hpack, h⟩ := Prod.mk.inj h
  obtain ⟨hpos, hmem⟩ := Prod.mk.inj h
  have hold : (fun b => if b ∈ ring s t then s.mem b else s'.mem b) = s'.mem := by
    funext b
    split_ifs with hb
    · exact (congrFun hmem ⟨b, hb⟩).symm
    · rfl
  rw [goOn, if_pos hfree, hold, ← hseq, ← hpack, ← hpos, Function.update_eq_self]

theorem ring_eq (h : reading (ring s t) t s' = reading (ring s t) t s) :
    ring s' t = ring s t :=
  congrArg slots (Prod.mk.inj (Prod.mk.inj h).2).1

/-- Nothing in the ring is free. -/
theorem ring_inUse (h : BufferRuns.Inv s) (hb : b ∈ ring s t) : ¬ s.pools.IsFree b := by
  intro hf
  exact not_ring_of_holding (p := .free) h (by simp) (mem_free.mpr hf) hb

/-- **A step of the server** that casts nothing of the tag is a step of the others. -/
theorem goOn_of_step (h : BufferRuns.Inv s) {e : Buffers.Event} (hcast : castOf s t e = none)
    (hs : Buffers.step s e = some s') (h' : BufferRuns.Inv s') : goOn s s' t = s' := by
  have hsame := step_reading h hcast hs
  exact goOn_eq (fun b hb => ring_inUse h' (ring_eq hsame ▸ hb)) hsame

/-! ## The server with the requests -/

/-- What happens next. -/
inductive Event where
  | server (e : Buffers.Event)
  | request (d : ℤ) (seq : BitVec 32)
  | repeats

def step (o : CastOpts) (t : ℤ) (x : Thread k) : Event → Option (Thread k)
  | .server e =>
    match castOf x.st t e with
    | some p => (castPack t x p).map fun x' => { x' with st := x'.st.goto t .get }
    | none => (Buffers.step x.st e).map fun s => { x with st := s }
  | .request d seq => some (tagReqRepeat o x d seq)
  | .repeats => some (tagRepeats o t x)

/-- **What a step has to do:** the packet that the thread of the tag has is cast, and at any other
event of the server the window is left alone. -/
def Served (o : CastOpts) (t : ℤ) (x : Thread k) : Event → Thread k → Prop
  | .server e, x' =>
    match castOf x.st t e with
    | some p => CastNext t x p x'
    | none => LeftAlone t x x'
  | .request d seq, x' => Requested o x (d, seq) x'
  | .repeats, x' => Turn o t x x'

/-- No event of the server loses a buffer. -/
def Sound (x : Thread k) : Event → Prop
  | .server e => NoLeak x.st e
  | _ => True

section Steps
variable {o : CastOpts} {x : Thread k}

theorem castOf_eq_some {e : Buffers.Event} {p : Buf k} (h : castOf s t e = some p) :
    (s.cast t).pc = .cast p ∧
      Buffers.step s e = (outdatePack (tagCastPack s t p) t p).map (·.goto t .get) := by
  cases e with
  | mix t' silent =>
    unfold castOf at h
    dsimp only at h
    split at h
    · next q hq =>
      split_ifs at h with htag
      obtain rfl := Option.some.inj h
      obtain ⟨rfl, htags⟩ := htag
      refine ⟨hq, ?_⟩
      simp only [Buffers.step, if_pos htags, mixStep, hq]
    · cases h
  | _ => cases h

/-- **The requests aside,** the machine is that of the buffers. -/
theorem step_server (e : Buffers.Event) :
    (step o t x (.server e)).map Thread.st = Buffers.step x.st e := by
  unfold step
  dsimp only
  cases hcast : castOf x.st t e with
  | none =>
    dsimp only
    rw [Option.map_map]
    exact Option.map_id_apply
  | some p =>
    dsimp only
    rw [(castOf_eq_some hcast).2, castPack, Option.map_map, Option.map_map]
    rfl

/-- The window and the buffers. -/
structure Inv (t : ℤ) (x : Thread k) : Prop where
  window : Repeat.Inv t x
  buffers : BufferRuns.Inv x.st

/-- The search changes no more than the packets. -/
theorem repeatLoop_mem (s : State k) (t : ℤ) (seq : BitVec 32) (n : ℕ) :
    ∃ mem, (repeatLoop s t seq n).1 = { s with mem := mem } := by
  induction n with
  | zero => exact ⟨s.mem, rfl⟩
  | succ n ih =>
    unfold repeatLoop
    split
    · exact ih
    · dsimp only
      split_ifs
      · exact ⟨_, rfl⟩
      · exact ⟨s.mem, rfl⟩
      · exact ih

theorem tagRepeats_buffers (h : BufferRuns.Inv x.st) : BufferRuns.Inv (tagRepeats o t x).st := by
  unfold tagRepeats
  split_ifs
  · exact h
  · exact h
  · obtain ⟨mem, hmem⟩ := repeatLoop_mem x.st t x.repReqs.getOut.2 repCastSize
    dsimp only
    rw [repeatCast, hmem]
    exact h

theorem tagReqRepeat_st (d : ℤ) (seq : BitVec 32) : (tagReqRepeat o x d seq).st = x.st := by
  unfold tagReqRepeat
  split_ifs <;> rfl

/-- The thread goes on to the next packet. -/
theorem castNext_goto {p : Buf k} {x' : Thread k} (h : CastNext t x p x') (pc : Pc k) :
    CastNext t x p { x' with st := x'.st.goto t pc } := by
  refine ⟨h.log, ?_, h.reqs, h.freed⟩
  show (Function.update x'.st.cast t { x'.st.cast t with pc := pc } t).seq = _
  rw [Function.update_self, h.seq]

/-- **The step lemma.** -/
theorem step_served (h : Inv t x) (e : Event) (hg : Sound x e) :
    ∃ x', step o t x e = some x' ∧ Served o t x e x' ∧ Inv t x' := by
  cases e with
  | request d seq =>
    obtain ⟨hserved, hI⟩ := tagReqRepeat_spec h.window d seq
    refine ⟨_, rfl, hserved, hI, ?_⟩
    rw [tagReqRepeat_st]
    exact h.buffers
  | repeats =>
    obtain ⟨hserved, hI⟩ := tagRepeats_spec h.window
    exact ⟨_, rfl, hserved, hI, tagRepeats_buffers h.buffers⟩
  | server e =>
    obtain ⟨s', hs', hI⟩ := BufferRuns.step_inv h.buffers hg
    have hst := step_server (o := o) (t := t) (x := x) e
    rw [hs'] at hst
    obtain ⟨x', hx', rfl⟩ := Option.map_eq_some_iff.mp hst
    refine ⟨x', hx', ?_⟩
    unfold step at hx'
    unfold Served
    dsimp only at hx' ⊢
    cases hcast : castOf x.st t e with
    | none =>
      rw [hcast] at hx'
      obtain ⟨s, hs, rfl⟩ := Option.map_eq_some_iff.mp hx'
      have hgo := goOn_spec h.window s
      rw [goOn_of_step h.buffers hcast hs hI] at hgo
      exact ⟨hgo.1, hgo.2, hI⟩
    | some p =>
      rw [hcast] at hx'
      obtain ⟨x₁, hx₁, rfl⟩ := Option.map_eq_some_iff.mp hx'
      obtain ⟨x₂, hx₂, hnext, hW⟩ :=
        castPack_spec h.window (owned_of_conserved h.buffers.1 (castOf_eq_some hcast).1)
      obtain rfl := Option.some.inj (hx₂.symm.trans hx₁)
      have hsame : goOn x₂.st (x₂.st.goto t .get) t = x₂.st.goto t .get :=
        goOn_eq (fun b hb => hW.ring_inUse hb) (reading_goto ..)
      exact ⟨castNext_goto hnext .get, hsame ▸ (goOn_spec hW (x₂.st.goto t .get)).2, hI⟩

end Steps

theorem start_inv (srv : Server) (opts : Opts) (mem : Buf k → Packet) (t : ℤ) :
    Inv t (Repeat.start (start k srv opts mem) t) := by
  have hst : (Repeat.start (start k srv opts mem) t).st = start k srv opts mem := by
    simp only [Repeat.start]
    rw [show newCast k = (start k srv opts mem).cast t from rfl, Function.update_eq_self]
  refine ⟨inv_start _ t, ?_⟩
  rw [hst]
  exact BufferRuns.start_inv

/-- **The repeat window** of every tag, in every run of the server that loses no buffer. -/
theorem windowed_guarded (o : CastOpts) (srv : Server) (opts : Opts) (mem : Buf k → Packet) (t : ℤ)
    (es : List Event)
    (hes : Guarded (step o t) Sound (Repeat.start (start k srv opts mem) t) es) :
    Stepwise (step o t) (Served o t) (Repeat.start (start k srv opts mem) t) es ∧
      Always (step o t) InUse (Repeat.start (start k srv opts mem) t) es := by
  have hstart := start_inv srv opts mem t
  constructor
  · exact stepwise_of_guarded (I := Inv t) (fun _ e h hg => step_served h e hg) hstart hes
  · refine always_of_guarded (I := Inv t) (E := fun _ => True) (fun _ h => h.window.inUse) ?_
      hstart (fun _ _ => trivial) hes
    intro x e h _ hg
    obtain ⟨x', hx', -, h'⟩ := step_served h e hg
    exact ⟨x', hx', h'⟩

end GSConferencing.Serv.RepeatRuns
