import GSConferencing.Serv.BufferRuns
import GSConferencing.Serv.NetMixer

/-!
# Packets and microphone sessions

The fifo of a device outlives the session of its microphone: `tag_rm_outstanding` leaves the
packets that wait in it.  The machine of the receivers and the mixing threads is run together with
the server's, and its history tells how often each microphone has been opened and in which session
each waiting packet was received.

* `step_flow`, `opens_of_step`: what a step does to a fifo, and what opens a microphone.
* `fresh_along`: as long as a microphone is opened only while its fifo is empty, what is mixed was
  received in the session it is mixed in.
* `stale_mixed`: a packet of the first session is mixed in the second.
-/

namespace GSConferencing.Serv.MicSessions

open GSConferencing.Include.Pack GSConferencing.Include.Cfifo GSConferencing.Lib.Ring
open GSConferencing.Lib.CyclicList GSConferencing.Lib.Run
open GSConferencing.Serv.Strutil GSConferencing.Serv.CmdHandler GSConferencing.Serv.Dev
open GSConferencing.Serv.Tag GSConferencing.Serv.Ptc GSConferencing.Serv.Discuss
open GSConferencing.Serv.Devctl
open GSConferencing.Serv.Server (Db recoverServer heartbeat heartbeatGod cmdSwitchTag)
open GSConferencing.Serv.OpenRuns (client request)
open GSConferencing.Serv.OpenView (ne_of_update)
open GSConferencing.Serv.NetMixer (Core core HasNet core_setDev_other core_tagRmOutstanding
  core_tagAddOutstanding core_openit core_closeit core_delOpen core_kickUser core_requestPost
  core_ptcPush core_heartbeat core_doDevActivate discctrl_rule steady_switchTag)
open GSConferencing.Serv.Packet GSConferencing.Serv.Mixing
open GSConferencing.Serv.Buffers (recvAudio mixPut packRecv recvDatagram udpGet audioConnect connGet
  connRecv repack disconnect fill setUdp setConn start)

variable {k : ℕ}

/-! ## The machine -/

/-- The state with its history. -/
structure Session (k : ℕ) where
  st : State k
  /-- How often the microphone of a device has been opened. -/
  sess : ℤ → ℕ
  /-- For each packet in the fifo of a device, the session it was received in. -/
  rcvd : ℤ → List (Option ℕ)

def opn (s : State k) (d : ℤ) : ℤ := (s.srv.dev d).discussOpen

/-- The history after a step: a microphone that opens begins a session, a packet that is put in
belongs to the session of the open microphone, and packets leave at the front. -/
def Session.note (x : Session k) (s' : State k) : Session k where
  st := s'
  sess d := if opn x.st d = 0 ∧ opn s' d ≠ 0 then x.sess d + 1 else x.sess d
  rcvd d :=
    if (x.st.fifo d).len < (s'.fifo d).len then
      x.rcvd d ++ [if opn x.st d ≠ 0 then some (x.sess d) else none]
    else (x.rcvd d).drop ((x.st.fifo d).len - (s'.fifo d).len)

/-- A step of a receiver or of a mixing thread. -/
def isIo : Buffers.Event → Bool
  | .control _ => false
  | _ => true

/-- A command, a heartbeat or a visit of the heartbeat thread, or a step of a receiver or of a
mixing thread. -/
inductive Event where
  | server (e : Server.Event)
  | io (e : Buffers.Event) (he : isIo e = true)

def step (x : Session k) : Event → Option (Session k)
  | .server e => (Server.step x.st.srv e).map fun srv => x.note { x.st with srv := srv }
  | .io e _ => (Buffers.step x.st e).map x.note

/-- The start: nothing has been received. -/
def begin (k : ℕ) (srv : Server) (opts : Opts) (mem : Buf k → Packet) : Session k where
  st := start k srv opts mem
  sess _ := 0
  rcvd _ := []

/-! ## The property and the condition -/

/-- **What the thread of a tag takes** from the fifo of an open device was received in the same
session. -/
def Fresh (x : Session k) : Prop :=
  ∀ t i is pp d, (x.st.cast t).pc = .pick (i :: is) pp → (x.st.srv.tag t).mixDevs i = some d →
    ¬ (x.st.fifo d).empty → opn x.st d ≠ 0 → (x.rcvd d).head? = some (some (x.sess d))

/-- The command puts a closed device through. -/
def Opens (s : Server) (cmd : Cmd) : Prop :=
  cmd.deviceId ∈ s.devs ∧ (s.dev cmd.deviceId).discussOpen = 0 ∧
    cmd.args.head? = some "request".toList ∧ (∃ p, cmd.args[1]? = some p ∧ atoi p ≠ 0) ∧
    admission s (s.dev cmd.deviceId).tag cmd.deviceId ≠ some .reject

instance (s : Server) (cmd : Cmd) : Decidable (Opens s cmd) :=
  have : Decidable (∃ p, cmd.args[1]? = some p ∧ atoi p ≠ 0) :=
    decidable_of_iff (∃ p ∈ cmd.args[1]?, atoi p ≠ 0) Iff.rfl
  inferInstanceAs (Decidable (_ ∧ _ ∧ _ ∧ _ ∧ _))

/-- A microphone that is opened has nothing left in its fifo. -/
def Drained (x : Session k) : Event → Prop
  | .server (.discctrl cmd) => Opens x.st.srv cmd → (x.st.fifo cmd.deviceId).empty
  | _ => True

instance (x : Session k) : ∀ e, Decidable (Drained x e)
  | .server (.discctrl _) => inferInstanceAs (Decidable (_ → _))
  | .server (.switchTag _) => .isTrue trivial
  | .server (.heartbeat _) => .isTrue trivial
  | .server (.heartbeatGod _) => .isTrue trivial
  | .io _ _ => .isTrue trivial

/-! ## The fifos -/

section Flow
variable {s s' : State k} {d t : ℤ}

/-- No fifo gets longer, and no microphone is opened or closed. -/
def Less (s s' : State k) : Prop :=
  ∀ d, (s'.fifo d).len ≤ (s.fifo d).len ∧ opn s' d = opn s d

theorem Less.refl (s : State k) : Less s s := fun _ => ⟨le_rfl, rfl⟩

theorem Less.trans {s₁ : State k} (h : Less s s₁) (h' : Less s₁ s') : Less s s' := fun d =>
  ⟨(h' d).1.trans (h d).1, (h' d).2.trans (h d).2⟩

/-- A step that leaves fifos and devices alone. -/
theorem less_of_eq (hfifo : s'.fifo = s.fifo) (hsrv : (core s'.srv).opn = (core s.srv).opn) :
    Less s s' := fun d => ⟨by rw [hfifo], congrFun hsrv d⟩

theorem less_srv {srv : Server} (h : (core srv).opn = (core s.srv).opn) :
    Less s { s with srv := srv } := less_of_eq rfl h

theorem opn_seated {c c' : Core} {d : ℤ} (h : c.Seated d c') : c'.opn = c.opn := by
  cases h <;> rfl

theorem opn_tagRmOutstanding (s : Server) (t d : ℤ) :
    (core (tagRmOutstanding s t d)).opn = (core s).opn := by
  rw [core_tagRmOutstanding]
  split
  · unfold Core.release
    cases ((core s).seat d 0).resource d <;> rfl
  · rfl

theorem opn_timeouts (s : Server) (d : ℤ) (n : ℤ) :
    (core (s.setDev d fun D => { D with timeouts := n })).opn = (core s).opn := by
  rw [core_setDev_other _ _ _ rfl rfl rfl]

theorem opn_tagUpdateDevTimeouts (fifo : ℤ → Fifo (Option (Buf k)) 5) (t : ℤ)
    (is : List (Fin 8)) (s : Server) :
    (core (tagUpdateDevTimeouts fifo t is s)).opn = (core s).opn := by
  induction is generalizing s with
  | nil => rfl
  | cons i is ih =>
    rw [tagUpdateDevTimeouts, ih]
    split
    · rfl
    · simp only []
      split_ifs
      · rw [opn_tagRmOutstanding, core_setDev_other _ _ _ rfl rfl rfl]
      · rw [core_setDev_other _ _ _ rfl rfl rfl]
      · exact opn_timeouts ..

theorem less_packFree {o : Option (Buf k)} (h : s.packFree o = some s') : Less s s' := by
  cases o with
  | none => cases h
  | some b =>
    obtain ⟨P, -, rfl⟩ := Option.map_eq_some_iff.mp h
    exact less_of_eq rfl rfl

/-- One packet less. -/
theorem outFifo_len (h : ¬ (s.fifo d).empty) :
    ((outFifo s d).fifo d).len + 1 = (s.fifo d).len := by
  rw [← length_contents, ← length_contents, contents_out h, List.length_cons]
  simp only [outFifo, State.setFifo, Function.update_self, contents_writeOut]

theorem outFifo_other {d' : ℤ} (h : d' ≠ d) : (outFifo s d).fifo d' = s.fifo d' :=
  Function.update_of_ne h ..

theorem less_outFifo (h : ¬ (s.fifo d).empty) : Less s (outFifo s d) := by
  intro d'
  refine ⟨?_, rfl⟩
  by_cases hd : d' = d
  · subst hd
    have := outFifo_len h
    omega
  · rw [outFifo_other hd]

theorem not_empty_of_len (h : 0 < (s.fifo d).len) : ¬ (s.fifo d).empty := by
  rw [empty_iff, ← List.length_eq_zero_iff, length_contents]
  omega

theorem less_dropFronts {n : ℕ} (hn : n ≤ (s.fifo d).len) (h : dropFronts d n s = some s') :
    Less s s' := by
  induction n generalizing s with
  | zero => cases h; exact .refl _
  | succ n ih =>
    obtain ⟨s₁, hs₁, h⟩ := Option.bind_eq_some_iff.mp h
    have hne := not_empty_of_len (s := s) (d := d) (by omega)
    have hfree : s₁.fifo = (outFifo s d).fifo := by
      unfold dropQueueFront at hs₁
      cases hget : (s.fifo d).getOut with
      | none => rw [hget] at hs₁; cases hs₁
      | some b =>
        rw [hget] at hs₁
        obtain ⟨P, -, rfl⟩ := Option.map_eq_some_iff.mp hs₁
        rfl
    have hlen := outFifo_len hne
    refine ((less_outFifo hne).trans (less_packFree hs₁)).trans (ih ?_ h)
    rw [hfree]
    omega

theorem less_flushQueue (h : flushQueue s d = some s') : Less s s' :=
  less_dropFronts (Nat.sub_le _ 1) h

theorem less_flushAllQueues {is : List (Fin 8)} (h : flushAllQueues t is s = some s') :
    Less s s' := by
  induction is generalizing s with
  | nil => cases h; exact .refl _
  | cons i is ih =>
    unfold flushAllQueues at h
    split at h
    · exact ih h
    · obtain ⟨s₁, hs₁, h⟩ := Option.bind_eq_some_iff.mp h
      exact (less_flushQueue hs₁).trans (ih h)

theorem less_flushSlot {i : Fin 8} (h : flushSlot s t i = some s') : Less s s' := by
  unfold flushSlot at h
  split at h
  · cases h; exact .refl _
  · rename_i d _
    simp only [] at h
    split_ifs at h
    · exact less_flushQueue h
    · exact (less_of_eq rfl rfl : Less s (s.setHighload d (s.highload d + 1))).trans
        (less_flushQueue h)
    · cases h; exact less_of_eq rfl rfl
    · cases h; exact less_of_eq rfl rfl

/-- A thread that goes on. -/
theorem Less.goto (h : Less s s') (t : ℤ) (pc : Pc k) : Less s (s'.goto t pc) := h

theorem less_mixGet (s : State k) (t : ℤ) : Less s (mixGet s t) := by
  unfold mixGet
  split
  · exact .refl _
  · split_ifs
    · exact (Less.refl s).goto _ _
    · exact (Less.refl s).goto _ _
    · exact .refl _

theorem less_waitTurn (s : State k) (t : ℤ) (n : ℕ) : Less s (waitTurn s t n) := by
  unfold waitTurn
  split
  · simp only []
    split_ifs
    · exact (Less.refl s).goto _ _
    · exact (less_srv (opn_tagUpdateDevTimeouts ..)).goto _ _
    · exact (less_srv (opn_tagUpdateDevTimeouts ..)).goto _ _
  · split_ifs <;> exact (Less.refl s).goto _ _
  · split <;> exact (Less.refl s).goto _ _

theorem less_waitRefTurn (h : waitRefTurn s t d = some s') : Less s s' := by
  unfold waitRefTurn at h
  simp only [] at h
  split_ifs at h
  · cases h; exact (Less.refl s).goto _ _
  · obtain ⟨s₁, hs₁, rfl⟩ := Option.map_eq_some_iff.mp h
    refine ((less_srv ?_).trans (less_flushAllQueues hs₁)).goto _ _
    rw [opn_tagRmOutstanding, core_setDev_other _ _ _ rfl rfl rfl]
  · cases h; exact less_srv (by rw [core_setDev_other _ _ _ rfl rfl rfl])
  · cases h; exact (less_srv (opn_timeouts ..)).goto _ _

theorem less_pickSlot {i : Fin 8} {is : List (Fin 8)} {pp : List (Buf k)}
    (h : pickSlot s t i is pp = some s') : Less s s' := by
  rcases pickSlot_cases h with ⟨-, rfl⟩ | ⟨d, b, r, -, hne, -, hr, hcase⟩
  · exact (Less.refl s).goto _ _
  · have hfifo : r.fifo = s.fifo := by rw [hr]
    have hheard : Less s r := hr ▸ less_srv (opn_timeouts ..)
    have hout : Less s (outFifo r d) := hheard.trans (less_outFifo (hfifo ▸ hne))
    rcases hcase with ⟨-, s₁, hs₁, rfl⟩ | ⟨-, rfl⟩
    · exact (hout.trans (less_packFree hs₁)).goto _ _
    · exact hout

theorem less_checkSilence {p : Buf k} {silent : Bool} (h : checkSilence s t p silent = some s') :
    Less s s' := by
  rcases checkSilence_cases h with ⟨-, n, s₁, hs₁, rfl⟩ | ⟨-, n, rfl⟩
  · exact ((less_of_eq rfl rfl).trans (less_packFree hs₁)).goto _ _
  · exact less_of_eq rfl rfl

/-- **A mixing thread** puts nothing into a fifo. -/
theorem less_mixStep {silent : Bool} (h : mixStep s t silent = some s') : Less s s' := by
  unfold mixStep at h
  split at h
  · cases h; exact less_mixGet s t
  · cases h; exact (Less.refl s).goto _ _
  · obtain ⟨s₁, hs₁, rfl⟩ := Option.map_eq_some_iff.mp h
    exact (less_flushSlot hs₁).goto _ _
  · cases h; exact less_waitTurn s t _
  · exact less_waitRefTurn h
  · exact less_pickSlot h
  · cases h; exact (Less.refl s).goto _ _
  · cases h; exact (Less.refl s).goto _ _
  · obtain ⟨s₁, hs₁, rfl⟩ := Option.map_eq_some_iff.mp h
    exact (less_packFree hs₁).goto _ _
  · exact less_checkSilence h
  · obtain ⟨s₁, hs₁, rfl⟩ := Option.map_eq_some_iff.mp h
    refine Less.goto ?_ _ _
    unfold outdatePack at hs₁
    split at hs₁
    · cases hs₁; exact less_of_eq rfl rfl
    · rename_i p _ _ _ _
      have hkeep : Less s (keepPack (tagCastPack s t p) t p) := less_of_eq rfl rfl
      exact hkeep.trans (less_packFree hs₁)

/-- What a step does to the fifos: nothing is put in, or one packet of an open device. -/
def Flow (s s' : State k) : Prop :=
  ∀ d, opn s' d = opn s d ∧ ((s'.fifo d).len ≤ (s.fifo d).len ∨
    ((s'.fifo d).len = (s.fifo d).len + 1 ∧ opn s d ≠ 0))

theorem Less.flow (h : Less s s') : Flow s s' := fun d => ⟨(h d).2, .inl (h d).1⟩

theorem flow_recvAudio (s : State k) (d : ℤ) (b : Buf k) : Flow s (recvAudio s d b).2 := by
  unfold recvAudio
  split_ifs with hdis hopn
  · exact (Less.refl s).flow
  · exact (Less.refl s).flow
  · unfold mixPut
    split
    · exact (Less.refl s).flow
    · unfold tagInDevPacket
      split_ifs with hbit hfull
      · exact (Less.refl s).flow
      · exact (Less.refl s).flow
      · intro d'
        refine ⟨rfl, ?_⟩
        by_cases hd : d' = d
        · subst hd
          refine .inr ⟨?_, fun h => hopn (.inr h)⟩
          rw [← length_contents, ← length_contents]
          simp only [State.setFifo, Function.update_self]
          rw [contents_put hfull, List.length_append, List.length_singleton]
        · refine .inl (le_of_eq ?_)
          simp only [State.setFifo, Function.update_of_ne hd]

theorem flow_packRecv (s : State k) (b : Buf k) : Flow s (packRecv s b).2 := by
  have hbeat : ∀ d, Flow s { s with srv := heartbeat s.srv d } := fun d =>
    (less_srv (by rw [core_heartbeat])).flow
  unfold packRecv
  simp only []
  split_ifs
  · exact hbeat _
  · exact flow_recvAudio s _ b
  · exact (Less.refl s).flow
  · exact (Less.refl s).flow
  · exact (Less.refl s).flow
  · exact hbeat _
  · exact (Less.refl s).flow

/-- Fifos and devices are all that counts. -/
theorem Flow.congr {s₁ s₁' : State k} (h : Flow s s') (hf : s₁.fifo = s.fifo)
    (hsrv : s₁.srv = s.srv) (hf' : s₁'.fifo = s'.fifo) (hsrv' : s₁'.srv = s'.srv) :
    Flow s₁ s₁' := by
  intro d
  unfold opn
  rw [hf, hsrv, hf', hsrv']
  exact h d

theorem flow_fill (s : State k) (b : Buf k) (bytes : List Byte) :
    Flow s (packRecv (fill s b bytes) b).2 :=
  (flow_packRecv (fill s b bytes) b).congr rfl rfl rfl rfl

/-- **A step of a receiver or of a mixing thread.** -/
theorem step_flow {e : Buffers.Event} (he : isIo e = true)
    (h : Buffers.step s e = some s') : Flow s s' := by
  cases e with
  | control srv => cases he
  | mix t silent =>
    unfold Buffers.step at h
    simp only [] at h
    split_ifs at h
    · exact (less_mixStep h).flow
    · cases h; exact (Less.refl s).flow
  | udpGet =>
    cases h
    unfold udpGet
    split <;> exact (less_of_eq rfl rfl).flow
  | datagram bytes =>
    cases h
    unfold recvDatagram
    split
    · exact (Less.refl s).flow
    · simp only []
      split_ifs
      · exact (Less.refl s).flow
      · exact flow_fill s _ _
      · exact (flow_fill s _ _).congr rfl rfl rfl rfl
  | connect c d =>
    cases h
    unfold audioConnect
    split
    · exact (Less.refl s).flow
    · split_ifs <;> exact (less_of_eq rfl rfl).flow
  | connGet c =>
    cases h
    unfold connGet
    split
    · split_ifs <;> exact (less_of_eq rfl rfl).flow
    · exact (Less.refl s).flow
  | recv c bytes =>
    cases h
    unfold connRecv
    split
    · exact (Less.refl s).flow
    · split_ifs <;> exact (less_of_eq rfl rfl).flow
  | repack c =>
    cases h
    unfold repack
    split
    · exact (Less.refl s).flow
    · split
      · exact (Less.refl s).flow
      · split_ifs
        · exact (Less.refl s).flow
        · exact (flow_fill s _ _).congr rfl rfl rfl rfl
        · exact (less_of_eq rfl rfl).flow
  | disconnect c =>
    cases h
    unfold disconnect
    split
    · exact (Less.refl s).flow
    · split_ifs <;> exact (less_of_eq rfl rfl).flow

end Flow

/-! ## What opens a microphone -/

section Opening
variable {s s' : Server} {t d x : ℤ}

theorem opn_closed (s : Server) (d : ℤ) : (if HasNet s d then ((core s).closed d).release d else
    (core s).closed d).opn = Function.update (core s).opn d 0 := by
  split
  · unfold Core.release
    cases ((core s).closed d).resource d <;> rfl
  · rfl

theorem opn_openit (h : openit s t d = some s') :
    (core s').opn = Function.update (core s).opn d 1 := opn_seated (core_openit h)

/-- **A request** opens no microphone but that of its sender, if it is not rejected. -/
theorem opens_of_request {cmd : Cmd} {p : Str} {l : List Str} {r : Reply Server}
    (h : discctrlRequest s cmd d (p :: l) = some r) (hx : (core s).opn x = 0)
    (hx' : (core r.2.2).opn x ≠ 0) :
    x = d ∧ atoi p ≠ 0 ∧ admission s (s.dev d).tag d ≠ some .reject := by
  have hsame : (core r.2.2).opn ≠ (core s).opn := fun e => hx' (by rw [e, hx])
  unfold discctrlRequest at h
  rw [nextArg_cons] at h
  simp only [] at h
  split_ifs at h with heq ha ha
  · obtain ⟨s₁, hs₁, h⟩ := Option.bind_eq_some_iff.mp h
    refine absurd ?_ hsame
    rw [core_requestPost h, core_ptcPush hs₁]
    exact opn_seated (core_tagAddOutstanding s _ d)
  · exact absurd (congrArg Core.opn (core_requestPost h)) hsame
  · obtain ⟨adm, hadm, h⟩ := Option.bind_eq_some_iff.mp h
    have hupd : ∀ {s₁ s₂ : Server}, openit s₁ (s.dev d).tag d = some s₂ →
        core r.2.2 = core s₂ → (∀ y, (core s₁).opn y ≠ 0 → (core s).opn y ≠ 0) → x = d := by
      intro s₁ s₂ hs₂ hv hle
      rw [hv, opn_openit hs₂] at hx'
      by_contra hne
      rw [Function.update_of_ne hne] at hx'
      exact hle x hx' hx
    cases adm with
    | reject => cases h; exact absurd rfl hsame
    | openit =>
      obtain ⟨s₁, hs₁, h⟩ := Option.bind_eq_some_iff.mp h
      exact ⟨hupd hs₁ (core_requestPost h) fun _ => id, ha, by rw [hadm]; nofun⟩
    | kick k =>
      obtain ⟨s₁, hs₁, h⟩ := Option.bind_eq_some_iff.mp h
      obtain ⟨s₂, hs₂, h⟩ := Option.bind_eq_some_iff.mp h
      refine ⟨hupd hs₂ (core_requestPost h) fun y hy => ?_, ha, by rw [hadm]; nofun⟩
      rw [core_kickUser, core_closeit hs₁, opn_closed] at hy
      exact (ne_of_update hy).2
  · obtain ⟨s₁, hs₁, h⟩ := Option.bind_eq_some_iff.mp h
    rw [core_requestPost h, core_closeit hs₁, opn_closed] at hx'
    exact absurd hx (ne_of_update hx').2

/-- **A `discctrl` command** opens a microphone only as `Opens` says. -/
theorem opens_of_discctrl {cmd : Cmd} {r : Reply Server} (h : cmdDiscctrl s cmd = some r)
    (hx : (core s).opn x = 0) (hx' : (core r.2.2).opn x ≠ 0) : x = cmd.deviceId ∧ Opens s cmd := by
  refine discctrl_rule (s := s) (P := fun o => o = some r → x = cmd.deviceId ∧ Opens s cmd) cmd
    (fun o ho he => absurd (by rw [ho r he, hx]) hx') (fun hd p l hargs he => ?_) h
  obtain ⟨hxd, hp, hadm⟩ := opens_of_request he hx hx'
  subst hxd
  exact ⟨rfl, hd, hx, by rw [hargs]; rfl, ⟨p, by rw [hargs]; rfl, hp⟩, hadm⟩

/-- **A step of the server** opens no microphone but by a command. -/
theorem opens_of_step {e : Server.Event} (h : Server.step s e = some s')
    (hx : (core s).opn x = 0) (hx' : (core s').opn x ≠ 0) :
    ∃ cmd, e = .discctrl cmd ∧ x = cmd.deviceId ∧ Opens s cmd := by
  have hsame : core s' ≠ core s := fun e => hx' (by rw [e, hx])
  cases e with
  | discctrl cmd =>
    obtain ⟨r, hr, rfl⟩ := Option.map_eq_some_iff.mp h
    exact ⟨cmd, rfl, opens_of_discctrl hr hx hx'⟩
  | switchTag cmd =>
    obtain ⟨r, hr, rfl⟩ := Option.map_eq_some_iff.mp h
    exact absurd (steady_switchTag cmd r hr) hsame
  | heartbeat d =>
    cases h
    exact absurd (core_heartbeat ..) hsame
  | heartbeatGod d =>
    have hbeat : core (s.setDev d fun D => { D with hbeat := D.hbeat + 1 }) = core s :=
      core_setDev_other _ _ _ rfl rfl rfl
    replace h : heartbeatGod s d = some s' := h
    unfold heartbeatGod at h
    simp only [] at h
    split_ifs at h
    · rw [core_delOpen h, opn_closed, core_doDevActivate, hbeat] at hx'
      exact absurd hx (ne_of_update hx').2
    · cases h; exact absurd ((core_doDevActivate ..).trans hbeat) hsame
    · cases h; exact absurd hbeat hsame
    · cases h; exact absurd rfl hsame

end Opening

/-! ## Runs -/

section Runs
variable {x x' : Session k} {e : Event}

/-- The history covers the fifos, and the packets of an open device belong to its session. -/
def Inv (x : Session k) : Prop :=
  ∀ d, (x.rcvd d).length = (x.st.fifo d).len ∧
    (opn x.st d ≠ 0 → ∀ r ∈ x.rcvd d, r = some (x.sess d))

theorem fresh_of_inv (h : Inv x) : Fresh x := by
  intro t i is pp d _ _ hne ho
  obtain ⟨hlen, hall⟩ := h d
  have hpos : (x.rcvd d).length ≠ 0 := by
    rw [hlen, ← length_contents, ne_eq, List.length_eq_zero_iff, ← empty_iff]
    exact hne
  obtain ⟨r, l, hl⟩ := List.exists_cons_of_ne_nil fun h0 : x.rcvd d = [] =>
    hpos (by rw [h0]; rfl)
  rw [hl, List.head?_cons, hall ho r (hl ▸ List.mem_cons_self)]

theorem io_inv {s' : State k} (h : Inv x) (hflow : Flow x.st s') : Inv (x.note s') := by
  intro d
  obtain ⟨hlen, hall⟩ := h d
  obtain ⟨hopn, hfifo⟩ := hflow d
  have hsess : (x.note s').sess d = x.sess d := if_neg fun ⟨h₁, h₂⟩ => h₂ (hopn.trans h₁)
  rw [hsess]
  show ((x.note s').rcvd d).length = (s'.fifo d).len ∧ (opn s' d ≠ 0 → _)
  rw [hopn]
  rcases hfifo with hle | ⟨hput, ho⟩
  · have hrcvd : (x.note s').rcvd d =
        (x.rcvd d).drop ((x.st.fifo d).len - (s'.fifo d).len) := if_neg (by omega)
    rw [hrcvd, List.length_drop]
    exact ⟨by omega, fun ho r hr => hall ho r (List.mem_of_mem_drop hr)⟩
  · have hrcvd : (x.note s').rcvd d = x.rcvd d ++ [some (x.sess d)] :=
      (if_pos (by omega)).trans (by rw [if_pos ho])
    rw [hrcvd, List.length_append, List.length_singleton]
    refine ⟨by omega, fun ho r hr => ?_⟩
    rcases List.mem_append.mp hr with hr | hr
    · exact hall ho r hr
    · exact List.mem_singleton.mp hr

/-- A command that opens a microphone finds its fifo empty. -/
theorem server_inv {e : Server.Event} {srv : Server} (h : Inv x) (hg : Drained x (.server e))
    (hstep : Server.step x.st.srv e = some srv) : Inv (x.note { x.st with srv := srv }) := by
  intro d
  obtain ⟨hlen, hall⟩ := h d
  have hrcvd : (x.note { x.st with srv := srv }).rcvd d = x.rcvd d := by
    show (if (x.st.fifo d).len < (x.st.fifo d).len then _ else
      (x.rcvd d).drop ((x.st.fifo d).len - (x.st.fifo d).len)) = _
    rw [if_neg (by omega), Nat.sub_self, List.drop_zero]
  rw [hrcvd]
  refine ⟨hlen, fun ho r hr => ?_⟩
  by_cases hopen : opn x.st d = 0
  · obtain ⟨cmd, rfl, rfl, hopens⟩ := opens_of_step hstep hopen ho
    have hempty := hg hopens
    rw [empty_iff, ← List.length_eq_zero_iff, length_contents, ← hlen,
      List.length_eq_zero_iff] at hempty
    rw [hempty] at hr
    cases hr
  · have hsess : (x.note { x.st with srv := srv }).sess d = x.sess d := if_neg fun h => hopen h.1
    rw [hsess]
    exact hall hopen r hr

theorem step_inv (h : Inv x) (hg : Drained x e) (hs : step x e = some x') : Inv x' := by
  cases e with
  | server e =>
    obtain ⟨srv, hsrv, rfl⟩ := Option.map_eq_some_iff.mp hs
    exact server_inv h hg hsrv
  | io e he =>
    obtain ⟨s', hs', rfl⟩ := Option.map_eq_some_iff.mp hs
    exact io_inv h (step_flow he hs')

theorem begin_inv (srv : Server) (opts : Opts) (mem : Buf k → Packet) :
    Inv (begin k srv opts mem) := by
  intro d
  refine ⟨?_, fun _ r hr => absurd hr List.not_mem_nil⟩
  show 0 = (Fifo.new none : Fifo (Option (Buf k)) 5).len
  rw [← length_contents, contents_new]
  rfl

/-- **No stale audio**, in every run that opens a microphone only while its fifo is empty. -/
theorem fresh_along {srv : Server} {opts : Opts} {mem : Buf k → Packet} {es : List Event}
    (hg : Guarded step Drained (begin k srv opts mem) es) :
    Along step Fresh (begin k srv opts mem) es :=
  along_of_guarded (I := Inv) (E := fun _ => True) (fun _ => fresh_of_inv)
    (fun _ _ _ h _ hg hs => step_inv h hg hs) (begin_inv srv opts mem) (fun _ _ => trivial) hg

end Runs

/-! ## One client -/

theorem oneClient_nodup : ([101] : List ℤ).Nodup := by decide

/-- The client 101, with the soft mixer. -/
def oneClient : Db where
  group := { discussMode := 0, discussMaxuser := 0, discussId := 0 }
  table := [101]
  nodup := oneClient_nodup
  row := fun _ => client 1
  discuss := []
  optMixer := .soft

/-- A datagram of `PACKET_AUDIO` from the device 101. -/
def audio : List Byte := [0, 0, 0, 101, 0, 0, 0, 0, PackType.audio.val, 0, 0, 0]

def waitAll : Opts := { flush := false, syncPolicy := .wait, silenceDrop := false }

def emptyPacket : Packet := { repCount := 0, len := 0, data := .ofBytes [] }

/-- A step of the thread of the tag 1, and one of the receiver. -/
def mix : Event := .io (.mix 1 false) rfl
def get : Event := .io .udpGet rfl
def recv : Event := .io (.datagram audio) rfl

def booted : Server := (recoverServer oneClient).get (by decide)

def first : Session packOrder := begin packOrder booted waitAll fun _ => emptyPacket

/-- The device speaks, and what it said is mixed before its microphone is closed and opened. -/
theorem fresh_along_drained : Along step Fresh first
    [get, .server (request 101 "1"), recv, mix, mix, mix, .server (request 101 "0"),
      .server (request 101 "1"), mix] :=
  fresh_along (by decide +kernel)

/-- What the thread of the tag 1 is about to take from the fifo of 101, and the session. -/
def picked (x : Session k) : Option (Option (Option ℕ) × ℕ) :=
  match (x.st.cast 1).pc with
  | .pick (i :: _) _ =>
    if (x.st.srv.tag 1).mixDevs i = some 101 ∧ ¬ (x.st.fifo 101).empty ∧ opn x.st 101 ≠ 0 then
      some ((x.rcvd 101).head?, x.sess 101)
    else none
  | _ => none

theorem picked_eq {x : Session k} (h : Fresh x) {r : Option (Option ℕ)} {n : ℕ}
    (hp : picked x = some (r, n)) : r = some (some n) := by
  unfold picked at hp
  split at hp
  · rename_i i is pp hpc
    split_ifs at hp with hc
    cases hp
    exact h 1 i is pp 101 hpc hc.1 hc.2.1 hc.2.2
  · cases hp

/-- The device speaks, closes its microphone before the packet is mixed, and opens it again. -/
def reopening : List Event :=
  [get, .server (request 101 "1"), recv, .server (request 101 "0"), .server (request 101 "1"),
    mix, mix]

/-- **Stale audio:** in the second session the packet of the first is mixed. -/
theorem picked_reopening :
    (run step first reopening).map picked = some (some (some (some 1), 2)) := by
  decide +kernel

theorem stale_mixed : ¬ ∀ db srv, recoverServer db = some srv → ∀ opts mem es,
    Along step Fresh (begin packOrder srv opts mem) es := by
  intro h
  have halong := h oneClient booted (Option.some_get _).symm waitAll (fun _ => emptyPacket)
    reopening
  obtain ⟨x, hfresh, hp⟩ := halong.observed picked_reopening
  exact absurd (picked_eq hfresh hp) (by decide)

end GSConferencing.Serv.MicSessions
