import GSConferencing.Serv.Buffers
import GSConferencing.Serv.OpenRuns

/-!
# Buffers are conserved

Every buffer is in exactly one place: free, with a receiver, in the fifo of a device, in the hands
of a mixing thread or in the ring of a tag.  A step moves a buffer from one place to another, but
for two leaks: `pack_recv` keeps a buffer whose type it does not know, and the thread of an audio
connection ends without freeing its own.

* `mixStep_inv`: the mixing threads lose nothing and free nothing twice.
* `conserved_iff`: buffers are conserved exactly in the runs without a leak (`NoLeak`).
* `not_conserved`: a run with either leak.
-/

namespace GSConferencing.Serv.BufferRuns

open GSConferencing.Include.Pack GSConferencing.Include.Cfifo GSConferencing.Lib.Ring
open GSConferencing.Lib.Run GSConferencing.Lib.Places
open GSConferencing.Serv.Dev GSConferencing.Serv.Tag GSConferencing.Serv.Packet
open GSConferencing.Serv.Mixing
open GSConferencing.Serv.Buffers
open GSConferencing.Serv.Server (recoverServer)
open GSConferencing.Serv.OpenRuns (twoClients)

variable {k : ℕ}

/-- Where a buffer may be. -/
inductive Place where
  | free
  | udp
  | conn (c : ℕ)
  | fifo (d : ℤ)
  | mixer (t : ℤ)
  | ring (t : ℤ)
  deriving DecidableEq

/-- The buffers at a place. -/
def holding (s : State k) : Place → List (Buf k)
  | .free => s.pools.free
  | .udp => s.udp.toList
  | .conn c => ((s.conns c).bind Conn.pack).toList
  | .fifo d => (s.fifo d).contents.reduceOption
  | .mixer t => (s.cast t).pc.hands
  | .ring t => slots (s.cast t).repPack

/-- **Every buffer is in exactly one place.** -/
def Conserved (s : State k) : Prop := Exact (holding s)

/-- The fifos hold no null pointers either. -/
def Inv (s : State k) : Prop := Conserved s ∧ ∀ d, none ∉ (s.fifo d).contents

variable {s s' : State k} {c : ℕ} {d t : ℤ} {b : Buf k}

/-! ## What an update changes -/

theorem holding_pools (s : State k) (P : Pools k) :
    holding { s with pools := P } = Function.update (holding s) .free P.free := by
  funext p
  cases p with
  | free => rw [Function.update_self]; rfl
  | _ => rw [Function.update_of_ne (by nofun)]; rfl

theorem holding_setUdp (s : State k) (o : Option (Buf k)) :
    holding (setUdp s o) = Function.update (holding s) .udp o.toList := by
  funext p
  cases p with
  | udp => rw [Function.update_self]; rfl
  | _ => rw [Function.update_of_ne (by nofun)]; rfl

theorem holding_setConn (s : State k) (c : ℕ) (C : Option (Conn k)) :
    holding (setConn s c C) = Function.update (holding s) (.conn c) (C.bind Conn.pack).toList := by
  funext p
  cases p with
  | conn c' =>
    by_cases hc : c' = c
    · subst hc
      rw [Function.update_self]
      simp only [holding, setConn, Function.update_self]
    · rw [Function.update_of_ne fun h => hc (Place.conn.inj h)]
      simp only [holding, setConn, Function.update_of_ne hc]
  | _ => rw [Function.update_of_ne (by nofun)]; rfl

theorem holding_setFifo (s : State k) (d : ℤ) (cf : Fifo (Option (Buf k)) 5) :
    holding (s.setFifo d cf) = Function.update (holding s) (.fifo d) cf.contents.reduceOption := by
  funext p
  cases p with
  | fifo d' =>
    by_cases hd : d' = d
    · subst hd
      rw [Function.update_self]
      simp only [holding, State.setFifo, Function.update_self]
    · rw [Function.update_of_ne fun h => hd (Place.fifo.inj h)]
      simp only [holding, State.setFifo, Function.update_of_ne hd]
  | _ => rw [Function.update_of_ne (by nofun)]; rfl

theorem holding_setCast (s : State k) (t : ℤ) (T : TagCast k) :
    holding (s.setCast t T) = Function.update (Function.update (holding s) (.mixer t) T.pc.hands)
      (.ring t) (slots T.repPack) := by
  funext p
  cases p with
  | mixer t' =>
    rw [Function.update_of_ne (by simp)]
    by_cases ht : t' = t
    · subst ht
      rw [Function.update_self]
      simp only [holding, State.setCast, Function.update_self]
    · rw [Function.update_of_ne fun h => ht (Place.mixer.inj h)]
      simp only [holding, State.setCast, Function.update_of_ne ht]
  | ring t' =>
    by_cases ht : t' = t
    · subst ht
      rw [Function.update_self]
      simp only [holding, State.setCast, Function.update_self]
    · rw [Function.update_of_ne fun h => ht (Place.ring.inj h), Function.update_of_ne (by simp)]
      simp only [holding, State.setCast, Function.update_of_ne ht]
  | _ => rw [Function.update_of_ne (by simp), Function.update_of_ne (by simp)]; rfl

theorem holding_goto (s : State k) (t : ℤ) (pc : Pc k) :
    holding (s.goto t pc) = Function.update (holding s) (.mixer t) pc.hands := by
  unfold State.goto
  rw [holding_setCast]
  refine Function.update_eq_self_iff.mpr ?_
  rw [Function.update_of_ne (by nofun)]
  rfl

/-! ## The queues -/

theorem packFree_some {P : Pools k} (h : s.pools.packFree b = some P) :
    s.packFree (some b) = some { s with pools := P } := by
  rw [State.packFree, h]
  rfl

/-- **A buffer that is held somewhere** can be freed from there. -/
theorem packFree_conserved {s₁ : State k} {p : Place} {l : List (Buf k)} (h : Conserved s)
    (hne : p ≠ .free) (hp : (holding s p).Perm (b :: l))
    (h₁ : holding s₁ = Function.update (holding s) p l) :
    ∃ P, s₁.packFree (some b) = some { s₁ with pools := P } ∧
      Conserved { s₁ with pools := P } := by
  have hfree : s₁.pools.free = holding s .free := by
    have := congrFun h₁ .free
    rwa [Function.update_of_ne hne.symm] at this
  have hb : b ∉ s₁.pools.free := by
    rw [hfree]
    exact h.not_mem (hp.mem_iff.mpr List.mem_cons_self) hne.symm
  obtain ⟨P, hP, hperm⟩ := packFree_perm hb
  refine ⟨P, packFree_some hP, ?_⟩
  rw [Conserved, holding_pools, h₁]
  exact Exact.move h hne hp (hfree ▸ hperm)

/-- What leaves a fifo that is not empty. -/
theorem out_spec (h : Inv s) (hne : ¬ (s.fifo d).empty) :
    ∃ b, (s.fifo d).getOut = some b ∧
      (holding s (.fifo d)).Perm (b :: (s.fifo d).takeOut.contents.reduceOption) ∧
      holding (outFifo s d) =
        Function.update (holding s) (.fifo d) (s.fifo d).takeOut.contents.reduceOption ∧
      ∀ d', none ∉ ((outFifo s d).fifo d').contents := by
  have hcont := contents_out hne
  have hnone := h.2 d
  rw [hcont, List.mem_cons, not_or] at hnone
  obtain ⟨b, hb⟩ := Option.ne_none_iff_exists'.mp (Ne.symm hnone.1)
  refine ⟨b, hb, ?_, ?_, fun d' => ?_⟩
  · show (s.fifo d).contents.reduceOption.Perm _
    rw [hcont, hb, List.reduceOption_cons_of_some]
  · rw [outFifo, holding_setFifo, contents_writeOut]
  · by_cases hd : d' = d
    · subst hd
      simp only [outFifo, State.setFifo, Function.update_self, contents_writeOut]
      exact hnone.2
    · simp only [outFifo, State.setFifo, Function.update_of_ne hd]
      exact h.2 d'

/-- The invariant holds again, and no thread of a tag has moved. -/
def Kept (s s' : State k) : Prop := Inv s' ∧ s'.cast = s.cast

theorem Kept.trans {s₁ s₂ : State k} (h : Kept s s₁) (h' : Kept s₁ s₂) : Kept s s₂ :=
  ⟨h'.1, h'.2.trans h.2⟩

/-- One packet less in the fifo. -/
theorem dropQueueFront_kept (h : Inv s) (hne : 0 < (s.fifo d).len) :
    ∃ s', dropQueueFront s d = some s' ∧ Kept s s' ∧ (s'.fifo d).len + 1 = (s.fifo d).len := by
  have hempty : ¬ (s.fifo d).empty := by
    rw [empty_iff, ← List.length_eq_zero_iff, length_contents]
    omega
  obtain ⟨b, hb, hperm, hhold, hnone⟩ := out_spec h hempty
  obtain ⟨P, hP, hcons⟩ := packFree_conserved h.1 (by nofun) hperm hhold
  refine ⟨{ outFifo s d with pools := P }, ?_, ⟨⟨hcons, hnone⟩, rfl⟩, ?_⟩
  · rw [dropQueueFront, hb, hP]
  · show ((outFifo s d).fifo d).len + 1 = _
    have hlen : (s.fifo d).len = (s.fifo d).takeOut.contents.length + 1 := by
      rw [← length_contents, contents_out hempty, List.length_cons]
    rw [hlen, ← length_contents]
    simp only [outFifo, State.setFifo, Function.update_self, contents_writeOut]

theorem dropFronts_kept {n : ℕ} (h : Inv s) (hn : n ≤ (s.fifo d).len) :
    ∃ s', dropFronts d n s = some s' ∧ Kept s s' := by
  induction n generalizing s with
  | zero => exact ⟨s, rfl, h, rfl⟩
  | succ n ih =>
    obtain ⟨s₁, hs₁, hkept, hlen⟩ := dropQueueFront_kept h (d := d) (by omega)
    obtain ⟨s', hs', hkept'⟩ := ih hkept.1 (by omega)
    exact ⟨s', by rw [dropFronts, hs₁, Option.bind_some, hs'], hkept.trans hkept'⟩

/-- **A flush** frees what leaves the fifo. -/
theorem flushQueue_kept (h : Inv s) : ∃ s', flushQueue s d = some s' ∧ Kept s s' :=
  dropFronts_kept h (Nat.sub_le _ 1)

theorem flushAllQueues_kept (t : ℤ) (is : List (Fin 8)) (h : Inv s) :
    ∃ s', flushAllQueues t is s = some s' ∧ Kept s s' := by
  induction is generalizing s with
  | nil => exact ⟨s, rfl, h, rfl⟩
  | cons i is ih =>
    unfold flushAllQueues
    split
    · exact ih h
    · rename_i d _
      obtain ⟨s₁, hs₁, hkept⟩ := flushQueue_kept h (d := d)
      obtain ⟨s', hs', hkept'⟩ := ih hkept.1
      exact ⟨s', by rw [hs₁, Option.bind_some, hs'], hkept.trans hkept'⟩

theorem flushSlot_kept {i : Fin 8} (h : Inv s) : ∃ s', flushSlot s t i = some s' ∧ Kept s s' := by
  unfold flushSlot
  split
  · exact ⟨s, rfl, h, rfl⟩
  · rename_i d _
    simp only []
    split_ifs
    · exact flushQueue_kept h
    · exact flushQueue_kept (s := s.setHighload d (s.highload d + 1)) h
    · exact ⟨s.setHighload d (s.highload d + 1), rfl, h, rfl⟩
    · exact ⟨s.setHighload d 0, rfl, h, rfl⟩

/-! ## The mixing threads -/

/-- A thread that moves no buffer. -/
theorem setCast_inv {T : TagCast k} (h : Inv s) (hpc : T.pc.hands = (s.cast t).pc.hands)
    (hring : T.repPack = (s.cast t).repPack) : Inv (s.setCast t T) := by
  refine ⟨?_, h.2⟩
  have hmixer : Function.update (holding s) (.mixer t) T.pc.hands = holding s :=
    Function.update_eq_self_iff.mpr hpc
  have hslots : Function.update (holding s) (.ring t) (slots T.repPack) = holding s :=
    Function.update_eq_self_iff.mpr (congrArg slots hring)
  rw [Conserved, holding_setCast, hmixer, hslots]
  exact h.1

/-- A thread goes on with the buffers it has. -/
theorem goto_inv {pc : Pc k} (h : Inv s) (hpc : pc.hands = (s.cast t).pc.hands) :
    Inv (s.goto t pc) := setCast_inv h hpc rfl

/-- A thread that has flushed goes on. -/
theorem Kept.goto {pc pc' : Pc k} (h : Kept s s') (hs : (s.cast t).pc = pc)
    (hpc : pc'.hands = pc.hands) : Inv (s'.goto t pc') :=
  goto_inv h.1 (by rw [h.2, hs, hpc])

/-- A buffer in the hands of the thread is freed. -/
theorem freeHand_inv {pc : Pc k} (h : Inv s)
    (hpc : ((s.cast t).pc.hands).Perm (b :: pc.hands)) :
    ∃ s', (s.packFree (some b)).map (·.goto t pc) = some s' ∧ Inv s' := by
  obtain ⟨P, hP, hcons⟩ := packFree_conserved (p := .mixer t) h.1 (by nofun) hpc
    (holding_goto s t pc)
  refine ⟨{ s with pools := P }.goto t pc, ?_, hcons, h.2⟩
  obtain ⟨P', hP', hs'⟩ := Option.map_eq_some_iff.mp hP
  have hPP : P' = P := congrArg State.pools hs'
  rw [State.packFree, show s.pools.packFree b = some P' from hP', hPP]
  rfl

/-- A thread that waits has no buffer. -/
theorem wait_inv {pc : Pc k} (h : Inv s) (hs : (s.cast t).pc.hands = []) (hpc : pc.hands = [])
    (srv : Server) : Inv ({ s with srv := srv }.goto t pc) :=
  goto_inv (s := { s with srv := srv }) h (hpc.trans hs.symm)

theorem mixGet_inv (h : Inv s) (hpc : (s.cast t).pc = .get) : Inv (mixGet s t) := by
  have hs : (s.cast t).pc.hands = [] := by rw [hpc]; rfl
  unfold mixGet
  split
  · exact h
  · split_ifs
    · exact wait_inv h hs rfl s.srv
    · exact wait_inv h hs rfl s.srv
    · exact h

theorem waitTurn_inv {n : ℕ} (h : Inv s) (hpc : (s.cast t).pc = .wait n) :
    Inv (waitTurn s t n) := by
  have hs : (s.cast t).pc.hands = [] := by rw [hpc]; rfl
  unfold waitTurn
  split
  · simp only []
    split_ifs <;> exact wait_inv h hs rfl _
  · split_ifs <;> exact wait_inv h hs rfl s.srv
  · split <;> exact wait_inv h hs rfl s.srv

theorem waitRefTurn_inv (h : Inv s) (hpc : (s.cast t).pc = .waitRef d) :
    ∃ s', waitRefTurn s t d = some s' ∧ Inv s' := by
  have hs : (s.cast t).pc.hands = [] := by rw [hpc]; rfl
  unfold waitRefTurn
  simp only []
  split_ifs
  · exact ⟨_, rfl, wait_inv h hs rfl s.srv⟩
  · obtain ⟨s₁, hs₁, hkept⟩ := flushAllQueues_kept t allSlots
      (s := { s with
        srv := tagRmOutstanding (s.srv.setDev d fun D => { D with timeouts := D.timeouts + 1 })
          t d }) h
    exact ⟨s₁.goto t .get, by rw [hs₁]; rfl, hkept.goto hpc rfl⟩
  · exact ⟨_, rfl, h⟩
  · exact ⟨_, rfl, wait_inv h hs rfl _⟩

/-- **A packet leaves its fifo** for the hands of the thread, or is freed. -/
theorem addMixPack_inv {is : List (Fin 8)} {pp : List (Buf k)} (h : Inv s)
    (hs : (s.cast t).pc.hands = pp) (hne : ¬ (s.fifo d).empty) :
    ∃ s', addMixPack s t d is pp = some s' ∧ Inv s' := by
  obtain ⟨b, hb, hperm, hhold, hnone⟩ := out_spec h hne
  unfold addMixPack
  rw [hb]
  simp only []
  split_ifs
  · obtain ⟨P, hP, hcons⟩ := packFree_conserved h.1 (by nofun) hperm hhold
    rw [hP]
    exact ⟨_, rfl, goto_inv ⟨hcons, hnone⟩ hs.symm⟩
  · have hmixer : (pp ++ [b]).Perm (b :: holding s (.mixer t)) := by
      show (pp ++ [b]).Perm (b :: (s.cast t).pc.hands)
      rw [hs]
      exact List.perm_append_singleton b pp
    have hmove := Exact.move h.1 (by simp) hperm hmixer
    refine ⟨_, rfl, ?_, hnone⟩
    rw [Conserved, holding_goto]
    rw [← hhold] at hmove
    exact hmove

theorem pickSlot_inv {i : Fin 8} {is : List (Fin 8)} {pp : List (Buf k)} (h : Inv s)
    (hpc : (s.cast t).pc = .pick (i :: is) pp) :
    ∃ s', pickSlot s t i is pp = some s' ∧ Inv s' := by
  have hs : (s.cast t).pc.hands = pp := by rw [hpc]; rfl
  unfold pickSlot
  split
  · exact ⟨_, rfl, goto_inv h hs.symm⟩
  · rename_i d _
    split_ifs with hempty
    · exact ⟨_, rfl, goto_inv h hs.symm⟩
    · exact addMixPack_inv
        (s := { s with srv := s.srv.setDev d fun D => { D with timeouts := 0 } }) h hs hempty

theorem checkSilence_inv {p : Buf k} {silent : Bool} (h : Inv s)
    (hpc : (s.cast t).pc = .mixed p []) :
    ∃ s', checkSilence s t p silent = some s' ∧ Inv s' := by
  have hs : (s.cast t).pc.hands = [p] := by rw [hpc]; rfl
  have hcount : ∀ n, Inv (s.setCast t { s.cast t with mixSilence := n }) ∧
      ((s.setCast t { s.cast t with mixSilence := n }).cast t).pc.hands = [p] := by
    intro n
    refine ⟨setCast_inv h rfl rfl, ?_⟩
    simp only [State.setCast, Function.update_self, hs]
  unfold checkSilence
  simp only []
  split_ifs
  · exact freeHand_inv (hcount _).1 ((hcount _).2 ▸ List.Perm.refl _)
  · exact ⟨_, rfl, goto_inv (hcount _).1 (hcount _).2.symm⟩
  · exact ⟨_, rfl, goto_inv (hcount _).1 (hcount _).2.symm⟩
  · exact ⟨_, rfl, goto_inv h hs.symm⟩

theorem holding_keepPack (s : State k) (t : ℤ) (p : Buf k) :
    holding ((keepPack s t p).goto t .get) =
      Function.update (Function.update (holding s) (.mixer t) []) (.ring t)
        (slots (Function.update (s.cast t).repPack (s.cast t).repPos (some p))) := by
  unfold keepPack
  rw [holding_goto, holding_setCast, Function.update_comm (by nofun), Function.update_idem]
  rfl

/-- **The packet that was cast** goes into the ring, and the one that leaves the ring is freed. -/
theorem outdatePack_inv {p : Buf k} (h : Inv s) (hpc : (s.cast t).pc = .cast p) :
    ∃ s', (outdatePack s t p).map (·.goto t .get) = some s' ∧ Inv s' := by
  have hs : (holding s (.mixer t)).Perm (p :: []) := by
    show ((s.cast t).pc.hands).Perm _
    rw [hpc]
    exact List.Perm.refl _
  have hring := slots_update (s.cast t).repPack (s.cast t).repPos (some p)
  have hold := slots_update (s.cast t).repPack (s.cast t).repPos
    ((s.cast t).repPack (s.cast t).repPos)
  rw [Function.update_eq_self] at hold
  unfold outdatePack
  split
  · rename_i hnone
    refine ⟨_, rfl, ?_, h.2⟩
    rw [hnone] at hold
    rw [Conserved, holding_keepPack]
    exact Exact.move h.1 (by nofun) hs (hring.trans (hold.symm.cons p))
  · rename_i out hout
    have hfree : out ∉ s.pools.free :=
      Exact.not_mem h.1 (p := .ring t) (q := .free) (mem_slots.mpr ⟨_, hout⟩) (by nofun)
    obtain ⟨P, hP, hperm⟩ := packFree_perm hfree
    refine ⟨{ keepPack s t p with pools := P }.goto t .get, ?_, ?_, h.2⟩
    · rw [packFree_some (s := keepPack s t p) hP]
      rfl
    · show Exact (holding { (keepPack s t p).goto t .get with pools := P })
      rw [hout] at hold
      rw [holding_pools, holding_keepPack]
      exact Exact.replace h.1 (by nofun) (by nofun) (by nofun) hs hold hring hperm

/-- **A step of a mixing thread** keeps every buffer in one place. -/
theorem mixStep_inv (t : ℤ) (silent : Bool) (h : Inv s) :
    ∃ s', mixStep s t silent = some s' ∧ Inv s' := by
  unfold mixStep
  split
  · rename_i hpc
    exact ⟨_, rfl, mixGet_inv h hpc⟩
  · rename_i hpc
    exact ⟨_, rfl, goto_inv h (by rw [hpc]; rfl)⟩
  · rename_i i is hpc
    obtain ⟨s₁, hs₁, hkept⟩ := flushSlot_kept h (t := t) (i := i)
    exact ⟨s₁.goto t (.flush is), by rw [hs₁]; rfl, hkept.goto hpc rfl⟩
  · rename_i n hpc
    exact ⟨_, rfl, waitTurn_inv h hpc⟩
  · rename_i d hpc
    exact waitRefTurn_inv h hpc
  · rename_i i is pp hpc
    exact pickSlot_inv h hpc
  · rename_i hpc
    exact ⟨_, rfl, goto_inv h (by rw [hpc]; rfl)⟩
  · rename_i p pp hpc
    exact ⟨_, rfl, goto_inv h (by rw [hpc]; rfl)⟩
  · rename_i p q pp hpc
    refine freeHand_inv h ?_
    rw [hpc]
    exact List.Perm.swap ..
  · rename_i p hpc
    exact checkSilence_inv h hpc
  · rename_i p hpc
    have hseq : Inv (tagCastPack s t p) := setCast_inv h rfl rfl
    refine outdatePack_inv hseq ?_
    simp only [tagCastPack, State.setCast, State.setMem, Function.update_self, hpc]

/-! ## `pack_recv` -/

/-- `pack_recv` has a case for the type. -/
def HasCase (type : Byte) : Prop :=
  type = PackType.hbeat.val ∨ type = PackType.audio.val ∨ type = PackType.audioZero.val ∨
    type = PackType.repeatReq.val ∨ type = PackType.video.val

instance (type : Byte) : Decidable (HasCase type) := inferInstanceAs (Decidable (_ ∨ _))

/-- A registered device sends a type that `pack_recv` has no case for. -/
def Unhandled (s : State k) (p : PackData) : Prop := packDev p ∈ s.srv.devs ∧ ¬ HasCase p.type

/-- What `pack_recv` does with the buffer: it is given back, put into a fifo, or lost. -/
inductive RecvEffect (s : State k) (b : Buf k) : Bool × State k → Prop where
  | back (srv : Server) (hu : ¬ Unhandled s (s.mem b).data) :
      RecvEffect s b (true, { s with srv := srv })
  | put (d : ℤ) (hu : ¬ Unhandled s (s.mem b).data) (hfull : ¬ (s.fifo d).full) :
      RecvEffect s b (false, s.setFifo d ((s.fifo d).write (some b)).putIn)
  | lost (hu : Unhandled s (s.mem b).data) : RecvEffect s b (false, s)

theorem recvAudio_effect (hu : ¬ Unhandled s (s.mem b).data) :
    RecvEffect s b (recvAudio s d b) := by
  unfold recvAudio
  split_ifs
  · exact .back s.srv hu
  · exact .back s.srv hu
  · unfold mixPut
    split
    · exact .back s.srv hu
    · unfold tagInDevPacket
      split_ifs with hbit hfull
      · exact .back s.srv hu
      · exact .back s.srv hu
      · exact .put d hu hfull

/-- **The buffer is lost** exactly if the type has no case. -/
theorem packRecv_effect (s : State k) (b : Buf k) : RecvEffect s b (packRecv s b) := by
  have hcase : HasCase (s.mem b).data.type → ¬ Unhandled s (s.mem b).data := fun h hu => hu.2 h
  unfold packRecv
  simp only []
  split_ifs with hreg hhb haudio hrep hvideo hhb
  · exact .back _ (hcase (.inl hhb))
  · refine recvAudio_effect (hcase ?_)
    exact haudio.elim (fun h => .inr (.inl h)) fun h => .inr (.inr (.inl h))
  · exact .back s.srv (hcase (.inr (.inr (.inr (.inl hrep)))))
  · exact .back s.srv (hcase (.inr (.inr (.inr (.inr hvideo)))))
  · refine .lost ⟨hreg, ?_⟩
    rintro (h | h | h | h | h)
    · exact hhb h
    · exact haudio (.inl h)
    · exact haudio (.inr h)
    · exact hrep h
    · exact hvideo h
  · exact .back _ fun hu => hreg hu.1
  · exact .back s.srv fun hu => hreg hu.1

/-- A receiver puts its buffer into a fifo. -/
theorem put_inv {p : Place} (h : Inv s) (hp : holding s p = [b]) (hpd : p ≠ .fifo d)
    (hfull : ¬ (s.fifo d).full) :
    Exact (Function.update (holding (s.setFifo d ((s.fifo d).write (some b)).putIn)) p []) ∧
      ∀ d', none ∉ ((s.setFifo d ((s.fifo d).write (some b)).putIn).fifo d').contents := by
  have hput := contents_put hfull (some b)
  constructor
  · rw [holding_setFifo, Function.update_comm hpd.symm]
    refine Exact.move h.1 hpd (List.Perm.of_eq hp) ?_
    rw [hput, List.reduceOption_append]
    exact List.perm_append_comm
  · intro d'
    by_cases hd : d' = d
    · subst hd
      simp only [State.setFifo, Function.update_self, hput, List.mem_append, List.mem_singleton,
        reduceCtorEq, or_false]
      exact h.2 d'
    · simp only [State.setFifo, Function.update_of_ne hd]
      exact h.2 d'

/-! ## The receivers -/

theorem setConn_inv {C : Option (Conn k)} (h : Inv s)
    (hC : (C.bind Conn.pack).toList = holding s (.conn c)) : Inv (setConn s c C) := by
  refine ⟨?_, h.2⟩
  rw [Conserved, holding_setConn, hC]
  exact (Function.update_eq_self (Place.conn c) (holding s)).symm ▸ h.1

theorem udpGet_inv (h : Inv s) : Inv (udpGet s) := by
  unfold udpGet
  split
  · rename_i b P hudp hget
    refine ⟨?_, h.2⟩
    rw [Conserved, holding_setUdp, holding_pools]
    have hempty : holding s .udp = [] := by
      show s.udp.toList = []
      rw [hudp]
      rfl
    exact Exact.move h.1 (by nofun) (packGetFast_perm hget).symm (hempty ▸ List.Perm.refl _)
  · exact h

theorem connGet_inv (h : Inv s) : Inv (connGet s c) := by
  unfold connGet
  split
  · rename_i C b P hconn hget
    split_ifs with hpack
    · refine ⟨?_, h.2⟩
      rw [Conserved, holding_setConn, holding_pools]
      have hempty : holding s (.conn c) = [] := by
        show ((s.conns c).bind Conn.pack).toList = []
        rw [hconn, Option.bind_some, hpack]
        rfl
      exact Exact.move h.1 (by nofun) (packGetNew_perm hget).symm (hempty ▸ List.Perm.refl _)
    · exact h
  · exact h

theorem audioConnect_inv (h : Inv s) : Inv (audioConnect s c d) := by
  unfold audioConnect
  split
  · exact h
  · rename_i hnone
    split_ifs
    · refine setConn_inv h ?_
      show [] = ((s.conns c).bind Conn.pack).toList
      rw [hnone]
      rfl
    · exact h

theorem connRecv_inv {bytes : List Byte} (h : Inv s) : Inv (connRecv s c bytes) := by
  unfold connRecv
  split
  · exact h
  · rename_i C hconn
    split_ifs
    · refine setConn_inv h ?_
      show C.pack.toList = ((s.conns c).bind Conn.pack).toList
      rw [hconn, Option.bind_some]
    · exact h

/-! ## Leaks -/

/-- **No buffer is lost:** `pack_recv` has a case for what a registered device sends, and no audio
connection ends. -/
def NoLeak (s : State k) : Event → Prop
  | .datagram bytes => s.udp ≠ none → headlen ≤ (bytes.take maxpack).length →
      ¬ Unhandled s (.ofBytes (bytes.take maxpack))
  | .repack c => ∀ C, s.conns c = some C → C.pack ≠ none → C.rest ≠ [] →
      (filled C).length = pksize → ¬ Unhandled s (.ofBytes (filled C))
  | .disconnect c => ∀ C, s.conns c = some C → ¬ AtSelect C
  | _ => True

/-- The step kept every buffer, or it is one that loses a buffer. -/
def Settled (s : State k) (e : Event) (s' : State k) : Prop :=
  (NoLeak s e ∧ Inv s') ∨ (¬ NoLeak s e ∧ ¬ Conserved s')

theorem fill_data (s : State k) (b : Buf k) (bytes : List Byte) :
    ((fill s b bytes).mem b).data = .ofBytes bytes := by
  simp only [fill, State.setMem, Function.update_self]

/-- **A datagram** loses the buffer exactly if its type has no case. -/
theorem recvDatagram_settled {bytes : List Byte} (h : Inv s) :
    Settled s (.datagram bytes) (recvDatagram s bytes) := by
  unfold recvDatagram
  split
  · rename_i hudp
    exact .inl ⟨fun hne => absurd hudp hne, h⟩
  · rename_i b hudp
    have hp : holding s .udp = [b] := by
      show s.udp.toList = [b]
      rw [hudp]
      rfl
    by_cases hlen : (bytes.take maxpack).length < headlen
    · simp only [if_pos hlen]
      exact .inl ⟨fun _ hle => absurd hlen (by omega), h⟩
    · simp only [if_neg hlen]
      have hdata := fill_data s b (bytes.take maxpack)
      have heff := packRecv_effect (fill s b (bytes.take maxpack)) b
      generalize packRecv (fill s b (bytes.take maxpack)) b = r at heff
      cases heff with
      | back srv hu => exact .inl ⟨fun _ _ => hdata ▸ hu, h⟩
      | put d hu hfull =>
        refine .inl ⟨fun _ _ => hdata ▸ hu, ?_⟩
        obtain ⟨hcons, hnone⟩ := put_inv (s := fill s b (bytes.take maxpack)) (p := .udp) h hp
          (by simp) hfull
        refine ⟨?_, hnone⟩
        show Conserved (setUdp _ none)
        rw [Conserved, holding_setUdp]
        exact hcons
      | lost hu =>
        refine .inr ⟨fun hg => hg (by simp [hudp]) (by omega) (hdata ▸ hu), ?_⟩
        show ¬ Conserved (setUdp _ none)
        rw [Conserved, holding_setUdp]
        exact Exact.not_dropped (p := .udp) h.1 hp

/-- **A piece of a connection** loses the buffer exactly if it completes a block whose type has no
case. -/
theorem repack_settled (h : Inv s) : Settled s (.repack c) (repack s c) := by
  unfold repack
  split
  · rename_i hconn
    exact .inl ⟨fun C hC => absurd (hconn.symm.trans hC) (by simp), h⟩
  · rename_i C hconn
    have hC : ∀ C', s.conns c = some C' → C' = C := fun C' hC' =>
      Option.some.inj (hC'.symm.trans hconn)
    split
    · rename_i hpack
      refine .inl ⟨fun C' hC' hne => ?_, h⟩
      exact absurd (hC C' hC' ▸ hpack) hne
    · rename_i b hpack
      have hp : holding s (.conn c) = [b] := by
        show ((s.conns c).bind Conn.pack).toList = [b]
        rw [hconn, Option.bind_some, hpack]
        rfl
      split_ifs with hrest hlen
      · refine .inl ⟨fun C' hC' _ hne => ?_, h⟩
        exact absurd (hC C' hC' ▸ hrest) hne
      · have hdata := fill_data s b (filled C)
        have heff := packRecv_effect (fill s b (filled C)) b
        have hgood : ¬ Unhandled s (.ofBytes (filled C)) → NoLeak s (.repack c) := by
          intro hu C' hC' _ _ _
          rw [hC C' hC']
          exact hu
        simp only []
        generalize packRecv (fill s b (filled C)) b = r at heff
        cases heff with
        | back srv hu =>
          refine .inl ⟨hgood (hdata ▸ hu), ?_⟩
          exact setConn_inv (s := { fill s b (filled C) with srv := srv }) h hp.symm
        | put d hu hfull =>
          refine .inl ⟨hgood (hdata ▸ hu), ?_⟩
          obtain ⟨hcons, hnone⟩ := put_inv (s := fill s b (filled C)) (p := .conn c) h hp (by simp)
            hfull
          refine ⟨?_, hnone⟩
          rw [Conserved, holding_setConn]
          exact hcons
        | lost hu =>
          refine .inr ⟨fun hg => hg C hconn (by simp [hpack]) hrest hlen (hdata ▸ hu), ?_⟩
          rw [Conserved, holding_setConn]
          exact Exact.not_dropped h.1 hp
      · refine .inl ⟨fun C' hC' _ _ hlen' => ?_, setConn_inv h ?_⟩
        · exact absurd (hC C' hC' ▸ hlen') hlen
        · show C.pack.toList = holding s (.conn c)
          rw [hp, hpack]
          rfl

/-- **A connection that ends** takes its buffer with it. -/
theorem disconnect_settled (h : Inv s) : Settled s (.disconnect c) (disconnect s c) := by
  unfold disconnect
  split
  · rename_i hconn
    exact .inl ⟨fun C hC => absurd (hconn.symm.trans hC) (by simp), h⟩
  · rename_i C hconn
    split_ifs with hsel
    · obtain ⟨b, hpack⟩ := Option.ne_none_iff_exists'.mp hsel.1
      refine .inr ⟨fun hg => hg C hconn hsel, ?_⟩
      rw [Conserved, holding_setConn]
      refine Exact.not_dropped (b := b) h.1 ?_
      show ((s.conns c).bind Conn.pack).toList = [b]
      rw [hconn, Option.bind_some, hpack]
      rfl
    · refine .inl ⟨fun C' hC' => ?_, h⟩
      rw [hconn] at hC'
      cases hC'
      exact hsel

/-- **One event.** -/
theorem step_settled (s : State k) (e : Event) (h : Inv s) :
    ∃ s', step s e = some s' ∧ Settled s e s' := by
  cases e with
  | udpGet => exact ⟨_, rfl, .inl ⟨trivial, udpGet_inv h⟩⟩
  | datagram bytes => exact ⟨_, rfl, recvDatagram_settled h⟩
  | connect c d => exact ⟨_, rfl, .inl ⟨trivial, audioConnect_inv h⟩⟩
  | connGet c => exact ⟨_, rfl, .inl ⟨trivial, connGet_inv h⟩⟩
  | recv c bytes => exact ⟨_, rfl, .inl ⟨trivial, connRecv_inv h⟩⟩
  | repack c => exact ⟨_, rfl, repack_settled h⟩
  | disconnect c => exact ⟨_, rfl, disconnect_settled h⟩
  | control srv => exact ⟨_, rfl, .inl ⟨trivial, h⟩⟩
  | mix t silent =>
    by_cases ht : t ∈ s.srv.tags
    · simp only [step, if_pos ht]
      obtain ⟨s', hs', hinv⟩ := mixStep_inv t silent h
      exact ⟨s', hs', .inl ⟨trivial, hinv⟩⟩
    · exact ⟨s, if_neg ht, .inl ⟨trivial, h⟩⟩

theorem step_inv {e : Event} (h : Inv s) (hg : NoLeak s e) : ∃ s', step s e = some s' ∧ Inv s' := by
  obtain ⟨s', hs', hset⟩ := step_settled s e h
  exact ⟨s', hs', hset.elim (fun hs => hs.2) fun hs => absurd hg hs.1⟩

theorem leak_not_conserved {e : Event} (h : Inv s) (hg : ¬ NoLeak s e) (hs' : step s e = some s') :
    ¬ Conserved s' := by
  obtain ⟨s₁, hs₁, hset⟩ := step_settled s e h
  obtain rfl := Option.some.inj (hs₁.symm.trans hs')
  exact hset.elim (fun hs => absurd hs.1 hg) fun hs => hs.2

/-! ## Runs -/

section Runs
variable {srv : Server} {opts : Opts} {mem : Buf k → Packet}

/-- At the start every buffer is free. -/
theorem start_inv : Inv (start k srv opts mem) := by
  refine ⟨fun b => ⟨.free, free_init b, fun p hp => ?_⟩, fun d => ?_⟩
  · cases p with
    | free => exact absurd rfl hp
    | udp => exact List.not_mem_nil
    | conn c => exact List.not_mem_nil
    | fifo d =>
      show b ∉ (Fifo.new none : Fifo (Option (Buf k)) 5).contents.reduceOption
      rw [contents_new]
      exact List.not_mem_nil
    | mixer t => exact List.not_mem_nil
    | ring t =>
      show b ∉ slots (newCast k).repPack
      rw [mem_slots]
      rintro ⟨i, hi⟩
      cases hi
  · show none ∉ (Fifo.new none : Fifo (Option (Buf k)) 5).contents
    rw [contents_new]
    exact List.not_mem_nil

/-- **Buffers are conserved** in every run without a leak, and in no other. A call of `pack_recv` is
one step: two receivers are never inside it for the same device. -/
theorem conserved_iff (es : List Event) :
    Always step Conserved (start k srv opts mem) es ↔
      Guarded step NoLeak (start k srv opts mem) es :=
  always_iff_guarded (I := Inv) (E := fun _ => True) (fun _ h => h.1)
    (fun _ _ h _ hg => step_inv h hg) (fun _ _ _ h _ hg hs => leak_not_conserved h hg hs)
    start_inv fun _ _ => trivial

/-- A datagram of `PACKET_ENOUNCE` from the device 101. -/
def enounce : List Byte := [0, 0, 0, 101, 0, 0, 0, 0, PackType.enounce.val, 0, 0, 0]

/-- The type `PACKET_ENOUNCE` loses a buffer, and so does a connection that is opened and closed. -/
theorem not_conserved : ∃ srv, recoverServer twoClients = some srv ∧ ∀ opts mem,
    ¬ Always step Conserved (start packOrder srv opts mem) [.udpGet, .datagram enounce] ∧
    ¬ Always step Conserved (start packOrder srv opts mem)
      [.connect 0 101, .connGet 0, .disconnect 0] := by
  obtain ⟨srv, hsrv, hdev⟩ := Option.map_eq_some_iff.mp
    (show (recoverServer twoClients).map (fun s => decide (101 ∈ s.devs)) = some true by decide)
  replace hdev : 101 ∈ srv.devs := of_decide_eq_true hdev
  refine ⟨srv, hsrv, fun opts mem => ⟨?_, ?_⟩⟩
  · rintro ⟨-, s₁, hs₁, -, s₂, hs₂, hcons⟩
    obtain ⟨⟨b, P⟩, hget⟩ := packGetFast_init packOrder
    have heq : s₁ = setUdp { start packOrder srv opts mem with pools := P } (some b) := by
      refine (Option.some.inj hs₁).symm.trans ?_
      simp only [udpGet, start, hget]
    have hinv : Inv s₁ := (Option.some.inj hs₁) ▸ udpGet_inv start_inv
    refine leak_not_conserved hinv (fun hg => ?_) hs₂ hcons
    refine hg (by rw [heq]; nofun) (by decide) ⟨?_, by decide⟩
    rw [heq, show packDev (.ofBytes (enounce.take maxpack)) = 101 by decide]
    exact hdev
  · rintro ⟨-, s₁, hs₁, -, s₂, hs₂, -, s₃, hs₃, hcons⟩
    obtain ⟨⟨b, P⟩, hget⟩ := packGetNew_init packOrder
    have hinv₁ : Inv s₁ := (Option.some.inj hs₁) ▸ audioConnect_inv start_inv
    have hinv₂ : Inv s₂ := (Option.some.inj hs₂) ▸ connGet_inv hinv₁
    have heq₁ : s₁ = setConn (start packOrder srv opts mem) 0
        (some { pack := none, block := [], rest := [] }) :=
      (Option.some.inj hs₁).symm.trans (if_pos hdev)
    have hconn : s₂.conns 0 = some { pack := some b, block := [], rest := [] } := by
      rw [← Option.some.inj hs₂, heq₁]
      simp only [connGet, setConn, start, Function.update_self, hget, if_true]
    refine leak_not_conserved hinv₂ (fun hg => ?_) hs₃ hcons
    exact hg _ hconn ⟨by nofun, rfl⟩

end Runs

end GSConferencing.Serv.BufferRuns
