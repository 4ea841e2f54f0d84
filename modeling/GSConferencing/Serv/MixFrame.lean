import GSConferencing.Serv.Buffers

/-!
# Readings of the buffers

What a step of the receivers and of a mixing thread leaves alone, for a reading `v` of any type:
what is written is a hypothesis of the section.

* `dropFronts_same`, `flushSlot_same`: the flushes.
* `mixStep_same`: a step of a mixing thread that is not at `tag_cast_pack`.
* `receive_same`: a step of a receiver.
-/

namespace GSConferencing.Serv.MixFrame

open GSConferencing.Include.Pack GSConferencing.Include.Cfifo
open GSConferencing.Serv.Dev GSConferencing.Serv.Packet
open GSConferencing.Serv.Server (heartbeat)
open GSConferencing.Serv.Mixing GSConferencing.Serv.Buffers

variable {k : ℕ} {α : Type*} {v : State k → α} {s s' : State k} {t d : ℤ}

section Pools
variable (hpools : ∀ s P, v { s with pools := P } = v s)
include hpools

theorem packFree_same {o : Option (Buf k)} (h : s.packFree o = some s') : v s' = v s := by
  cases o with
  | none => cases h
  | some b =>
    obtain ⟨P, -, rfl⟩ := Option.map_eq_some_iff.mp h
    exact hpools ..

/-! ## The flushes -/

variable (hfifo : ∀ s d cf, v (s.setFifo d cf) = v s)
include hfifo

theorem dropFronts_same {n : ℕ} (h : dropFronts d n s = some s') : v s' = v s := by
  induction n generalizing s with
  | zero =>
    cases h
    rfl
  | succ n ih =>
    obtain ⟨s₁, hs₁, h⟩ := Option.bind_eq_some_iff.mp h
    rw [ih h, packFree_same hpools hs₁]
    exact hfifo ..

theorem flushAllQueues_same {is : List (Fin 8)} (h : flushAllQueues t is s = some s') :
    v s' = v s := by
  induction is generalizing s with
  | nil =>
    cases h
    rfl
  | cons i is ih =>
    unfold flushAllQueues at h
    split at h
    · exact ih h
    · obtain ⟨s₁, hs₁, h⟩ := Option.bind_eq_some_iff.mp h
      rw [ih h, dropFronts_same hpools hfifo hs₁]

theorem flushSlot_same (hhigh : ∀ s d n, v (s.setHighload d n) = v s) {i : Fin 8}
    (h : flushSlot s t i = some s') : v s' = v s := by
  unfold flushSlot at h
  split at h
  · cases h
    rfl
  · simp only [] at h
    split_ifs at h
    · exact dropFronts_same hpools hfifo h
    · exact (dropFronts_same hpools hfifo h).trans (hhigh ..)
    · cases h
      exact hhigh ..
    · cases h
      exact hhigh ..

/-! ## The mixing thread -/

variable (hsrv : ∀ s x, v { s with srv := x } = v s) (hgoto : ∀ s pc, v (s.goto t pc) = v s)

omit hpools hfifo in
include hgoto in
theorem mixGet_same (s : State k) : v (mixGet s t) = v s := by
  unfold mixGet
  split
  · rfl
  · split_ifs
    · exact hgoto ..
    · exact hgoto ..
    · rfl

omit hpools hfifo in
include hsrv hgoto in
theorem waitTurn_same (s : State k) (n : ℕ) : v (waitTurn s t n) = v s := by
  unfold waitTurn
  split
  · simp only []
    split_ifs
    · exact hgoto ..
    · exact (hgoto ..).trans (hsrv ..)
    · exact (hgoto ..).trans (hsrv ..)
  · split_ifs <;> exact hgoto ..
  · split <;> exact hgoto ..

include hsrv hgoto in
theorem waitRefTurn_same (h : waitRefTurn s t d = some s') : v s' = v s := by
  unfold waitRefTurn at h
  simp only [] at h
  split_ifs at h
  · cases h
    exact hgoto ..
  · obtain ⟨s₁, hs₁, rfl⟩ := Option.map_eq_some_iff.mp h
    rw [hgoto, flushAllQueues_same hpools hfifo hs₁]
    exact hsrv ..
  · cases h
    exact hsrv ..
  · cases h
    exact (hgoto ..).trans (hsrv ..)

include hsrv hgoto in
/-- The packet that is taken is filled with silence. -/
theorem pickSlot_same
    (hfill : ∀ d b, ¬ (s.fifo d).empty → (s.fifo d).getOut = some b →
      ∀ s, v (s.setMem b fillZero) = v s)
    {i : Fin 8} {is : List (Fin 8)} {pp : List (Buf k)} (h : pickSlot s t i is pp = some s') :
    v s' = v s := by
  rcases pickSlot_cases h with
    ⟨-, rfl⟩ | ⟨d, b, r, -, hne, hget, rfl, ⟨-, s₁, hs₁, rfl⟩ | ⟨-, rfl⟩⟩
  · exact hgoto ..
  · rw [hgoto, packFree_same hpools hs₁]
    exact (hfifo ..).trans (hsrv ..)
  · rw [hgoto, hfill d b hne hget]
    exact (hfifo ..).trans (hsrv ..)

omit hfifo in
include hgoto in
theorem checkSilence_same
    (hsilence : ∀ s n, v (s.setCast t { s.cast t with mixSilence := n }) = v s) {p : Buf k}
    {silent : Bool} (h : checkSilence s t p silent = some s') : v s' = v s := by
  rcases checkSilence_cases h with ⟨-, n, s₁, hs₁, rfl⟩ | ⟨-, n, rfl⟩
  · rw [hgoto, packFree_same hpools hs₁, hsilence]
  · rw [hgoto, hsilence]

include hsrv hgoto in
/-- **A step of the thread** that is not at `tag_cast_pack`. -/
theorem mixStep_same (hhigh : ∀ s d n, v (s.setHighload d n) = v s)
    (hfill : ∀ d b, ¬ (s.fifo d).empty → (s.fifo d).getOut = some b →
      ∀ s, v (s.setMem b fillZero) = v s)
    (hsilence : ∀ s n, v (s.setCast t { s.cast t with mixSilence := n }) = v s)
    (hcast : ∀ p, (s.cast t).pc ≠ .cast p) {silent : Bool} (h : mixStep s t silent = some s') :
    v s' = v s := by
  unfold mixStep at h
  split at h
  · cases h
    exact mixGet_same hgoto s
  · cases h
    exact hgoto ..
  · obtain ⟨s₁, hs₁, rfl⟩ := Option.map_eq_some_iff.mp h
    rw [hgoto, flushSlot_same hpools hfifo hhigh hs₁]
  · cases h
    exact waitTurn_same hsrv hgoto ..
  · exact waitRefTurn_same hpools hfifo hsrv hgoto h
  · exact pickSlot_same hpools hfifo hsrv hgoto hfill h
  · cases h
    exact hgoto ..
  · cases h
    exact hgoto ..
  · obtain ⟨s₁, hs₁, rfl⟩ := Option.map_eq_some_iff.mp h
    rw [hgoto, packFree_same hpools hs₁]
  · exact checkSilence_same hpools hgoto hsilence h
  · next p hp => exact absurd hp (hcast p)

end Pools

/-! ## The receivers -/

section Receivers
variable (hfifo : ∀ s d cf, v (s.setFifo d cf) = v s)
include hfifo

theorem recvAudio_same (s : State k) (d : ℤ) (b : Buf k) : v (recvAudio s d b).2 = v s := by
  unfold recvAudio
  split_ifs
  · rfl
  · rfl
  · unfold mixPut tagInDevPacket
    split
    · rfl
    · split_ifs
      · rfl
      · rfl
      · exact hfifo ..

variable (hbeat : ∀ s d, v { s with srv := heartbeat s.srv d } = v s)
include hbeat

/-- A packet that has come. -/
theorem packRecv_same (s : State k) (b : Buf k) : v (packRecv s b).2 = v s := by
  unfold packRecv
  simp only []
  split_ifs
  · exact hbeat ..
  · exact recvAudio_same hfifo ..
  · rfl
  · rfl
  · rfl
  · exact hbeat ..
  · rfl

variable (hpools : ∀ s P, v { s with pools := P } = v s) (hudp : ∀ s o, v (setUdp s o) = v s)
  (hconn : ∀ s c C, v (setConn s c C) = v s)
include hpools hudp hconn

/-- **A step of a receiver,** which fills no packet but its own. -/
theorem receive_same
    (hfill : ∀ b, (s.udp = some b ∨ ∃ c C, s.conns c = some C ∧ C.pack = some b) →
      ∀ s bytes, v (fill s b bytes) = v s)
    {e : Event} (hmix : ∀ t silent, e ≠ .mix t silent) (hcontrol : ∀ srv, e ≠ .control srv)
    (h : step s e = some s') : v s' = v s := by
  cases e with
  | mix t silent => exact absurd rfl (hmix t silent)
  | control srv => exact absurd rfl (hcontrol srv)
  | udpGet =>
    cases h
    unfold udpGet
    split
    · exact (hudp ..).trans (hpools ..)
    · rfl
  | datagram bytes =>
    cases h
    unfold recvDatagram
    split
    · rfl
    · next b hb =>
      simp only []
      split_ifs
      · rfl
      · exact (packRecv_same hfifo hbeat ..).trans (hfill b (Or.inl hb) ..)
      · exact (hudp ..).trans
          ((packRecv_same hfifo hbeat ..).trans (hfill b (Or.inl hb) ..))
  | connect c d =>
    cases h
    unfold audioConnect
    split
    · rfl
    · split_ifs
      · exact hconn ..
      · rfl
  | connGet c =>
    cases h
    unfold connGet
    split
    · split_ifs
      · exact (hconn ..).trans (hpools ..)
      · rfl
    · rfl
  | recv c bytes =>
    cases h
    unfold connRecv
    split
    · rfl
    · split_ifs
      · exact hconn ..
      · rfl
  | repack c =>
    cases h
    unfold repack
    split
    · rfl
    · next C hC =>
      split
      · rfl
      · next b hb =>
        split_ifs
        · rfl
        · exact (hconn ..).trans
            ((packRecv_same hfifo hbeat ..).trans (hfill b (Or.inr ⟨c, C, hC, hb⟩) ..))
        · exact hconn ..
  | disconnect c =>
    cases h
    unfold disconnect
    split
    · rfl
    · split_ifs
      · exact hconn ..
      · rfl

end Receivers

end GSConferencing.Serv.MixFrame
