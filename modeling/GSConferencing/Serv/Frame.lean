import GSConferencing.Lib.Run
import GSConferencing.Serv.Server

/-!
# Readings of the server

An invariant reads a part of the server's state, and most operations change another part.  This
module says so once, for a reading `v` of any type: what an operation writes itself is a hypothesis,
and what it calls is a lemma before it.

* `deviceCmd_same`, `sendCmdToDevId_same`: messages.
* `ptcSend_same`, `ptcPush_same`, `ptcRemove_same`: the camera.
* `tagAddOutstanding_same`, `tagRmOutstanding_same`: the mix slots and the net mixer.
* `devSubscribe_same`, `applyInterpMode_same`: subscriptions and replications.
-/

namespace GSConferencing.Serv.Frame

open GSConferencing.Lib.CyclicList GSConferencing.Lib.Run
open GSConferencing.Serv.Strutil GSConferencing.Serv.CmdHandler GSConferencing.Serv.Dev
open GSConferencing.Serv.Tag GSConferencing.Serv.Interp GSConferencing.Serv.Devctl
open GSConferencing.Serv.Ptc GSConferencing.Serv.Discuss GSConferencing.Serv.Server

variable {α : Type*} {v : Server → α}

/-! ## Messages -/

section Messages
variable (hsend : ∀ s o, v (s.send o) = v s)
include hsend

theorem deviceSave_same (s : Server) (d : ℤ) : v (deviceSave s d) = v s := by
  unfold deviceSave
  split
  · rfl
  · exact hsend ..

theorem deviceCmd_same (s : Server) (d : ℤ) (text : Str) : v (deviceCmd s d text) = v s := by
  unfold deviceCmd
  split
  · rfl
  · exact hsend ..

theorem sendCmdToDevId_same (s : Server) (cmd : Cmd) (id : ℤ) :
    v (sendCmdToDevId s cmd id) = v s := by
  unfold sendCmdToDevId
  split
  · exact deviceCmd_same hsend ..
  · rfl

end Messages

/-! ## The camera -/

section Camera
variable (hptcs : ∀ s l, v { s with ptc := { s.ptc with ptcs := l } } = v s)
include hptcs

theorem addPtc_same (s : Server) (p : ℤ) : v (addPtc s p) = v s := by
  unfold addPtc
  split
  · rfl
  · exact hptcs ..

variable (hsend : ∀ s o, v (s.send o) = v s)
include hsend

theorem ptcSend_same (s : Server) (d : ℤ) : v (ptcSend s d) = v s := by
  simp only [ptcSend]
  split
  · rw [addPtc_same hptcs]
    split
    · rfl
    · exact deviceCmd_same hsend ..
  · rfl

theorem ptcDefault_same (s : Server) : v (ptcDefault s) = v s := by
  unfold ptcDefault
  refine foldl_same (fun s i => ?_) _ _
  split
  · rfl
  · exact ptcSend_same hptcs hsend ..

theorem ptcGoCurrent_same (s : Server) : v (ptcGoCurrent s) = v s := by
  unfold ptcGoCurrent
  split
  · exact ptcSend_same hptcs hsend ..
  · exact ptcDefault_same hptcs hsend s

end Camera

/-- A reading that does not look at the camera at all. -/
structure SparesPtc (v : Server → α) : Prop where
  ptcs : ∀ s l, v { s with ptc := { s.ptc with ptcs := l } } = v s
  links : ∀ s L, v (setLinks s L) = v s
  curr : ∀ s c, v (setCurr s c) = v s
  send : ∀ s o, v (s.send o) = v s

namespace SparesPtc

variable {s s' : Server} {d : ℤ} (hv : SparesPtc v)
include hv

theorem ptcSend (s : Server) (d : ℤ) : v (ptcSend s d) = v s :=
  ptcSend_same hv.ptcs hv.send s d

theorem ptcDefault (s : Server) : v (ptcDefault s) = v s :=
  ptcDefault_same hv.ptcs hv.send s

theorem ptcPut (h : ptcPut s d = some s') : v s' = v s := by
  unfold Ptc.ptcPut at h
  obtain ⟨L, -, rfl⟩ := Option.map_eq_some_iff.mp h
  exact (hv.curr ..).trans (hv.links ..)

theorem ptcPush (h : ptcPush s d = some s') : v s' = v s := by
  obtain ⟨s₁, hs₁, rfl⟩ := Option.map_eq_some_iff.mp h
  exact (hv.ptcSend ..).trans (hv.ptcPut hs₁)

theorem ptcRemove (h : ptcRemove s d = some s') : v s' = v s := by
  unfold Ptc.ptcRemove at h
  split at h
  · obtain ⟨L, -, h⟩ := Option.bind_eq_some_iff.mp h
    simp only [] at h
    split at h
    · rw [← Option.some.inj h, hv.curr, hv.ptcDefault, hv.links]
    · split at h
      · obtain ⟨d', -, rfl⟩ := Option.map_eq_some_iff.mp h
        rw [hv.ptcSend, hv.curr, hv.links]
      · rw [← Option.some.inj h, hv.links]
  · rw [← Option.some.inj h]

end SparesPtc

/-! ## The mix slots -/

section Mixer
variable (hres : ∀ s d a r i, v ({ s with avail := a }.setDev d fun D =>
  { D with mixerRes := r, mixerInfo := i }) = v s)
include hres

theorem netmxOpenDev_same (s : Server) (d : ℤ) : v (netmxOpenDev s d) = v s := by
  unfold netmxOpenDev
  split
  · rfl
  · exact hres ..

theorem netmxCloseDev_same (s : Server) (d : ℤ) : v (netmxCloseDev s d) = v s := by
  unfold netmxCloseDev
  split
  · rfl
  · exact hres ..

theorem mixOpenDev_same (s : Server) (d : ℤ) : v (mixOpenDev s d) = v s := by
  unfold mixOpenDev
  split
  · rfl
  · exact netmxOpenDev_same hres ..

theorem mixCloseDev_same (s : Server) (d : ℤ) : v (mixCloseDev s d) = v s := by
  unfold mixCloseDev
  split
  · rfl
  · exact netmxCloseDev_same hres ..

variable (hslot : ∀ s t (m : Tag → Fin 8 → Option ℤ) (r : Tag → Fin 8) (n : Tag → ℤ),
    v (s.setTag t fun T => { T with mixDevs := m T, mixRef := r T, mixCount := n T }) = v s)
  (hbit : ∀ s d b (n : Device → ℤ),
    v (s.setDev d fun D => { D with mixbit := b, timeouts := n D }) = v s)
include hslot hbit

theorem tagAddOutstanding_same (s : Server) (t d : ℤ) : v (tagAddOutstanding s t d) = v s := by
  unfold tagAddOutstanding
  split
  · rfl
  · split
    · rfl
    · simp only []
      rw [mixOpenDev_same hres]
      exact (hslot ..).trans ((hbit ..).trans (hslot ..))

theorem tagRmOutstanding_same (s : Server) (t d : ℤ) : v (tagRmOutstanding s t d) = v s := by
  unfold tagRmOutstanding
  simp only []
  rw [mixCloseDev_same hres]
  refine (hbit ..).trans ?_
  split
  · rfl
  · exact hslot ..

end Mixer

/-! ## Devices and tags -/

theorem tagCheckUcast_same (hucast : ∀ s t u, v (s.setTag t fun T => { T with ucast := u }) = v s)
    (s : Server) (t d : ℤ) : v (tagCheckUcast s t d) = v s := by
  unfold tagCheckUcast
  split
  · exact hucast ..
  · rfl

section Activate
variable (hactive : ∀ s d a, v (s.setDev d fun D => { D with active := a }) = v s)
  (honline : ∀ s d o, v (s.setRow d fun r => { r with online := o }) = v s)
include hactive honline

theorem doDevActivate_same (s : Server) (d : ℤ) (a : Bool) : v (doDevActivate s d a) = v s := by
  unfold doDevActivate
  split
  · rfl
  · exact (honline ..).trans (hactive ..)

theorem heartbeat_same (hhbeat : ∀ s d n, v (s.setDev d fun D => { D with hbeat := n }) = v s)
    (s : Server) (d : ℤ) : v (heartbeat s d) = v s := by
  unfold heartbeat
  split
  · exact (doDevActivate_same hactive honline ..).trans (hhbeat ..)
  · split
    · exact honline ..
    · rfl

end Activate

theorem allowMembers_same
    (hforbid : ∀ s d n, v (s.setDev d fun D => { D with discussForbidden := n }) = v s)
    (s : Server) : v (allowMembers s) = v s := by
  unfold allowMembers
  refine foldl_same (fun s m => ?_) _ _
  split
  · exact hforbid ..
  · rfl

section Group
variable (hgrp : ∀ s f, v (s.setGrp f) = v s) {s s' : Server}
include hgrp

theorem groupSetupDiscuss_same {r : DbDiscuss} (h : groupSetupDiscuss s r = some s') :
    v s' = v s := by
  unfold groupSetupDiscuss at h
  simp only [] at h
  split at h
  · cases h
  · cases h
    exact hgrp ..

theorem groupCreate_same (h : groupCreate s = some s') : v s' = v s := by
  unfold groupCreate at h
  split at h
  · cases h
    rfl
  · split at h
    · cases h
      rfl
    · exact groupSetupDiscuss_same hgrp h

end Group

/-! ## Subscriptions and replications -/

section Interp
variable (hrep : ∀ s t rep, v (interpSetRepTag s t rep) = v s)
include hrep

theorem applyInterpMode_same {s s' : Server} {t d : ℤ} (h : applyInterpMode s t d = some s') :
    v s' = v s := by
  unfold applyInterpMode at h
  simp only [] at h
  split at h
  · cases h
    exact hrep ..
  split at h
  · cases h
    exact hrep ..
  split at h
  · split at h
    · cases h
      exact hrep ..
    · cases h
  · cases h
    rfl

theorem requestPost_same {s : Server} {cmd : Cmd} {t d a : ℤ} {r : Reply Server}
    (h : requestPost s cmd t d a = some r) : v r.2.2 = v s := by
  unfold requestPost at h
  split at h
  · split at h
    · cases h
      exact hrep ..
    · obtain ⟨s₁, hs₁, h⟩ := Option.bind_eq_some_iff.mp h
      cases h
      exact applyInterpMode_same hrep hs₁
  · cases h
    rfl

variable (hhead : ∀ s t (l : Tag → List ℤ),
    v (s.setTag t fun T => { T with subscribeHead := l T }) = v s)
  (hsub : ∀ s d t, v (s.setDev d fun D => { D with subscription := some t }) = v s)
  (hrow : ∀ s d t, v (s.setRow d fun r => { r with sub1 := t }) = v s)

omit hrep in
include hhead in
theorem subscribeMove_same (s : Server) (d t : ℤ) : v (subscribeMove s d t) = v s := by
  simp only [subscribeMove]
  refine (hhead ..).trans ?_
  split
  · exact hhead ..
  · rfl

theorem updateInterpDup_same (s : Server) (d t : ℤ) : v (updateInterpDup s d t) = v s := by
  unfold updateInterpDup
  split
  · exact hrep ..
  · rfl

include hhead hsub hrow in
theorem devSubscribe_same (s : Server) (d t : ℤ) : v (devSubscribe s d t) = v s := by
  unfold devSubscribe
  split
  · rfl
  · simp only []
    rw [updateInterpDup_same hrep, hrow, hsub, subscribeMove_same hhead]

end Interp

/-- The subscriptions of the database. -/
theorem restoreSub_same (hrequest : ∀ s t, v (requestTag s t) = v s)
    (hdev : ∀ s d t, v (devSubscribe s d t) = v s) (s : Server) (d : ℤ) :
    v (restoreSub s d) = v s := by
  unfold restoreSub
  refine foldl_same (fun s t => ?_) _ _
  split
  · rfl
  · rw [hdev, hrequest]

end GSConferencing.Serv.Frame
