import GSConferencing.Serv.OpenList

/-!
# Open microphones in the database

The records of the devices keep the tag and the open microphone, and every handler that changes
them saves the record.

* `Quiet`: operations that send messages at most.
* `addOpen_writes`, `delOpen_writes`, `switch_writes`: the operations that change a record.
* `step_writes`: a step keeps devices and records in agreement, and saves the records it changes.
-/

namespace GSConferencing.Serv.MicSaves

open GSConferencing.Lib.CyclicList GSConferencing.Lib.Run GSConferencing.Include.ListHead
open GSConferencing.Serv.Strutil GSConferencing.Serv.CmdHandler GSConferencing.Serv.Dev
open GSConferencing.Serv.Tag GSConferencing.Serv.Interp GSConferencing.Serv.Devctl
open GSConferencing.Serv.Ptc GSConferencing.Serv.Discuss GSConferencing.Serv.Server
open GSConferencing.Serv.OpenView GSConferencing.Serv.Frame

/-- The tag and the microphone in a record. -/
def ofRow (r : DbDevice) : ℤ × Bool := (r.tagid, r.discussOpen ≠ 0)

/-- The tag and the microphone of a device. -/
def ofDev (D : Device) : ℤ × Bool := (D.tag, D.discussOpen ≠ 0)

/-- What a restart needs of the server. -/
@[ext] structure MicView where
  devs : List ℤ
  mic : ℤ → ℤ × Bool
  row : ℤ → ℤ × Bool
  enabled : ℤ → ℤ

def micView (s : Server) : MicView where
  devs := s.devs
  mic d := ofDev (s.dev d)
  row d := ofRow (s.row d)
  enabled d := (s.row d).enabled

/-! ## Primitive updates -/

theorem micView_setDev (s : Server) (d : ℤ) (f : Device → Device) :
    micView (s.setDev d f) =
      { micView s with mic := Function.update (micView s).mic d (ofDev (f (s.dev d))) } := by
  simp only [micView, Server.setDev]
  rw [comp_update ofDev]

theorem micView_setRow (s : Server) (d : ℤ) (f : DbDevice → DbDevice) :
    micView (s.setRow d f) = { micView s with
      row := Function.update (micView s).row d (ofRow (f (s.row d)))
      enabled := Function.update (micView s).enabled d (f (s.row d)).enabled } := by
  simp only [micView, Server.setRow]
  rw [comp_update ofRow, comp_update DbDevice.enabled]

/-- The other fields of a device. -/
theorem micView_setDev_other (s : Server) (d : ℤ) (f : Device → Device)
    (h : ofDev (f (s.dev d)) = ofDev (s.dev d)) : micView (s.setDev d f) = micView s := by
  rw [micView_setDev, update_eq (f := (micView s).mic) h]

/-- The flag in a record does not enable it. -/
theorem micView_setRow_enabled (s : Server) (d : ℤ) (f : DbDevice → DbDevice)
    (hen : (f (s.row d)).enabled = (s.row d).enabled) :
    micView (s.setRow d f) =
      { micView s with row := Function.update (micView s).row d (ofRow (f (s.row d))) } := by
  rw [micView_setRow, update_eq (f := (micView s).enabled) hen]

/-- The other fields of a record. -/
theorem micView_setRow_other (s : Server) (d : ℤ) (f : DbDevice → DbDevice)
    (h : ofRow (f (s.row d)) = ofRow (s.row d)) (hen : (f (s.row d)).enabled = (s.row d).enabled) :
    micView (s.setRow d f) = micView s := by
  rw [micView_setRow_enabled s d f hen, update_eq (f := (micView s).row) h]

theorem micView_setTag (s : Server) (t : ℤ) (f : Tag → Tag) :
    micView (s.setTag t f) = micView s := rfl

theorem micView_setGrp (s : Server) (f : Group → Group) : micView (s.setGrp f) = micView s := rfl

theorem micView_send (s : Server) (o : Out) : micView (s.send o) = micView s := rfl

theorem micView_deviceSave (s : Server) (d : ℤ) : micView (deviceSave s d) = micView s :=
  deviceSave_same micView_send s d

theorem micView_resource (s : Server) (d : ℤ) (a : Fin 8 → Bool) (r : ℤ) (i : Option Str) :
    micView ({ s with avail := a }.setDev d fun D => { D with mixerRes := r, mixerInfo := i }) =
      micView s :=
  micView_setDev_other _ _ _ rfl

theorem micView_sparesPtc : SparesPtc micView :=
  ⟨fun _ _ => rfl, fun _ _ => rfl, fun _ _ => rfl, micView_send⟩

theorem micView_interpSetRepTag (s : Server) (t : ℤ) (rep : Option ℤ) :
    micView (interpSetRepTag s t rep) = micView s := rfl

/-! ## Messages -/

/-- What is sent stays sent. -/
structure Quiet (s s' : Server) : Prop where
  micView : micView s' = micView s
  out : s.out <+: s'.out

theorem Quiet.refl (s : Server) : Quiet s s := ⟨rfl, List.prefix_rfl⟩

theorem Quiet.trans {s s' s'' : Server} (h : Quiet s s') (h' : Quiet s' s'') : Quiet s s'' :=
  ⟨h'.micView.trans h.micView, h.out.trans h'.out⟩

/-- Nothing is sent. -/
theorem Quiet.of_eq {s s' : Server} (hview : MicSaves.micView s' = MicSaves.micView s)
    (hout : s'.out = s.out) : Quiet s s' :=
  ⟨hview, hout ▸ List.prefix_rfl⟩

theorem quiet_send (s : Server) (o : Out) : Quiet s (s.send o) :=
  ⟨rfl, List.prefix_append ..⟩

section Messages
variable {s s' : Server} {d t : ℤ}

theorem quiet_deviceCmd (s : Server) (d : ℤ) (text : Str) : Quiet s (deviceCmd s d text) := by
  unfold deviceCmd
  split
  · exact Quiet.refl s
  · exact quiet_send ..

theorem quiet_addPtc (s : Server) (p : ℤ) : Quiet s (addPtc s p) :=
  .of_eq (addPtc_same micView_sparesPtc.ptcs s p) (addPtc_same (fun _ _ => rfl) s p)

theorem quiet_ptcSend (s : Server) (d : ℤ) : Quiet s (ptcSend s d) := by
  simp only [ptcSend]
  split
  · refine Quiet.trans ?_ (quiet_addPtc ..)
    split
    · exact Quiet.refl s
    · exact quiet_deviceCmd ..
  · exact Quiet.refl s

theorem quiet_ptcDefault (s : Server) : Quiet s (ptcDefault s) := by
  unfold ptcDefault
  refine List.foldlRecOn (motive := fun s' => Quiet s s') _ _ (Quiet.refl s) fun s' h i _ => ?_
  split
  · exact h
  · exact h.trans (quiet_ptcSend ..)

theorem quiet_ptcPut (h : ptcPut s d = some s') : Quiet s s' := by
  refine .of_eq (micView_sparesPtc.ptcPut h) ?_
  obtain ⟨L, -, rfl⟩ := Option.map_eq_some_iff.mp h
  rfl

theorem quiet_ptcPush (h : ptcPush s d = some s') : Quiet s s' := by
  obtain ⟨s₁, hs₁, rfl⟩ := Option.map_eq_some_iff.mp h
  exact (quiet_ptcPut hs₁).trans (quiet_ptcSend ..)

theorem quiet_links (s : Server) (L : Links Unit ℤ) : Quiet s (setLinks s L) := .of_eq rfl rfl

theorem quiet_curr (s : Server) (c : Option ℤ) : Quiet s (setCurr s c) := .of_eq rfl rfl

theorem quiet_ptcRemove (h : ptcRemove s d = some s') : Quiet s s' := by
  unfold ptcRemove at h
  split at h
  · obtain ⟨L, -, h⟩ := Option.bind_eq_some_iff.mp h
    have hlinks := quiet_links s L
    simp only [] at h
    split at h
    · rw [← Option.some.inj h]
      exact (hlinks.trans (quiet_ptcDefault _)).trans (quiet_curr ..)
    · split at h
      · obtain ⟨d', -, rfl⟩ := Option.map_eq_some_iff.mp h
        exact (hlinks.trans (quiet_curr ..)).trans (quiet_ptcSend ..)
      · rw [← Option.some.inj h]
        exact hlinks
  · rw [← Option.some.inj h]
    exact Quiet.refl s

theorem quiet_interpSetRepTag (s : Server) (t : ℤ) (rep : Option ℤ) :
    Quiet s (interpSetRepTag s t rep) :=
  ⟨rfl, List.prefix_append ..⟩

theorem quiet_applyInterpMode (h : applyInterpMode s t d = some s') : Quiet s s' := by
  unfold applyInterpMode at h
  simp only [] at h
  split at h
  · cases h
    exact quiet_interpSetRepTag ..
  split at h
  · cases h
    exact quiet_interpSetRepTag ..
  split at h
  · split at h
    · cases h
      exact quiet_interpSetRepTag ..
    · cases h
  · cases h
    exact Quiet.refl s

theorem quiet_requestPost {cmd : Cmd} {a : ℤ} {r : Reply Server}
    (h : requestPost s cmd t d a = some r) : Quiet s r.2.2 := by
  unfold requestPost at h
  split at h
  · split at h
    · cases h
      exact quiet_interpSetRepTag ..
    · obtain ⟨s₁, hs₁, h⟩ := Option.bind_eq_some_iff.mp h
      cases h
      exact quiet_applyInterpMode hs₁
  · cases h
    exact Quiet.refl s

theorem quiet_tagAddOutstanding (s : Server) (t d : ℤ) : Quiet s (tagAddOutstanding s t d) :=
  .of_eq (tagAddOutstanding_same micView_resource (fun _ _ _ _ _ => rfl)
      (fun _ _ _ _ => micView_setDev_other _ _ _ rfl) s t d)
    (tagAddOutstanding_same (fun _ _ _ _ _ => rfl) (fun _ _ _ _ _ => rfl)
      (fun _ _ _ _ => rfl) s t d)

theorem quiet_tagRmOutstanding (s : Server) (t d : ℤ) : Quiet s (tagRmOutstanding s t d) :=
  .of_eq (tagRmOutstanding_same micView_resource (fun _ _ _ _ _ => rfl)
      (fun _ _ _ _ => micView_setDev_other _ _ _ rfl) s t d)
    (tagRmOutstanding_same (fun _ _ _ _ _ => rfl) (fun _ _ _ _ _ => rfl) (fun _ _ _ _ => rfl) s t d)

end Messages

/-! ## Writing -/

/-- The record of a device says the same as the device. -/
def Agrees (s : Server) (d : ℤ) : Prop := (micView s).row d = (micView s).mic d

/-- The messages from `s` on. -/
def sent (s s' : Server) : List Out := s'.out.drop s.out.length

/-- **What a step may do:** agreement is kept, and a record that changes is saved. -/
structure Writes (s s' : Server) : Prop where
  devs : s'.devs = s.devs
  enabled : (micView s').enabled = (micView s).enabled
  agrees : ∀ d, Agrees s d → Agrees s' d
  saved : ∀ d, d ≠ 0 → (micView s').row d = (micView s).row d ∨ .saveDevice d ∈ sent s s'

/-- The same for a part of a step. -/
structure WritesOn (s s' : Server) : Prop extends Writes s s' where
  out : s.out <+: s'.out

section Writing
variable {s s' s'' : Server} {d t : ℤ}

theorem Writes.of_micView (h : micView s' = micView s) : Writes s s' where
  devs := congrArg MicView.devs h
  enabled := congrArg MicView.enabled h
  agrees d hd := by
    unfold Agrees
    rw [h]
    exact hd
  saved d _ := .inl (by rw [h])

theorem Quiet.writes (h : Quiet s s') : WritesOn s s' := ⟨.of_micView h.micView, h.out⟩

theorem WritesOn.trans (h : WritesOn s s') (h' : WritesOn s' s'') : WritesOn s s'' where
  devs := h'.devs.trans h.devs
  enabled := h'.enabled.trans h.enabled
  agrees d hd := h'.agrees d (h.agrees d hd)
  saved d hd := by
    rcases h'.saved d hd with hrow' | hmem
    · rcases h.saved d hd with hrow | hmem
      · exact .inl (hrow'.trans hrow)
      · exact .inr ((h'.out.drop s.out.length).subset hmem)
    · exact .inr ((List.drop_sublist_drop_left s''.out h.out.length_le).subset hmem)
  out := h.out.trans h'.out

theorem WritesOn.quiet (h : WritesOn s s') (h' : Quiet s' s'') : WritesOn s s'' :=
  h.trans h'.writes

theorem quiet_deviceSave (s : Server) (d : ℤ) : Quiet s (deviceSave s d) := by
  unfold deviceSave
  split
  · exact Quiet.refl s
  · exact quiet_send ..

theorem mem_sent_deviceSave (h : s.out <+: s'.out) (hd : d ≠ 0) :
    Out.saveDevice d ∈ sent s (deviceSave s' d) := by
  unfold sent deviceSave
  rw [if_neg hd]
  show Out.saveDevice d ∈ (s'.out ++ [Out.saveDevice d]).drop s.out.length
  rw [List.drop_append_of_le_length h.length_le]
  exact List.mem_append_right _ (List.mem_singleton_self _)

/-- **One device and its record are written,** and the record is saved at last. -/
theorem writes_save {m m' : ℤ × Bool} (hout : s.out <+: s'.out)
    (hview : micView s' = { micView s with
      mic := Function.update (micView s).mic d m
      row := Function.update (micView s).row d m' })
    (hagree : Agrees s d → m' = m) : WritesOn s (deviceSave s' d) where
  devs := by
    have hdevs := congrArg MicView.devs hview
    rw [← micView_deviceSave s' d] at hdevs
    exact hdevs
  enabled := by rw [micView_deviceSave, hview]
  agrees x hx := by
    unfold Agrees
    rw [micView_deviceSave, hview]
    show Function.update (micView s).row d m' x = Function.update (micView s).mic d m x
    by_cases hxd : x = d
    · subst hxd
      rw [Function.update_self, Function.update_self, hagree hx]
    · rw [Function.update_of_ne hxd, Function.update_of_ne hxd]
      exact hx
  saved x hx := by
    by_cases hxd : x = d
    · subst hxd
      exact .inr (mem_sent_deviceSave hout hx)
    · left
      rw [micView_deviceSave, hview]
      exact Function.update_of_ne hxd ..
  out := hout.trans (quiet_deviceSave s' d).out

/-! ## The handlers -/

/-- The flag of a device is written, and then the one of its record. -/
theorem micView_setFlag {b : ℤ}
    (hview : micView s' = { micView s with
      mic := Function.update (micView s).mic d ((s.dev d).tag, b ≠ 0) }) :
    micView (s'.setRow d fun r => { r with discussOpen := b }) = { micView s with
      mic := Function.update (micView s).mic d ((s.dev d).tag, b ≠ 0)
      row := Function.update (micView s).row d ((s.row d).tagid, b ≠ 0) } := by
  have hrow : (micView s').row = (micView s).row := by rw [hview]
  have htag : (s'.row d).tagid = (s.row d).tagid := congrArg Prod.fst (congrFun hrow d)
  rw [micView_setRow_enabled _ _ _ rfl, hview, ← htag]
  rfl

theorem writes_flag {b : ℤ} (hout : s.out <+: s'.out)
    (hview : micView s' = { micView s with
      mic := Function.update (micView s).mic d ((s.dev d).tag, b ≠ 0) }) :
    WritesOn s (deviceSave (s'.setRow d fun r => { r with discussOpen := b }) d) := by
  refine writes_save hout (micView_setFlag hview) ?_
  intro (h : (micView s).row d = (micView s).mic d)
  have htag : (s.row d).tagid = (s.dev d).tag := congrArg Prod.fst h
  rw [htag]

theorem micView_flag (s : Server) (L : Links ℤ ℤ) (t d b : ℤ) (f : Tag → Tag) :
    micView ((Server.setTag { s with openL := L } t f).setDev d fun D =>
        { D with discussOpen := b }) =
      { micView s with mic := Function.update (micView s).mic d ((s.dev d).tag, b ≠ 0) } :=
  micView_setDev ..

/-- **`add_open`**. -/
theorem addOpen_writes (h : addOpen s t d = some s') : WritesOn s s' ∧ micView s' = { micView s with
    mic := Function.update (micView s).mic d ((s.dev d).tag, true)
    row := Function.update (micView s).row d ((s.row d).tagid, true) } := by
  obtain ⟨L, -, h⟩ := Option.bind_eq_some_iff.mp h
  cases h
  have hadd := quiet_tagAddOutstanding ((Server.setTag { s with openL := L } t fun T =>
    { T with openuser := T.openuser + 1 }).setDev d fun D => { D with discussOpen := 1 }) t d
  have hview := hadd.micView.trans (micView_flag ..)
  exact ⟨writes_flag hadd.out hview, (micView_deviceSave ..).trans (micView_setFlag hview)⟩

/-- **`del_open`**. -/
theorem delOpen_writes (h : delOpen s t d = some s') : WritesOn s s' := by
  obtain ⟨L, -, h⟩ := Option.bind_eq_some_iff.mp h
  cases h
  have hrm := quiet_tagRmOutstanding ((Server.setTag { s with openL := L } t fun T =>
    { T with openuser := T.openuser - 1 }).setDev d fun D => { D with discussOpen := 0 }) t d
  exact writes_flag hrm.out (hrm.micView.trans (micView_flag ..))

theorem openit_writes (h : openit s t d = some s') : WritesOn s s' := by
  obtain ⟨s₁, hs₁, h⟩ := Option.bind_eq_some_iff.mp h
  exact (addOpen_writes hs₁).1.quiet (quiet_ptcPush h)

theorem closeit_writes (h : closeit s t d = some s') : WritesOn s s' := by
  obtain ⟨s₁, hs₁, h⟩ := Option.bind_eq_some_iff.mp h
  exact (delOpen_writes hs₁).quiet (quiet_ptcRemove h)

/-- **`discctrl request`**. -/
theorem request_writes {cmd : Cmd} {args : List Str} {r : Reply Server}
    (h : discctrlRequest s cmd d args = some r) : Writes s r.2.2 := by
  unfold discctrlRequest at h
  cases args with
  | nil =>
    cases h
    exact .of_micView rfl
  | cons p l =>
    rw [nextArg_cons] at h
    simp only [] at h
    split at h
    · split at h
      · obtain ⟨s₁, hs₁, h⟩ := Option.bind_eq_some_iff.mp h
        exact (((quiet_tagAddOutstanding ..).trans (quiet_ptcPush hs₁)).trans
          (quiet_requestPost h)).writes.toWrites
      · exact (quiet_requestPost h).writes.toWrites
    · split at h
      · obtain ⟨adm, -, h⟩ := Option.bind_eq_some_iff.mp h
        cases adm with
        | reject =>
          cases h
          exact .of_micView rfl
        | openit =>
          obtain ⟨s₁, hs₁, h⟩ := Option.bind_eq_some_iff.mp h
          exact ((openit_writes hs₁).quiet (quiet_requestPost h)).toWrites
        | kick k =>
          obtain ⟨s₁, hs₁, h⟩ := Option.bind_eq_some_iff.mp h
          obtain ⟨s₂, hs₂, h⟩ := Option.bind_eq_some_iff.mp h
          have hkick : WritesOn s (kickUser s₁ d k) :=
            (closeit_writes hs₁).quiet (quiet_deviceCmd ..)
          exact ((hkick.trans (openit_writes hs₂)).quiet (quiet_requestPost h)).toWrites
      · obtain ⟨s₁, hs₁, h⟩ := Option.bind_eq_some_iff.mp h
        exact ((closeit_writes hs₁).quiet (quiet_requestPost h)).toWrites

theorem micView_doDevActivate (s : Server) (d : ℤ) (a : Bool) :
    micView (doDevActivate s d a) = micView s :=
  doDevActivate_same (fun _ _ _ => micView_setDev_other _ _ _ rfl)
    (fun _ _ _ => micView_setRow_other _ _ _ rfl rfl) s d a

theorem quiet_doDevActivate (s : Server) (d : ℤ) (a : Bool) : Quiet s (doDevActivate s d a) :=
  .of_eq (micView_doDevActivate s d a)
    (doDevActivate_same (fun _ _ _ => rfl) (fun _ _ _ => rfl) s d a)

/-- **A visit of the heartbeat thread**. -/
theorem heartbeatGod_writes (h : heartbeatGod s d = some s') : Writes s s' := by
  unfold heartbeatGod at h
  split at h
  swap
  · cases h
    exact .of_micView rfl
  have hcount : Quiet s (s.setDev d fun D => { D with hbeat := D.hbeat + 1 }) :=
    .of_eq (micView_setDev_other _ _ _ rfl) rfl
  simp only [] at h
  split at h
  swap
  · cases h
    exact .of_micView hcount.micView
  have hoff := hcount.trans (quiet_doDevActivate _ d false)
  split at h
  · exact (hoff.writes.trans (delOpen_writes h)).toWrites
  · cases h
    exact .of_micView hoff.micView

/-! ## `switch_tag` -/

theorem micView_requestTag (s : Server) (t : ℤ) : micView (requestTag s t) = micView s := by
  unfold requestTag
  split
  · rfl
  · rfl

theorem dev_requestTag (s : Server) (t : ℤ) : (requestTag s t).dev = s.dev := by
  unfold requestTag
  split
  · rfl
  · rfl

theorem micView_moveDev (s : Server) (d tid : ℤ) :
    micView (moveDev s d tid) = { micView s with
      mic := Function.update (micView s).mic d (tid, (s.dev d).discussOpen ≠ 0) } := by
  unfold moveDev
  rw [tagCheckUcast_same fun _ _ _ => micView_setTag ..]
  rw [micView_setDev]
  show { micView (requestTag s tid) with
    mic := Function.update (micView (requestTag s tid)).mic d (ofDev { (requestTag s tid).dev d with
      tag := tid }) } = _
  rw [micView_requestTag, dev_requestTag]
  rfl

theorem out_moveDev (s : Server) (d tid : ℤ) : (moveDev s d tid).out = s.out := by
  unfold moveDev
  rw [tagCheckUcast_same (v := Server.out) fun _ _ _ => rfl]
  show (requestTag s tid).out = s.out
  unfold requestTag
  split
  · rfl
  · rfl

theorem micView_setTagid (s : Server) (d tid : ℤ) :
    micView (s.setRow d fun r => { r with tagid := tid }) =
      { micView s with row := Function.update (micView s).row d (tid, ((micView s).row d).2) } :=
  micView_setRow_enabled _ _ _ rfl

theorem quiet_quitInterp (h : quitInterp s t d = some s') : Quiet s s' := by
  unfold quitInterp at h
  split at h
  · have hmode : Quiet s (s.setTag t fun T => { T with interpMode := interpNo }) := .of_eq rfl rfl
    exact hmode.trans (quiet_applyInterpMode h)
  · cases h
    exact Quiet.refl s

theorem quiet_enterInterp (h : enterInterp s t d = some s') : Quiet s s' := by
  unfold enterInterp at h
  split at h
  · exact quiet_applyInterpMode h
  · cases h
    exact Quiet.refl s

/-- **`switch_tag`**. -/
theorem switch_writes {cmd : Cmd} {r : Reply Server} (h : cmdSwitchTag s cmd = some r) :
    Writes s r.2.2 := by
  unfold cmdSwitchTag at h
  simp only [] at h
  split at h
  · cases h
    exact .of_micView rfl
  cases hargs : cmd.args with
  | nil =>
    rw [hargs, nextArg_nil] at h
    cases h
    exact .of_micView rfl
  | cons p l =>
    rw [hargs, nextArg_cons] at h
    split at h
    · cases h
      exact .of_micView rfl
    split at h
    · cases h
      exact .of_micView rfl
    obtain ⟨s₁, hs₁, h⟩ := Option.bind_eq_some_iff.mp h
    obtain ⟨s₂, hs₂, h⟩ := Option.bind_eq_some_iff.mp h
    cases h
    have hquit := quiet_quitInterp hs₁
    have henter := quiet_enterInterp hs₂
    have hout : s₁.out <+: s₂.out := out_moveDev s₁ cmd.deviceId (atoi p) ▸ henter.out
    have hmove : WritesOn s₁ (deviceSave (s₂.setRow cmd.deviceId fun r =>
        { r with tagid := atoi p }) cmd.deviceId) := by
      have hview := micView_setTagid s₂ cmd.deviceId (atoi p)
      rw [henter.micView, micView_moveDev] at hview
      refine writes_save hout hview ?_
      intro (hagree : (micView s₁).row cmd.deviceId = (micView s₁).mic cmd.deviceId)
      rw [hagree]
      rfl
    exact (hquit.writes.trans hmove).toWrites

/-! ## The other subcommands of `discctrl` -/

variable {cmd : Cmd} {args : List Str} {r : Reply Server}

theorem micView_sendCmdToDevId (s : Server) (cmd : Cmd) (id : ℤ) :
    micView (sendCmdToDevId s cmd id) = micView s :=
  sendCmdToDevId_same micView_send s cmd id

theorem micView_allowMembers (s : Server) : micView (allowMembers s) = micView s :=
  allowMembers_same (fun _ _ _ => micView_setDev_other _ _ _ rfl) s

theorem micView_resetOpenList (s : Server) (t : ℤ) : micView (resetOpenList s t) = micView s := rfl

theorem micView_setmode (h : discctrlSetmode s cmd d args = some r) :
    micView r.2.2 = micView s := by
  cases args <;> cases h <;> rfl

theorem micView_setMaxuser (h : discctrlSetMaxuser s cmd args = some r) :
    micView r.2.2 = micView s := by
  unfold discctrlSetMaxuser at h
  cases args with
  | nil =>
    cases h
    rfl
  | cons p l =>
    rw [nextArg_cons] at h
    split at h
    · cases h
      rfl
    · cases h

theorem micView_query (h : discctrlQuery s cmd = some r) : micView r.2.2 = micView s := by
  cases h
  rfl

theorem micView_stop (h : discctrlStop s cmd = some r) : micView r.2.2 = micView s := by
  cases h
  rfl

theorem micView_select (h : discctrlSelect s cmd d args = some r) : micView r.2.2 = micView s := by
  unfold discctrlSelect at h
  split at h
  · cases h
    rfl
  cases args with
  | nil =>
    cases h
    rfl
  | cons p l =>
    rw [nextArg_cons] at h
    simp only [] at h
    split at h
    · cases h
      rfl
    split at h
    · cases h
    obtain ⟨rec, -, h⟩ := Option.bind_eq_some_iff.mp h
    obtain ⟨s₁, hs₁, h⟩ := Option.bind_eq_some_iff.mp h
    rw [← Option.some.inj h]
    simp only [micView_send, micView_setGrp, micView_deviceSave]
    rw [micView_setRow_other _ _ _ rfl rfl, micView_sendCmdToDevId, micView_allowMembers,
      micView_resetOpenList]
    exact (groupSetupDiscuss_same micView_setGrp hs₁ : micView s₁ = micView s)

theorem micView_close (h : discctrlClose s cmd d = some r) : micView r.2.2 = micView s := by
  unfold discctrlClose at h
  split at h
  · cases h
    rfl
  · rw [← Option.some.inj h]
    simp only [micView_send, micView_setGrp, micView_deviceSave]
    rw [micView_setRow_other _ _ _ rfl rfl]
    rfl

theorem micView_status (h : discctrlStatus s cmd d = some r) : micView r.2.2 = micView s := by
  unfold discctrlStatus at h
  split at h
  · cases h
    rfl
  · obtain ⟨x, -, h⟩ := Option.bind_eq_some_iff.mp h
    cases x with
    | inl ids =>
      cases h
      rfl
    | inr e => exact e.elim

theorem micView_forbid (h : discctrlForbid s cmd args = some r) : micView r.2.2 = micView s := by
  unfold discctrlForbid at h
  cases args with
  | nil =>
    cases h
    rfl
  | cons p l =>
    rw [nextArg_cons] at h
    simp only [] at h
    split at h
    · cases h
      exact (quiet_deviceCmd ..).micView.trans (micView_setDev_other _ _ _ rfl)
    · cases h
      rfl

theorem micView_demand (h : discctrlDemand s cmd d args = some r) : micView r.2.2 = micView s := by
  unfold discctrlDemand at h
  match args with
  | [] =>
    cases h
    rfl
  | [_] =>
    cases h
    rfl
  | p :: _ :: _ =>
    simp only [nextArg_cons] at h
    split at h
    · cases h
      rfl
    · cases h
      exact micView_sendCmdToDevId ..

theorem micView_disableall (h : discctrlDisableall s cmd d args = some r) :
    micView r.2.2 = micView s := by
  cases args <;> cases h <;> rfl

/-- One test of a chain of subcommands. -/
theorem of_ite {β : Type*} {c P : Prop} [Decidable c] {x y : Option β} {b : β}
    (h : (if c then x else y) = some b) (hx : x = some b → P) (hy : y = some b → P) : P := by
  by_cases hc : c
  · exact hx ((if_pos hc).symm.trans h)
  · exact hy ((if_neg hc).symm.trans h)

/-- **`cmd_discctrl`**. -/
theorem discctrl_writes (h : cmdDiscctrl s cmd = some r) : Writes s r.2.2 := by
  unfold cmdDiscctrl at h
  by_cases hd : cmd.deviceId ∈ s.devs
  swap
  · rw [if_pos hd] at h
    cases h
    exact .of_micView rfl
  rw [if_neg (not_not.mpr hd)] at h
  cases hargs : cmd.args with
  | nil =>
    rw [hargs, nextArg_nil] at h
    cases h
    exact .of_micView rfl
  | cons sub args =>
    rw [hargs, nextArg_cons] at h
    refine of_ite h (fun h => .of_micView (micView_setmode h)) fun h => ?_
    refine of_ite h (fun h => .of_micView (micView_setMaxuser h)) fun h => ?_
    refine of_ite h (fun h => .of_micView (micView_query h)) fun h => ?_
    refine of_ite h (fun h => .of_micView (micView_select h)) fun h => ?_
    refine of_ite h request_writes fun h => ?_
    refine of_ite h (fun h => .of_micView (micView_status h)) fun h => ?_
    refine of_ite h (fun h => .of_micView (micView_close h)) fun h => ?_
    refine of_ite h (fun h => .of_micView (micView_forbid h)) fun h => ?_
    refine of_ite h (fun h => .of_micView (micView_stop h)) fun h => ?_
    refine of_ite h (fun h => .of_micView (micView_disableall h)) fun h => ?_
    refine of_ite h (fun h => .of_micView (micView_demand h)) fun h => ?_
    cases h
    exact .of_micView rfl

theorem micView_heartbeat (s : Server) (d : ℤ) : micView (heartbeat s d) = micView s :=
  heartbeat_same (fun _ _ _ => micView_setDev_other _ _ _ rfl)
    (fun _ _ _ => micView_setRow_other _ _ _ rfl rfl)
    (fun _ _ _ => micView_setDev_other _ _ _ rfl) s d

/-- **Every step** keeps the agreement and saves what it changes. -/
theorem step_writes {e : Event} (h : step s e = some s') : Writes s s' := by
  cases e with
  | discctrl cmd =>
    obtain ⟨r, hr, rfl⟩ := Option.map_eq_some_iff.mp h
    exact discctrl_writes hr
  | switchTag cmd =>
    obtain ⟨r, hr, rfl⟩ := Option.map_eq_some_iff.mp h
    exact switch_writes hr
  | heartbeat d =>
    cases h
    exact .of_micView (micView_heartbeat s d)
  | heartbeatGod d => exact heartbeatGod_writes h

end Writing

end GSConferencing.Serv.MicSaves
