import GSConferencing.Serv.OpenRuns

/-!
# The camera and the open microphones

The list of `ptc.c` should hold exactly the devices whose microphone is open, so that the camera
looks at an open device or at none.  A request opens and closes with the list, and the start
restores it; the heartbeat thread closes the microphone of a dead device and leaves the device in
the list.

* `ptc_tagAddOutstanding` and the lemmas around it: what leaves the camera alone.
* `openit_cam`, `closeit_cam`: a microphone is opened, or closed, together with the list.
* `recoverServer_cam`: the list is right when the server has started.
* `camera_exact`: it is right along a run exactly when no open device dies.
-/

namespace GSConferencing.Serv.Camera

open GSConferencing.Lib.CyclicList GSConferencing.Lib.Run GSConferencing.Include.ListHead
open GSConferencing.Serv.Strutil GSConferencing.Serv.CmdHandler GSConferencing.Serv.Dev
open GSConferencing.Serv.Tag GSConferencing.Serv.Interp GSConferencing.Serv.Devctl
open GSConferencing.Serv.Ptc GSConferencing.Serv.Discuss GSConferencing.Serv.Server
open GSConferencing.Serv.Frame
open GSConferencing.Serv.OpenView GSConferencing.Serv.Mics GSConferencing.Serv.OpenList
open GSConferencing.Serv.OpenRuns

/-! ## What leaves the camera alone -/

section Frame
variable (s : Server) (t d : ℤ)

@[simp] theorem ptc_setDev (f : Device → Device) : (s.setDev d f).ptc = s.ptc := rfl

@[simp] theorem ptc_setRow (f : DbDevice → DbDevice) : (s.setRow d f).ptc = s.ptc := rfl

@[simp] theorem ptc_deviceSave : (deviceSave s d).ptc = s.ptc :=
  deviceSave_same (fun _ _ => rfl) s d

@[simp] theorem ptc_deviceCmd (text : Str) : (deviceCmd s d text).ptc = s.ptc :=
  deviceCmd_same (fun _ _ => rfl) s d text

@[simp] theorem ptc_tagAddOutstanding : (tagAddOutstanding s t d).ptc = s.ptc :=
  tagAddOutstanding_same (fun _ _ _ _ _ => rfl) (fun _ _ _ _ _ => rfl) (fun _ _ _ _ => rfl) s t d

@[simp] theorem ptc_tagRmOutstanding : (tagRmOutstanding s t d).ptc = s.ptc :=
  tagRmOutstanding_same (fun _ _ _ _ _ => rfl) (fun _ _ _ _ _ => rfl) (fun _ _ _ _ => rfl) s t d

@[simp] theorem ptc_doDevActivate (a : Bool) : (doDevActivate s d a).ptc = s.ptc :=
  doDevActivate_same (fun _ _ _ => rfl) (fun _ _ _ => rfl) s d a

@[simp] theorem ptc_requestTag : (requestTag s t).ptc = s.ptc := by
  unfold requestTag
  split <;> rfl

@[simp] theorem ptc_tagCheckUcast : (tagCheckUcast s t d).ptc = s.ptc :=
  tagCheckUcast_same (fun _ _ _ => rfl) s t d

@[simp] theorem ptc_tagAddDevice : (tagAddDevice s t d).ptc = s.ptc := rfl

@[simp] theorem ptc_devSubscribe : (devSubscribe s d t).ptc = s.ptc :=
  devSubscribe_same (fun _ _ _ => rfl) (fun _ _ _ => rfl) (fun _ _ _ => rfl)
    (fun _ _ _ => rfl) s d t

@[simp] theorem ptc_devRegister (type : ℤ) : (devRegister s d type).ptc = s.ptc := by
  unfold devRegister
  split
  · rfl
  · simp only []
    split
    · rw [ptc_devSubscribe, ptc_requestTag, ptc_tagCheckUcast, ptc_setDev, ptc_tagAddDevice,
        ptc_requestTag]
      rfl
    · rw [ptc_tagCheckUcast, ptc_setDev, ptc_tagAddDevice, ptc_requestTag]
      rfl

@[simp] theorem ptc_restoreSub : (restoreSub s d).ptc = s.ptc :=
  restoreSub_same ptc_requestTag (fun s d t => ptc_devSubscribe s t d) s d

end Frame

section Frame
variable {s s' : Server} {t d : ℤ}

theorem ptc_addOpen (h : addOpen s t d = some s') : s'.ptc = s.ptc := by
  unfold addOpen at h
  obtain ⟨L, -, h⟩ := Option.bind_eq_some_iff.mp h
  cases h
  rw [ptc_deviceSave, ptc_setRow, ptc_tagAddOutstanding]
  rfl

theorem ptc_delOpen (h : delOpen s t d = some s') : s'.ptc = s.ptc := by
  unfold delOpen at h
  obtain ⟨L, -, h⟩ := Option.bind_eq_some_iff.mp h
  cases h
  rw [ptc_deviceSave, ptc_setRow, ptc_tagRmOutstanding]
  rfl

/-- Sending to a camera may add it to the known ones, which is not the list. -/
theorem curr_ptcSend (s : Server) (d : ℤ) : (ptcSend s d).ptc.curr = s.ptc.curr :=
  ptcSend_same (v := fun s => s.ptc.curr) (fun _ _ => rfl) (fun _ _ => rfl) s d

theorem curr_ptcDefault (s : Server) : (ptcDefault s).ptc.curr = s.ptc.curr :=
  ptcDefault_same (v := fun s => s.ptc.curr) (fun _ _ => rfl) (fun _ _ => rfl) s

end Frame

/-! ## The list and the open devices -/

/-- A device is in the list exactly when its microphone is open, and the camera looks at an open
device or at none. -/
def CameraOk (s : Server) : Prop :=
  (∃ pl, Ring s.ptc.links () pl ∧ ∀ d, d ∈ pl ↔ (s.dev d).discussOpen ≠ 0) ∧
    ∀ d, s.ptc.curr = some d → (s.dev d).discussOpen ≠ 0

/-- The list `pl` of the camera, which looks at its first device, holds the open devices. -/
structure Cam (s : Server) (pl : List ℤ) : Prop where
  inv : PtcInv s.ptc.links pl
  curr : s.ptc.curr = pl.head?
  opn : ∀ d, d ∈ pl ↔ (s.dev d).discussOpen ≠ 0
  devs : ∀ d ∈ pl, d ∈ s.devs

section Cam
variable {s s' : Server} {pl : List ℤ} {t d : ℤ}

theorem Cam.ring (h : Cam s pl) : Ring s.ptc.links () pl := h.inv.rings.ring () trivial

theorem Cam.cameraOk (h : Cam s pl) : CameraOk s := by
  refine ⟨⟨pl, h.ring, h.opn⟩, fun d hd => (h.opn d).mp ?_⟩
  rw [h.curr] at hd
  exact List.mem_of_mem_head? hd

/-- What the view and the target do not see does not matter. -/
theorem Cam.of_view (h : Cam s pl) (hv : view s' = view s) (hc : s'.ptc.curr = s.ptc.curr) :
    Cam s' pl := by
  have hlinks : s'.ptc.links = s.ptc.links := congrArg View.ptcL hv
  have hopn : ∀ x, (s'.dev x).discussOpen = (s.dev x).discussOpen := congrFun (congrArg View.opn hv)
  have hdevs : s'.devs = s.devs := congrArg View.devs hv
  refine ⟨hlinks ▸ h.inv, hc.trans h.curr, fun x => ?_, fun x hx => hdevs ▸ h.devs x hx⟩
  rw [hopn]
  exact h.opn x

@[simp] theorem curr_setCurr (s : Server) (c : Option ℤ) : (setCurr s c).ptc.curr = c := rfl

theorem curr_ptcPut (h : ptcPut s d = some s') : s'.ptc.curr = some d := by
  obtain ⟨L, -, rfl⟩ := Option.map_eq_some_iff.mp h
  rfl

/-- The first device left is the next target. -/
theorem curr_ptcRemove (h : PtcInv s.ptc.links pl) (hc : s.ptc.curr = pl.head?)
    (hs : ptcRemove s d = some s') : s'.ptc.curr = (pl.erase d).head? := by
  unfold ptcRemove at hs
  by_cases hd : d ∈ pl
  · rw [if_pos ((isPushed_iff h d).mpr hd)] at hs
    obtain ⟨L, hL, hr, -⟩ := listDel_rings h.rings (h := ()) trivial hd
    rw [Function.update_eq_const_of_subsingleton] at hr
    simp only [hL, Option.bind_eq_bind, Option.bind_some] at hs
    have hempty : listEmpty L (.head ()) = true ↔ pl.erase d = [] :=
      listEmpty_rings hr (h := ()) trivial
    split at hs
    · rename_i he
      rw [Option.some.injEq] at hs
      rw [hempty.mp he, ← hs, curr_setCurr, List.head?_nil]
    · rename_i he
      obtain ⟨d', l, hl⟩ : ∃ d' l, pl.erase d = d' :: l :=
        List.exists_cons_of_ne_nil (fun h0 => he (hempty.mpr h0))
      split at hs
      · have hnext : L.next (.head ()) = some (.entry d') := by
          have := (hr.ring () trivial).head_next
          rwa [hl] at this
        simp only [hnext, listEntry, Option.map_some, Option.some.injEq] at hs
        rw [← hs, curr_ptcSend, curr_setCurr, hl, List.head?_cons]
      · -- another device than the target is taken out
        rename_i hne
        cases hs
        replace hne : ¬ s.ptc.curr = some d := hne
        obtain ⟨c, pl', rfl⟩ := List.exists_cons_of_ne_nil (List.ne_nil_of_mem hd)
        have hcd : c ≠ d := by
          rintro rfl
          exact hne hc
        rw [List.erase_cons_tail (by simpa using hcd)]
        exact hc
  · rw [if_neg (fun h' => hd ((isPushed_iff h d).mp h'))] at hs
    cases hs
    rw [List.erase_of_not_mem hd]
    exact hc

/-! ### Opening and closing -/

/-- `ptc_put` of a device that has just been opened. -/
theorem put_cam (hinv : PtcInv s.ptc.links pl) (hd : d ∈ s.devs) (hdevs : ∀ x ∈ pl, x ∈ s.devs)
    (hopn : ∀ x, x = d ∨ x ∈ pl ↔ (s.dev x).discussOpen ≠ 0) (hs : ptcPut s d = some s') :
    Cam s' (d :: pl.erase d) ∧ s'.devs = s.devs := by
  obtain ⟨s₁, L, hs₁, hv, hL⟩ := ptcPut_inv hinv d
  rw [hs] at hs₁
  cases hs₁
  have hlinks : s'.ptc.links = L := congrArg View.ptcL hv
  have hdv : s'.devs = s.devs := congrArg View.devs hv
  have ho : ∀ x, (s'.dev x).discussOpen = (s.dev x).discussOpen := congrFun (congrArg View.opn hv)
  refine ⟨⟨hlinks ▸ hL, curr_ptcPut hs, fun x => ?_, fun x hx => ?_⟩, hdv⟩
  · rw [ho, ← hopn, List.mem_cons]
    by_cases hxd : x = d
    · simp [hxd]
    · rw [List.mem_erase_of_ne hxd]
  · rw [hdv]
    rcases List.mem_cons.mp hx with rfl | hx
    · exact hd
    · exact hdevs x (List.mem_of_mem_erase hx)

theorem push_cam (hinv : PtcInv s.ptc.links pl) (hd : d ∈ s.devs) (hdevs : ∀ x ∈ pl, x ∈ s.devs)
    (hopn : ∀ x, x = d ∨ x ∈ pl ↔ (s.dev x).discussOpen ≠ 0) (hs : ptcPush s d = some s') :
    Cam s' (d :: pl.erase d) ∧ s'.devs = s.devs := by
  obtain ⟨s₁, hs₁, rfl⟩ := Option.map_eq_some_iff.mp hs
  obtain ⟨hcam, hdv⟩ := put_cam hinv hd hdevs hopn hs₁
  refine ⟨hcam.of_view (view_ptcSend s₁ d) (curr_ptcSend s₁ d), ?_⟩
  exact (congrArg View.devs (view_ptcSend s₁ d)).trans hdv

/-- `add_open` opens the device and touches no other. -/
theorem addOpen_opn (h : addOpen s t d = some s') :
    (∀ x, (s'.dev x).discussOpen = Function.update (view s).opn d 1 x) ∧ s'.devs = s.devs := by
  rcases addOpen_view s t d with ⟨-, hnone⟩ | ⟨L, s₁, -, hs₁, hseat⟩
  · rw [hnone] at h
    cases h
  rw [h] at hs₁
  cases hs₁
  obtain ⟨sl, mb, hv⟩ := seated_eq hseat
  exact ⟨congrFun (congrArg View.opn hv), congrArg View.devs hv⟩

theorem delOpen_opn (h : delOpen s t d = some s') :
    (∀ x, (s'.dev x).discussOpen = Function.update (view s).opn d 0 x) ∧ s'.devs = s.devs := by
  rcases delOpen_view s t d with ⟨-, hnone⟩ | ⟨L, s₁, -, hs₁, hun⟩
  · rw [hnone] at h
    cases h
  rw [h] at hs₁
  cases hs₁
  obtain ⟨sl, mb, hv⟩ := unseated_eq hun
  exact ⟨congrFun (congrArg View.opn hv), congrArg View.devs hv⟩

/-- The list and the flags fit once the device is open. -/
theorem Cam.opened (h : Cam s pl) (hs : addOpen s t d = some s') :
    PtcInv s'.ptc.links pl ∧ (∀ x ∈ pl, x ∈ s'.devs) ∧ s'.devs = s.devs ∧
      ∀ x, x = d ∨ x ∈ pl ↔ (s'.dev x).discussOpen ≠ 0 := by
  obtain ⟨hopn, hdevs⟩ := addOpen_opn hs
  refine ⟨(ptc_addOpen hs).symm ▸ h.inv, fun x hx => hdevs ▸ h.devs x hx, hdevs, fun x => ?_⟩
  rw [hopn]
  by_cases hxd : x = d
  · subst hxd
    simp
  · rw [Function.update_of_ne hxd, or_iff_right hxd]
    exact h.opn x

/-- **Opening** puts the device in front of the list. -/
theorem openit_cam (h : Cam s pl) (hd : d ∈ s.devs) (hs : openit s t d = some s') :
    Cam s' (d :: pl.erase d) := by
  obtain ⟨s₁, hs₁, hs⟩ := Option.bind_eq_some_iff.mp hs
  obtain ⟨hinv, hdevs, hdv, hopn⟩ := h.opened hs₁
  exact (push_cam hinv (hdv.symm ▸ hd) hdevs hopn hs).1

/-- **Closing** takes the device out of the list. -/
theorem closeit_cam (h : Cam s pl) (hs : closeit s t d = some s') :
    Cam s' (pl.erase d) ∧ s'.devs = s.devs := by
  obtain ⟨s₁, hs₁, hs⟩ := Option.bind_eq_some_iff.mp hs
  obtain ⟨hopn, hdevs⟩ := delOpen_opn hs₁
  have hptc := ptc_delOpen hs₁
  have hinv : PtcInv s₁.ptc.links pl := hptc.symm ▸ h.inv
  obtain ⟨s₂, L, hs₂, hv, hL⟩ := ptcRemove_inv hinv d
  rw [hs] at hs₂
  cases hs₂
  have hlinks : s'.ptc.links = L := congrArg View.ptcL hv
  have hdv : s'.devs = s₁.devs := congrArg View.devs hv
  have ho : ∀ x, (s'.dev x).discussOpen = (s₁.dev x).discussOpen :=
    congrFun (congrArg View.opn hv)
  refine ⟨⟨hlinks ▸ hL, curr_ptcRemove hinv (hptc.symm ▸ h.curr) hs, fun x => ?_, fun x hx => ?_⟩,
    hdv.trans hdevs⟩
  · rw [ho, hopn]
    by_cases hxd : x = d
    · subst hxd
      simp [h.ring.nodup.not_mem_erase]
    · rw [Function.update_of_ne hxd, List.mem_erase_of_ne hxd]
      exact h.opn x
  · rw [hdv, hdevs]
    exact h.devs x (List.mem_of_mem_erase hx)

end Cam

/-! ## Requests -/

section Request
variable {s : Server} {pl : List ℤ} {d t a : ℤ}

theorem requestPost_cam (h : Cam s pl) {cmd : Cmd} {r : Reply Server}
    (hr : requestPost s cmd t d a = some r) : Cam r.2.2 pl := by
  refine h.of_view (view_requestPost hr) ?_
  unfold requestPost at hr
  split at hr
  · split at hr
    · cases hr
      rfl
    · obtain ⟨s₁, hs₁, hr⟩ := Option.bind_eq_some_iff.mp hr
      cases hr
      unfold applyInterpMode at hs₁
      simp only [] at hs₁
      split_ifs at hs₁
      · cases hs₁; rfl
      · cases hs₁; rfl
      · cases hs₁; rfl
      · split at hs₁ <;> cases hs₁
        rfl
      · cases hs₁; rfl
  · cases hr
    rfl

/-- **A request keeps the list,** whether it opens, closes, kicks, or repeats what is. -/
theorem request_cam (h : Cam s pl) (hd : d ∈ s.devs) {cmd : Cmd} {p : Str} {l : List Str}
    {r : Reply Server} (hr : discctrlRequest s cmd d (p :: l) = some r) :
    ∃ pl', Cam r.2.2 pl' := by
  unfold discctrlRequest at hr
  rw [nextArg_cons] at hr
  simp only [] at hr
  by_cases heq : (s.dev d).discussOpen = atoi p
  · rw [if_pos heq] at hr
    by_cases ha : atoi p = 0
    · rw [if_neg (not_not.mpr ha)] at hr
      exact ⟨pl, requestPost_cam h hr⟩
    · -- it is open already: its slot and the camera are restored
      rw [if_pos ha] at hr
      obtain ⟨s₁, hs₁, hr⟩ := Option.bind_eq_some_iff.mp hr
      obtain ⟨sl, mb, hv⟩ := seated_eq (tagAddOutstanding_view s (s.dev d).tag d)
      have hopn : ∀ x, ((tagAddOutstanding s (s.dev d).tag d).dev x).discussOpen =
          (s.dev x).discussOpen := congrFun (congrArg View.opn hv)
      have hdevs : (tagAddOutstanding s (s.dev d).tag d).devs = s.devs := congrArg View.devs hv
      have hinv : PtcInv (tagAddOutstanding s (s.dev d).tag d).ptc.links pl :=
        (ptc_tagAddOutstanding s (s.dev d).tag d).symm ▸ h.inv
      have hcam := push_cam hinv (hdevs.symm ▸ hd) (fun x hx => hdevs.symm ▸ h.devs x hx)
        (fun x => ?_) hs₁
      · exact ⟨_, requestPost_cam hcam.1 hr⟩
      · rw [hopn, ← h.opn]
        refine ⟨fun hx => hx.elim (fun e => ?_) id, .inr⟩
        rw [e, h.opn, heq]
        exact ha
  · rw [if_neg heq] at hr
    by_cases ha : atoi p = 0
    · rw [if_neg (not_not.mpr ha)] at hr
      obtain ⟨s₁, hs₁, hr⟩ := Option.bind_eq_some_iff.mp hr
      exact ⟨_, requestPost_cam (closeit_cam h hs₁).1 hr⟩
    · rw [if_pos ha] at hr
      obtain ⟨adm, -, hr⟩ := Option.bind_eq_some_iff.mp hr
      cases adm with
      | reject =>
        cases hr
        exact ⟨pl, h⟩
      | openit =>
        obtain ⟨s₁, hs₁, hr⟩ := Option.bind_eq_some_iff.mp hr
        exact ⟨_, requestPost_cam (openit_cam h hd hs₁) hr⟩
      | kick k =>
        obtain ⟨s₁, hs₁, hr⟩ := Option.bind_eq_some_iff.mp hr
        obtain ⟨s₂, hs₂, hr⟩ := Option.bind_eq_some_iff.mp hr
        obtain ⟨hcam, hdevs⟩ := closeit_cam h hs₁
        have hkick := hcam.of_view (view_kickUser s₁ d k)
          (congrArg Ptc.curr (ptc_deviceCmd s₁ k _))
        have hdv : (kickUser s₁ d k).devs = s₁.devs := congrArg View.devs (view_kickUser s₁ d k)
        exact ⟨_, requestPost_cam (openit_cam hkick (hdv ▸ hdevs ▸ hd) hs₂) hr⟩

end Request

/-! ## Timeouts -/

section Timeout
variable {s s' : Server} {pl : List ℤ} {d : ℤ}

/-- The visit of the heartbeat thread finds that the open device `d` is dead. -/
def Dies (s : Server) (d : ℤ) : Prop :=
  d ∈ s.devs ∧ 3 < (s.dev d).hbeat + 1 ∧ (s.dev d).active = true ∧ (s.dev d).discussOpen ≠ 0

instance (s : Server) (d : ℤ) : Decidable (Dies s d) := inferInstanceAs (Decidable (_ ∧ _))

/-- A visit leaves the camera alone; it closes the device exactly when that dies. -/
theorem heartbeatGod_cam (hs : heartbeatGod s d = some s') :
    s'.ptc = s.ptc ∧ (¬ Dies s d → view s' = view s) ∧
      (Dies s d → (s'.dev d).discussOpen = 0) := by
  unfold heartbeatGod at hs
  split at hs
  swap
  · rename_i hd
    cases hs
    exact ⟨rfl, fun _ => rfl, fun h => absurd h.1 hd⟩
  rename_i hd
  have hv : view (s.setDev d fun D => { D with hbeat := D.hbeat + 1 }) = view s :=
    view_setDev_other _ _ _ rfl rfl rfl
  have hdev : (s.setDev d fun D => { D with hbeat := D.hbeat + 1 }).dev d =
      { s.dev d with hbeat := (s.dev d).hbeat + 1 } := Function.update_self ..
  have hptc : (s.setDev d fun D => { D with hbeat := D.hbeat + 1 }).ptc = s.ptc := rfl
  generalize s.setDev d (fun D => { D with hbeat := D.hbeat + 1 }) = s₁ at hv hdev hptc hs
  simp only [hdev] at hs
  split at hs
  swap
  · rename_i hn
    cases hs
    exact ⟨hptc, fun _ => hv, fun h => absurd ⟨h.2.1, h.2.2.1⟩ hn⟩
  rename_i hdead
  have hv₂ : view (doDevActivate s₁ d false) = view s := (view_doDevActivate ..).trans hv
  have hptc₂ : (doDevActivate s₁ d false).ptc = s.ptc := (ptc_doDevActivate ..).trans hptc
  generalize doDevActivate s₁ d false = s₂ at hv₂ hptc₂ hs
  have ho : (s₂.dev d).discussOpen = (s.dev d).discussOpen := congrFun (congrArg View.opn hv₂) d
  rw [ho] at hs
  split at hs
  · rename_i hopen
    refine ⟨(ptc_delOpen hs).trans hptc₂, fun h => absurd ⟨hd, hdead.1, hdead.2, hopen⟩ h,
      fun _ => ?_⟩
    rw [(delOpen_opn hs).1, Function.update_self]
  · rename_i hclosed
    cases hs
    exact ⟨hptc₂, fun _ => hv₂, fun h => absurd h.2.2.2 hclosed⟩

/-- **An open device that dies** stays in the list, and the camera on it. -/
theorem dies_bad (h : Cam s pl) (hdie : Dies s d) (hs : heartbeatGod s d = some s') :
    ¬ CameraOk s' := by
  rintro ⟨⟨pl', hring, hmem⟩, -⟩
  obtain ⟨hptc, -, hclosed⟩ := heartbeatGod_cam hs
  rw [hptc] at hring
  rw [hring.unique h.ring] at hmem
  exact (hmem d).mp ((h.opn d).mpr hdie.2.2.2) (hclosed hdie)

end Timeout

/-! ## Start-up -/

section Startup
variable {s s' : Server} {pl : List ℤ} {d : ℤ}

theorem boot_cam (db : Db) : Cam (boot db) [] := by
  refine ⟨(boot_inv db).ptc, rfl, fun d => ?_, List.forall_mem_nil _⟩
  refine ⟨fun h => absurd h List.not_mem_nil, fun h => absurd rfl h⟩

theorem devRegister_cam (h : Cam s pl) (hd : d ∉ s.devs) (type : ℤ) :
    Cam (devRegister s d type) pl ∧ d ∈ (devRegister s d type).devs := by
  have hview : (view (devRegister s d type)).opn = Function.update (view s).opn d 0 ∧
      (view (devRegister s d type)).devs = s.devs ++ [d] := by
    have hrequest : Function.update ((view s).request (s.row d).tagid).opn d 0 =
        Function.update (view s).opn d 0 ∧
          ((view s).request (s.row d).tagid).devs ++ [d] = s.devs ++ [d] := by
      rw [request_opn, request_devs]
      exact ⟨rfl, rfl⟩
    rcases view_devRegister s d type hd with hv | hv
    · rw [hv]
      exact hrequest
    · rw [hv, request_opn, request_devs]
      exact hrequest
  have hptc := ptc_devRegister s d type
  have hopn : ∀ x, ((devRegister s d type).dev x).discussOpen =
      Function.update (view s).opn d 0 x := congrFun hview.1
  have hdevs : (devRegister s d type).devs = s.devs ++ [d] := hview.2
  refine ⟨⟨hptc.symm ▸ h.inv, hptc.symm ▸ h.curr, fun x => ?_, fun x hx => ?_⟩, ?_⟩
  · rw [hopn]
    by_cases hxd : x = d
    · subst hxd
      rw [Function.update_self]
      exact ⟨fun hx => absurd (h.devs x hx) hd, fun hn => absurd rfl hn⟩
    · rw [Function.update_of_ne hxd]
      exact h.opn x
  · rw [hdevs]
    exact List.mem_append_left _ (h.devs x hx)
  · rw [hdevs]
    exact List.mem_append_right _ (List.mem_singleton.mpr rfl)

theorem restoreSub_cam (h : Cam s pl) (d : ℤ) :
    Cam (restoreSub s d) pl ∧ (restoreSub s d).devs = s.devs := by
  have hview : (view (restoreSub s d)).opn = (view s).opn ∧ (restoreSub s d).devs = s.devs := by
    unfold restoreSub
    refine Prod.mk.inj (foldl_same (v := fun s => ((view s).opn, s.devs)) (fun s tid => ?_) _ _)
    split
    · rfl
    · show ((view _).opn, (view _).devs) = ((view s).opn, (view s).devs)
      rw [view_devSubscribe, view_requestTag, request_opn, request_devs]
  have hptc := ptc_restoreSub s d
  refine ⟨⟨hptc.symm ▸ h.inv, hptc.symm ▸ h.curr, fun x => ?_, fun x hx => ?_⟩, hview.2⟩
  · have hopn : ((restoreSub s d).dev x).discussOpen = (s.dev x).discussOpen :=
      congrFun hview.1 x
    rw [hopn]
    exact h.opn x
  · rw [hview.2]
    exact h.devs x hx

/-- **`restore_discuss`** opens the device as a request does. -/
theorem restoreDiscuss_cam (h : Cam s pl) (hd : d ∈ s.devs)
    (hs : restoreDiscuss s d = some s') : ∃ pl', Cam s' pl' := by
  have hadd : Cam (if isPtc s d then addPtc s d else s) pl ∧
      (if isPtc s d then addPtc s d else s).devs = s.devs := by
    split
    · refine ⟨h.of_view (view_addPtc s d) ?_, congrArg View.devs (view_addPtc s d)⟩
      unfold addPtc
      split <;> rfl
    · exact ⟨h, rfl⟩
  unfold restoreDiscuss at hs
  generalize (if isPtc s d then addPtc s d else s) = s₀ at hadd hs
  obtain ⟨h₀, hdv₀⟩ := hadd
  simp only [] at hs
  split at hs
  · obtain ⟨s₁, hs₁, hs⟩ := Option.bind_eq_some_iff.mp hs
    obtain ⟨hinv, hdevs, hdv, hopn⟩ := h₀.opened hs₁
    exact ⟨_, (put_cam hinv (hdv.symm ▸ hdv₀.symm ▸ hd) hdevs hopn hs).1⟩
  · cases hs
    exact ⟨pl, h₀⟩

theorem recoverDev_cam (h : Cam s pl) (hs : recoverDev s d = some s') : ∃ pl', Cam s' pl' := by
  unfold recoverDev at hs
  split at hs
  · cases hs
    exact ⟨pl, h⟩
  split at hs
  · cases hs
  rename_i hd
  have hrow : Cam (s.setRow d fun r => { r with online := 0 }) pl := h.of_view (view_setRow ..) rfl
  obtain ⟨hreg, hmem⟩ := devRegister_cam hrow hd
    ((s.setRow d fun r => { r with online := 0 }).row d).type
  obtain ⟨hsub, hdevs⟩ := restoreSub_cam hreg d
  exact restoreDiscuss_cam hsub (hdevs.symm ▸ hmem) hs

theorem recoverDevs_cam (l : List ℤ) (h : Cam s pl) (hs : l.foldlM recoverDev s = some s') :
    ∃ pl', Cam s' pl' :=
  of_run (I := fun s => ∃ pl, Cam s pl) (fun _ _ _ ⟨_, h⟩ _ hs => recoverDev_cam h hs) ⟨pl, h⟩
    (guarded_true ..) hs

theorem curr_groupCreate (h : groupCreate s = some s') : s'.ptc.curr = s.ptc.curr :=
  groupCreate_same (v := fun s => s.ptc.curr) (fun _ _ => rfl) h

/-- **The camera looks at an open device when the server has started.** -/
theorem recoverServer_cam {db : Db} (h : recoverServer db = some s) : ∃ pl, Cam s pl := by
  obtain ⟨s₀, s₁, hs₀, hs₁, rfl⟩ := recoverServer_some h
  have hgrp : Cam s₀ [] := (boot_cam db).of_view (groupCreate_view hs₀) (curr_groupCreate hs₀)
  have hdevs : (0 : ℤ) ∉ s₀.devs := by
    show (0 : ℤ) ∉ (view s₀).devs
    rw [groupCreate_view hs₀]
    exact List.not_mem_nil
  have hman : Cam (addManagerDev s₀) [] :=
    (devRegister_cam (hgrp.of_view (view_setRow ..) rfl) hdevs devtypeNone).1
  obtain ⟨pl, hcam⟩ := recoverDevs_cam _ hman hs₁
  refine ⟨pl, hcam.of_view (view_ptcGoCurrent s₁) ?_⟩
  unfold ptcGoCurrent
  split
  · exact curr_ptcSend ..
  · exact curr_ptcDefault s₁

end Startup

/-! ## Whole runs -/

/-- The steps that open and close microphones: `request` with 0 or 1, heartbeats and timeouts. -/
def CloseEvent : Event → Prop
  | .discctrl cmd => ∃ p l, cmd.args = "request".toList :: p :: l ∧ (atoi p = 0 ∨ atoi p = 1)
  | .switchTag _ => False
  | _ => True

/-- The heartbeat thread finds no open device dead. -/
def Attended (s : Server) : Event → Prop
  | .heartbeatGod d => ¬ Dies s d
  | _ => True

instance (s : Server) : ∀ e, Decidable (Attended s e)
  | .heartbeatGod d => inferInstanceAs (Decidable (¬ Dies s d))
  | .discctrl _ => .isTrue trivial
  | .switchTag _ => .isTrue trivial
  | .heartbeat _ => .isTrue trivial

section Runs
variable {s s' : Server}

theorem step_cam {e : Event} {pl : List ℤ} (h : Cam s pl) (hE : CloseEvent e)
    (hg : Attended s e) (hs : step s e = some s') : ∃ pl', Cam s' pl' := by
  cases e with
  | switchTag cmd => exact hE.elim
  | heartbeat d =>
    cases hs
    refine ⟨pl, h.of_view (view_heartbeat s d) ?_⟩
    unfold heartbeat
    split
    · rw [ptc_doDevActivate]
      rfl
    · split <;> rfl
  | heartbeatGod d =>
    obtain ⟨hptc, hv, -⟩ := heartbeatGod_cam hs
    exact ⟨pl, h.of_view (hv hg) (congrArg Ptc.curr hptc)⟩
  | discctrl cmd =>
    obtain ⟨p, l, hargs, -⟩ := hE
    obtain ⟨r, hr, rfl⟩ := Option.map_eq_some_iff.mp hs
    by_cases hd : cmd.deviceId ∈ s.devs
    · rw [cmdDiscctrl_request hd hargs] at hr
      exact request_cam h hd hr
    · unfold cmdDiscctrl at hr
      rw [if_pos hd] at hr
      cases hr
      exact ⟨pl, h⟩

theorem stepSafe_of_closeEvent (h : Good s) {e : Event} (hE : CloseEvent e) : StepSafe s e := by
  refine stepSafe_of_micEvent h (e := e) ?_ ?_ <;> cases e with
  | switchTag cmd => exact hE.elim
  | discctrl cmd => first | exact hE | trivial
  | heartbeat d => trivial
  | heartbeatGod d => trivial

/-- **The camera's list is that of the open devices along a run exactly when no device dies while
its microphone is open.** -/
theorem camera_exact {db : Db} (hs : recoverServer db = some s) {es : List Event}
    (hes : ∀ e ∈ es, CloseEvent e) : Always step CameraOk s es ↔ Guarded step Attended s es := by
  refine always_iff_guarded (I := fun s => Good s ∧ ∃ pl, Cam s pl)
    (fun s h => h.2.elim fun _ hc => hc.cameraOk) ?_ ?_
    ⟨recoverServer_good hs, recoverServer_cam hs⟩ hes
  · rintro s e ⟨hgood, pl, hcam⟩ hE hg
    obtain ⟨s', hs', hgood'⟩ := step_good s e hgood (stepSafe_of_closeEvent hgood hE)
    exact ⟨s', hs', hgood', step_cam hcam hE hg hs'⟩
  · rintro s e s' ⟨-, pl, hcam⟩ - hn hs'
    cases e with
    | heartbeatGod d => exact dies_bad hcam (not_not.mp hn) hs'
    | discctrl cmd => exact absurd trivial hn
    | switchTag cmd => exact absurd trivial hn
    | heartbeat d => exact absurd trivial hn

end Runs

/-! ## A device that dies -/

/-- Device 101 registers, is heard of once, opens its microphone and falls silent. -/
def silence : List Event :=
  [.heartbeat 101, request 101 "1", .heartbeatGod 101, .heartbeatGod 101, .heartbeatGod 101,
    .heartbeatGod 101]

/-- The camera keeps looking at the dead device. -/
theorem dead_target : ∃ s, recoverServer twoClients = some s ∧
    ¬ Always step CameraOk s silence := by
  have hrun : ((recoverServer twoClients).bind fun s => run step s silence).map
      (fun s => (s.ptc.curr, (s.dev 101).discussOpen)) = some (some 101, 0) := by decide +kernel
  obtain ⟨t, ht, hobs⟩ := Option.map_eq_some_iff.mp hrun
  obtain ⟨s, hs, ht⟩ := Option.bind_eq_some_iff.mp ht
  rw [Prod.mk.injEq] at hobs
  refine ⟨s, hs, fun h => ?_⟩
  have hok := h.final ht
  exact hok.2 101 hobs.1 hobs.2

theorem camera_exact_twoClients : ∃ s, recoverServer twoClients = some s ∧
    (Always step CameraOk s silence ↔ Guarded step Attended s silence) := by
  obtain ⟨s, hs⟩ := Option.isSome_iff_exists.mp
    (show (recoverServer twoClients).isSome = true by decide)
  refine ⟨s, hs, camera_exact hs fun e he => ?_⟩
  rcases List.mem_cons.mp he with rfl | he
  · trivial
  rcases List.mem_cons.mp he with rfl | he
  · exact ⟨_, _, rfl, Or.inr (by decide)⟩
  · have : ∀ e ∈ [Event.heartbeatGod 101, .heartbeatGod 101, .heartbeatGod 101, .heartbeatGod 101],
        CloseEvent e := by simp [CloseEvent]
    exact this e he

end GSConferencing.Serv.Camera
