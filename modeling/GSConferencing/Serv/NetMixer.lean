import GSConferencing.Serv.OpenRuns

/-!
# Resources of the net mixer

`net_mixer.c`: a microphone that opens is given one of eight resources, and gives it back when it
closes, both through the mixer of the tag the device has at that time.  This module follows the
small part of the state that opening and closing change, its `core`.

* `core_tagAddOutstanding`, `core_delOpen`: a resource is taken, a resource is given back.
* `steady_discctrl`: the other commands leave the core alone.
* `conserved_along`: resources are conserved as long as a device that closes has the net mixer.
* `switch_leaks`: a device that leaves the tag with an open microphone keeps its resource.
-/

namespace GSConferencing.Serv.NetMixer

open GSConferencing.Lib.CyclicList GSConferencing.Lib.Run GSConferencing.Include.ListHead
open GSConferencing.Serv.Strutil GSConferencing.Serv.CmdHandler GSConferencing.Serv.Dev
open GSConferencing.Serv.Tag GSConferencing.Serv.Interp GSConferencing.Serv.Devctl
open GSConferencing.Serv.Ptc GSConferencing.Serv.Discuss GSConferencing.Serv.Server
open GSConferencing.Serv.Frame
open GSConferencing.Serv.OpenView (comp_update update_eq ne_of_update)
open GSConferencing.Serv.OpenRuns

/-! ## The core -/

/-- What opening and closing a microphone changes. -/
@[ext] structure Core where
  devs : List ℤ
  opn : ℤ → ℤ
  mixbit : ℤ → ℕ
  avail : Fin 8 → Bool
  held : ℤ → ℤ

def core (s : Server) : Core where
  devs := s.devs
  opn d := (s.dev d).discussOpen
  mixbit d := (s.dev d).mixbit
  avail := s.avail
  held d := (s.dev d).mixerRes

section Frame
variable (s : Server) (d t : ℤ)

theorem core_setDev (f : Device → Device) : core (s.setDev d f) = { core s with
    opn := Function.update (core s).opn d (f (s.dev d)).discussOpen
    mixbit := Function.update (core s).mixbit d (f (s.dev d)).mixbit
    held := Function.update (core s).held d (f (s.dev d)).mixerRes } := by
  simp only [core, Server.setDev]
  rw [comp_update Device.discussOpen, comp_update Device.mixbit, comp_update Device.mixerRes]

/-- A device's other fields. -/
theorem core_setDev_other (f : Device → Device)
    (hopn : (f (s.dev d)).discussOpen = (s.dev d).discussOpen)
    (hbit : (f (s.dev d)).mixbit = (s.dev d).mixbit)
    (hres : (f (s.dev d)).mixerRes = (s.dev d).mixerRes) : core (s.setDev d f) = core s := by
  rw [core_setDev, update_eq (f := (core s).opn) hopn, update_eq (f := (core s).mixbit) hbit,
    update_eq (f := (core s).held) hres]

@[simp] theorem core_setTag (f : Tag → Tag) : core (s.setTag t f) = core s := rfl

@[simp] theorem core_setRow (f : DbDevice → DbDevice) : core (s.setRow d f) = core s := rfl

@[simp] theorem core_setGrp (f : Group → Group) : core (s.setGrp f) = core s := rfl

@[simp] theorem core_send (o : Out) : core (s.send o) = core s := rfl

@[simp] theorem core_openL (L : Links ℤ ℤ) : core { s with openL := L } = core s := rfl

@[simp] theorem core_deviceSave : core (deviceSave s d) = core s := deviceSave_same core_send s d

@[simp] theorem core_deviceCmd (text : Str) : core (deviceCmd s d text) = core s :=
  deviceCmd_same core_send s d text

@[simp] theorem core_kickUser (k : ℤ) : core (kickUser s d k) = core s := core_deviceCmd ..

@[simp] theorem core_sendCmdToDevId (cmd : Cmd) : core (sendCmdToDevId s cmd d) = core s :=
  sendCmdToDevId_same core_send s cmd d

theorem core_sparesPtc : SparesPtc core :=
  ⟨fun _ _ => rfl, fun _ _ => rfl, fun _ _ => rfl, core_send⟩

@[simp] theorem core_addPtc : core (addPtc s d) = core s := addPtc_same core_sparesPtc.ptcs s d

@[simp] theorem core_ptcGoCurrent : core (ptcGoCurrent s) = core s :=
  ptcGoCurrent_same core_sparesPtc.ptcs core_send s

@[simp] theorem core_tagCheckUcast : core (tagCheckUcast s t d) = core s :=
  tagCheckUcast_same (fun _ _ _ => core_setTag ..) s t d

@[simp] theorem core_requestTag : core (requestTag s t) = core s := by
  unfold requestTag
  split <;> rfl

theorem core_active (s : Server) (d : ℤ) (a : Bool) :
    core (s.setDev d fun D => { D with active := a }) = core s :=
  core_setDev_other _ _ _ rfl rfl rfl

@[simp] theorem core_doDevActivate (a : Bool) : core (doDevActivate s d a) = core s :=
  doDevActivate_same core_active (fun _ _ _ => core_setRow ..) s d a

@[simp] theorem core_heartbeat : core (heartbeat s d) = core s :=
  heartbeat_same core_active (fun _ _ _ => core_setRow ..)
    (fun _ _ _ => core_setDev_other _ _ _ rfl rfl rfl) s d

@[simp] theorem core_devSubscribe : core (devSubscribe s d t) = core s :=
  devSubscribe_same (fun _ _ _ => rfl) (fun _ _ _ => rfl)
    (fun _ _ _ => core_setDev_other _ _ _ rfl rfl rfl) (fun _ _ _ => core_setRow ..) s d t

@[simp] theorem core_allowMembers : core (allowMembers s) = core s :=
  allowMembers_same (fun _ _ _ => core_setDev_other _ _ _ rfl rfl rfl) s

@[simp] theorem core_resetOpenList : core (resetOpenList s t) = core s := rfl

@[simp] theorem core_moveDev : core (moveDev s d t) = core s := by
  unfold moveDev
  rw [core_tagCheckUcast, core_setDev_other _ _ _ rfl rfl rfl]
  exact core_requestTag s t

variable {s d t}
variable {s' : Server}

theorem core_applyInterpMode (h : applyInterpMode s t d = some s') : core s' = core s :=
  applyInterpMode_same (fun _ _ _ => rfl) h

theorem core_requestPost {cmd : Cmd} {a : ℤ} {r : Reply Server}
    (h : requestPost s cmd t d a = some r) : core r.2.2 = core s :=
  requestPost_same (fun _ _ _ => rfl) h

theorem core_groupSetupDiscuss {r : DbDiscuss} (h : groupSetupDiscuss s r = some s') :
    core s' = core s :=
  groupSetupDiscuss_same core_setGrp h

theorem core_ptcPush (h : ptcPush s d = some s') : core s' = core s := core_sparesPtc.ptcPush h

theorem core_ptcRemove (h : ptcRemove s d = some s') : core s' = core s :=
  core_sparesPtc.ptcRemove h

end Frame

/-! ## A resource is taken, a resource is given back -/

/-- The device gets a mix slot. -/
def Core.seat (c : Core) (d : ℤ) (b : ℕ) : Core :=
  { c with mixbit := Function.update c.mixbit d b }

/-- The device gets the resource `i`. -/
def Core.take (c : Core) (d : ℤ) (i : Fin 8) : Core :=
  { c with
    avail := Function.update c.avail i false
    held := Function.update c.held d (i.val + 1) }

/-- The resource that a device has. -/
def Core.resource (c : Core) (d : ℤ) : Option (Fin 8) :=
  (List.finRange 8).find? fun i => c.held d = i.val + 1

def Core.giveBack (c : Core) (d : ℤ) : Option (Fin 8) → Core
  | none => c
  | some i =>
    { c with
      avail := Function.update c.avail i true
      held := Function.update c.held d 0 }

/-- The device gives back what it has. -/
def Core.release (c : Core) (d : ℤ) : Core := c.giveBack d (c.resource d)

def Core.opened (c : Core) (d : ℤ) : Core := { c with opn := Function.update c.opn d 1 }

def Core.closed (c : Core) (d : ℤ) : Core :=
  { c with
    opn := Function.update c.opn d 0
    mixbit := Function.update c.mixbit d 0 }

/-- A device without a slot may get one, and a resource that is available. -/
inductive Core.Seated (c : Core) (d : ℤ) : Core → Prop where
  | same : Seated c d c
  | seat {b : ℕ} (h : c.mixbit d = 0) (hb : b ≠ 0) : Seated c d (c.seat d b)
  | take {b : ℕ} {i : Fin 8} (h : c.mixbit d = 0) (hb : b ≠ 0) (hi : c.avail i = true) :
    Seated c d ((c.seat d b).take d i)

/-- The mixer of the device's tag is the net mixer. -/
def HasNet (s : Server) (d : ℤ) : Prop := (s.tag (s.dev d).tag).mixer = .net

instance (s : Server) (d : ℤ) : Decidable (HasNet s d) := inferInstanceAs (Decidable (_ = _))

section Mixer
variable {s s' : Server} {d t : ℤ}

theorem core_netmxOpenDev (s : Server) (d : ℤ) :
    core (netmxOpenDev s d) = core s ∨
      ∃ i, s.avail i = true ∧ core (netmxOpenDev s d) = (core s).take d i := by
  unfold netmxOpenDev
  split
  · exact .inl rfl
  · rename_i i hfind
    refine .inr ⟨i, List.find?_some hfind, ?_⟩
    rw [core_setDev]
    exact Core.ext rfl (update_eq rfl) (update_eq rfl) rfl rfl

theorem core_netmxCloseDev (s : Server) (d : ℤ) :
    core (netmxCloseDev s d) = (core s).release d := by
  unfold netmxCloseDev Core.release
  show core (match (core s).resource d with
    | none => s
    | some i => _) = _
  cases (core s).resource d with
  | none => rfl
  | some i =>
    simp only []
    rw [core_setDev]
    exact Core.ext rfl (update_eq rfl) (update_eq rfl) rfl rfl

theorem core_mixCloseDev (s : Server) (d : ℤ) :
    core (mixCloseDev s d) = if HasNet s d then (core s).release d else core s := by
  unfold mixCloseDev
  split
  · rename_i hmix
    have hno : ¬ HasNet s d := fun h => Mixer.noConfusion (hmix.symm.trans h)
    rw [if_neg hno]
  · rename_i hmix
    rw [if_pos (show HasNet s d from hmix), core_netmxCloseDev]

/-- **`tag_add_outstanding`.** -/
theorem core_tagAddOutstanding (s : Server) (t d : ℤ) :
    (core s).Seated d (core (tagAddOutstanding s t d)) := by
  unfold tagAddOutstanding
  split
  · exact .same
  · rename_i hbit
    rw [not_not] at hbit
    split
    · exact .same
    · rename_i i _
      simp only []
      have hseat : ∀ (f g : Tag → Tag), core (((s.setTag t f).setDev d fun D =>
          { D with mixbit := 2 ^ i.val, timeouts := 0 }).setTag t g) =
          (core s).seat d (2 ^ i.val) := by
        intro f g
        rw [core_setTag, core_setDev, core_setTag]
        exact Core.ext rfl (update_eq rfl) rfl rfl (update_eq rfl)
      unfold mixOpenDev
      split
      · rw [hseat]
        exact .seat hbit (by positivity)
      · rcases core_netmxOpenDev _ d with h | ⟨j, hj, h⟩
        · rw [h, hseat]
          exact .seat hbit (by positivity)
        · rw [h, hseat]
          exact .take hbit (by positivity) hj

/-- **`tag_rm_outstanding`.** -/
theorem core_tagRmOutstanding (s : Server) (t d : ℤ) : core (tagRmOutstanding s t d) =
    if HasNet s d then ((core s).seat d 0).release d else (core s).seat d 0 := by
  have hseat : ∀ s₁ : Server, core s₁ = core s → s₁.dev = s.dev →
      core (s₁.setDev d fun D => { D with mixbit := 0 }) = (core s).seat d 0 := by
    intro s₁ hc hdev
    rw [core_setDev, hc, hdev]
    exact Core.ext rfl (update_eq rfl) rfl rfl (update_eq rfl)
  have hclose : ∀ s₁ : Server, core s₁ = core s → s₁.dev = s.dev →
      (∀ t', (s₁.tag t').mixer = (s.tag t').mixer) →
      core (mixCloseDev (s₁.setDev d fun D => { D with mixbit := 0 }) d) =
        if HasNet s d then ((core s).seat d 0).release d else (core s).seat d 0 := by
    intro s₁ hc hdev hmix
    have hnet : ((s₁.setDev d fun D => { D with mixbit := 0 }).tag
        ((s₁.setDev d fun D => { D with mixbit := 0 }).dev d).tag).mixer =
        (s.tag (s.dev d).tag).mixer := by
      simp only [Server.setDev, Function.update_self]
      rw [hmix, hdev]
    rw [core_mixCloseDev, hseat s₁ hc hdev]
    exact if_congr (by rw [HasNet, hnet, HasNet]) rfl rfl
  unfold tagRmOutstanding
  simp only []
  split
  · exact hclose s rfl rfl fun _ => rfl
  · refine hclose _ rfl rfl fun t' => ?_
    by_cases ht : t' = t
    · subst ht
      simp only [Server.setTag, Function.update_self]
    · simp only [Server.setTag, Function.update_of_ne ht]

/-- **`add_open`.** -/
theorem core_addOpen (h : addOpen s t d = some s') : ((core s).opened d).Seated d (core s') := by
  obtain ⟨L, -, h⟩ := Option.bind_eq_some_iff.mp h
  cases h
  rw [core_deviceSave, core_setRow]
  have hcore : core ((Server.setTag { s with openL := L } t fun T =>
      { T with openuser := T.openuser + 1 }).setDev d fun D => { D with discussOpen := 1 }) =
      (core s).opened d := by
    rw [core_setDev, core_setTag, core_openL]
    exact Core.ext rfl rfl (update_eq rfl) rfl (update_eq rfl)
  rw [← hcore]
  exact core_tagAddOutstanding _ t d

/-- **`del_open`.** -/
theorem core_delOpen (h : delOpen s t d = some s') : core s' =
    if HasNet s d then ((core s).closed d).release d else (core s).closed d := by
  obtain ⟨L, -, h⟩ := Option.bind_eq_some_iff.mp h
  cases h
  rw [core_deviceSave, core_setRow, core_tagRmOutstanding]
  have hcore : (core ((Server.setTag { s with openL := L } t fun T =>
      { T with openuser := T.openuser - 1 }).setDev d fun D =>
        { D with discussOpen := 0 })).seat d 0 = (core s).closed d := by
    rw [core_setDev, core_setTag, core_openL]
    refine Core.ext rfl rfl ?_ rfl (update_eq rfl)
    exact congrArg (Function.update · d 0) (update_eq rfl)
  have hnet : HasNet ((Server.setTag { s with openL := L } t fun T =>
      { T with openuser := T.openuser - 1 }).setDev d fun D => { D with discussOpen := 0 }) d ↔
      HasNet s d := by
    unfold HasNet
    simp only [Server.setDev, Server.setTag, Function.update_self]
    by_cases ht : (s.dev d).tag = t
    · rw [ht, Function.update_self]
    · rw [Function.update_of_ne ht]
  rw [hcore]
  exact if_congr hnet rfl rfl

theorem core_openit (h : openit s t d = some s') : ((core s).opened d).Seated d (core s') := by
  obtain ⟨s₁, hs₁, h⟩ := Option.bind_eq_some_iff.mp h
  rw [core_ptcPush h]
  exact core_addOpen hs₁

theorem core_closeit (h : closeit s t d = some s') : core s' =
    if HasNet s d then ((core s).closed d).release d else (core s).closed d := by
  obtain ⟨s₁, hs₁, h⟩ := Option.bind_eq_some_iff.mp h
  rw [core_ptcRemove h]
  exact core_delOpen hs₁

end Mixer

/-! ## The invariant -/

/-- A device holds a resource only while its microphone is open and has a slot; what is held is
not available, held once, and nothing else is missing. -/
structure Inv (c : Core) : Prop where
  held : ∀ d, c.held d ≠ 0 → d ∈ c.devs ∧ c.opn d ≠ 0 ∧ c.mixbit d ≠ 0 ∧
    ∃ i : Fin 8, c.held d = i.val + 1 ∧ c.avail i = false
  inj : ∀ d d', c.held d ≠ 0 → c.held d = c.held d' → d = d'
  taken : ∀ i : Fin 8, c.avail i = false → ∃ d, c.held d = i.val + 1

section Invariant
variable {c c' : Core} {d : ℤ}

theorem Inv.opened (h : Inv c) : Inv (c.opened d) := by
  refine ⟨fun x hx => ?_, h.inj, h.taken⟩
  obtain ⟨h1, h2, h3, h4⟩ := h.held x hx
  refine ⟨h1, ?_, h3, h4⟩
  show Function.update c.opn d 1 x ≠ 0
  by_cases e : x = d
  · rw [e, Function.update_self]; exact one_ne_zero
  · rw [Function.update_of_ne e]; exact h2

theorem Inv.seat (h : Inv c) {b : ℕ} (hb : b ≠ 0) : Inv (c.seat d b) := by
  refine ⟨fun x hx => ?_, h.inj, h.taken⟩
  obtain ⟨h1, h2, h3, h4⟩ := h.held x hx
  refine ⟨h1, h2, ?_, h4⟩
  show Function.update c.mixbit d b x ≠ 0
  by_cases e : x = d
  · rw [e, Function.update_self]; exact hb
  · rw [Function.update_of_ne e]; exact h3

/-- A device that has none is given an available resource. -/
theorem Inv.take (h : Inv c) {i : Fin 8} (hd : d ∈ c.devs) (ho : c.opn d ≠ 0)
    (hbit : c.mixbit d ≠ 0) (hnone : c.held d = 0) (hi : c.avail i = true) : Inv (c.take d i) := by
  have hheld : ∀ x, (c.take d i).held x = if x = d then (i.val + 1 : ℤ) else c.held x :=
    fun x => Function.update_apply ..
  have hother : ∀ x, c.held x ≠ i.val + 1 := by
    intro x hx
    obtain ⟨-, -, -, j, hj, havail⟩ := h.held x (by omega)
    have hij : i = j := Fin.ext (by omega)
    rw [hij, havail] at hi
    cases hi
  refine ⟨fun x hx => ?_, fun x y hx hxy => ?_, fun j hj => ?_⟩
  · rw [hheld] at hx ⊢
    split_ifs at hx ⊢ with e
    · subst e
      exact ⟨hd, ho, hbit, i, rfl, Function.update_self ..⟩
    · obtain ⟨h1, h2, h3, j, hj, havail⟩ := h.held x hx
      refine ⟨h1, h2, h3, j, hj, ?_⟩
      show Function.update c.avail i false j = false
      rw [Function.update_apply, havail, ite_self]
  · rw [hheld] at hx
    rw [hheld, hheld] at hxy
    split_ifs at hx hxy with e₁ e₂ e₂
    · exact e₁.trans e₂.symm
    · exact absurd hxy.symm (hother y)
    · exact absurd hxy (hother x)
    · exact h.inj x y hx hxy
  · replace hj : Function.update c.avail i false j = false := hj
    by_cases e : j = i
    · exact ⟨d, by rw [hheld, if_pos rfl, e]⟩
    · rw [Function.update_of_ne e] at hj
      obtain ⟨x, hx⟩ := h.taken j hj
      refine ⟨x, ?_⟩
      rw [hheld, if_neg, hx]
      rintro rfl
      omega

theorem Inv.seated (h : Inv c) (hd : d ∈ c.devs) (ho : c.opn d ≠ 0) (hs : c.Seated d c') :
    Inv c' := by
  have hnone : c.mixbit d = 0 → c.held d = 0 := fun hbit => by
    by_contra hne
    exact (h.held d hne).2.2.1 hbit
  cases hs with
  | same => exact h
  | seat hbit hb => exact h.seat hb
  | take hbit hb hi =>
    refine (h.seat hb).take hd ho ?_ (hnone hbit) hi
    show Function.update c.mixbit d _ d ≠ 0
    rw [Function.update_self]
    exact hb

/-- A device that holds nothing closes. -/
theorem Inv.closed (h : Inv c) (hnone : c.held d = 0) : Inv (c.closed d) := by
  refine ⟨fun x hx => ?_, h.inj, h.taken⟩
  obtain ⟨h1, h2, h3, h4⟩ := h.held x hx
  have e : x ≠ d := by
    rintro rfl
    exact hx hnone
  refine ⟨h1, ?_, ?_, h4⟩
  · show Function.update c.opn d 0 x ≠ 0
    rw [Function.update_of_ne e]; exact h2
  · show Function.update c.mixbit d 0 x ≠ 0
    rw [Function.update_of_ne e]; exact h3

/-- What is given back is available again. -/
theorem Inv.release (h : Inv c) : Inv (c.release d) ∧ (c.release d).held d = 0 := by
  unfold Core.release
  cases hfind : c.resource d with
  | none =>
    refine ⟨h, ?_⟩
    by_contra hne
    obtain ⟨-, -, -, i, hi, -⟩ := h.held d hne
    exact List.find?_eq_none.mp hfind i (List.mem_finRange i) (decide_eq_true hi)
  | some i =>
    have hi : c.held d = i.val + 1 := by simpa using List.find?_some hfind
    refine ⟨⟨fun x hx => ?_, fun x y hx hxy => ?_, fun j hj => ?_⟩, Function.update_self ..⟩
    · obtain ⟨hxd, hhas⟩ := ne_of_update (f := c.held) hx
      obtain ⟨h1, h2, h3, j, hj, havail⟩ := h.held x hhas
      refine ⟨h1, h2, h3, j, (Function.update_of_ne hxd ..).trans hj, ?_⟩
      show Function.update c.avail i true j = false
      rw [Function.update_of_ne, havail]
      rintro rfl
      exact hxd (h.inj x d hhas (hj.trans hi.symm))
    · replace hxy : Function.update c.held d 0 x = Function.update c.held d 0 y := hxy
      have hy : Function.update c.held d 0 y ≠ 0 := hxy ▸ hx
      obtain ⟨hxd, hx⟩ := ne_of_update (f := c.held) hx
      rw [Function.update_of_ne hxd, Function.update_of_ne (ne_of_update hy).1] at hxy
      exact h.inj x y hx hxy
    · have hj' : Function.update c.avail i true j ≠ true := Bool.eq_false_iff.mp hj
      obtain ⟨hji, hj⟩ := ne_of_update hj'
      obtain ⟨x, hx⟩ := h.taken j (Bool.eq_false_iff.mpr hj)
      have hxd : x ≠ d := by
        rintro rfl
        exact hji (Fin.ext (by omega))
      exact ⟨x, (Function.update_of_ne hxd ..).trans hx⟩

/-- A device closes, and gives back what it has. -/
theorem Inv.close_release (h : Inv c) : Inv ((c.closed d).release d) := by
  have hcomm : (c.closed d).release d = (c.release d).closed d := by
    show (c.closed d).giveBack d (c.resource d) = (c.giveBack d (c.resource d)).closed d
    cases c.resource d <;> rfl
  rw [hcomm]
  exact h.release.1.closed h.release.2

end Invariant

/-! ## The other commands -/

/-- A handler that leaves the core alone. -/
def Steady (s : Server) (o : Option (Reply Server)) : Prop :=
  ∀ r, o = some r → core r.2.2 = core s

section Commands
variable {s s' : Server} {d t : ℤ}

theorem steady_none (s : Server) : Steady s none := by
  intro r hr
  cases hr

theorem steady_some {c : ℤ} {cmd : Cmd} (h : core s' = core s) : Steady s (some (c, cmd, s')) := by
  intro r hr
  cases hr
  exact h

theorem steady_nextArg {args : List Str} {cmd : Cmd} {f : Str → List Str → Option (Reply Server)}
    (h : ∀ p l, args = p :: l → Steady s (f p l)) : Steady s (nextArg args cmd s f) := by
  intro r hr
  cases args with
  | nil => cases hr; rfl
  | cons p l => exact h p l rfl r hr

theorem steady_select (cmd : Cmd) (d : ℤ) (args : List Str) :
    Steady s (discctrlSelect s cmd d args) := by
  unfold discctrlSelect
  split
  · exact steady_some rfl
  · refine steady_nextArg fun p l _ => ?_
    simp only []
    split_ifs
    · exact steady_some rfl
    · exact steady_none s
    · intro r hr
      obtain ⟨row, -, hr⟩ := Option.bind_eq_some_iff.mp hr
      obtain ⟨s₁, hs₁, hr⟩ := Option.bind_eq_some_iff.mp hr
      cases hr
      simp only [core_send, core_setGrp, core_deviceSave, core_setRow, core_sendCmdToDevId,
        core_allowMembers, core_resetOpenList]
      exact core_groupSetupDiscuss hs₁

theorem steady_close (cmd : Cmd) (d : ℤ) : Steady s (discctrlClose s cmd d) := by
  unfold discctrlClose
  split
  · exact steady_some rfl
  · refine steady_some ?_
    simp only [core_send, core_setGrp, core_deviceSave, core_setRow, core_resetOpenList]

theorem steady_setmode (cmd : Cmd) (d : ℤ) (args : List Str) :
    Steady s (discctrlSetmode s cmd d args) :=
  steady_nextArg fun _ _ _ => steady_some (by simp only [core_send, core_setGrp, core_setTag])

theorem steady_setMaxuser (cmd : Cmd) (args : List Str) :
    Steady s (discctrlSetMaxuser s cmd args) := by
  refine steady_nextArg fun p l _ => ?_
  split_ifs
  · exact steady_some (by simp only [core_send, core_setGrp, core_setTag])
  · exact steady_none s

theorem steady_status (cmd : Cmd) (d : ℤ) : Steady s (discctrlStatus s cmd d) := by
  unfold discctrlStatus
  split
  · exact steady_some rfl
  · intro r hr
    obtain ⟨v, -, hr⟩ := Option.bind_eq_some_iff.mp hr
    split at hr
    cases hr
    rfl

theorem steady_forbid (cmd : Cmd) (args : List Str) : Steady s (discctrlForbid s cmd args) := by
  refine steady_nextArg fun p l _ => ?_
  simp only []
  split_ifs
  · refine steady_some ?_
    rw [core_deviceCmd, core_setDev_other _ _ _ rfl rfl rfl]
  · exact steady_some rfl

theorem steady_disableall (cmd : Cmd) (d : ℤ) (args : List Str) :
    Steady s (discctrlDisableall s cmd d args) :=
  steady_nextArg fun _ _ _ => steady_some (by rw [core_send, core_setGrp])

theorem steady_demand (cmd : Cmd) (d : ℤ) (args : List Str) :
    Steady s (discctrlDemand s cmd d args) := by
  refine steady_nextArg fun p l _ => steady_nextArg fun p' l' _ => ?_
  split_ifs
  · exact steady_some rfl
  · exact steady_some (by rw [core_sendCmdToDevId])

/-- The rule for the chain of `SUBCMD`s. -/
theorem ite_rule {α : Type*} {P : α → Prop} {c : Prop} [Decidable c] {x y : α} (hx : c → P x)
    (hy : ¬ c → P y) : P (if c then x else y) := by
  by_cases hc : c
  · rw [if_pos hc]; exact hx hc
  · rw [if_neg hc]; exact hy hc

/-- **`discctrl`**: only `request` touches the core. -/
theorem discctrl_rule {P : Option (Reply Server) → Prop} (cmd : Cmd)
    (hsteady : ∀ o, Steady s o → P o)
    (hreq : cmd.deviceId ∈ s.devs → ∀ p l, cmd.args = "request".toList :: p :: l →
      P (discctrlRequest s cmd cmd.deviceId (p :: l))) : P (cmdDiscctrl s cmd) := by
  unfold cmdDiscctrl
  refine ite_rule (fun _ => hsteady _ (steady_some rfl)) fun hd => ?_
  rw [not_not] at hd
  cases hargs : cmd.args with
  | nil => exact hsteady _ (steady_some rfl)
  | cons subcmd args =>
    rw [nextArg_cons]
    refine ite_rule (fun _ => hsteady _ (steady_setmode cmd _ args)) fun _ => ?_
    refine ite_rule (fun _ => hsteady _ (steady_setMaxuser cmd args)) fun _ => ?_
    refine ite_rule (fun _ => hsteady _ (steady_some rfl)) fun _ => ?_
    refine ite_rule (fun _ => hsteady _ (steady_select cmd _ args)) fun _ => ?_
    refine ite_rule (fun he => ?_) fun _ => ?_
    · cases args with
      | nil => exact hsteady _ (steady_some rfl)
      | cons p l => exact hreq hd p l (by rw [hargs, he])
    refine ite_rule (fun _ => hsteady _ (steady_status cmd _)) fun _ => ?_
    refine ite_rule (fun _ => hsteady _ (steady_close cmd _)) fun _ => ?_
    refine ite_rule (fun _ => hsteady _ (steady_forbid cmd args)) fun _ => ?_
    refine ite_rule (fun _ => hsteady _ (steady_some rfl)) fun _ => ?_
    refine ite_rule (fun _ => hsteady _ (steady_disableall cmd _ args)) fun _ => ?_
    exact ite_rule (fun _ => hsteady _ (steady_demand cmd _ args)) fun _ =>
      hsteady _ (steady_some rfl)

/-- **`switch_tag`** leaves slots and resources where they are. -/
theorem steady_switchTag (cmd : Cmd) : Steady s (cmdSwitchTag s cmd) := by
  have hquit : ∀ {s₁ : Server} {t' : ℤ}, quitInterp s t' cmd.deviceId = some s₁ →
      core s₁ = core s := by
    intro s₁ t' h
    unfold quitInterp at h
    split at h
    · exact (core_applyInterpMode h).trans (core_setTag ..)
    · cases h; rfl
  have henter : ∀ {s₁ s₂ : Server} {t' : ℤ}, enterInterp s₁ t' cmd.deviceId = some s₂ →
      core s₂ = core s₁ := by
    intro s₁ s₂ t' h
    unfold enterInterp at h
    split at h
    · exact core_applyInterpMode h
    · cases h; rfl
  unfold cmdSwitchTag
  refine ite_rule (fun _ => steady_some rfl) fun _ => steady_nextArg fun p l _ => ?_
  refine ite_rule (fun _ => steady_some rfl) fun _ => ?_
  refine ite_rule (fun _ => steady_some rfl) fun _ => ?_
  intro r hr
  obtain ⟨s₁, hs₁, hr⟩ := Option.bind_eq_some_iff.mp hr
  obtain ⟨s₂, hs₂, hr⟩ := Option.bind_eq_some_iff.mp hr
  cases hr
  rw [core_deviceSave, core_setRow, henter hs₂, core_moveDev, hquit hs₁]

end Commands

/-! ## The machine -/

/-- A step of the server, or of the mixing thread of a tag that removes a device that hangs. -/
inductive Event where
  | server (e : Server.Event)
  | hung (t d : ℤ)

/-- The device hangs in a slot of a tag that is mixed here. -/
def Hangs (s : Server) (t d : ℤ) : Prop :=
  (s.tag t).mixer = .soft ∧ ∃ i, (s.tag t).mixDevs i = some d

instance (s : Server) (t d : ℤ) : Decidable (Hangs s t d) := inferInstanceAs (Decidable (_ ∧ _))

def step (s : Server) : Event → Option Server
  | .server e => Server.step s e
  | .hung t d => some (if Hangs s t d then tagRmOutstanding s t d else s)

/-- A resource is missing exactly if one device holds it, and a closed device holds none. -/
def Conserved (s : Server) : Prop :=
  (∀ i : Fin 8, s.avail i = false ↔ ∃! d, d ∈ s.devs ∧ (s.dev d).mixerRes = i.val + 1) ∧
    ∀ d ∈ s.devs, (s.dev d).discussOpen = 0 → (s.dev d).mixerRes = 0

/-- The device that a request makes close: the sender, or the one that is kicked. -/
def leavingRequest (s : Server) (d a : ℤ) : Option ℤ :=
  if (s.dev d).discussOpen = a then none
  else if a = 0 then some d
  else match admission s (s.dev d).tag d with
    | some (.kick k) => some k
    | _ => none

/-- The heartbeat thread is about to close the device. -/
def TimesOut (s : Server) (d : ℤ) : Prop :=
  d ∈ s.devs ∧ 3 < (s.dev d).hbeat + 1 ∧ (s.dev d).active ∧ (s.dev d).discussOpen ≠ 0

instance (s : Server) (d : ℤ) : Decidable (TimesOut s d) := inferInstanceAs (Decidable (_ ∧ _))

/-- The device whose microphone is closed, or that loses its slot. -/
def leaving (s : Server) : Event → Option ℤ
  | .server (.discctrl cmd) =>
    if cmd.deviceId ∈ s.devs ∧ cmd.args.head? = some "request".toList then
      cmd.args[1]?.bind fun p => leavingRequest s cmd.deviceId (atoi p)
    else none
  | .server (.heartbeatGod d) => if TimesOut s d then some d else none
  | .server (.switchTag _) => none
  | .server (.heartbeat _) => none
  | .hung t d => if Hangs s t d then some d else none

/-- A device with a resource has the net mixer when it leaves. -/
def NetWhenLeaving (s : Server) (e : Event) : Prop :=
  ∀ x ∈ leaving s e, (s.dev x).mixerRes ≠ 0 → HasNet s x

instance (s : Server) (e : Event) : Decidable (NetWhenLeaving s e) :=
  inferInstanceAs (Decidable (∀ x ∈ leaving s e, (s.dev x).mixerRes ≠ 0 → HasNet s x))

section Steps
variable {s s' : Server} {d t : ℤ}

theorem conserved_of_inv (h : Inv (core s)) : Conserved s := by
  refine ⟨fun i => ⟨fun hi => ?_, ?_⟩, fun d _ ho => ?_⟩
  · obtain ⟨d, hd⟩ := h.taken i hi
    have hne : (core s).held d ≠ 0 := by omega
    exact ⟨d, ⟨(h.held d hne).1, hd⟩, fun x hx => (h.inj d x hne (hd.trans hx.2.symm)).symm⟩
  · rintro ⟨d, ⟨-, hd⟩, -⟩
    replace hd : (core s).held d = i.val + 1 := hd
    obtain ⟨-, -, -, j, hj, havail⟩ := h.held d (by omega)
    rwa [show i = j from Fin.ext (by omega)]
  · by_contra hne
    exact (h.held d hne).2.1 ho

theorem hasNet_setDev (s : Server) (d : ℤ) (f : Device → Device)
    (hf : (f (s.dev d)).tag = (s.dev d).tag) : HasNet (s.setDev d f) d ↔ HasNet s d := by
  unfold HasNet
  simp only [Server.setDev, Function.update_self]
  rw [hf]

theorem hasNet_doDevActivate (s : Server) (d : ℤ) (a : Bool) :
    HasNet (doDevActivate s d a) d ↔ HasNet s d := by
  unfold doDevActivate
  split
  · rfl
  · exact hasNet_setDev s d (fun D => { D with active := a }) rfl

theorem closeit_inv (h : Inv (core s)) (hnet : (s.dev d).mixerRes ≠ 0 → HasNet s d)
    (hs : core s' = if HasNet s d then ((core s).closed d).release d else (core s).closed d) :
    Inv (core s') := by
  rw [hs]
  split_ifs with hn
  · exact h.close_release
  · exact h.closed (by_contra fun hne => hn (hnet hne))

theorem openit_inv (h : Inv (core s)) (hd : d ∈ s.devs) (hs : openit s t d = some s') :
    Inv (core s') := by
  refine h.opened.seated hd ?_ (core_openit hs)
  show Function.update (core s).opn d 1 d ≠ 0
  rw [Function.update_self]
  exact one_ne_zero

theorem devs_closeit (hs : closeit s t d = some s') : s'.devs = s.devs := by
  have h := congrArg Core.devs (core_closeit hs)
  split_ifs at h
  · rw [show s.devs = ((core s).closed d).devs from rfl]
    refine Eq.trans h ?_
    unfold Core.release
    cases ((core s).closed d).resource d <;> rfl
  · exact h

/-- **A request.** -/
theorem request_inv (h : Inv (core s)) (hd : d ∈ s.devs) {cmd : Cmd} {p : Str} {l : List Str}
    (hnet : ∀ x ∈ leavingRequest s d (atoi p), (s.dev x).mixerRes ≠ 0 → HasNet s x)
    {r : Reply Server} (hr : discctrlRequest s cmd d (p :: l) = some r) : Inv (core r.2.2) := by
  unfold discctrlRequest at hr
  rw [nextArg_cons] at hr
  simp only [] at hr
  unfold leavingRequest at hnet
  by_cases heq : (s.dev d).discussOpen = atoi p
  · rw [if_pos heq] at hr
    split_ifs at hr with ha
    · obtain ⟨s₁, hs₁, hr⟩ := Option.bind_eq_some_iff.mp hr
      rw [core_requestPost hr, core_ptcPush hs₁]
      exact h.seated hd (fun ho => ha (heq.symm.trans ho)) (core_tagAddOutstanding s _ d)
    · rw [core_requestPost hr]
      exact h
  rw [if_neg heq] at hr hnet
  by_cases ha : atoi p = 0
  · rw [if_neg (not_not.mpr ha)] at hr
    rw [if_pos ha] at hnet
    obtain ⟨s₁, hs₁, hr⟩ := Option.bind_eq_some_iff.mp hr
    rw [core_requestPost hr]
    exact closeit_inv h (hnet d rfl) (core_closeit hs₁)
  · rw [if_pos ha] at hr
    rw [if_neg ha] at hnet
    obtain ⟨adm, hadm, hr⟩ := Option.bind_eq_some_iff.mp hr
    rw [hadm] at hnet
    cases adm with
    | reject => cases hr; exact h
    | openit =>
      obtain ⟨s₁, hs₁, hr⟩ := Option.bind_eq_some_iff.mp hr
      rw [core_requestPost hr]
      exact openit_inv h hd hs₁
    | kick k =>
      obtain ⟨s₁, hs₁, hr⟩ := Option.bind_eq_some_iff.mp hr
      obtain ⟨s₂, hs₂, hr⟩ := Option.bind_eq_some_iff.mp hr
      rw [core_requestPost hr]
      have h₁ : Inv (core (kickUser s₁ d k)) := by
        rw [core_kickUser]
        exact closeit_inv h (hnet k rfl) (core_closeit hs₁)
      refine openit_inv h₁ ?_ hs₂
      show d ∈ (core (kickUser s₁ d k)).devs
      rw [core_kickUser]
      show d ∈ s₁.devs
      rw [devs_closeit hs₁]
      exact hd

/-- **A visit of the heartbeat thread.** -/
theorem heartbeatGod_inv (h : Inv (core s))
    (hnet : TimesOut s d → (s.dev d).mixerRes ≠ 0 → HasNet s d)
    (hs : heartbeatGod s d = some s') : Inv (core s') := by
  unfold heartbeatGod at hs
  simp only [] at hs
  split at hs
  swap
  · cases hs; exact h
  rename_i hd
  have hbeat : core (s.setDev d fun D => { D with hbeat := D.hbeat + 1 }) = core s :=
    core_setDev_other _ _ _ rfl rfl rfl
  split at hs
  swap
  · cases hs
    rw [hbeat]
    exact h
  rename_i hlate
  simp only [Server.setDev, Function.update_self] at hlate
  have hcore : core (doDevActivate (s.setDev d fun D => { D with hbeat := D.hbeat + 1 }) d false) =
      core s := by rw [core_doDevActivate, hbeat]
  have hnet' : HasNet (doDevActivate (s.setDev d fun D => { D with hbeat := D.hbeat + 1 }) d
      false) d ↔ HasNet s d := by
    rw [hasNet_doDevActivate, hasNet_setDev _ _ _ rfl]
  split at hs
  · rename_i hopen
    have hto : TimesOut s d := by
      refine ⟨hd, hlate.1, hlate.2, ?_⟩
      rw [show ((doDevActivate (s.setDev d fun D => { D with hbeat := D.hbeat + 1 }) d
        false).dev d).discussOpen = (core s).opn d from congrFun (congrArg Core.opn hcore) d]
        at hopen
      exact hopen
    refine closeit_inv (hcore ▸ h) (fun hne => hnet'.mpr (hnet hto ?_)) (core_delOpen hs)
    rwa [show ((doDevActivate (s.setDev d fun D => { D with hbeat := D.hbeat + 1 }) d
      false).dev d).mixerRes = (core s).held d from congrFun (congrArg Core.held hcore) d] at hne
  · cases hs
    rw [hcore]
    exact h

theorem hung_inv (h : Inv (core s)) (hnet : (s.dev d).mixerRes ≠ 0 → HasNet s d) :
    Inv (core (tagRmOutstanding s t d)) := by
  have hseat : (core s).held d = 0 → Inv ((core s).seat d 0) := by
    intro hnone
    refine ⟨fun x hx => ?_, h.inj, h.taken⟩
    obtain ⟨h1, h2, h3, h4⟩ := h.held x hx
    refine ⟨h1, h2, ?_, h4⟩
    show Function.update (core s).mixbit d 0 x ≠ 0
    rw [Function.update_of_ne]
    · exact h3
    · rintro rfl
      exact hx hnone
  rw [core_tagRmOutstanding]
  split_ifs with hn
  · have hcomm : ((core s).seat d 0).release d = ((core s).release d).seat d 0 := by
      show ((core s).seat d 0).giveBack d ((core s).resource d) =
        ((core s).giveBack d ((core s).resource d)).seat d 0
      cases (core s).resource d <;> rfl
    rw [hcomm]
    refine ⟨fun x hx => ?_, h.release.1.inj, h.release.1.taken⟩
    obtain ⟨h1, h2, h3, h4⟩ := h.release.1.held x hx
    refine ⟨h1, h2, ?_, h4⟩
    show Function.update ((core s).release d).mixbit d 0 x ≠ 0
    rw [Function.update_of_ne]
    · exact h3
    · rintro rfl
      exact hx h.release.2
  · exact hseat (by_contra fun hne => hn (hnet hne))

/-- **A step.** -/
theorem step_inv {e : Event} (h : Inv (core s)) (hg : NetWhenLeaving s e)
    (hs : step s e = some s') : Inv (core s') := by
  cases e with
  | hung t d =>
    cases hs
    split_ifs with hh
    · exact hung_inv h (hg d (if_pos hh))
    · exact h
  | server e =>
    cases e with
    | discctrl cmd =>
      obtain ⟨r, hr, rfl⟩ := Option.map_eq_some_iff.mp hs
      refine discctrl_rule (s := s) (P := fun o => o = some r → Inv (core r.2.2)) cmd
        (fun o ho he => by rw [ho r he]; exact h) (fun hd p l hargs => ?_) hr
      refine request_inv h hd fun x hx => hg x ?_
      show (if _ then _ else _) = _
      rw [if_pos ⟨hd, by rw [hargs]; rfl⟩, hargs]
      exact hx
    | switchTag cmd =>
      obtain ⟨r, hr, rfl⟩ := Option.map_eq_some_iff.mp hs
      exact steady_switchTag cmd r hr ▸ h
    | heartbeat d =>
      cases hs
      rw [core_heartbeat]
      exact h
    | heartbeatGod d => exact heartbeatGod_inv h (fun hto => hg d (if_pos hto)) hs

end Steps

/-! ## Start-up -/

section Start
variable {s s' : Server} {d : ℤ}

/-- A device that is not registered holds nothing, so a new one takes nothing away. -/
theorem devRegister_inv (h : Inv (core s)) (hd : d ∉ s.devs) (type : ℤ) :
    Inv (core (devRegister s d type)) := by
  have hcore : core (devRegister s d type) = { core s with
      devs := s.devs ++ [d]
      opn := Function.update (core s).opn d 0
      mixbit := Function.update (core s).mixbit d 0
      held := Function.update (core s).held d 0 } := by
    have hnew : core (({ s with devs := s.devs ++ [d] } : Server).setDev d fun _ => newDev type) =
        { core s with
          devs := s.devs ++ [d]
          opn := Function.update (core s).opn d 0
          mixbit := Function.update (core s).mixbit d 0
          held := Function.update (core s).held d 0 } := core_setDev ..
    unfold devRegister
    rw [if_neg hd]
    simp only []
    split_ifs <;>
    · simp only [core_devSubscribe, core_requestTag, core_tagCheckUcast]
      rw [core_setDev_other _ _ _ rfl rfl rfl]
      exact (core_requestTag ..).trans hnew
  have hnone : (core s).held d = 0 := by_contra fun hne => hd (h.held d hne).1
  have hheld : Function.update (core s).held d 0 = (core s).held := update_eq hnone.symm
  rw [hcore, hheld]
  -- a device that is new is one that is closed
  refine ⟨fun x hx => ?_, h.inj, h.taken⟩
  obtain ⟨hmem, hrest⟩ := (h.closed hnone).held x hx
  exact ⟨List.mem_append_left _ hmem, hrest⟩

theorem mem_devRegister (s : Server) (d type : ℤ) : d ∈ (devRegister s d type).devs := by
  unfold devRegister
  split_ifs with hd
  · exact hd
  · have hmem : ∀ s₁ : Server, core s₁ = core (({ s with devs := s.devs ++ [d] } :
        Server).setDev d fun _ => newDev type) → d ∈ s₁.devs := by
      intro s₁ hc
      rw [show s₁.devs = _ from congrArg Core.devs hc]
      exact List.mem_append_right _ (List.mem_singleton_self d)
    simp only []
    split_ifs <;> refine hmem _ ?_
    · simp only [core_devSubscribe, core_requestTag, core_tagCheckUcast]
      rw [core_setDev_other _ _ _ rfl rfl rfl]
      exact core_requestTag ..
    · simp only [core_tagCheckUcast]
      rw [core_setDev_other _ _ _ rfl rfl rfl]
      exact core_requestTag ..

theorem core_restoreSub (s : Server) (d : ℤ) : core (restoreSub s d) = core s :=
  restoreSub_same core_requestTag core_devSubscribe s d

theorem recoverDev_inv (h : Inv (core s)) (hs : recoverDev s d = some s') : Inv (core s') := by
  unfold recoverDev at hs
  split at hs
  · cases hs; exact h
  split at hs
  · cases hs
  rename_i hd
  simp only [] at hs
  have h₁ : Inv (core (restoreSub (devRegister (s.setRow d fun r => { r with online := 0 }) d
      ((s.setRow d fun r => { r with online := 0 }).row d).type) d)) := by
    rw [core_restoreSub]
    exact devRegister_inv (s := s.setRow d fun r => { r with online := 0 }) h hd _
  have hmem : d ∈ (restoreSub (devRegister (s.setRow d fun r => { r with online := 0 }) d
      ((s.setRow d fun r => { r with online := 0 }).row d).type) d).devs := by
    show d ∈ (core _).devs
    rw [core_restoreSub]
    exact mem_devRegister ..
  generalize restoreSub (devRegister (s.setRow d fun r => { r with online := 0 }) d
      ((s.setRow d fun r => { r with online := 0 }).row d).type) d = s₁ at hs h₁ hmem
  unfold restoreDiscuss at hs
  have hptc : core (if isPtc s₁ d then addPtc s₁ d else s₁) = core s₁ := by
    split
    · exact core_addPtc s₁ d
    · rfl
  rw [← hptc] at h₁
  replace hmem : d ∈ (if isPtc s₁ d then addPtc s₁ d else s₁).devs := by
    show d ∈ (core _).devs
    rw [hptc]
    exact hmem
  simp only [] at hs
  generalize (if isPtc s₁ d then addPtc s₁ d else s₁) = s₀ at hs h₁ hmem
  split at hs
  · obtain ⟨s₂, hs₂, hs⟩ := Option.bind_eq_some_iff.mp hs
    rw [core_sparesPtc.ptcPut hs]
    refine h₁.opened.seated hmem ?_ (core_addOpen hs₂)
    show Function.update (core _).opn d 1 d ≠ 0
    rw [Function.update_self]
    exact one_ne_zero
  · cases hs
    exact h₁

/-- **The start** from a database. -/
theorem recoverServer_inv {db : Db} (hs : recoverServer db = some s) : Inv (core s) := by
  obtain ⟨s₁, s₂, hs₁, hs₂, rfl⟩ := recoverServer_some hs
  rw [core_ptcGoCurrent]
  have hboot : Inv (core (boot db)) :=
    ⟨fun x hx => absurd rfl hx, fun x y hx => absurd rfl hx, fun i hi => Bool.noConfusion hi⟩
  have hgroup : core s₁ = core (boot db) := groupCreate_same core_setGrp hs₁
  have hmanager : Inv (core (addManagerDev s₁)) := by
    refine devRegister_inv (s := s₁.setRow 0 _) ?_ ?_ _
    · rw [core_setRow, hgroup]
      exact hboot
    · show (0 : ℤ) ∉ (core s₁).devs
      rw [hgroup]
      exact List.not_mem_nil
  exact of_run (I := fun s => Inv (core s)) (fun _ _ _ h _ hs => recoverDev_inv h hs) hmanager
    (guarded_true ..) hs₂

end Start

/-! ## Runs -/

/-- **Resources are conserved** in every run in which a device that leaves with a resource has the
net mixer. -/
theorem conserved_along {db : Db} {s : Server} (hs : recoverServer db = some s) {es : List Event}
    (hg : Guarded step NetWhenLeaving s es) : Along step Conserved s es :=
  along_of_guarded (I := fun s => Inv (core s)) (E := fun _ => True)
    (fun _ => conserved_of_inv) (fun _ _ _ h _ hg hs => step_inv h hg hs) (recoverServer_inv hs)
    (fun _ _ => trivial) hg

def booted : Server := (recoverServer twoClients).get (by decide)

theorem recover_booted : recoverServer twoClients = some booted := (Option.some_get _).symm

theorem conserved_along_twoClients : Along step Conserved booted
    [.server (request 101 "1"), .server (request 102 "1"), .server (.switchTag (command 102 ["2"])),
      .server (.switchTag (command 102 ["1"])), .server (request 102 "0"),
      .server (request 101 "0")] :=
  conserved_along recover_booted (by decide +kernel)

/-- The device leaves the tag 1 with its microphone open, and closes it in the tag 2. -/
def leaving101 : List Event :=
  [.server (request 101 "1"), .server (.switchTag (command 101 ["2"])), .server (request 101 "0")]

/-- **A leak:** the device is closed and still holds its resource. -/
theorem switch_leaks : (run step booted leaving101).map (fun s =>
    (decide (101 ∈ s.devs), (s.dev 101).discussOpen, (s.dev 101).mixerRes)) =
    some (true, 0, 1) := by
  decide +kernel

theorem not_forall_conserved :
    ¬ ∀ db s, recoverServer db = some s → ∀ es, Along step Conserved s es := by
  intro h
  have halong := h twoClients booted recover_booted leaving101
  obtain ⟨s, ⟨-, hclosed⟩, heq⟩ := halong.observed switch_leaks
  simp only [Prod.mk.injEq, decide_eq_true_eq] at heq
  have hres := hclosed 101 heq.1 heq.2.1
  rw [heq.2.2] at hres
  cases hres

end GSConferencing.Serv.NetMixer
