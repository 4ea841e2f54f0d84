import GSConferencing.Serv.Frame

/-!
# What the open microphones depend on

The invariants of open microphones, mix slots and the camera list read a small part of the
server's state, its `view`.  This module says once what each operation does to the view; most of
them leave it alone.

* `view_setDev`, `view_setTag`: the primitive updates.
* `tagAddOutstanding_view`, `tagRmOutstanding_view`: a slot is taken, a slot is given back.
* `addOpen_view`, `delOpen_view`: what a microphone that opens or closes does to the view, whatever
  the lists look like.
-/

namespace GSConferencing.Serv.OpenView

open GSConferencing.Lib.CyclicList GSConferencing.Lib.Run GSConferencing.Include.ListHead
open GSConferencing.Serv.Strutil GSConferencing.Serv.CmdHandler GSConferencing.Serv.Dev
open GSConferencing.Serv.Tag GSConferencing.Serv.Interp GSConferencing.Serv.Devctl
open GSConferencing.Serv.Ptc GSConferencing.Serv.Discuss GSConferencing.Serv.Server
open GSConferencing.Serv.Frame

/-- The part of the state the invariants read. -/
@[ext] structure View where
  devs : List ℤ
  tags : List ℤ
  tagOf : ℤ → ℤ
  opn : ℤ → ℤ
  mixbit : ℤ → ℕ
  openuser : ℤ → ℤ
  slot : ℤ → Fin 8 → Option ℤ
  interpMode : ℤ → ℤ
  openL : Links ℤ ℤ
  ptcL : Links Unit ℤ

def view (s : Server) : View where
  devs := s.devs
  tags := s.tags
  tagOf d := (s.dev d).tag
  opn d := (s.dev d).discussOpen
  mixbit d := (s.dev d).mixbit
  openuser t := (s.tag t).openuser
  slot t := (s.tag t).mixDevs
  interpMode t := (s.tag t).interpMode
  openL := s.openL
  ptcL := s.ptc.links

/-! ## Primitive updates -/

theorem comp_update {α β : Type*} (g : α → β) (f : ℤ → α) (d : ℤ) (a : α) :
    (fun x => g (Function.update f d a x)) = Function.update (fun x => g (f x)) d (g a) := by
  funext x
  by_cases h : x = d
  · subst h; rw [Function.update_self, Function.update_self]
  · rw [Function.update_of_ne h, Function.update_of_ne h]

theorem update_eq {β : Type*} {f : ℤ → β} {d : ℤ} {a : β} (h : a = f d) :
    Function.update f d a = f := by
  rw [h, Function.update_eq_self]

/-- A value that is not the one written is an old one. -/
theorem ne_of_update {α β : Type*} [DecidableEq α] {f : α → β} {d x : α} {a : β}
    (h : Function.update f d a x ≠ a) : x ≠ d ∧ f x ≠ a := by
  have hne : x ≠ d := by
    rintro rfl
    exact h (Function.update_self ..)
  rw [Function.update_of_ne hne] at h
  exact ⟨hne, h⟩

theorem view_setDev (s : Server) (d : ℤ) (f : Device → Device) :
    view (s.setDev d f) = { view s with
      tagOf := Function.update (view s).tagOf d (f (s.dev d)).tag
      opn := Function.update (view s).opn d (f (s.dev d)).discussOpen
      mixbit := Function.update (view s).mixbit d (f (s.dev d)).mixbit } := by
  simp only [view, Server.setDev]
  rw [comp_update Device.tag, comp_update Device.discussOpen, comp_update Device.mixbit]

theorem view_setTag (s : Server) (t : ℤ) (f : Tag → Tag) :
    view (s.setTag t f) = { view s with
      openuser := Function.update (view s).openuser t (f (s.tag t)).openuser
      slot := Function.update (view s).slot t (f (s.tag t)).mixDevs
      interpMode := Function.update (view s).interpMode t (f (s.tag t)).interpMode } := by
  simp only [view, Server.setTag]
  rw [comp_update Tag.openuser, comp_update Tag.mixDevs, comp_update Tag.interpMode]

/-- A device's other fields. -/
theorem view_setDev_other (s : Server) (d : ℤ) (f : Device → Device)
    (htag : (f (s.dev d)).tag = (s.dev d).tag)
    (hopn : (f (s.dev d)).discussOpen = (s.dev d).discussOpen)
    (hbit : (f (s.dev d)).mixbit = (s.dev d).mixbit) : view (s.setDev d f) = view s := by
  rw [view_setDev, update_eq (f := (view s).tagOf) htag, update_eq (f := (view s).opn) hopn,
    update_eq (f := (view s).mixbit) hbit]

/-- A tag's other fields. -/
theorem view_setTag_other (s : Server) (t : ℤ) (f : Tag → Tag)
    (hopn : (f (s.tag t)).openuser = (s.tag t).openuser)
    (hslot : (f (s.tag t)).mixDevs = (s.tag t).mixDevs)
    (hmode : (f (s.tag t)).interpMode = (s.tag t).interpMode) : view (s.setTag t f) = view s := by
  rw [view_setTag, update_eq (f := (view s).openuser) hopn, update_eq (f := (view s).slot) hslot,
    update_eq (f := (view s).interpMode) hmode]

@[simp] theorem view_setRow (s : Server) (d : ℤ) (f : DbDevice → DbDevice) :
    view (s.setRow d f) = view s := rfl

@[simp] theorem view_setGrp (s : Server) (f : Group → Group) : view (s.setGrp f) = view s := rfl

@[simp] theorem view_send (s : Server) (o : Out) : view (s.send o) = view s := rfl

/-! ## Operations outside the view -/

@[simp] theorem view_deviceSave (s : Server) (d : ℤ) : view (deviceSave s d) = view s :=
  deviceSave_same view_send s d

@[simp] theorem view_deviceCmd (s : Server) (d : ℤ) (text : Str) :
    view (deviceCmd s d text) = view s :=
  deviceCmd_same view_send s d text

@[simp] theorem view_kickUser (s : Server) (d k : ℤ) : view (kickUser s d k) = view s :=
  view_deviceCmd ..

@[simp] theorem view_sendCmdToDevId (s : Server) (cmd : Cmd) (id : ℤ) :
    view (sendCmdToDevId s cmd id) = view s :=
  sendCmdToDevId_same view_send s cmd id

@[simp] theorem view_setCurr (s : Server) (c : Option ℤ) : view (setCurr s c) = view s := rfl

@[simp] theorem view_setLinks (s : Server) (L : Links Unit ℤ) :
    view (setLinks s L) = { view s with ptcL := L } := rfl

theorem view_ptcs (s : Server) (l : List ℤ) :
    view { s with ptc := { s.ptc with ptcs := l } } = view s := rfl

@[simp] theorem view_addPtc (s : Server) (p : ℤ) : view (addPtc s p) = view s :=
  addPtc_same view_ptcs s p

@[simp] theorem view_ptcSend (s : Server) (d : ℤ) : view (ptcSend s d) = view s :=
  ptcSend_same view_ptcs view_send s d

@[simp] theorem view_ptcDefault (s : Server) : view (ptcDefault s) = view s :=
  ptcDefault_same view_ptcs view_send s

@[simp] theorem view_ptcGoCurrent (s : Server) : view (ptcGoCurrent s) = view s :=
  ptcGoCurrent_same view_ptcs view_send s

/-- What the net mixer keeps. -/
theorem view_resource (s : Server) (d : ℤ) (a : Fin 8 → Bool) (r : ℤ) (i : Option Str) :
    view ({ s with avail := a }.setDev d fun D => { D with mixerRes := r, mixerInfo := i }) =
      view s :=
  view_setDev_other _ _ _ rfl rfl rfl

@[simp] theorem view_mixOpenDev (s : Server) (d : ℤ) : view (mixOpenDev s d) = view s :=
  mixOpenDev_same view_resource s d

@[simp] theorem view_mixCloseDev (s : Server) (d : ℤ) : view (mixCloseDev s d) = view s :=
  mixCloseDev_same view_resource s d

@[simp] theorem view_interpSetRepTag (s : Server) (t : ℤ) (rep : Option ℤ) :
    view (interpSetRepTag s t rep) = view s := by
  unfold interpSetRepTag notifyInterpRep
  rw [view_send, view_setTag_other _ _ _ rfl rfl rfl]

@[simp] theorem view_interpDelRep (s : Server) (t : ℤ) : view (interpDelRep s t) = view s :=
  view_interpSetRepTag ..

@[simp] theorem view_tagCheckUcast (s : Server) (t d : ℤ) :
    view (tagCheckUcast s t d) = view s :=
  tagCheckUcast_same (fun _ _ _ => view_setTag_other _ _ _ rfl rfl rfl) s t d

@[simp] theorem view_tagAddDevice (s : Server) (t d : ℤ) : view (tagAddDevice s t d) = view s :=
  view_setTag_other _ _ _ rfl rfl rfl

@[simp] theorem view_tagDelDevice (s : Server) (d : ℤ) : view (tagDelDevice s d) = view s :=
  view_setTag_other _ _ _ rfl rfl rfl

theorem view_active (s : Server) (d : ℤ) (a : Bool) :
    view (s.setDev d fun D => { D with active := a }) = view s :=
  view_setDev_other _ _ _ rfl rfl rfl

@[simp] theorem view_doDevActivate (s : Server) (d : ℤ) (a : Bool) :
    view (doDevActivate s d a) = view s :=
  doDevActivate_same view_active (fun _ _ _ => view_setRow ..) s d a

@[simp] theorem view_heartbeat (s : Server) (d : ℤ) : view (heartbeat s d) = view s :=
  heartbeat_same view_active (fun _ _ _ => view_setRow ..)
    (fun _ _ _ => view_setDev_other _ _ _ rfl rfl rfl) s d

@[simp] theorem view_devSubscribe (s : Server) (d t : ℤ) : view (devSubscribe s d t) = view s :=
  devSubscribe_same view_interpSetRepTag
    (fun _ _ _ => view_setTag_other _ _ _ rfl rfl rfl)
    (fun _ _ _ => view_setDev_other _ _ _ rfl rfl rfl) (fun _ _ _ => view_setRow ..) s d t

theorem view_applyInterpMode {s s' : Server} {t d : ℤ} (h : applyInterpMode s t d = some s') :
    view s' = view s :=
  applyInterpMode_same view_interpSetRepTag h

@[simp] theorem view_allowMembers (s : Server) : view (allowMembers s) = view s :=
  allowMembers_same (fun _ _ _ => view_setDev_other _ _ _ rfl rfl rfl) s

/-! ## Slots -/

/-- The device `d` takes the slot `i` of the tag `t`. -/
def View.take (v : View) (t : ℤ) (i : Fin 8) (d : ℤ) : View :=
  { v with
    slot := Function.update v.slot t (Function.update (v.slot t) i (some d))
    mixbit := Function.update v.mixbit d (2 ^ i.val) }

/-- The device `d` loses its bit; its slot, if it has one, is `i`. -/
def View.drop (v : View) (t : ℤ) (i : Option (Fin 8)) (d : ℤ) : View :=
  { v with
    slot := match i with
      | none => v.slot
      | some i => Function.update v.slot t (Function.update (v.slot t) i none)
    mixbit := Function.update v.mixbit d 0 }

/-- The device `d` takes a free slot of the tag `t`, unless it has one or none is free. -/
def View.Seated (v v' : View) (t d : ℤ) : Prop :=
  ((v.mixbit d ≠ 0 ∨ ∀ i, v.slot t i ≠ none) ∧ v' = v) ∨
    ∃ i, v.mixbit d = 0 ∧ v.slot t i = none ∧ v' = v.take t i d

/-- The device `d` gives its slot of the tag `t` back, if it has one. -/
def View.Unseated (v v' : View) (t d : ℤ) : Prop :=
  ∃ o : Option (Fin 8), (∀ i, o = some i → v.slot t i = some d) ∧
    (o = none → ∀ i, v.slot t i ≠ some d) ∧ v' = v.drop t o d

theorem tagAddOutstanding_view (s : Server) (t d : ℤ) :
    (view s).Seated (view (tagAddOutstanding s t d)) t d := by
  unfold tagAddOutstanding
  split
  · rename_i h
    exact Or.inl ⟨Or.inl h, rfl⟩
  · rename_i h
    rw [not_not] at h
    split
    · rename_i hfind
      refine Or.inl ⟨Or.inr fun i hi => ?_, rfl⟩
      have hi' : (s.tag t).mixDevs i = none := hi
      exact List.find?_eq_none.mp hfind i (List.mem_finRange i) (by simpa using hi')
    · rename_i i hfind
      have hi : (s.tag t).mixDevs i = none := by simpa using List.find?_some hfind
      refine Or.inr ⟨i, h, hi, ?_⟩
      simp only [view_mixOpenDev]
      rw [view_setTag_other _ _ _ rfl rfl rfl, view_setDev, view_setTag]
      simp only [View.take]
      congr 1 <;> simp [view, Server.setTag]

theorem tagRmOutstanding_view (s : Server) (t d : ℤ) :
    (view s).Unseated (view (tagRmOutstanding s t d)) t d := by
  refine ⟨(List.finRange 8).find? fun i => (s.tag t).mixDevs i = some d, fun i hi => ?_,
    fun hn i => ?_, ?_⟩
  · show (s.tag t).mixDevs i = some d
    simpa using List.find?_some hi
  · show (s.tag t).mixDevs i ≠ some d
    simpa using List.find?_eq_none.mp hn i (List.mem_finRange i)
  · simp only [tagRmOutstanding, view_mixCloseDev]
    generalize (List.finRange 8).find? _ = o
    cases o with
    | none =>
      rw [view_setDev]
      simp only [View.drop]
      congr 1 <;> simp [view]
    | some i =>
      rw [view_setDev, view_setTag]
      simp only [View.drop]
      congr 1 <;> simp [view, Server.setTag]

/-! ## Opening and closing -/

/-- The list, the counter and the flag of a microphone that opens. -/
def View.opened (v : View) (t d : ℤ) (L : Links ℤ ℤ) : View :=
  { v with
    openL := L
    openuser := Function.update v.openuser t (v.openuser t + 1)
    opn := Function.update v.opn d 1 }

/-- The list, the counter and the flag of a microphone that closes. -/
def View.closed (v : View) (t d : ℤ) (L : Links ℤ ℤ) : View :=
  { v with
    openL := L
    openuser := Function.update v.openuser t (v.openuser t - 1)
    opn := Function.update v.opn d 0 }

/-- **`add_open`** has a result when the list operation has one. -/
theorem addOpen_view (s : Server) (t d : ℤ) :
    (listAddTail s.openL (.entry d) (.head t) = none ∧ addOpen s t d = none) ∨
    ∃ L s', listAddTail s.openL (.entry d) (.head t) = some L ∧ addOpen s t d = some s' ∧
      ((view s).opened t d L).Seated (view s') t d := by
  cases hL : listAddTail s.openL (.entry d) (.head t) with
  | none => exact Or.inl ⟨rfl, by simp [addOpen, hL]⟩
  | some L =>
    refine Or.inr ⟨L, _, rfl, by simp only [addOpen, hL]; rfl, ?_⟩
    rw [view_deviceSave, view_setRow]
    have hview : view ((Server.setTag { s with openL := L } t fun T =>
        { T with openuser := T.openuser + 1 }).setDev d fun D => { D with discussOpen := 1 }) =
        (view s).opened t d L := by
      rw [view_setDev, view_setTag]
      simp only [View.opened]
      congr 1 <;> simp [view, Server.setTag]
    rw [← hview]
    exact tagAddOutstanding_view _ t d

/-- **`del_open`** has a result when the list operation has one. -/
theorem delOpen_view (s : Server) (t d : ℤ) :
    (listDel s.openL (.entry d) = none ∧ delOpen s t d = none) ∨
    ∃ L s', listDel s.openL (.entry d) = some L ∧ delOpen s t d = some s' ∧
      ((view s).closed t d L).Unseated (view s') t d := by
  cases hL : listDel s.openL (.entry d) with
  | none => exact Or.inl ⟨rfl, by simp [delOpen, hL]⟩
  | some L =>
    refine Or.inr ⟨L, _, rfl, by simp only [delOpen, hL]; rfl, ?_⟩
    rw [view_deviceSave, view_setRow]
    have hview : view ((Server.setTag { s with openL := L } t fun T =>
        { T with openuser := T.openuser - 1 }).setDev d fun D => { D with discussOpen := 0 }) =
        (view s).closed t d L := by
      rw [view_setDev, view_setTag]
      simp only [View.closed]
      congr 1 <;> simp [view, Server.setTag]
    rw [← hview]
    exact tagRmOutstanding_view _ t d

theorem view_resetOpenList (s : Server) (t : ℤ) :
    view (resetOpenList s t) = { view s with
      openL := s.openL.init (.head t)
      openuser := Function.update (view s).openuser t 0 } := by
  unfold resetOpenList
  rw [view_setTag]
  simp [view]

/-! ## Devices and tags -/

/-- A new tag. -/
def View.create (v : View) (tid : ℤ) : View :=
  { v with
    tags := v.tags ++ [tid]
    openuser := Function.update v.openuser tid 0
    slot := Function.update v.slot tid fun _ => none
    interpMode := Function.update v.interpMode tid interpNo
    openL := v.openL.init (.head tid) }

/-- A tag that exists or is created. -/
def View.request (v : View) (tid : ℤ) : View := if tid ∈ v.tags then v else v.create tid

/-- A device that moves to the tag `tid`. -/
def View.move (v : View) (d tid : ℤ) : View :=
  { v with tagOf := Function.update v.tagOf d tid }

/-- A new device of the tag `tid`. -/
def View.register (v : View) (d tid : ℤ) : View :=
  { v with
    devs := v.devs ++ [d]
    tagOf := Function.update v.tagOf d tid
    opn := Function.update v.opn d 0
    mixbit := Function.update v.mixbit d 0 }

theorem view_requestTag (s : Server) (tid : ℤ) :
    view (requestTag s tid) = (view s).request tid := by
  unfold requestTag View.request
  show view (if tid ∈ s.tags then s else tagCreate s tid) = if tid ∈ s.tags then _ else _
  split
  · rfl
  · simp only [view, tagCreate]
    rw [comp_update Tag.openuser, comp_update Tag.mixDevs, comp_update Tag.interpMode]
    rfl

theorem request_tags_mem (v : View) (tid : ℤ) : tid ∈ (v.request tid).tags := by
  unfold View.request
  split
  · assumption
  · simp [View.create]

theorem request_tags_mono (v : View) (tid : ℤ) {t : ℤ} (ht : t ∈ v.tags) :
    t ∈ (v.request tid).tags := by
  unfold View.request
  split
  · exact ht
  · simp [View.create, ht]

theorem view_setTagOf (s : Server) (d tid : ℤ) :
    view (s.setDev d fun D => { D with tag := tid }) = (view s).move d tid := by
  rw [view_setDev]
  simp only [View.move]
  congr 1 <;> simp [view]

@[simp] theorem request_devs (v : View) (tid : ℤ) : (v.request tid).devs = v.devs := by
  unfold View.request
  split <;> rfl

@[simp] theorem request_opn (v : View) (tid : ℤ) : (v.request tid).opn = v.opn := by
  unfold View.request
  split <;> rfl

/-- What `dev_register` does to a device that is new. -/
theorem view_devRegister (s : Server) (d type : ℤ) (hd : d ∉ s.devs) :
    view (devRegister s d type) = ((view s).request (s.row d).tagid).register d (s.row d).tagid ∨
    view (devRegister s d type) =
      (((view s).request (s.row d).tagid).register d (s.row d).tagid).request 1 := by
  have hnew : (view (requestTag ({ s with devs := s.devs ++ [d] }.setDev d fun _ => newDev type)
      (s.row d).tagid)).move d (s.row d).tagid =
      ((view s).request (s.row d).tagid).register d (s.row d).tagid := by
    rw [view_requestTag, view_setDev]
    unfold View.request
    show View.move (if (s.row d).tagid ∈ s.tags then _ else _) d _ =
      View.register (if (s.row d).tagid ∈ s.tags then _ else _) d _
    split <;> simp only [View.move, View.register, View.create, Function.update_idem, newDev] <;>
      rfl
  unfold devRegister
  rw [if_neg hd]
  simp only []
  split
  · right
    rw [view_devSubscribe, view_requestTag, view_tagCheckUcast, view_setTagOf, view_tagAddDevice,
      hnew]
  · left
    rw [view_tagCheckUcast, view_setTagOf, view_tagAddDevice, hnew]

end GSConferencing.Serv.OpenView
