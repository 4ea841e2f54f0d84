import GSConferencing.Serv.Server
import GSConferencing.Serv.OpenView

/-!
# What the subscriptions depend on

The invariants of subscriptions and of interpretation read a part of the server's state, its
`view`.  This module says what each operation does to it; the microphones, the camera, the mix slots
and the messages leave it alone, but for the flag of a microphone.

* `view_setDev`, `view_setRow`, `view_setTag`: the primitive updates.
* `addOpen_view`, `delOpen_view`: a microphone opens or closes.
-/

namespace GSConferencing.Serv.SubView

open GSConferencing.Serv.Strutil GSConferencing.Serv.CmdHandler GSConferencing.Serv.Dev
open GSConferencing.Serv.Tag GSConferencing.Serv.Interp GSConferencing.Serv.Devctl
open GSConferencing.Serv.Ptc GSConferencing.Serv.Discuss GSConferencing.Serv.Server
open GSConferencing.Serv.Frame
open GSConferencing.Lib.CyclicList GSConferencing.Lib.Run
open GSConferencing.Serv.OpenView (comp_update update_eq)

/-- The part of the state the invariants read. -/
@[ext] structure View where
  devs : List ℤ
  table : List ℤ
  tags : List ℤ
  type : ℤ → ℤ
  tagOf : ℤ → ℤ
  subscription : ℤ → Option ℤ
  opn : ℤ → ℤ
  enabled : ℤ → ℤ
  sub1 : ℤ → ℤ
  sub2 : ℤ → ℤ
  head : ℤ → List ℤ
  mode : ℤ → ℤ
  rep : ℤ → Option ℤ

def view (s : Server) : View where
  devs := s.devs
  table := s.table
  tags := s.tags
  type d := (s.dev d).type
  tagOf d := (s.dev d).tag
  subscription d := (s.dev d).subscription
  opn d := (s.dev d).discussOpen
  enabled d := (s.row d).enabled
  sub1 d := (s.row d).sub1
  sub2 d := (s.row d).sub2
  head t := (s.tag t).subscribeHead
  mode t := (s.tag t).interpMode
  rep t := (s.tag t).interpRep

section Fields
variable (s : Server) (x : ℤ)

@[simp] theorem view_devs : (view s).devs = s.devs := rfl
@[simp] theorem view_table : (view s).table = s.table := rfl
@[simp] theorem view_tags : (view s).tags = s.tags := rfl
@[simp] theorem view_type : (view s).type x = (s.dev x).type := rfl
@[simp] theorem view_tagOf : (view s).tagOf x = (s.dev x).tag := rfl
@[simp] theorem view_subscription : (view s).subscription x = (s.dev x).subscription := rfl
@[simp] theorem view_opn : (view s).opn x = (s.dev x).discussOpen := rfl
@[simp] theorem view_enabled : (view s).enabled x = (s.row x).enabled := rfl
@[simp] theorem view_sub1 : (view s).sub1 x = (s.row x).sub1 := rfl
@[simp] theorem view_sub2 : (view s).sub2 x = (s.row x).sub2 := rfl
@[simp] theorem view_mode : (view s).mode x = (s.tag x).interpMode := rfl

end Fields

/-! ## Primitive updates -/

theorem view_setDev (s : Server) (d : ℤ) (f : Device → Device) :
    view (s.setDev d f) = { view s with
      type := Function.update (view s).type d (f (s.dev d)).type
      tagOf := Function.update (view s).tagOf d (f (s.dev d)).tag
      subscription := Function.update (view s).subscription d (f (s.dev d)).subscription
      opn := Function.update (view s).opn d (f (s.dev d)).discussOpen } := by
  simp only [view, Server.setDev]
  rw [comp_update Device.type, comp_update Device.tag, comp_update Device.subscription,
    comp_update Device.discussOpen]

theorem view_setRow (s : Server) (d : ℤ) (f : DbDevice → DbDevice) :
    view (s.setRow d f) = { view s with
      enabled := Function.update (view s).enabled d (f (s.row d)).enabled
      sub1 := Function.update (view s).sub1 d (f (s.row d)).sub1
      sub2 := Function.update (view s).sub2 d (f (s.row d)).sub2 } := by
  simp only [view, Server.setRow]
  rw [comp_update DbDevice.enabled, comp_update DbDevice.sub1, comp_update DbDevice.sub2]

theorem view_setTag (s : Server) (t : ℤ) (f : Tag → Tag) :
    view (s.setTag t f) = { view s with
      head := Function.update (view s).head t (f (s.tag t)).subscribeHead
      mode := Function.update (view s).mode t (f (s.tag t)).interpMode
      rep := Function.update (view s).rep t (f (s.tag t)).interpRep } := by
  simp only [view, Server.setTag]
  rw [comp_update Tag.subscribeHead, comp_update Tag.interpMode, comp_update Tag.interpRep]

/-- A device's other fields. -/
theorem view_setDev_other (s : Server) (d : ℤ) (f : Device → Device)
    (htype : (f (s.dev d)).type = (s.dev d).type) (htag : (f (s.dev d)).tag = (s.dev d).tag)
    (hsub : (f (s.dev d)).subscription = (s.dev d).subscription)
    (hopn : (f (s.dev d)).discussOpen = (s.dev d).discussOpen) : view (s.setDev d f) = view s := by
  rw [view_setDev, update_eq (f := (view s).type) htype, update_eq (f := (view s).tagOf) htag,
    update_eq (f := (view s).subscription) hsub, update_eq (f := (view s).opn) hopn]

/-- A record's other fields. -/
theorem view_setRow_other (s : Server) (d : ℤ) (f : DbDevice → DbDevice)
    (hen : (f (s.row d)).enabled = (s.row d).enabled) (h1 : (f (s.row d)).sub1 = (s.row d).sub1)
    (h2 : (f (s.row d)).sub2 = (s.row d).sub2) : view (s.setRow d f) = view s := by
  rw [view_setRow, update_eq (f := (view s).enabled) hen, update_eq (f := (view s).sub1) h1,
    update_eq (f := (view s).sub2) h2]

/-- A tag's other fields. -/
theorem view_setTag_other (s : Server) (t : ℤ) (f : Tag → Tag)
    (hhead : (f (s.tag t)).subscribeHead = (s.tag t).subscribeHead)
    (hmode : (f (s.tag t)).interpMode = (s.tag t).interpMode)
    (hrep : (f (s.tag t)).interpRep = (s.tag t).interpRep) : view (s.setTag t f) = view s := by
  rw [view_setTag, update_eq (f := (view s).head) hhead, update_eq (f := (view s).mode) hmode,
    update_eq (f := (view s).rep) hrep]

/-- The subscription of a device. -/
theorem view_setDev_subscription (s : Server) (d : ℤ) (f : Device → Device)
    (htype : (f (s.dev d)).type = (s.dev d).type) (htag : (f (s.dev d)).tag = (s.dev d).tag)
    (hopn : (f (s.dev d)).discussOpen = (s.dev d).discussOpen) :
    view (s.setDev d f) = { view s with
      subscription := Function.update (view s).subscription d (f (s.dev d)).subscription } := by
  rw [view_setDev, update_eq (f := (view s).type) htype, update_eq (f := (view s).tagOf) htag,
    update_eq (f := (view s).opn) hopn]

/-- The microphone of a device. -/
theorem view_setDev_opn (s : Server) (d : ℤ) (f : Device → Device)
    (htype : (f (s.dev d)).type = (s.dev d).type) (htag : (f (s.dev d)).tag = (s.dev d).tag)
    (hsub : (f (s.dev d)).subscription = (s.dev d).subscription) :
    view (s.setDev d f) = { view s with
      opn := Function.update (view s).opn d (f (s.dev d)).discussOpen } := by
  rw [view_setDev, update_eq (f := (view s).type) htype, update_eq (f := (view s).tagOf) htag,
    update_eq (f := (view s).subscription) hsub]

/-- The tag of a device. -/
theorem view_setDev_tag (s : Server) (d : ℤ) (f : Device → Device)
    (htype : (f (s.dev d)).type = (s.dev d).type)
    (hsub : (f (s.dev d)).subscription = (s.dev d).subscription)
    (hopn : (f (s.dev d)).discussOpen = (s.dev d).discussOpen) :
    view (s.setDev d f) = { view s with
      tagOf := Function.update (view s).tagOf d (f (s.dev d)).tag } := by
  rw [view_setDev, update_eq (f := (view s).type) htype,
    update_eq (f := (view s).subscription) hsub, update_eq (f := (view s).opn) hopn]

/-- The type of a device. -/
theorem view_setDev_type (s : Server) (d : ℤ) (f : Device → Device)
    (htag : (f (s.dev d)).tag = (s.dev d).tag)
    (hsub : (f (s.dev d)).subscription = (s.dev d).subscription)
    (hopn : (f (s.dev d)).discussOpen = (s.dev d).discussOpen) :
    view (s.setDev d f) = { view s with
      type := Function.update (view s).type d (f (s.dev d)).type } := by
  rw [view_setDev, update_eq (f := (view s).tagOf) htag,
    update_eq (f := (view s).subscription) hsub, update_eq (f := (view s).opn) hopn]

/-- The subscription in a record. -/
theorem view_setRow_sub1 (s : Server) (d : ℤ) (f : DbDevice → DbDevice)
    (hen : (f (s.row d)).enabled = (s.row d).enabled) (h2 : (f (s.row d)).sub2 = (s.row d).sub2) :
    view (s.setRow d f) = { view s with
      sub1 := Function.update (view s).sub1 d (f (s.row d)).sub1 } := by
  rw [view_setRow, update_eq (f := (view s).enabled) hen, update_eq (f := (view s).sub2) h2]

/-- The subscribers of a tag. -/
theorem view_setTag_head (s : Server) (t : ℤ) (f : Tag → Tag)
    (hmode : (f (s.tag t)).interpMode = (s.tag t).interpMode)
    (hrep : (f (s.tag t)).interpRep = (s.tag t).interpRep) :
    view (s.setTag t f) = { view s with
      head := Function.update (view s).head t (f (s.tag t)).subscribeHead } := by
  rw [view_setTag, update_eq (f := (view s).mode) hmode, update_eq (f := (view s).rep) hrep]

/-- What a tag replicates. -/
theorem view_setTag_rep (s : Server) (t : ℤ) (f : Tag → Tag)
    (hhead : (f (s.tag t)).subscribeHead = (s.tag t).subscribeHead)
    (hmode : (f (s.tag t)).interpMode = (s.tag t).interpMode) :
    view (s.setTag t f) = { view s with
      rep := Function.update (view s).rep t (f (s.tag t)).interpRep } := by
  rw [view_setTag, update_eq (f := (view s).head) hhead, update_eq (f := (view s).mode) hmode]

/-- The mode of a tag. -/
theorem view_setTag_mode (s : Server) (t : ℤ) (f : Tag → Tag)
    (hhead : (f (s.tag t)).subscribeHead = (s.tag t).subscribeHead)
    (hrep : (f (s.tag t)).interpRep = (s.tag t).interpRep) :
    view (s.setTag t f) = { view s with
      mode := Function.update (view s).mode t (f (s.tag t)).interpMode } := by
  rw [view_setTag, update_eq (f := (view s).head) hhead, update_eq (f := (view s).rep) hrep]

@[simp] theorem view_setGrp (s : Server) (f : Group → Group) : view (s.setGrp f) = view s := rfl

@[simp] theorem view_send (s : Server) (o : Out) : view (s.send o) = view s := rfl

/-! ## Operations outside the view -/

@[simp] theorem view_deviceSave (s : Server) (d : ℤ) : view (deviceSave s d) = view s :=
  deviceSave_same view_send s d

@[simp] theorem view_deviceCmd (s : Server) (d : ℤ) (text : Str) :
    view (deviceCmd s d text) = view s :=
  deviceCmd_same view_send s d text

theorem view_sparesPtc : SparesPtc view :=
  ⟨fun _ _ => rfl, fun _ _ => rfl, fun _ _ => rfl, view_send⟩

@[simp] theorem view_addPtc (s : Server) (p : ℤ) : view (addPtc s p) = view s :=
  addPtc_same view_sparesPtc.ptcs s p

@[simp] theorem view_ptcGoCurrent (s : Server) : view (ptcGoCurrent s) = view s :=
  ptcGoCurrent_same view_sparesPtc.ptcs view_send s

theorem view_ptcPut {s s' : Server} {d : ℤ} (h : ptcPut s d = some s') : view s' = view s :=
  view_sparesPtc.ptcPut h

theorem view_ptcPush {s s' : Server} {d : ℤ} (h : ptcPush s d = some s') : view s' = view s :=
  view_sparesPtc.ptcPush h

theorem view_ptcRemove {s s' : Server} {d : ℤ} (h : ptcRemove s d = some s') :
    view s' = view s :=
  view_sparesPtc.ptcRemove h

/-- What the net mixer keeps. -/
theorem view_resource (s : Server) (d : ℤ) (a : Fin 8 → Bool) (r : ℤ) (i : Option Str) :
    view ({ s with avail := a }.setDev d fun D => { D with mixerRes := r, mixerInfo := i }) =
      view s :=
  view_setDev_other _ _ _ rfl rfl rfl rfl

/-- What the slots are. -/
theorem view_slot (s : Server) (t : ℤ) (m : Tag → Fin 8 → Option ℤ) (r : Tag → Fin 8)
    (n : Tag → ℤ) :
    view (s.setTag t fun T => { T with mixDevs := m T, mixRef := r T, mixCount := n T }) =
      view s :=
  view_setTag_other _ _ _ rfl rfl rfl

/-- What a device knows of its slot. -/
theorem view_bit (s : Server) (d : ℤ) (b : ℕ) (n : Device → ℤ) :
    view (s.setDev d fun D => { D with mixbit := b, timeouts := n D }) = view s :=
  view_setDev_other _ _ _ rfl rfl rfl rfl

@[simp] theorem view_tagAddOutstanding (s : Server) (t d : ℤ) :
    view (tagAddOutstanding s t d) = view s :=
  tagAddOutstanding_same view_resource view_slot view_bit s t d

@[simp] theorem view_tagRmOutstanding (s : Server) (t d : ℤ) :
    view (tagRmOutstanding s t d) = view s :=
  tagRmOutstanding_same view_resource view_slot view_bit s t d

@[simp] theorem view_tagCheckUcast (s : Server) (t d : ℤ) :
    view (tagCheckUcast s t d) = view s :=
  tagCheckUcast_same (fun _ _ _ => view_setTag_other _ _ _ rfl rfl rfl) s t d

@[simp] theorem view_tagAddDevice (s : Server) (t d : ℤ) : view (tagAddDevice s t d) = view s :=
  view_setTag_other _ _ _ rfl rfl rfl

@[simp] theorem view_tagDelDevice (s : Server) (d : ℤ) : view (tagDelDevice s d) = view s :=
  view_setTag_other _ _ _ rfl rfl rfl

@[simp] theorem view_doDevActivate (s : Server) (d : ℤ) (a : Bool) :
    view (doDevActivate s d a) = view s :=
  doDevActivate_same (fun _ _ _ => view_setDev_other _ _ _ rfl rfl rfl rfl)
    (fun _ _ _ => view_setRow_other _ _ _ rfl rfl rfl) s d a

theorem view_groupCreate {s s' : Server} (h : groupCreate s = some s') : view s' = view s :=
  groupCreate_same view_setGrp h

/-! ## Microphones -/

/-- A microphone changes its state. -/
def View.mic (v : View) (d o : ℤ) : View := { v with opn := Function.update v.opn d o }

theorem addOpen_view {s s' : Server} {t d : ℤ} (h : addOpen s t d = some s') :
    view s' = (view s).mic d 1 := by
  obtain ⟨L, -, h⟩ := Option.bind_eq_some_iff.mp h
  cases h
  rw [view_deviceSave, view_setRow_other _ _ _ rfl rfl rfl, view_tagAddOutstanding,
    view_setDev_opn _ _ _ rfl rfl rfl, view_setTag_other _ _ _ rfl rfl rfl]
  rfl

theorem delOpen_view {s s' : Server} {t d : ℤ} (h : delOpen s t d = some s') :
    view s' = (view s).mic d 0 := by
  obtain ⟨L, -, h⟩ := Option.bind_eq_some_iff.mp h
  cases h
  rw [view_deviceSave, view_setRow_other _ _ _ rfl rfl rfl, view_tagRmOutstanding,
    view_setDev_opn _ _ _ rfl rfl rfl, view_setTag_other _ _ _ rfl rfl rfl]
  rfl

theorem openit_view {s s' : Server} {t d : ℤ} (h : openit s t d = some s') :
    view s' = (view s).mic d 1 := by
  obtain ⟨s₁, hs₁, h⟩ := Option.bind_eq_some_iff.mp h
  rw [view_ptcPush h, addOpen_view hs₁]

theorem closeit_view {s s' : Server} {t d : ℤ} (h : closeit s t d = some s') :
    view s' = (view s).mic d 0 := by
  obtain ⟨s₁, hs₁, h⟩ := Option.bind_eq_some_iff.mp h
  rw [view_ptcRemove h, delOpen_view hs₁]

end GSConferencing.Serv.SubView
