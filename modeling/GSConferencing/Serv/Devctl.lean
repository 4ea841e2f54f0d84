import GSConferencing.Serv.Tag
import GSConferencing.Serv.Interp

/-!
# Device control

`devctl.c`, and the subscriptions of `cast.c`: a device is created, registered in the group and in
its tag, subscribed to a tag, activated and deactivated.
-/

namespace GSConferencing.Serv.Devctl

open GSConferencing.Serv.Strutil GSConferencing.Serv.Dev GSConferencing.Serv.Tag
open GSConferencing.Serv.Interp

/-- `device_save`: the manager device is never saved. -/
def deviceSave (s : Server) (d : ℤ) : Server := if d = 0 then s else s.send (.saveDevice d)

/-- `device_cmd`: the manager device takes none, and `async_sendto_dev` drops what is sent to an
inactive device other than 1. -/
def deviceCmd (s : Server) (d : ℤ) (text : Str) : Server :=
  if d = 0 ∨ ((s.dev d).active = false ∧ d ≠ 1) then s else s.send (.deviceCmd d text)

/-- The zeroed structure of `dev_create`, with the type given to it. -/
def newDev (type : ℤ) : Device where
  type := type
  active := false
  hbeat := 0
  tag := 0
  subscription := none
  mixbit := 0
  timeouts := 0
  mixerRes := 0
  mixerInfo := none
  discussOpen := 0
  discussForbidden := 0

/-- The move of a device to the head of another tag's subscribers. -/
def subscribeMove (s : Server) (d t : ℤ) : Server :=
  let s := match (s.dev d).subscription with
    | some t' => s.setTag t' fun T => { T with subscribeHead := T.subscribeHead.erase d }
    | none => s
  s.setTag t fun T => { T with subscribeHead := d :: T.subscribeHead }

/-- A tag that replicates its interpreter's subscription follows it. -/
def updateInterpDup (s : Server) (d t : ℤ) : Server :=
  if (s.tag (s.dev d).tag).interpMode = interpRe then interpSetRepTag s (s.dev d).tag (some t)
  else s

/-- `dev_subscribe`: with one place a second subscription replaces the first. -/
def devSubscribe (s : Server) (d t : ℤ) : Server :=
  if (s.dev d).subscription = some t then s
  else
    let s := (subscribeMove s d t).setDev d fun D => { D with subscription := some t }
    updateInterpDup (s.setRow d fun r => { r with sub1 := t }) d t

/-- `dev_register` for a device of type `type` that is created by the caller; a device that is
registered already is left alone. -/
def devRegister (s : Server) (d type : ℤ) : Server :=
  if d ∈ s.devs then s
  else
    let tid := (s.row d).tagid
    let s := { s with devs := s.devs ++ [d] }.setDev d fun _ => newDev type
    let s := requestTag s tid
    let s := tagAddDevice s tid d
    let s := s.setDev d fun D => { D with tag := tid }
    let s := tagCheckUcast s tid d
    if devtypeNone < type ∧ type < devtypeOther ∧ (s.row d).sub1 = 0 ∧ (s.row d).sub2 = 0 then
      devSubscribe (requestTag s 1) d 1
    else s

/-- `add_manager_dev`. -/
def addManagerDev (s : Server) : Server :=
  let s := s.setRow 0 fun _ =>
    { type := 0, tagid := 1, userName := [], enabled := 0, online := 0, sub1 := 0, sub2 := 0,
      discussChair := 0, discussOpen := 0, ptcId := 0, ptcCmd := [] }
  devRegister s 0 devtypeNone

/-- `do_dev_activate`. -/
def doDevActivate (s : Server) (d : ℤ) (a : Bool) : Server :=
  if (s.dev d).active = a then s
  else
    let s := s.setDev d fun D => { D with active := a }
    s.setRow d fun r => { r with online := if a then 1 else 0 }

end GSConferencing.Serv.Devctl
