import GSConferencing.Serv.Discuss
import GSConferencing.Lib.Run

/-!
# The server

The other code that opens and closes microphones or moves devices, and the server as a machine:
the heartbeats of `hbeat.c`, `switch_tag` of `cmd_tag.c`, the start from the database of
`recover.c`, and one `step` for each command or event.  The handlers run under one lock; the
heartbeat thread visits the devices one by one, so that a visit is a step of its own.
-/

namespace GSConferencing.Serv.Server

open GSConferencing.Lib.CyclicList
open GSConferencing.Serv.Strutil GSConferencing.Serv.CmdHandler GSConferencing.Serv.Dev
open GSConferencing.Serv.Tag GSConferencing.Serv.Interp GSConferencing.Serv.Devctl
open GSConferencing.Serv.Ptc GSConferencing.Serv.Discuss

/-! ## Heartbeats -/

/-- A heartbeat packet of `d`: `heartbeat_id` for a device that is not registered, else
`dev_heartbeat`. -/
def heartbeat (s : Server) (d : ℤ) : Server :=
  if d ∈ s.devs then
    let s := s.setDev d fun D => { D with hbeat := 0 }
    doDevActivate s d true
  else if d ∈ s.table then s.setRow d fun r => { r with online := 1 }
  else s

/-- The body of the loop of `run_heartbeat_god`, for the device `d`. -/
def heartbeatGod (s : Server) (d : ℤ) : Option Server :=
  if d ∈ s.devs then
    let s := s.setDev d fun D => { D with hbeat := D.hbeat + 1 }
    if 3 < (s.dev d).hbeat ∧ (s.dev d).active then
      let s := doDevActivate s d false
      if (s.dev d).discussOpen ≠ 0 then delOpen s (s.dev d).tag d else some s
    else some s
  else some s

/-! ## `switch_tag` -/

/-- An interpreter that is about to quit the tag ends its replication. -/
def quitInterp (s : Server) (t d : ℤ) : Option Server :=
  if (s.dev d).type = devtypeInterp then
    applyInterpMode (s.setTag t fun T => { T with interpMode := interpNo }) t d
  else some s

/-- The device goes from its tag's list to the list of `tid`. -/
def moveDev (s : Server) (d tid : ℤ) : Server :=
  let s := tagAddDevice (tagDelDevice (requestTag s tid) d) tid d
  tagCheckUcast (s.setDev d fun D => { D with tag := tid }) tid d

/-- An interpreter takes over the mode of the tag it enters. -/
def enterInterp (s : Server) (t d : ℤ) : Option Server :=
  if (s.dev d).type = devtypeInterp then applyInterpMode s t d else some s

/-- `cmd_switch_tag`. -/
def cmdSwitchTag (s : Server) (cmd : Cmd) : Option (Reply Server) :=
  let d := cmd.deviceId
  if d ∉ s.devs then some (errNotReg, cmd, s)
  else nextArg cmd.args cmd s fun p _ =>
    let tid := atoi p
    if tid ≤ 0 then some (errOther, cmd, s)
    else if tid = (s.dev d).tag then some (0, repOk cmd, s)
    else do
      let s ← quitInterp s (s.dev d).tag d
      let s ← enterInterp (moveDev s d tid) tid d
      some (0, repOk cmd, deviceSave (s.setRow d fun r => { r with tagid := tid }) d)

/-! ## Start-up -/

/-- The database the server starts from; ids are primary keys. -/
structure Db where
  group : DbGroup
  table : List ℤ
  nodup : table.Nodup
  row : ℤ → DbDevice
  discuss : List DbDiscuss
  optMixer : Mixer

local instance neZero_mixRef : NeZero 8 := ⟨by decide⟩

/-- The memory before `recover_server`. -/
def boot (db : Db) : Server where
  devs := []
  dev := fun _ => newDev 0
  table := db.table
  row := db.row
  tags := []
  tag := fun _ =>
    { deviceHead := [], subscribeHead := [], mixer := .soft, mixDevs := fun _ => none,
      mixCount := 0, mixRef := 0, mode := 0, maxuser := 0, openuser := 0, interpMode := interpNo,
      interpRep := none, ucast := none }
  openL := ⟨fun _ => none, fun _ => none⟩
  avail := fun _ => true
  ptc :=
    { ptcs := []
      links := Links.init ⟨fun _ => none, fun _ => none⟩ (.head ())
      curr := none }
  grp :=
    { dbData := db.group, chairman := none, current := none, currNum := 0, memberids := [],
      membernames := [], disabled := 0 }
  discussTable := db.discuss
  db := []
  optMixer := db.optMixer
  out := []

/-- `group_create`, the part of the discussion: the open record is found again by its id. -/
def groupCreate (s : Server) : Option Server :=
  if s.grp.dbData.discussId = 0 then some s
  else match s.discussTable.find? fun r => r.id = s.grp.dbData.discussId with
    | none => some s
    | some r => groupSetupDiscuss s r

/-- `restore_sub`. -/
def restoreSub (s : Server) (d : ℤ) : Server :=
  [(s.row d).sub1, (s.row d).sub2].foldl (fun s tid =>
    if tid = 0 then s else devSubscribe (requestTag s tid) d tid) s

/-- `restore_discuss`. -/
def restoreDiscuss (s : Server) (d : ℤ) : Option Server := do
  let s := if isPtc s d then addPtc s d else s
  if (s.row d).discussOpen ≠ 0 then
    let s ← addOpen s (s.dev d).tag d
    ptcPut s d
  else some s

/-- The body of the loop of `recover_devs`.  `dev_register` would leave a second device of one id
without a group. -/
def recoverDev (s : Server) (d : ℤ) : Option Server :=
  if (s.row d).enabled = 0 then some s
  else if d ∈ s.devs then none
  else
    let s := s.setRow d fun r => { r with online := 0 }
    let s := devRegister s d (s.row d).type
    restoreDiscuss (restoreSub s d) d

/-- `recover_server`; the group is created when the manager device registers.  An enabled record
with the id of the manager device would make a second device of this id. -/
def recoverServer (db : Db) : Option Server :=
  if 0 ∈ db.table ∧ (db.row 0).enabled ≠ 0 then none
  else do
    let s ← groupCreate (boot db)
    let s ← db.table.foldlM recoverDev (addManagerDev s)
    some (ptcGoCurrent s)

/-- The stages of a start. -/
theorem recoverServer_some {db : Db} {s : Server} (h : recoverServer db = some s) :
    ∃ s₀ s₁, groupCreate (boot db) = some s₀ ∧
      db.table.foldlM recoverDev (addManagerDev s₀) = some s₁ ∧ s = ptcGoCurrent s₁ := by
  unfold recoverServer at h
  split at h
  · cases h
  · obtain ⟨s₀, hs₀, h⟩ := Option.bind_eq_some_iff.mp h
    obtain ⟨s₁, hs₁, h⟩ := Option.bind_eq_some_iff.mp h
    exact ⟨s₀, s₁, hs₀, hs₁, (Option.some.inj h).symm⟩

/-! ## Steps -/

/-- What the server reacts to. -/
inductive Event where
  /-- A `discctrl` command. -/
  | discctrl (cmd : Cmd)
  /-- A `switch_tag` command. -/
  | switchTag (cmd : Cmd)
  /-- A heartbeat packet. -/
  | heartbeat (d : ℤ)
  /-- A visit of the heartbeat thread. -/
  | heartbeatGod (d : ℤ)

/-- One step of the server. -/
def step (s : Server) : Event → Option Server
  | .discctrl cmd => (cmdDiscctrl s cmd).map fun r => r.2.2
  | .switchTag cmd => (cmdSwitchTag s cmd).map fun r => r.2.2
  | .heartbeat d => some (heartbeat s d)
  | .heartbeatGod d => heartbeatGod s d

end GSConferencing.Serv.Server
