import GSConferencing.Serv.Mirror
import GSConferencing.Serv.Subscribe
import GSConferencing.Serv.VideoCast
import GSConferencing.Lib.Items

/-!
# The devices of the group

What the group knows of its devices: their records, the numbers of online devices and the cached list
that `get_all_devs` replies with.  `dev_register` and `do_dev_activate` of `devctl.c`, `hbeat.c`,
`cmd_reg.c`, `set_user_id`, `get_all_devs` and `sys_stats` of `cmd_misc.c`, the cache of `group.c`, and
the manager's `update` of a device.  Tags, discussions and messages to the devices are left out.

* `cmdReg_state`: `reg` is refused, or the device registers with the type it names.
* `doDevActivate_eq`, `devRegister_eq`: what the functions do, and that a negative type has no result.
-/

namespace GSConferencing.Serv.Roster

open GSConferencing.Lib.Items GSConferencing.Serv.Strutil GSConferencing.Serv.CmdHandler
open GSConferencing.Serv.Subscribe (errDevDisabled)
open GSConferencing.Serv.VideoCast (errInvlArg)

/-! ## State -/

/-- `struct device`. -/
structure Device where
  type : ℤ
  active : Bool
  hbeat : ℤ

/-- `struct db_device`. -/
structure DbDevice where
  type : ℤ
  userId : Str
  enabled : ℤ

/-- `array_size(g->stats.dev_count)`. -/
abbrev ntypes : ℕ := 8

/-- The group with the table of devices. -/
structure Group where
  /-- `device_head`, in the order of registration. -/
  devs : List ℤ
  dev : ℤ → Device
  table : List ℤ
  row : ℤ → DbDevice
  /-- The record that `add_manager_dev` gives to the manager device, until a `reg` command gives it
  one of the table. -/
  manager : Option DbDevice
  devCount : Fin ntypes → ℤ
  activeCount : Fin ntypes → ℤ
  /-- `caches.dev_ents`, with its length in `dev_ents_len`. -/
  devEnts : Str
  /-- `caches.dev_ents_dirty`. -/
  dirty : Bool

namespace Group

def setDev (s : Group) (d : ℤ) (f : Device → Device) : Group :=
  { s with dev := Function.update s.dev d (f (s.dev d)) }

def setRow (s : Group) (d : ℤ) (f : DbDevice → DbDevice) : Group :=
  { s with row := Function.update s.row d (f (s.row d)) }

/-- `d->db_data`. -/
def data (s : Group) (d : ℤ) : DbDevice := if d = 0 then s.manager.getD (s.row 0) else s.row d

/-- `d->db_data` is written. -/
def setData (s : Group) (d : ℤ) (f : DbDevice → DbDevice) : Group :=
  match s.manager with
  | some r => if d = 0 then { s with manager := some (f r) } else s.setRow d f
  | none => s.setRow d f

end Group

/-! ## The cached list -/

/-- An entry, `%d:%d:%s:%d`. -/
def devEnt (d type : ℤ) (userId : Str) (active : Bool) : Str :=
  fmtInt d ++ ':' :: (fmtInt type ++ ':' :: (userId ++ ':' :: fmtInt (if active then 1 else 0)))

/-- The entry of a device now. -/
def entryOf (s : Group) (d : ℤ) : Str :=
  devEnt d (s.dev d).type (s.data d).userId (s.dev d).active

/-- `append_dev_ents_cache`. -/
def appendDevEntsCache (s : Group) (d : ℤ) : Group :=
  { s with devEnts := listAdd s.devEnts (entryOf s d) }

/-- `refresh_dev_ents_cache`. -/
def refreshDevEntsCache (s : Group) : Group :=
  { s.devs.foldl appendDevEntsCache { s with devEnts := [] } with dirty := false }

/-- **What the list stands for:** every device of the group in the order of registration. -/
def rendering (s : Group) : Str := [','].intercalate (s.devs.map (entryOf s))

/-! ## Registration and activity -/

/-- `count[type] += n` for a type below the size of the array.  `array_size` is an `int`, so that a
negative type is an index as well. -/
def addCount (count : Fin ntypes → ℤ) (type n : ℤ) : Option (Fin ntypes → ℤ) :=
  if (ntypes : ℤ) ≤ type then some count
  else if type < 0 then none
  else some fun k : Fin ntypes => if (k : ℤ) = type then count k + n else count k

/-- `dev_register` for a device of type `type` that is created by the caller. -/
def devRegister (s : Group) (d type : ℤ) : Option Group :=
  if d ∈ s.devs then some s
  else
    let s := { s with
      devs := s.devs ++ [d]
      dev := Function.update s.dev d ⟨type, false, 0⟩ }
    (addCount s.devCount type 1).map fun c => appendDevEntsCache { s with devCount := c } d

/-- `do_dev_activate`. -/
def doDevActivate (s : Group) (d : ℤ) (a : Bool) : Option Group :=
  if (s.dev d).active = a then some s
  else
    let s := s.setDev d fun D => { D with active := a }
    (addCount s.activeCount (s.dev d).type (if a then 1 else -1)).map fun c =>
      { s with activeCount := c, dirty := true }

/-- The record `dev_update_data` makes for a device that has none. -/
def newRow (d type : ℤ) : DbDevice := ⟨type, fmtInt d, 1⟩

/-- `dev_update_data`. -/
def devUpdateData (s : Group) (d type : ℤ) : Group :=
  let s := if d = 0 then { s with manager := none } else s
  if d ∈ s.table then s
  else { s with table := s.table ++ [d] }.setRow d fun _ => newRow d type

/-- A device that is registered takes the type of its `reg` command. -/
def setType (s : Group) (d type : ℤ) : Group :=
  if d ∈ s.devs then s.setDev d fun D => { D with type := type } else s

/-- `cmd_reg` once the device may register. -/
def regDev (s : Group) (d type : ℤ) : Option Group :=
  (devRegister (devUpdateData (setType s d type) d type) d type).bind fun s =>
    doDevActivate s d true

/-- `cmd_reg`; `cksum` is the digest and `info` the text of `get_client_info`. -/
def cmdReg (cksum : BitVec 32 → Str) (info : Group → ℤ → Str) (s : Group) (cmd : Cmd) :
    Option (Reply Group) :=
  let d := cmd.deviceId
  nextArg cmd.args cmd s fun p args =>
    nextArg args cmd s fun pass args =>
      nextArg args cmd s fun port args =>
        nextArg args cmd s fun _ _ =>
          let type := atoi p
          if pass ≠ cksum (BitVec.ofInt 32 d ^^^ BitVec.ofInt 32 type) then some (1, cmd, s)
          else if atoi port ≤ 0 then some (1, cmd, s)
          else if d ∈ s.table ∧ (s.row d).enabled = 0 then some (errDevDisabled, cmd, s)
          else (regDev s d type).map fun s =>
            (0, repEnd (repAdd (repAdd cmd "OK".toList) (info s d)), s)

/-- `dev_heartbeat`. -/
def heartbeat (s : Group) (d : ℤ) : Option Group :=
  if d ∈ s.devs then doDevActivate (s.setDev d fun D => { D with hbeat := 0 }) d true
  else some s

/-- The body of the loop of `run_heartbeat_god`, for the device `d`. -/
def heartbeatGod (s : Group) (d : ℤ) : Option Group :=
  if d ∈ s.devs then
    let s := s.setDev d fun D => { D with hbeat := D.hbeat + 1 }
    if 3 < (s.dev d).hbeat ∧ (s.dev d).active then doDevActivate s d false else some s
  else some s

/-! ## Other commands -/

/-- `char user_id[64]`. -/
def userIdMax : ℕ := 64

/-- `cmd_set_user_id`. -/
def cmdSetUserId (s : Group) (cmd : Cmd) : Option (Reply Group) :=
  nextArg cmd.args cmd s fun p args =>
    nextArg args cmd s fun userId _ =>
      let c := atoi p
      if c ∉ s.devs then some (errInvlArg, cmd, s)
      else if userIdMax ≤ userId.length then none
      else
        let s := s.setData c fun r => { r with userId := userId }
        some (0, repOk cmd, { s with dirty := true })

/-- `cmd_get_all_devs`. -/
def cmdGetAllDevs (s : Group) (cmd : Cmd) : Reply Group :=
  if cmd.deviceId ∉ s.devs then (errNotReg, cmd, s)
  else
    let s := if s.dirty then refreshDevEntsCache s else s
    (0, repEnd (repAdd (repAdd cmd "OK".toList) s.devEnts), s)

local instance neZero_ntypes : NeZero ntypes := ⟨by decide⟩

/-- `cmd_sys_stats`: normal clients, chairs and interpreters. -/
def cmdSysStats (s : Group) (cmd : Cmd) : Reply Group :=
  if cmd.deviceId ∉ s.devs then (errNotReg, cmd, s)
  else
    let cmd := repAddNum (repAdd cmd "OK".toList) (s.activeCount 1)
    (0, repEnd (repAddNum (repAddNum cmd (s.activeCount 2)) (s.activeCount 3)), s)

/-- The table `device` of `db.def`. -/
def deviceTable : Mirror.Schema := Mirror.tables[2]

/-- `read_device`: a missing argument ends the macro, and the fields from there on stay. -/
def readDevice (args : List Str) (r : DbDevice) : DbDevice where
  type := (args[1]?.map atoi).getD r.type
  userId := args[5]?.getD r.userId
  enabled := (args[9]?.map atoi).getD r.enabled

/-- The manager's `update` of a device, with the arguments after the name of the table.  An id without
a record gives a null pointer. -/
def mUpdate (s : Group) (args : List Str) : Option Group :=
  match args with
  | [] => some s
  | a :: _ =>
    if atoi a ∉ s.table then none
    else if ¬ Mirror.Fits deviceTable args then none
    else some (s.setRow (atoi a) (readDevice args))

/-! ## Start-up -/

/-- The table of devices the server starts from; ids are primary keys. -/
structure Db where
  table : List ℤ
  nodup : table.Nodup
  row : ℤ → DbDevice

/-- The memory before `recover_server`. -/
def boot (db : Db) : Group where
  devs := []
  dev := fun _ => ⟨0, false, 0⟩
  table := db.table
  row := db.row
  manager := some ⟨0, [], 0⟩
  devCount := fun _ => 0
  activeCount := fun _ => 0
  devEnts := []
  dirty := false

/-- The body of the loop of `recover_devs`.  `dev_register` would leave a second device of one id
without a group. -/
def recoverDev (s : Group) (d : ℤ) : Option Group :=
  if (s.row d).enabled = 0 then some s
  else if d ∈ s.devs then none
  else devRegister s d (s.row d).type

/-- `recover_server`. -/
def recoverServer (db : Db) : Option Group :=
  (devRegister (boot db) 0 0).bind fun s => db.table.foldlM recoverDev s

/-! ## What the functions do -/

section Lemmas

variable {s : Group} {d : ℤ}

@[simp] theorem devUpdateData_devs (s : Group) (d type : ℤ) :
    (devUpdateData s d type).devs = s.devs := by
  unfold devUpdateData
  simp only
  split <;> split <;> rfl

@[simp] theorem devUpdateData_dev (s : Group) (d type : ℤ) :
    (devUpdateData s d type).dev = s.dev := by
  unfold devUpdateData
  simp only
  split <;> split <;> rfl

@[simp] theorem devUpdateData_activeCount (s : Group) (d type : ℤ) :
    (devUpdateData s d type).activeCount = s.activeCount := by
  unfold devUpdateData
  simp only
  split <;> split <;> rfl

@[simp] theorem setType_devs (s : Group) (d type : ℤ) : (setType s d type).devs = s.devs := by
  unfold setType
  split <;> rfl

@[simp] theorem setType_activeCount (s : Group) (d type : ℤ) :
    (setType s d type).activeCount = s.activeCount := by
  unfold setType
  split <;> rfl

theorem setType_dev (hd : d ∈ s.devs) (type : ℤ) :
    (setType s d type).dev = Function.update s.dev d { s.dev d with type := type } := by
  unfold setType
  rw [if_pos hd]
  rfl

theorem addCount_eq (count : Fin ntypes → ℤ) (type n : ℤ) :
    addCount count type n =
      if type < 0 then none
      else some fun k : Fin ntypes => if (k : ℤ) = type then count k + n else count k := by
  unfold addCount
  by_cases hbig : (ntypes : ℤ) ≤ type
  · have hpos : ¬ type < 0 := by unfold ntypes at hbig; omega
    rw [if_pos hbig, if_neg hpos]
    refine congrArg some (funext fun k => ?_)
    have hk : ¬ (k : ℤ) = type := by have := k.isLt; omega
    rw [if_neg hk]
  · rw [if_neg hbig]

/-- A device that is not active is turned on, or an active one off. -/
def turned (s : Group) (d : ℤ) (a : Bool) : Group :=
  { s with
    dev := Function.update s.dev d { s.dev d with active := a }
    activeCount := fun k =>
      if (k : ℤ) = (s.dev d).type then s.activeCount k + (if a then 1 else -1)
      else s.activeCount k
    dirty := true }

theorem doDevActivate_eq (s : Group) (d : ℤ) (a : Bool) :
    doDevActivate s d a =
      if (s.dev d).active = a then some s
      else if (s.dev d).type < 0 then none else some (turned s d a) := by
  have htype : ((s.setDev d fun D => { D with active := a }).dev d).type = (s.dev d).type := by
    show (Function.update s.dev d _ d).type = _
    rw [Function.update_self]
  unfold doDevActivate
  simp only
  rw [addCount_eq, htype]
  split
  · rfl
  · split
    · rfl
    · rfl

/-- A new device stands at the end of the group. -/
def enrolled (s : Group) (d type : ℤ) : Group :=
  appendDevEntsCache { s with
    devs := s.devs ++ [d]
    dev := Function.update s.dev d ⟨type, false, 0⟩
    devCount := fun k => if (k : ℤ) = type then s.devCount k + 1 else s.devCount k } d

theorem devRegister_eq (s : Group) (d type : ℤ) :
    devRegister s d type =
      if d ∈ s.devs then some s else if type < 0 then none else some (enrolled s d type) := by
  unfold devRegister
  simp only
  rw [addCount_eq]
  split
  · rfl
  · split
    · rfl
    · rfl

/-- `reg` of a registered device. -/
theorem regDev_of_mem (hd : d ∈ s.devs) (type : ℤ) :
    regDev s d type = doDevActivate (devUpdateData (setType s d type) d type) d true := by
  have hmem : d ∈ (devUpdateData (setType s d type) d type).devs := by
    rw [devUpdateData_devs, setType_devs]
    exact hd
  unfold regDev
  rw [devRegister_eq, if_pos hmem]
  rfl

/-- `reg` of a new device, which is turned on at once. -/
theorem regDev_of_notMem (hd : d ∉ s.devs) (type : ℤ) :
    regDev s d type =
      if type < 0 then none else some (turned (enrolled (devUpdateData s d type) d type) d true) := by
  have hnot : d ∉ (devUpdateData s d type).devs := by
    rw [devUpdateData_devs]
    exact hd
  have hnew : (enrolled (devUpdateData s d type) d type).dev d = ⟨type, false, 0⟩ :=
    Function.update_self ..
  unfold regDev setType
  rw [if_neg hd, devRegister_eq, if_neg hnot]
  by_cases hneg : type < 0
  · rw [if_pos hneg, if_pos hneg]
    rfl
  · rw [if_neg hneg, if_neg hneg, Option.bind_some, doDevActivate_eq, hnew,
      if_neg Bool.false_ne_true, if_neg hneg]

/-- The type in a `reg` command that the server accepts. -/
def regType (cksum : BitVec 32 → Str) (s : Group) (cmd : Cmd) : Option ℤ :=
  match cmd.args with
  | p :: pass :: port :: _ :: _ =>
    if pass = cksum (BitVec.ofInt 32 cmd.deviceId ^^^ BitVec.ofInt 32 (atoi p)) ∧
        0 < atoi port ∧ ¬ (cmd.deviceId ∈ s.table ∧ (s.row cmd.deviceId).enabled = 0) then
      some (atoi p)
    else none
  | _ => none

/-- **`reg`** is refused, or the device registers. -/
theorem cmdReg_state (cksum : BitVec 32 → Str) (info : Group → ℤ → Str) (s : Group) (cmd : Cmd) :
    (cmdReg cksum info s cmd).map (fun r => r.2.2) =
      match regType cksum s cmd with
      | some type => regDev s cmd.deviceId type
      | none => some s := by
  unfold cmdReg regType
  match cmd.args with
  | [] => rfl
  | [_] => rfl
  | [_, _] => rfl
  | [_, _, _] => rfl
  | p :: pass :: port :: _ :: _ =>
    simp only [nextArg]
    by_cases hpass : pass = cksum (BitVec.ofInt 32 cmd.deviceId ^^^ BitVec.ofInt 32 (atoi p))
    · rw [if_neg (not_not.mpr hpass)]
      by_cases hport : atoi port ≤ 0
      · rw [if_pos hport, if_neg fun h => (not_lt.mpr hport) h.2.1]
        rfl
      · rw [if_neg hport]
        by_cases hen : cmd.deviceId ∈ s.table ∧ (s.row cmd.deviceId).enabled = 0
        · rw [if_pos hen, if_neg fun h => h.2.2 hen]
          rfl
        · rw [if_neg hen, if_pos ⟨hpass, not_le.mp hport, hen⟩, Option.map_map]
          exact congrFun Option.map_id _
    · rw [if_pos hpass, if_neg fun h => hpass h.1]
      rfl

end Lemmas

end GSConferencing.Serv.Roster
