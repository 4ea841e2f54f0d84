import GSConferencing.Serv.Dev

/-!
# Registration

`cmd_regist.c` and `cmd_auth.c`, over the fields of devices, of the group and of the database that
they use.  Attendance is taken in two ways: `regist reg` on the device, and `auth` with a card.
-/

namespace GSConferencing.Serv.Regist

open GSConferencing.Serv.Strutil GSConferencing.Serv.CmdHandler
open GSConferencing.Serv.Dev (Out)

/-- `REGIST_CARD_ID`. -/
def registCardId : ℤ := 2

/-! ## Records -/

/-- `struct db_device`. -/
structure DbDevice where
  userCard : ℤ
  userName : Str
  userGender : ℤ
  enabled : ℤ
  registMaster : ℤ
  registReg : ℤ

/-- `struct db_regist`. -/
structure DbRegist where
  members : Str
  expect : ℤ

/-- `struct db_auth_card`. -/
structure DbAuthCard where
  cardId : Str
  cardInfo : Str
  extra : Str
  devId : ℤ

/-- `struct db_group`. -/
structure DbGroup where
  registStart : ℤ
  registMode : ℤ
  registExpect : ℤ
  registArrive : ℤ

/-- `struct group`: its registration, and its record. -/
structure Group where
  dbData : DbGroup
  mode : ℤ
  /-- `memberids[0 .. nmembers)`. -/
  memberids : List ℤ
  expect : ℤ
  arrive : ℤ
  arriveIds : ℤ → ℤ
  /-- The text at `arrive_idstr`, which is `NULL` before the first start. -/
  arriveIdstr : Option Str
  arriveIdstrLen : ℕ

/-- The registered devices with their `regist.reg`, the group, the tables, and what has been sent
and saved. -/
structure State where
  devs : Finset ℤ
  reg : ℤ → ℤ
  table : List ℤ
  row : ℤ → DbDevice
  grp : Group
  registTable : List DbRegist
  authCards : List DbAuthCard
  out : List Out

namespace State

variable (s : State) (d : ℤ)

def setReg (a : ℤ) : State := { s with reg := Function.update s.reg d a }

def setRow (f : DbDevice → DbDevice) : State :=
  { s with row := Function.update s.row d (f (s.row d)) }

def setGrp (f : Group → Group) : State := { s with grp := f s.grp }

def send (o : Out) : State := { s with out := s.out ++ [o] }

/-- `device_save`: the manager device is never saved. -/
def deviceSave : State := if d = 0 then s else s.send (.saveDevice d)

/-- `send_cmd_to_dev_id`, for a device other than the manager device. -/
def sendCmdToDevId (cmd : Cmd) : State :=
  if d ∈ s.devs then s.send (.deviceCmd d cmd.rep) else s

end State

/-! ## `regist` -/

/-- `memberids[]` and `arrive_ids[]` hold 1024 ids. -/
def memberMax : ℕ := 1024

/-- `regist_setup`. -/
def registSetup (s : State) (dr : DbRegist) : Option State :=
  let ids := (forEachId dr.members).map atoi
  if memberMax < ids.length then none else some (s.setGrp fun g => { g with memberids := ids })

/-- `regist_reset_all`. -/
def registResetAll (s : State) : State :=
  s.grp.memberids.foldl (fun s m =>
    if m ∈ s.devs then (s.setReg m 0).setRow m fun r => { r with registReg := 0 } else s) s

/-- The registration `start` opens. -/
def openRegist (dr : DbRegist) (mode : ℤ) (g : Group) : Group :=
  { g with
    mode := mode, expect := dr.expect, arrive := 0, arriveIdstr := some [], arriveIdstrLen := 0
    dbData :=
      { registStart := 1, registMode := mode, registExpect := dr.expect, registArrive := 0 } }

def registStart (s : State) (cmd : Cmd) (d : ℤ) (args : List Str) : Option (Reply State) :=
  if s.grp.dbData.registStart ≠ 0 then some (errOther, cmd, s)
  else match s.registTable with
    | [] => some (errOther, cmd, s)
    | dr :: _ => do
      let s ← registSetup s dr
      let s := registResetAll s
      nextArg args cmd s fun p _ =>
        let s := (s.setGrp (openRegist dr (atoi p))).send .saveGroup
        let s := (s.setRow d fun r => { r with registMaster := 1 }).deviceSave d
        let cmd := repOk cmd
        let s := s.sendCmdToDevId 1 cmd
        some (0, cmd, s.send (.brcastMulti s.grp.memberids cmd.rep))

/-- The registration that `stop` leaves. -/
def closeRegist (g : Group) : Group :=
  { g with
    memberids := [], expect := 0, arrive := 0, arriveIdstrLen := 0
    dbData := { g.dbData with registStart := 0, registExpect := 0, registArrive := 0 } }

def registStop (s : State) (cmd : Cmd) (d : ℤ) : Option (Reply State) :=
  if s.grp.dbData.registStart = 0 then some (errOther, cmd, s)
  else do
    let cmd := repEnd (repAddNum (repAddNum (repAdd cmd "OK".toList) s.grp.expect) s.grp.arrive)
    let s := s.send (.brcastAll cmd.rep)
    let idstr ← s.grp.arriveIdstr
    let cmd := repEnd (repAdd (repCancelEnd cmd) idstr)
    let s := registResetAll (s.sendCmdToDevId 1 cmd)
    let s := (s.setGrp closeRegist).send .saveGroup
    some (0, cmd, (s.setRow d fun r => { r with registMaster := 0 }).deviceSave d)

def registStatus (s : State) (cmd : Cmd) (d : ℤ) : Option (Reply State) :=
  let cmd := repAddNum (repAddNum (repAdd cmd "OK".toList) s.grp.expect) s.grp.arrive
  if d = 0 then s.grp.arriveIdstr.map fun idstr => (0, repEnd (repAdd cmd idstr), s)
  else some (0, repEnd cmd, s)

/-- The name in the reply: leading blanks are skipped, and an empty name is a dot. -/
def replyName (name : Str) : Str :=
  let name := name.dropWhile (· = ' ')
  if name = [] then ['.'] else name

/-- `LIST_ADD_NUM(arrive_idstr, arrive_idstr_len, d)`. -/
def addArriveId (g : Group) (idstr : Str) (d : ℤ) : Group :=
  let str := if g.arriveIdstrLen = 0 then fmtInt d
    else idstr.take g.arriveIdstrLen ++ ',' :: fmtInt d
  { g with arriveIdstr := some str, arriveIdstrLen := str.length }

/-- The first `reg` of a device: it arrives. -/
def arriveDev (s : State) (d : ℤ) : Option State :=
  if s.grp.arrive < 0 ∨ memberMax ≤ s.grp.arrive then none
  else s.grp.arriveIdstr.map fun idstr =>
    let s := s.setGrp fun g =>
      { g with arriveIds := Function.update g.arriveIds g.arrive d, arrive := g.arrive + 1 }
    let s := s.setGrp fun g => addArriveId g idstr d
    let s := s.setGrp fun g => { g with dbData := { g.dbData with registArrive := g.arrive } }
    (s.setReg d 1).setRow d fun r => { r with registReg := 1 }

def registReg (s : State) (cmd : Cmd) (d : ℤ) (args : List Str) : Option (Reply State) :=
  nextArg args cmd s fun p args => nextArg args cmd s fun q _ =>
    let mode := atoi p
    let dd := s.row d
    if s.grp.dbData.registStart = 0 ∨ s.grp.dbData.registMode ≠ mode then some (errOther, cmd, s)
    else if mode = registCardId ∧ atoi q ≠ dd.userCard then some (errOther, cmd, s)
    else
      let cmd := repAdd (repAddNum (repAdd cmd "OK".toList) dd.userCard) (replyName dd.userName)
      let cmd := repEnd (repAddNum cmd dd.userGender)
      -- a repeated registration is answered and not counted
      if s.reg d ≠ 0 then some (0, cmd, s)
      else (arriveDev s d).map fun s => (0, cmd, s)

/-- `cmd_regist`. -/
def cmdRegist (s : State) (cmd : Cmd) : Option (Reply State) :=
  let d := cmd.deviceId
  if d ∉ s.devs then some (errNotReg, cmd, s)
  else nextArg cmd.args cmd s fun subcmd args =>
    if subcmd = "start".toList then registStart s cmd d args
    else if subcmd = "stop".toList then registStop s cmd d
    else if subcmd = "status".toList then registStatus s cmd d
    else if subcmd = "reg".toList then registReg s cmd d args
    else some (2, cmd, s)

/-! ## `auth` -/

/-- `authenticate`: the first card with the id, if the information on it is right. An id without
quotes is meant, and one that fits `card_id` and, with the rest of the statement, `sqlcmd`. -/
def authenticate (s : State) (cardId cardInfo : Str) : Option DbAuthCard :=
  (s.authCards.find? fun c => c.cardId = cardId).filter fun c => c.cardInfo = cardInfo

/-- What `auth` does for a device whose card is accepted. -/
def authArrive (s : State) (d : ℤ) : State :=
  let s := s.setGrp fun g => { g with arrive := g.arrive + 1 }
  let s := s.setGrp fun g => { g with dbData := { g.dbData with registArrive := g.arrive } }
  let s := (s.send .saveGroup).setReg d 1
  (s.setRow d fun r => { r with registReg := 1 }).deviceSave d

/-- `cmd_auth`. -/
def cmdAuth (s : State) (cmd : Cmd) : Option (Reply State) :=
  let d := cmd.deviceId
  if d ∉ s.devs then some (errNotReg, cmd, s)
  else nextArg cmd.args cmd s fun cardId args => nextArg args cmd s fun cardInfo _ =>
    match authenticate s cardId cardInfo with
    | none => some (errRejected, cmd, s)
    | some card =>
      if s.grp.mode = registCardId ∧ card.devId ≠ d then some (errRejected, cmd, s)
      else some (0, repEnd (repAdd (repAdd cmd "OK".toList) card.extra), authArrive s d)

/-! ## Start-up and new devices -/

/-- The database the server starts from. -/
structure Db where
  group : DbGroup
  table : List ℤ
  nodup : table.Nodup
  row : ℤ → DbDevice
  registTable : List DbRegist
  authCards : List DbAuthCard

/-- The record of a device that is new to the database. -/
def newRow : DbDevice where
  userCard := 0
  userName := ['?']
  userGender := 1
  enabled := 1
  registMaster := 0
  registReg := 0

/-- The record of the manager device. -/
def managerRow : DbDevice where
  userCard := 0
  userName := []
  userGender := 0
  enabled := 0
  registMaster := 0
  registReg := 0

/-- `group_create`, the part of the registration. -/
def groupCreate (dg : DbGroup) : Group where
  dbData := dg
  mode := 0
  memberids := []
  expect := if dg.registStart = 0 then 0 else dg.registExpect
  arrive := if dg.registStart = 0 then 0 else dg.registArrive
  arriveIds := fun _ => 0
  arriveIdstr := none
  arriveIdstrLen := 0

/-- `recover_server`, with `restore_regist` for each device.  An enabled record must not have the id
of the manager device. -/
def recoverServer (db : Db) : Option State :=
  let enabled := db.table.filter fun d => (db.row d).enabled ≠ 0
  if 0 ∈ enabled then none
  else some
    { devs := insert 0 enabled.toFinset
      reg := fun d => if d ∈ enabled then (db.row d).registReg else 0
      table := db.table
      row := Function.update db.row 0 managerRow
      grp := groupCreate db.group
      registTable := db.registTable
      authCards := db.authCards
      out := [] }

/-- `cmd_reg`, as far as it concerns the attendance: a device that is not known yet registers with
the server, unless it is disabled. -/
def reg (s : State) (d : ℤ) : State :=
  if d ∈ s.devs ∨ (d ∈ s.table ∧ (s.row d).enabled = 0) then s
  else
    let s := if d ∈ s.table then s
      else { s.setRow d fun _ => newRow with table := s.table ++ [d] }
    { s.setReg d 0 with devs := insert d s.devs }

/-! ## Steps -/

/-- What the registration reacts to. -/
inductive Event where
  | regist (cmd : Cmd)
  | auth (cmd : Cmd)
  /-- A device registers with the server. -/
  | reg (d : ℤ)

/-- The reply to an event, and the state after it. -/
def handle (s : State) : Event → Option (ℤ × State)
  | .regist cmd => (cmdRegist s cmd).map fun r => (r.1, r.2.2)
  | .auth cmd => (cmdAuth s cmd).map fun r => (r.1, r.2.2)
  | .reg d => some (0, reg s d)

end GSConferencing.Serv.Regist
