import GSConferencing.Serv.Ptc

/-!
# Discussion control

`cmd_discctrl.c`: a microphone is opened and closed (`addOpen`, `delOpen`), a request to open one
is put through, rejected, or put through at the cost of another one (`admission`), and the
subcommands of `discctrl`.
-/

namespace GSConferencing.Serv.Discuss

open GSConferencing.Lib.CyclicList GSConferencing.Include.ListHead
open GSConferencing.Serv.Strutil GSConferencing.Serv.CmdHandler GSConferencing.Serv.Dev
open GSConferencing.Serv.Tag GSConferencing.Serv.Interp GSConferencing.Serv.Devctl
open GSConferencing.Serv.Ptc

/-! ## Opening and closing -/

/-- `add_open`. -/
def addOpen (s : Server) (t d : ℤ) : Option Server := do
  let openL ← listAddTail s.openL (.entry d) (.head t)
  let s := { s with openL := openL }.setTag t fun T => { T with openuser := T.openuser + 1 }
  let s := s.setDev d fun D => { D with discussOpen := 1 }
  let s := tagAddOutstanding s t d
  let s := s.setRow d fun r => { r with discussOpen := 1 }
  some (deviceSave s d)

/-- `del_open`. -/
def delOpen (s : Server) (t d : ℤ) : Option Server := do
  let openL ← listDel s.openL (.entry d)
  let s := { s with openL := openL }.setTag t fun T => { T with openuser := T.openuser - 1 }
  let s := s.setDev d fun D => { D with discussOpen := 0 }
  let s := tagRmOutstanding s t d
  let s := s.setRow d fun r => { r with discussOpen := 0 }
  some (deviceSave s d)

/-- `kick_user`. -/
def kickUser (s : Server) (d kick : ℤ) : Server :=
  deviceCmd s kick (fmtInt d ++ " discctrl kick ".toList ++ fmtInt kick ++ ['\n'])

/-! ## Admission -/

/-- What becomes of a request to open. -/
inductive Admission where
  | openit
  | kick (k : ℤ)
  | reject
  deriving DecidableEq

/-- How the search for a device to kick ends early. -/
inductive ScanExit where
  | openit
  | dead (k : ℤ)

/-- The body of the search: `b` is the candidate so far and the users that occupy a site. -/
def scanStep (s : Server) (t : ℤ) (b : Option ℤ × ℤ) (k : ℤ) : (Option ℤ × ℤ) ⊕ ScanExit :=
  if (s.dev k).type = devtypeChair then
    if b.2 - 1 < (s.tag t).maxuser then .inr .openit else .inl (b.1, b.2 - 1)
  else if (s.dev k).active = false then .inr (.dead k)
  else .inl (b.1.orElse fun _ => some k, b.2)

/-- Rounds of the search: a list that does not lead back to its head is followed until enough
chairs have been passed. -/
def scanRounds (s : Server) (t : ℤ) : ℕ :=
  (s.devs.length + 1) * (((s.tag t).openuser - (s.tag t).maxuser).toNat + 2)

/-- The request of the closed device `d` in the tag `t`. -/
def admission (s : Server) (t d : ℤ) : Option Admission :=
  if (s.dev d).type = devtypeChair ∧ (s.tag t).openuser < maxMix then some .openit
  else if (s.tag t).openuser < (s.tag t).maxuser then some .openit
  else do
    let r ← s.openL.forEach t (scanStep s t) (scanRounds s t) (s.openL.next (.head t))
      (none, (s.tag t).openuser)
    match r with
    | .inr .openit => some .openit
    | .inr (.dead k) => some (.kick k)
    | .inl (none, _) => some .reject
    | .inl (some k, _) => some (if (s.tag t).mode = discmodeFifo then .kick k else .reject)

/-! ## `request` -/

/-- What follows `post:`. -/
def requestPost (s : Server) (cmd : Cmd) (t d a : ℤ) : Option (Reply Server) := do
  let s ←
    if (s.dev d).type = devtypeInterp ∧ 0 < (s.tag t).interpMode then
      if a ≠ 0 then some (interpDelRep s t) else applyInterpMode s t d
    else some s
  let cmd := match (s.dev d).mixerInfo with
    | some info => repAdd cmd info
    | none => cmd
  some (0, repEnd cmd, s)

/-- `add_open` and `ptc_push`. -/
def openit (s : Server) (t d : ℤ) : Option Server := do
  let s ← addOpen s t d
  ptcPush s d

/-- `del_open` and `ptc_remove`. -/
def closeit (s : Server) (t d : ℤ) : Option Server := do
  let s ← delOpen s t d
  ptcRemove s d

def discctrlRequest (s : Server) (cmd : Cmd) (d : ℤ) (args : List Str) : Option (Reply Server) :=
  nextArg args cmd s fun p _ => do
    let a := atoi p
    let t := (s.dev d).tag
    let cmd := repAdd cmd "OK".toList
    if (s.dev d).discussOpen = a then
      if a ≠ 0 then do
        let s ← ptcPush (tagAddOutstanding s t d) d
        requestPost s cmd t d a
      else requestPost s cmd t d a
    else if a ≠ 0 then do
      match ← admission s t d with
      | .reject => some (errRejected, cmd, s)
      | .openit => do
        let s ← openit s t d
        requestPost s cmd t d a
      | .kick k => do
        let s ← closeit s t k
        let s ← openit (kickUser s d k) t d
        requestPost s cmd t d a
    else do
      let s ← closeit s t d
      requestPost s cmd t d a

/-! ## `select` and `close` -/

/-- `memberids[]` holds 1024 ids. -/
def memberMax : ℕ := 1024

/-- `group_setup_discuss`. -/
def groupSetupDiscuss (s : Server) (r : DbDiscuss) : Option Server :=
  let ids := (forEachId r.members).map atoi
  if memberMax < ids.length then none
  else
    let names := ids.foldl (fun l mid =>
      listAdd l (((s.mdFindDevice mid).map DbDevice.userName).getD ['?'])) []
    some (s.setGrp fun g =>
      { g with memberids := ids, membernames := names, current := some r })

/-- `INIT_LIST_HEAD(&tag->discuss.open_list)` and `openuser = 0`. -/
def resetOpenList (s : Server) (t : ℤ) : Server :=
  { s with openL := s.openL.init (.head t) }.setTag t fun T => { T with openuser := 0 }

/-- `send_cmd_to_dev_id`. -/
def sendCmdToDevId (s : Server) (cmd : Cmd) (id : ℤ) : Server :=
  if id ∈ s.devs then deviceCmd s id cmd.rep else s

/-- The members of the discussion may speak. -/
def allowMembers (s : Server) : Server :=
  s.grp.memberids.foldl (fun s m =>
    if m ∈ s.devs then s.setDev m fun D => { D with discussForbidden := 0 } else s) s

def discctrlSelect (s : Server) (cmd : Cmd) (d : ℤ) (args : List Str) : Option (Reply Server) :=
  if s.grp.current.isSome then some (errOther, cmd, s)
  else nextArg args cmd s fun p _ =>
    let num := atoi p
    if (s.db.length : ℤ) ≤ num then some (errOther, cmd, s)
    -- a negative number reads before the array
    else if num < 0 then none
    else do
      let r ← s.db[num.toNat]?
      let s ← groupSetupDiscuss s r
      let s := s.setGrp fun g => { g with currNum := num }
      let cmd := repEnd (repAdd (repAdd cmd "OK".toList) r.name)
      let s := s.send (.brcastMulti s.grp.memberids cmd.rep)
      let cmd := repEnd (repAdd (repAdd (repCancelEnd cmd) r.members) s.grp.membernames)
      let s := sendCmdToDevId (allowMembers (resetOpenList s (s.dev d).tag)) cmd 1
      let s := deviceSave (s.setRow d fun r => { r with discussChair := 1 }) d
      let s := s.setGrp fun g =>
        { g with chairman := some d, dbData := { g.dbData with discussId := r.id } }
      some (0, cmd, s.send .saveGroup)

def discctrlClose (s : Server) (cmd : Cmd) (d : ℤ) : Option (Reply Server) :=
  if s.grp.current.isNone then some (errOther, cmd, s)
  else
    let cmd := repOk cmd
    let s := s.setGrp fun g => { g with current := none }
    let s := (resetOpenList s (s.dev d).tag).send (.brcastAll cmd.rep)
    let s := deviceSave (s.setRow d fun r => { r with discussChair := 0 }) d
    let s := s.setGrp fun g =>
      { g with chairman := none, dbData := { g.dbData with discussId := 0 } }
    some (0, cmd, s.send .saveGroup)

/-! ## The other subcommands -/

def discctrlSetmode (s : Server) (cmd : Cmd) (d : ℤ) (args : List Str) : Option (Reply Server) :=
  nextArg args cmd s fun p _ =>
    let s := s.setTag (s.dev d).tag fun T => { T with mode := atoi p }
    let cmd := repOk cmd
    let s := s.send (.brcastTag (s.dev d).tag cmd.rep)
    let s := s.setGrp fun g => { g with dbData := { g.dbData with discussMode := atoi p } }
    some (0, cmd, s.send .saveGroup)

/-- `set_maxuser` is for the tag 1. -/
def discctrlSetMaxuser (s : Server) (cmd : Cmd) (args : List Str) : Option (Reply Server) :=
  nextArg args cmd s fun p _ =>
    if (1 : ℤ) ∈ s.tags then
      let s := s.setTag 1 fun T => { T with maxuser := atoi p }
      let s := s.setGrp fun g => { g with dbData := { g.dbData with discussMaxuser := atoi p } }
      some (0, repOk cmd, s.send .saveGroup)
    else none

def discctrlQuery (s : Server) (cmd : Cmd) : Option (Reply Server) :=
  let s := { s with db := s.discussTable }
  let names := s.db.foldl (fun l r => listAdd l r.name) []
  some (0, repEnd (repAdd (repAdd cmd "OK".toList) names), s)

def discctrlStatus (s : Server) (cmd : Cmd) (d : ℤ) : Option (Reply Server) :=
  if s.grp.current.isNone then some (errOther, cmd, s)
  else do
    let t := (s.dev d).tag
    let r ← s.openL.forEach t (fun l id => (.inl (listAddNum l id) : Str ⊕ Empty)) s.devs.length
      (s.openL.next (.head t)) []
    match r with
    | .inl ids => some (0, repEnd (repAdd (repAdd cmd "OK".toList) ids), s)

def discctrlForbid (s : Server) (cmd : Cmd) (args : List Str) : Option (Reply Server) :=
  nextArg args cmd s fun p _ =>
    let i := atoi p
    let cmd := repOk cmd
    if i ∈ s.devs then
      let s := s.setDev i fun D => { D with discussForbidden := 1 }
      some (0, cmd, deviceCmd s i cmd.rep)
    else some (0, cmd, s)

def discctrlStop (s : Server) (cmd : Cmd) : Option (Reply Server) :=
  let cmd := repOk cmd
  some (0, cmd, { s.send (.brcastAll cmd.rep) with db := [] })

def discctrlDisableall (s : Server) (cmd : Cmd) (d : ℤ) (args : List Str) : Option (Reply Server) :=
  nextArg args cmd s fun p _ =>
    let s := s.setGrp fun g => { g with chairman := some d, disabled := atoi p }
    let cmd := repOk cmd
    some (0, cmd, s.send (.brcastAll cmd.rep))

/-- Only the manager device may demand. -/
def discctrlDemand (s : Server) (cmd : Cmd) (d : ℤ) (args : List Str) : Option (Reply Server) :=
  nextArg args cmd s fun p args => nextArg args cmd s fun _ _ =>
    if d ≠ 0 then some (errOther, cmd, s)
    else some (0, repOk cmd, sendCmdToDevId s (repOk cmd) (atoi p))

/-- `cmd_discctrl`. -/
def cmdDiscctrl (s : Server) (cmd : Cmd) : Option (Reply Server) :=
  let d := cmd.deviceId
  if d ∉ s.devs then some (errNotReg, cmd, s)
  else nextArg cmd.args cmd s fun subcmd args =>
    if subcmd = "setmode".toList then discctrlSetmode s cmd d args
    else if subcmd = "set_maxuser".toList then discctrlSetMaxuser s cmd args
    else if subcmd = "query".toList then discctrlQuery s cmd
    else if subcmd = "select".toList then discctrlSelect s cmd d args
    else if subcmd = "request".toList then discctrlRequest s cmd d args
    else if subcmd = "status".toList then discctrlStatus s cmd d
    else if subcmd = "close".toList then discctrlClose s cmd d
    else if subcmd = "forbid".toList then discctrlForbid s cmd args
    else if subcmd = "stop".toList then discctrlStop s cmd
    else if subcmd = "disableall".toList then discctrlDisableall s cmd d args
    else if subcmd = "demand".toList then discctrlDemand s cmd d args
    else some (2, cmd, s)

section Subcommands
variable {s : Server} {cmd : Cmd} {args : List Str}

theorem cmdDiscctrl_request (hd : cmd.deviceId ∈ s.devs)
    (hargs : cmd.args = "request".toList :: args) :
    cmdDiscctrl s cmd = discctrlRequest s cmd cmd.deviceId args := by
  unfold cmdDiscctrl
  rw [if_neg (not_not.mpr hd), hargs, nextArg_cons, if_neg (by decide), if_neg (by decide),
    if_neg (by decide), if_neg (by decide), if_pos rfl]

theorem cmdDiscctrl_select (hd : cmd.deviceId ∈ s.devs)
    (hargs : cmd.args = "select".toList :: args) :
    cmdDiscctrl s cmd = discctrlSelect s cmd cmd.deviceId args := by
  unfold cmdDiscctrl
  rw [if_neg (not_not.mpr hd), hargs, nextArg_cons, if_neg (by decide), if_neg (by decide),
    if_neg (by decide), if_pos rfl]

theorem cmdDiscctrl_close (hd : cmd.deviceId ∈ s.devs)
    (hargs : cmd.args = "close".toList :: args) :
    cmdDiscctrl s cmd = discctrlClose s cmd cmd.deviceId := by
  unfold cmdDiscctrl
  rw [if_neg (not_not.mpr hd), hargs, nextArg_cons, if_neg (by decide), if_neg (by decide),
    if_neg (by decide), if_neg (by decide), if_neg (by decide), if_neg (by decide), if_pos rfl]

end Subcommands

end GSConferencing.Serv.Discuss
