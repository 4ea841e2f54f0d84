import GSConferencing.Serv.Dev

/-!
# Votes

`cmd_votectrl.c` and `vote.h`, with what `group.c` and `recover.c` do to restore a vote, over the
fields of devices, of the group and of the database that they use.

A vote object is known by its address; addresses are never used again, so that a pointer to an
object that has been freed stays recognizable, and reading through it has no result.  The records
in memory (`row`, `dbData`) and what the database holds of them (`savedRow`, `savedGroup`) are two
things: a record reaches the database when `device_save` or `group_save` writes it.
-/

namespace GSConferencing.Serv.Votectrl

open GSConferencing.Lib.CyclicList GSConferencing.Include.ListHead
open GSConferencing.Serv.Strutil GSConferencing.Serv.CmdHandler
open GSConferencing.Serv.Dev (Out)

/-- `VOTE_SCORE`. -/
def voteScore : ℤ := 2

/-! ## Records -/

/-- `struct db_device`. -/
structure DbDevice where
  userName : Str
  enabled : ℤ
  voteMaster : ℤ
  voteChoice : ℤ

/-- `struct db_vote`. -/
structure DbVote where
  id : ℤ
  name : Str
  type : ℤ
  optionsCount : ℤ
  maxSelect : ℤ
  options : Str
  members : Str
  expect : ℤ

/-- The vote table; ids are primary keys. -/
structure VoteTable where
  records : List DbVote
  nodup : (records.map DbVote.id).Nodup

/-- `struct db_group`. -/
structure DbGroup where
  voteId : ℤ
  voteResults : Str

/-- `struct vote`, apart from the head of its list. -/
structure Vote where
  type : ℤ
  cnOptions : ℤ
  nMembers : ℤ
  results : Fin 40 → ℤ

/-- The `vote` of `struct device`, apart from its list node. -/
structure Device where
  v : Option ℕ
  choice : ℤ
  forbidden : ℤ

/-- The `vote` of `struct group`, and its record. -/
structure Group where
  dbData : DbGroup
  current : Option DbVote
  currNum : ℤ
  expect : ℤ
  nvoted : ℤ
  /-- `memberids[0 .. nmembers)`. -/
  memberids : List ℤ
  membernames : Str
  v : Option ℕ

/-- The state of the server, as far as votes go. -/
structure State where
  /-- The registered devices, in the order of the group's list. -/
  devs : List ℤ
  dev : ℤ → Device
  /-- The ids of the device table. -/
  table : List ℤ
  tableNodup : table.Nodup
  row : ℤ → DbDevice
  savedRow : ℤ → DbDevice
  grp : Group
  savedGroup : DbGroup
  voteTable : VoteTable
  /-- The snapshot `db[0 .. dbl)` of `cmd_votectrl.c`. -/
  db : List DbVote
  /-- The vote objects that are allocated. -/
  objs : ℕ → Option Vote
  /-- The next address. -/
  next : ℕ
  /-- The lists of `device_head`, one for each vote object. -/
  links : Links ℕ ℤ
  out : List Out

namespace State

variable (s : State) (d : ℤ)

def setDev (f : Device → Device) : State :=
  { s with dev := Function.update s.dev d (f (s.dev d)) }

def setRow (f : DbDevice → DbDevice) : State :=
  { s with row := Function.update s.row d (f (s.row d)) }

def setGrp (f : Group → Group) : State := { s with grp := f s.grp }

def setVote (a : ℕ) (f : Vote → Vote) : State :=
  { s with objs := Function.update s.objs a ((s.objs a).map f) }

def send (o : Out) : State := { s with out := s.out ++ [o] }

/-- `device_save`: the manager device is never saved. -/
def deviceSave : State :=
  if d = 0 then s else { s with savedRow := Function.update s.savedRow d (s.row d) }

/-- `group_save`. -/
def groupSave : State := { s with savedGroup := s.grp.dbData }

/-- `device_cmd`: the manager device takes none. -/
def deviceCmd (cmd : Cmd) : State := if d = 0 then s else s.send (.deviceCmd d cmd.rep)

/-- `send_cmd_to_dev_id`. -/
def sendCmdToDevId (cmd : Cmd) : State := if d ∈ s.devs then s.deviceCmd d cmd else s

/-- `md_find_device`. -/
def mdFindDevice : Option DbDevice := if d ∈ s.table then some (s.row d) else none

/-- The devices `list_for_each_entry` meets from the head of the vote object `a` on. -/
def voteDevices (a : ℕ) : Option (List ℤ) :=
  match s.links.forEach a (fun l m => (.inl (l ++ [m]) : List ℤ ⊕ Empty)) s.devs.length
      (s.links.next (.head a)) [] with
  | some (.inl l) => some l
  | none => none

end State

/-! ## Setting a vote up -/

/-- `memberids[]` holds 1024 ids. -/
def memberMax : ℕ := 1024

/-- `results[]` holds 40 counters. -/
def resultMax : ℤ := 40

/-- `vote_new`: a zeroed object with an empty list. -/
def voteNew (s : State) (type cnOptions : ℤ) : ℕ × State :=
  (s.next, { s with
    objs := Function.update s.objs s.next
      (some { type := type, cnOptions := cnOptions, nMembers := 0, results := fun _ => 0 })
    next := s.next + 1
    links := s.links.init (.head s.next) })

/-- The ids a record names. -/
def idsOf (dv : DbVote) : List ℤ := (forEachId dv.members).map atoi

/-- The members of a record: all devices of the group's list so far, or those it names. -/
def memberList (s : State) (dv : DbVote) : List ℤ :=
  if dv.members = "all".toList then s.devs else idsOf dv

/-- `prepare_vote`, with `add_vote_member` for each member. -/
def prepareVote (s : State) (dv : DbVote) : Option State :=
  let ids := memberList s dv
  if memberMax < ids.length then none
  else
    let names := ids.foldl (fun l mid =>
      listAdd l (((s.mdFindDevice mid).map DbDevice.userName).getD ['?'])) []
    some (s.setGrp fun g => { g with memberids := ids, membernames := names, nvoted := 0 })

/-- `group_setup_vote`. -/
def groupSetupVote (s : State) (dv : DbVote) : Option State :=
  (prepareVote s dv).map fun s => s.setGrp fun g => { g with current := some dv }

/-- `vote_add_device`. -/
def voteAddDevice (s : State) (a : ℕ) (d : ℤ) : Option State :=
  (listAddTail s.links (.entry d) (.head a)).map fun L => { s with links := L }

/-! ## Subcommands -/

/-- `vote_results_to_str`: `0` for no options, else their counters. -/
def voteResultsToStr (v : Vote) : Option Str :=
  if resultMax < v.cnOptions then none
  else
    let counts := ((List.finRange 40).filter fun k => (k.val : ℤ) < v.cnOptions).map v.results
    some (if counts = [] then ['0'] else counts.foldl listAddNum [])

def votectrlQuery (s : State) (cmd : Cmd) : Option (Reply State) :=
  let s := { s with db := s.voteTable.records }
  let names := s.db.foldl (fun l dv => listAdd l dv.name) []
  some (0, repEnd (repAdd (repAdd cmd "OK".toList) names), s)

def votectrlSelect (s : State) (cmd : Cmd) (args : List Str) : Option (Reply State) :=
  nextArg args cmd s fun p _ =>
    let i := atoi p
    if (s.db.length : ℤ) ≤ i then some (1, cmd, s)
    -- a negative number reads before the array
    else if i < 0 then none
    else s.db[i.toNat]?.map fun dv =>
      (0, repEnd (repAdd (repAdd cmd "OK".toList) dv.members), s)

/-- `device_vote_start`, for the member `m`. -/
def deviceVoteStart (s : State) (a : ℕ) (m : ℤ) : Option State :=
  (voteAddDevice s a m).map fun s =>
    (s.setDev m fun D => { D with v := some a, choice := -1 }).setRow m fun r =>
      { r with voteChoice := -1 }

/-- The body of the loop over the members. -/
def startMember (a : ℕ) (s : State) (m : ℤ) : Option State :=
  (if m ∈ s.devs then deviceVoteStart s a m else some s).map fun s =>
    s.setVote a fun v => { v with nMembers := v.nMembers + 1 }

/-- The vote `dv` with the number `num` begins; `d` starts it. -/
def beginVote (s : State) (d : ℤ) (dv : DbVote) (num : ℤ) : Option State :=
  let s := s.setGrp fun g => { g with current := some dv, currNum := num, expect := dv.expect }
  let (a, s) := voteNew s dv.type dv.optionsCount
  let s := (s.setGrp fun g => { g with v := some a }).setDev d fun D => { D with v := some a }
  s.grp.memberids.foldlM (startMember a) s

def votectrlStart (s : State) (cmd : Cmd) (d : ℤ) (args : List Str) : Option (Reply State) :=
  if s.grp.current.isSome then some (errOther, cmd, s)
  else nextArg args cmd s fun p _ =>
    let num := atoi p
    if (s.db.length : ℤ) ≤ num then some (1, cmd, s)
    -- a negative number reads before the array
    else if num < 0 then none
    else s.db[num.toNat]?.bind fun dv => (prepareVote s dv).bind fun s =>
      -- the manager device may start any vote, a device only one it is a member of
      if d ≠ 0 ∧ d ∉ s.grp.memberids then some (errRejected, cmd, s)
      else
        let cmd := repAdd (repAddNum (repAdd cmd "OK".toList) dv.type) dv.name
        let cmd := repAddNum (repAddNum cmd dv.optionsCount) dv.maxSelect
        let cmd := repEnd (repAdd cmd dv.options)
        (beginVote s d dv num).map fun s =>
          let s := (s.send (.brcastMulti s.grp.memberids cmd.rep)).sendCmdToDevId 1 cmd
          let s := (s.setRow d fun r => { r with voteMaster := 1 }).deviceSave d
          (0, cmd,
            (s.setGrp fun g => { g with dbData := { g.dbData with voteId := dv.id } }).groupSave)

/-- `results[i]++`, if `i` is below the size of the array. -/
def countOption (v : Vote) (i : ℤ) : Option Vote :=
  if h : 0 ≤ i ∧ i < 40 then
    let k : Fin 40 := ⟨i.toNat, by omega⟩
    some { v with results := Function.update v.results k (v.results k + 1) }
  else if i < 0 then none
  else some v

/-- The options of a ballot. -/
def ballotOptions (p : Str) : List ℤ := (strtok p).map atoi

/-- The options are counted, unless the vote is about scores. -/
def countBallot (v : Vote) (opts : List ℤ) : Option Vote :=
  if v.type = voteScore then some v else opts.foldlM countOption v

/-- The saved text of the results of a vote, which a vote about scores leaves alone. -/
def resultsText (v : Vote) (old : Str) : Option Str :=
  if v.type = voteScore then some old else voteResultsToStr v

/-- The ballot `p` of the device `d` has been counted in the object `a`, which is `v` now. -/
def noteBallot (s : State) (d : ℤ) (a : ℕ) (v : Vote) (p text : Str) : State :=
  let opts := ballotOptions p
  let s := { s with objs := Function.update s.objs a (some v) }
  let s := s.setDev d fun D => { D with choice := opts.getLast?.getD D.choice }
  let s := s.setRow d fun r => { r with voteChoice := opts.getLast?.getD (atoi p) }
  let s := s.setGrp fun g =>
    { g with nvoted := g.nvoted + 1, dbData := { g.dbData with voteResults := text } }
  (s.deviceSave d).groupSave

def votectrlResult (s : State) (cmd : Cmd) (d : ℤ) (args : List Str) : Option (Reply State) :=
  if s.grp.current.isNone then some (errOther, cmd, s)
  else nextArg args cmd s fun _ args => nextArg args cmd s fun p _ =>
    match (s.dev d).v with
    | none => some (1, cmd, s)
    | some a => do
      let v ← s.objs a
      let v ← countBallot v (ballotOptions p)
      let text ← resultsText v s.grp.dbData.voteResults
      some (0, repOk cmd, noteBallot s d a v p text)

/-- The items `id=choice` of the devices of a vote. -/
def choiceList (s : State) (ms : List ℤ) : Str :=
  ms.foldl (fun l m => listAdd l (fmtInt m ++ '=' :: fmtInt (s.dev m).choice)) []

def votectrlStatus (s : State) (cmd : Cmd) (d : ℤ) (args : List Str) : Option (Reply State) :=
  nextArg args cmd s fun _ _ =>
    let cmd := repAddNum (repAddNum (repAdd cmd "OK".toList) s.grp.expect) s.grp.nvoted
    match s.grp.v with
    | some a =>
      if d = 0 then do
        let _ ← s.objs a
        let ms ← s.voteDevices a
        some (0, repEnd (repAdd cmd (choiceList s ms)), s)
      else some (0, repEnd cmd, s)
    | none => some (0, repEnd cmd, s)

/-- The average of the scores that have been given. -/
def averageScore (s : State) (ms : List ℤ) : ℤ :=
  let given := (ms.map fun m => (s.dev m).choice).filter fun c => 0 ≤ c
  if given = [] then 0 else given.sum.tdiv given.length

/-- The result in the reply: the average score, or the counters. -/
def resultReply (s : State) (v : Vote) (ms : List ℤ) : Option Str :=
  if v.type = voteScore then some (fmtInt (averageScore s ms)) else voteResultsToStr v

/-- No vote is open any more, in the group and in its record. -/
def closeVote (g : Group) : Group :=
  { g with current := none, memberids := [], dbData := { voteId := 0, voteResults := ['0'] } }

/-- The devices of the list and the sender drop the object `a`, and it is freed. -/
def dropVote (s : State) (a : ℕ) (ms : List ℤ) (d : ℤ) : State :=
  let s := ms.foldl (fun s m => s.setDev m fun D => { D with v := none }) s
  let s := (s.setDev d fun D => { D with v := none }).setGrp fun g => { g with v := none }
  { s with objs := Function.update s.objs a none }

/-- The result of the object `a` has been shown by the device `d`. -/
def noteShown (s : State) (a : ℕ) (ms : List ℤ) (d : ℤ) : State :=
  let s := ((dropVote s a ms d).setRow d fun r => { r with voteMaster := 0 }).deviceSave d
  (s.setGrp closeVote).groupSave

def votectrlShowresult (s : State) (cmd : Cmd) (d : ℤ) (args : List Str) :
    Option (Reply State) :=
  if s.grp.current.isNone then some (errOther, cmd, s)
  else nextArg args cmd s fun _ _ =>
    match (s.dev d).v with
    | none => some (1, cmd, s)
    | some a => do
      let v ← s.objs a
      let ms ← s.voteDevices a
      let result ← resultReply s v ms
      let cmd := repEnd (repAdd (repAddNum (repAdd cmd "OK".toList) s.grp.expect) result)
      let s := s.send (.brcastMulti s.grp.memberids cmd.rep)
      let cmd := repEnd (repAdd (repCancelEnd cmd) (choiceList s ms))
      some (0, cmd, noteShown (s.sendCmdToDevId 1 cmd) a ms d)

def votectrlStop (s : State) (cmd : Cmd) : Option (Reply State) :=
  let cmd := repOk cmd
  let s := ((s.send (.brcastAll cmd.rep)).setGrp closeVote).groupSave
  some (0, cmd, { s with db := [] })

def votectrlRemind (s : State) (cmd : Cmd) (args : List Str) : Option (Reply State) :=
  let cmd := repOk cmd
  nextArg args cmd s fun p _ =>
    if atoi p ∈ s.devs then some (0, cmd, s.deviceCmd (atoi p) cmd) else some (1, cmd, s)

def votectrlForbid (s : State) (cmd : Cmd) (args : List Str) : Option (Reply State) :=
  let cmd := repOk cmd
  nextArg args cmd s fun p args =>
    if atoi p ∈ s.devs then
      nextArg args cmd s fun q _ =>
        let s := s.setDev (atoi p) fun D => { D with forbidden := atoi q }
        some (0, cmd, s.deviceCmd (atoi p) cmd)
    else some (1, cmd, s)

/-- `cmd_votectrl`. -/
def cmdVotectrl (s : State) (cmd : Cmd) : Option (Reply State) :=
  let d := cmd.deviceId
  if d ∉ s.devs then some (errNotReg, cmd, s)
  else nextArg cmd.args cmd s fun scmd args =>
    if scmd = "query".toList then votectrlQuery s cmd
    else if scmd = "select".toList then votectrlSelect s cmd args
    else if scmd = "start".toList then votectrlStart s cmd d args
    else if scmd = "result".toList then votectrlResult s cmd d args
    else if scmd = "status".toList then votectrlStatus s cmd d args
    else if scmd = "showresult".toList then votectrlShowresult s cmd d args
    else if scmd = "stop".toList then votectrlStop s cmd
    else if scmd = "remind".toList then votectrlRemind s cmd args
    else if scmd = "forbid".toList then votectrlForbid s cmd args
    else some (2, cmd, s)

section Subcommands
variable {s : State} {cmd : Cmd} {l : List Str}

theorem cmdVotectrl_start (hd : cmd.deviceId ∈ s.devs)
    (hargs : cmd.args = "start".toList :: l) :
    cmdVotectrl s cmd = votectrlStart s cmd cmd.deviceId l := by
  unfold cmdVotectrl
  rw [if_neg (not_not.mpr hd), hargs, nextArg_cons, if_neg (by decide), if_neg (by decide),
    if_pos rfl]

theorem cmdVotectrl_result (hd : cmd.deviceId ∈ s.devs)
    (hargs : cmd.args = "result".toList :: l) :
    cmdVotectrl s cmd = votectrlResult s cmd cmd.deviceId l := by
  unfold cmdVotectrl
  rw [if_neg (not_not.mpr hd), hargs, nextArg_cons, if_neg (by decide), if_neg (by decide),
    if_neg (by decide), if_pos rfl]

theorem cmdVotectrl_status (hd : cmd.deviceId ∈ s.devs)
    (hargs : cmd.args = "status".toList :: l) :
    cmdVotectrl s cmd = votectrlStatus s cmd cmd.deviceId l := by
  unfold cmdVotectrl
  rw [if_neg (not_not.mpr hd), hargs, nextArg_cons, if_neg (by decide), if_neg (by decide),
    if_neg (by decide), if_neg (by decide), if_pos rfl]

theorem cmdVotectrl_showresult (hd : cmd.deviceId ∈ s.devs)
    (hargs : cmd.args = "showresult".toList :: l) :
    cmdVotectrl s cmd = votectrlShowresult s cmd cmd.deviceId l := by
  unfold cmdVotectrl
  rw [if_neg (not_not.mpr hd), hargs, nextArg_cons, if_neg (by decide), if_neg (by decide),
    if_neg (by decide), if_neg (by decide), if_neg (by decide), if_pos rfl]

theorem cmdVotectrl_stop (hd : cmd.deviceId ∈ s.devs)
    (hargs : cmd.args = "stop".toList :: l) : cmdVotectrl s cmd = votectrlStop s cmd := by
  unfold cmdVotectrl
  rw [if_neg (not_not.mpr hd), hargs, nextArg_cons, if_neg (by decide), if_neg (by decide),
    if_neg (by decide), if_neg (by decide), if_neg (by decide), if_neg (by decide), if_pos rfl]

end Subcommands

/-! ## Start-up -/

/-- The database the server starts from; ids are primary keys. -/
structure Db where
  group : DbGroup
  table : List ℤ
  nodup : table.Nodup
  row : ℤ → DbDevice
  voteTable : VoteTable

/-- The zeroed structure of a new device. -/
def newDev : Device where
  v := none
  choice := 0
  forbidden := 0

/-- The memory before `recover_server`. -/
def boot (db : Db) : State where
  devs := []
  dev := fun _ => newDev
  table := db.table
  tableNodup := db.nodup
  row := db.row
  savedRow := db.row
  grp :=
    { dbData := db.group, current := none, currNum := 0, expect := 0, nvoted := 0, memberids := [],
      membernames := [], v := none }
  savedGroup := db.group
  voteTable := db.voteTable
  db := []
  objs := fun _ => none
  next := 0
  links := ⟨fun _ => none, fun _ => none⟩
  out := []

/-- `group_create`, the part of the vote: the open record is found again by its id. -/
def groupCreate (s : State) : Option State :=
  if s.grp.dbData.voteId = 0 then some s
  else match s.voteTable.records.find? fun dv => dv.id = s.grp.dbData.voteId with
    | none => some s
    | some dv => (groupSetupVote s dv).map fun s =>
      let (a, s) := voteNew s dv.type dv.optionsCount
      s.setGrp fun g => { g with v := some a }

/-- `dev_register`. -/
def devRegister (s : State) (d : ℤ) : State :=
  { s with devs := s.devs ++ [d], dev := Function.update s.dev d newDev }

/-- `ismember` of `restore_vote`. -/
def isMember (dv : DbVote) (d : ℤ) : Prop := dv.members = "all".toList ∨ d ∈ idsOf dv

instance (dv : DbVote) (d : ℤ) : Decidable (isMember dv d) :=
  inferInstanceAs (Decidable (_ ∨ _))

/-- A member is linked again and gets its choice back. -/
def restoreMember (s : State) (a : ℕ) (d : ℤ) : Option State :=
  (voteAddDevice s a d).map fun s =>
    let s := s.setDev d fun D => { D with v := some a, choice := (s.row d).voteChoice }
    s.setVote a fun v => { v with nMembers := v.nMembers + 1 }

/-- `restore_vote`. -/
def restoreVote (s : State) (d : ℤ) : Option State :=
  match s.grp.current, s.grp.v with
  | some dv, some a =>
    let s := if (s.row d).voteMaster ≠ 0 then s.setDev d fun D => { D with v := some a } else s
    if isMember dv d then restoreMember s a d else some s
  | some dv, none => if isMember dv d then none else some s
  | none, _ => some s

/-- The body of the loop of `recover_devs`.  `dev_register` would leave a second device of one id
without a group. -/
def recoverDev (s : State) (d : ℤ) : Option State :=
  if (s.row d).enabled = 0 then some s
  else if d ∈ s.devs then none
  else restoreVote (devRegister s d) d

/-- `add_manager_dev`: its record exists at run time only. -/
def addManagerDev (s : State) : State :=
  devRegister (s.setRow 0 fun _ =>
    { userName := [], enabled := 0, voteMaster := 0, voteChoice := 0 }) 0

/-- `recover_server`; the group is created when the manager device registers.  An enabled record
with the id of the manager device would make a second device of this id. -/
def recoverServer (db : Db) : Option State :=
  if 0 ∈ db.table ∧ (db.row 0).enabled ≠ 0 then none
  else (groupCreate (boot db)).bind fun s => db.table.foldlM recoverDev (addManagerDev s)

/-- The database as it has been saved so far. -/
def State.saved (s : State) : Db where
  group := s.savedGroup
  table := s.table
  nodup := s.tableNodup
  row := s.savedRow
  voteTable := s.voteTable

/-! ## Steps -/

/-- The record of a device that is new to the database. -/
def newRow : DbDevice where
  userName := ['?']
  enabled := 1
  voteMaster := 0
  voteChoice := -1

/-- `md_add_device`: a record for a new device, in memory and in the database. -/
def mdAddDevice (s : State) (d : ℤ) (h : d ∉ s.table) : State :=
  { s with
    table := s.table ++ [d]
    tableNodup := List.nodup_append.mpr
      ⟨s.tableNodup, List.nodup_singleton d, fun a ha b hb => by
        rw [List.mem_singleton.mp hb]
        rintro rfl
        exact h ha⟩
    row := Function.update s.row d newRow
    savedRow := Function.update s.savedRow d newRow }

/-- `cmd_reg` of a device other than the manager device, as far as it concerns votes: the record is
added, or saved if the address has changed, and a device that is not known yet registers. -/
def reg (s : State) (d : ℤ) (moved : Bool) : State :=
  if d = 0 ∨ (d ∈ s.table ∧ (s.row d).enabled = 0) then s
  else
    let s := if h : d ∈ s.table then (if moved then s.deviceSave d else s) else mdAddDevice s d h
    if d ∈ s.devs then s else devRegister s d

/-- What the votes react to. -/
inductive Event where
  | votectrl (cmd : Cmd)
  /-- A device registers with the server. -/
  | reg (d : ℤ) (moved : Bool)
  /-- Another command saves the record of a device. -/
  | save (d : ℤ)

/-- One step of the server. -/
def step (s : State) : Event → Option State
  | .votectrl cmd => (cmdVotectrl s cmd).map fun r => r.2.2
  | .reg d moved => some (reg s d moved)
  | .save d => some (s.deviceSave d)

end GSConferencing.Serv.Votectrl
