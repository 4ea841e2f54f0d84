import GSConferencing.Serv.CmdHandler
import GSConferencing.Include.ListHead

/-!
# Devices, tags and the group

The server's state as the discussion code sees it: `struct device`, `struct tag` and `struct group`
with the fields this code reads, the records of the database tables in memory, and the messages
that have left the server.  There is one group, and a tag is named by its id within it.

A device and the list nodes embedded in it are named by the device's id; `d->tag` is the id of
the tag.  `d->db_data` is `row d`: the record of the table, and for the virtual manager device 0
the record that exists at run time only.
-/

namespace GSConferencing.Serv.Dev

open GSConferencing.Lib.CyclicList
open GSConferencing.Serv.Strutil

/-! ## Records -/

def devtypeNone : ℤ := 0
def devtypeChair : ℤ := 2
def devtypeInterp : ℤ := 3
def devtypeOther : ℤ := 200
def devtypeUcastAudio : ℤ := 224

def discmodeAuto : ℤ := 0
def discmodeFifo : ℤ := 1

def interpNo : ℤ := 0
def interpOr : ℤ := 1
def interpRe : ℤ := 2

/-- `MAX_MIX`. -/
def maxMix : ℤ := 8

/-- `struct db_device`. -/
structure DbDevice where
  type : ℤ
  tagid : ℤ
  userName : Str
  enabled : ℤ
  online : ℤ
  sub1 : ℤ
  sub2 : ℤ
  discussChair : ℤ
  discussOpen : ℤ
  ptcId : ℤ
  ptcCmd : Str

/-- `struct db_discuss`. -/
structure DbDiscuss where
  id : ℤ
  name : Str
  members : Str

/-- `struct db_group`. -/
structure DbGroup where
  discussMode : ℤ
  discussMaxuser : ℤ
  discussId : ℤ

/-- `struct device`. -/
structure Device where
  type : ℤ
  active : Bool
  hbeat : ℤ
  tag : ℤ
  /-- `subscription[0]`, the only one as `MAX_SUB` is 1. -/
  subscription : Option ℤ
  mixbit : ℕ
  timeouts : ℤ
  /-- `mixer.res`: the resource of the net mixer, counted from 1; 0 for none. -/
  mixerRes : ℤ
  mixerInfo : Option Str
  discussOpen : ℤ
  discussForbidden : ℤ

/-- The tables of `soft_mixer.c` and `net_mixer.c`. -/
inductive Mixer where
  | soft
  | net
  deriving DecidableEq

/-- `struct tag`. -/
structure Tag where
  deviceHead : List ℤ
  subscribeHead : List ℤ
  mixer : Mixer
  mixDevs : Fin 8 → Option ℤ
  mixCount : ℤ
  mixRef : Fin 8
  mode : ℤ
  maxuser : ℤ
  openuser : ℤ
  interpMode : ℤ
  interpRep : Option ℤ
  ucast : Option ℤ

/-- `struct group`: its discussion, and its record. -/
structure Group where
  dbData : DbGroup
  chairman : Option ℤ
  current : Option DbDiscuss
  currNum : ℤ
  /-- `memberids[0 .. nmembers)`. -/
  memberids : List ℤ
  membernames : Str
  disabled : ℤ

/-- The static variables of `ptc.c`. -/
structure Ptc where
  /-- `ptcs[]` up to the first `NULL`. -/
  ptcs : List ℤ
  /-- The list of `ptc_head`. -/
  links : Links Unit ℤ
  curr : Option ℤ

/-- Messages to devices and writes to the database. -/
inductive Out where
  | deviceCmd (d : ℤ) (text : Str)
  | brcastAll (text : Str)
  | brcastTag (tag : ℤ) (text : Str)
  | brcastMulti (ids : List ℤ) (text : Str)
  | interpRep (tag rep : ℤ)
  | saveDevice (d : ℤ)
  | saveGroup

/-- The state of the server. -/
structure Server where
  /-- The registered devices, in the order of the group's list. -/
  devs : List ℤ
  dev : ℤ → Device
  /-- The ids of the device table. -/
  table : List ℤ
  row : ℤ → DbDevice
  /-- The tags that have been created. -/
  tags : List ℤ
  tag : ℤ → Tag
  /-- The lists of `discuss.open_list`, one for each tag. -/
  openL : Links ℤ ℤ
  /-- `resources[].avail` of the net mixer. -/
  avail : Fin 8 → Bool
  ptc : Ptc
  grp : Group
  discussTable : List DbDiscuss
  /-- The snapshot `db[0 .. dbl)` of `cmd_discctrl.c`. -/
  db : List DbDiscuss
  optMixer : Mixer
  out : List Out

/-! ## Updates -/

namespace Server

variable (s : Server) (d t : ℤ)

def setDev (f : Device → Device) : Server :=
  { s with dev := Function.update s.dev d (f (s.dev d)) }

def setRow (f : DbDevice → DbDevice) : Server :=
  { s with row := Function.update s.row d (f (s.row d)) }

def setTag (f : Tag → Tag) : Server :=
  { s with tag := Function.update s.tag t (f (s.tag t)) }

def setGrp (f : Group → Group) : Server := { s with grp := f s.grp }

def send (o : Out) : Server := { s with out := s.out ++ [o] }

/-- `md_find_device`. -/
def mdFindDevice : Option DbDevice := if d ∈ s.table then some (s.row d) else none

end Server

end GSConferencing.Serv.Dev
