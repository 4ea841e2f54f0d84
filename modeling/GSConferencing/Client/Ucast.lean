import GSConferencing.Lib.ByKey
import GSConferencing.Lib.Run
import GSConferencing.Serv.Strutil

/-!
# The unicast caster of a tag

`ucast.c`, the messages of `t2cmd.h`, and what `cmd_sub.c`, `cmd_reg.c`, `cmd_tag.c` and `cast.c` do
to the subscribers of a tag.  The server sends each message over a connection of its own, from a
pool of threads, so that messages in flight arrive in any order.

* `CastOk`: once the list has been asked for and nothing is in flight, a packet goes to the active
  subscribers.
* `handle_under`: a message does to the entries of a device what `act` says.
-/

namespace GSConferencing.Client.Ucast

open GSConferencing.Lib.ByKey GSConferencing.Serv.Strutil

/-! ## Messages and the caster -/

/-- `struct sockaddr_in`. -/
structure Addr where
  ip : BitVec 32
  port : BitVec 16
  deriving DecidableEq

/-- A subscriber as the server describes it; `active` is `flag & 1`. -/
structure SubEnt where
  id : ℤ
  addr : Addr
  active : Bool

/-- `T2CMD_SUBS_LIST`, and `T2CMD_SUB` with the field `sub`. -/
inductive Type2 where
  | subsList (tag : ℤ) (subs : List SubEnt)
  | sub (e : SubEnt) (sub : Bool)

/-- `struct dev_ent`. -/
structure DevEnt where
  id : ℤ
  addr : Addr
  active : Bool
  sub : Bool

/-- `subs[4096]`. -/
def subsMax : ℕ := 4096

/-- The entry that `add_sub` fills in. -/
def SubEnt.entry (e : SubEnt) : DevEnt := ⟨e.id, e.addr, e.active, true⟩

/-- `add_sub`; `subs` is kept with its last entry in front. -/
def addSub (subs : List DevEnt) (e : SubEnt) : Option (List DevEnt) :=
  if subsMax ≤ subs.length then none else some (e.entry :: subs)

/-- `e->sub = b` for the entry that `find_by_id` finds, the last one with the id. -/
def setSub (id : ℤ) (b : Bool) : List DevEnt → Option (List DevEnt)
  | [] => none
  | e :: subs =>
    if e.id = id then some ({ e with sub := b } :: subs) else (setSub id b subs).map (e :: ·)

/-- `handle_type2_cmd`, of the caster of `tag`. -/
def handleType2 (tag : ℤ) (subs : List DevEnt) : Type2 → Option (List DevEnt)
  | .subsList hdTag es => if hdTag ≠ tag then some subs else es.foldlM addSub subs
  | .sub e true => match setSub e.id true subs with
    | some subs => some subs
    | none => addSub subs e
  | .sub e false => some ((setSub e.id false subs).getD subs)

/-- An entry that packets are sent to. -/
def DevEnt.Live (e : DevEnt) : Bool := e.active && e.sub

/-- `handle_audio_pack`: where a packet goes. -/
def dests (subs : List DevEnt) : List Addr := (subs.reverse.filter DevEnt.Live).map DevEnt.addr

/-! ## The server -/

/-- A registered device; there is one subscription (`MAX_SUB`). -/
structure Device where
  id : ℤ
  addr : Addr
  active : Bool
  subscription : Option ℤ

/-- `get_device`. -/
def getDevice (devs : List Device) (id : ℤ) : Option Device := devs.find? fun d => d.id = id

def setDevice (devs : List Device) (id : ℤ) (f : Device → Device) : List Device :=
  devs.map fun d => if d.id = id then f d else d

/-- `dev_subscribe` and `dev_unsubscribe`: a new subscription replaces the old one. -/
def Device.change (d : Device) (tid : ℤ) (unsub : Bool) : Device :=
  if unsub then if d.subscription = some tid then { d with subscription := none } else d
  else { d with subscription := some tid }

/-- The devices after a registration; `client` says whether a new device is subscribed to the tag 1,
as clients are that have no recorded subscription. -/
def regDevs (devs : List Device) (id : ℤ) (addr : Addr) (client : Bool) : List Device :=
  match getDevice devs id with
  | some _ => setDevice devs id fun d => { d with addr := addr, active := true }
  | none => devs ++ [⟨id, addr, true, if client then some 1 else none⟩]

/-- The devices after `cmd_sub` with a number that is not `0`. -/
def subDevs (devs : List Device) (id arg : ℤ) : List Device :=
  setDevice devs id fun d => d.change |arg| (arg < 0)

/-- The subscribers of a tag, as `cmd_get_subs` lists them; the order of `subscribe_head` is that of
the subscriptions, here it is that of the devices. -/
def subsOf (t : ℤ) (devs : List Device) : List SubEnt :=
  (devs.filter fun d => d.subscription = some t).map fun d => ⟨d.id, d.addr, d.active⟩

/-- The subscribers that the reply buffer, of `CMD_MAX` bytes, has room for: the head of the message
takes 8 of them, and a subscriber takes 12. -/
def listMax : ℕ := (10240 - 8) / 12

/-! ## The system -/

/-- The caster's program: not registered, registered on the server, back from `reg`, and back from
the sending of `get_subs`. -/
inductive Phase where
  | off
  | attached
  | reged
  | asked
  deriving DecidableEq

/-- The registered devices, the caster's among them left out, whose `active` is `up`; the messages on
their way to the caster; and its entries. -/
structure State where
  devs : List Device
  phase : Phase
  up : Bool
  flight : List Type2
  subs : List DevEnt

/-- What happens: commands of devices that are carried out, heartbeats that begin or stop, the steps
of the caster's program, and the arrival of the `k`th message in flight. -/
inductive Event where
  | reg (id : ℤ) (addr : Addr) (client : Bool)
  | activate (id : ℤ) (active : Bool)
  | sub (id arg : ℤ)
  | attach
  | reged
  | casterActive (active : Bool)
  | getSubs
  | arrive (k : ℕ)

/-- `cmd_sub`: the caster of the tag is told if it is active. -/
def cmdSub (t : ℤ) (s : State) (id arg : ℤ) : Option State :=
  match getDevice s.devs id with
  | none => some s
  | some d =>
    if arg = 0 then some s
    else if arg = intMin then none
    else
      let s := { s with devs := subDevs s.devs id arg }
      if |arg| = t ∧ s.phase ≠ .off ∧ s.up then
        some { s with flight := s.flight ++ [.sub ⟨id, d.addr, d.active⟩ (0 < arg)] }
      else some s

/-- `get_subs`, which the program calls once; the tag in the message has 16 bits. -/
def cmdGetSubs (t : ℤ) (s : State) : Option State :=
  if s.phase ≠ .reged ∨ t ≤ 0 then some s
  else if listMax < (subsOf t s.devs).length then none
  else some { s with
    phase := .asked
    flight := s.flight ++ [.subsList (BitVec.ofInt 16 t).toNat (subsOf t s.devs)] }

/-- A message arrives; the client drops it as long as `reg` has not returned. -/
def arrive (t : ℤ) (s : State) (k : ℕ) : Option State :=
  match s.flight[k]? with
  | none => some s
  | some m =>
    let s := { s with flight := s.flight.eraseIdx k }
    if s.phase = .off ∨ s.phase = .attached then some s
    else (handleType2 t s.subs m).map fun subs => { s with subs := subs }

def step (t : ℤ) (s : State) : Event → Option State
  | .reg id addr client => some { s with devs := regDevs s.devs id addr client }
  | .activate id active =>
    some { s with devs := setDevice s.devs id fun d => { d with active := active } }
  | .sub id arg => cmdSub t s id arg
  | .attach => some (if s.phase = .off then { s with phase := .attached, up := true } else s)
  | .reged => some (if s.phase = .attached then { s with phase := .reged } else s)
  | .casterActive active => some { s with up := active }
  | .getSubs => cmdGetSubs t s
  | .arrive k => arrive t s k

/-- The devices that are registered when the caster starts. -/
structure Registered where
  devs : List Device
  nodup : (devs.map Device.id).Nodup

def boot (r : Registered) : State := ⟨r.devs, .off, false, [], []⟩

/-- An active subscriber. -/
def Device.Wants (t : ℤ) (d : Device) : Bool := d.active && d.subscription = some t

/-- The addresses of the active subscribers. -/
def subscribers (t : ℤ) (devs : List Device) : List Addr :=
  (devs.filter (Device.Wants t)).map Device.addr

/-- **The caster serves the subscribers:** once the list has been asked for and all messages are
processed, a packet goes to each active subscriber once, and to nobody else. -/
def CastOk (t : ℤ) (s : State) : Prop :=
  s.phase = .asked → s.flight = [] → (dests s.subs).Perm (subscribers t s.devs)

end GSConferencing.Client.Ucast
