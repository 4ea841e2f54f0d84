import GSConferencing.Cmd.ParseCmd
import GSConferencing.Include.Pack
import GSConferencing.Serv.CmdHandler

/-!
# Text messages on the server

`cmd_msgctrl.c`, and what of `network.c`, `async.c` and `brcmd.c` a message goes through.  A message
is sent on as the command line that it came in, with an `OK` behind it.

* `serve_send`: what the server makes of a line `<id> msgctrl send <ids> ...`.
-/

namespace GSConferencing.Serv.Msgctrl

open GSConferencing.Cmd.ParseCmd GSConferencing.Include.Pack
open GSConferencing.Serv.Strutil GSConferencing.Serv.CmdHandler

/-- A registered device. -/
structure Device where
  id : ℤ
  active : Bool
  deriving DecidableEq

/-- `async_sendto_dev` connects to active devices, and to the device 1. -/
def Device.Reached (d : Device) : Prop := d.active = true ∨ d.id = 1

instance (d : Device) : Decidable d.Reached := inferInstanceAs (Decidable (_ ∨ _))

/-- What goes out: a line to a device, or to all clients. -/
inductive Out where
  | dev (id : ℤ) (rep : Str)
  | all (rep : Str)

/-- `async_sendto_dev`; a block of the pool has `CMD_MAX` bytes. -/
def asyncSendtoDev (d : Device) (rep : Str) : List Out :=
  if ¬ d.Reached then [] else if cmdMax - 100 < rep.length then [] else [.dev d.id rep]

/-- `brcast_cmd_to_all`: the reply with its ending `\0` is packed; `init_args` refuses what is too
long. -/
def brcastCmdToAll (rep : Str) : List Out :=
  if cmdMax - 100 < ucmdHead + (rep.length + 1) then [] else [.all rep]

/-- `get_device`. -/
def getDevice (devs : List Device) (did : ℤ) : Option Device := devs.find? fun d => d.id = did

/-- The body of the loop of `send_to_idlist`. -/
def sendToId (devs : List Device) (rep : Str) (did : ℤ) : List Out :=
  match getDevice devs did with
  | some d => asyncSendtoDev d rep
  | none => []

/-- `send_to_idlist`. -/
def sendToIdlist (devs : List Device) (rep ids : Str) : List Out :=
  (forEachId ids).flatMap fun p => sendToId devs rep (atoi p)

/-- The text of `query`; `buf` and the reply have `CMD_MAX` bytes. -/
def query (devs : List Device) (cmd : Cmd) : Option (Reply (List Out)) :=
  let buf := (devs.map Device.id).foldl listAddNum []
  let cmd := repEnd (repAdd (repAdd cmd "OK".toList) buf)
  if cmdMax ≤ buf.length ∨ cmdMax ≤ cmd.rep.length then none else some (0, cmd, [])

/-- `cmd_msgctrl`. -/
def cmdMsgctrl (devs : List Device) (cmd : Cmd) : Option (Reply (List Out)) :=
  if cmd.deviceId ∉ devs.map Device.id then some (errNotReg, cmd, [])
  else nextArg cmd.args cmd [] fun subcmd args =>
    if subcmd = "query".toList then query devs cmd
    else if subcmd = "send".toList then
      nextArg args cmd [] fun p _ =>
        let cmd := repOk cmd
        if cmdMax ≤ cmd.rep.length then none
        else if p = "all".toList then some (0, cmd, brcastCmdToAll cmd.rep)
        else some (0, cmd, sendToIdlist devs cmd.rep p)
    else some (2, cmd, [])

/-- The copy of a command line that the reply starts with: without the ending newline. -/
def repOf (line : Str) : Str := if line.getLast? = some '\n' then line.dropLast else line

/-- `run_proceed_connection`, for a line that has arrived at once: the answer, and what goes out.
There are no other handlers here than `cmd_msgctrl`. -/
def serve (devs : List Device) (line : Str) : Option (Str × List Out) :=
  (parseCmd line).bind fun r =>
    match r with
    | .error _ => some ("FAIL 1 parse error\n".toList, [])
    | .ok c =>
      if c.cmd ≠ "msgctrl".toList then some ("FAIL 2 invalid cmd\n".toList, [])
      else (cmdMsgctrl devs ⟨c.deviceId, c.args, repOf line⟩).map fun r =>
        if 0 < r.1 then ("FAIL ".toList ++ fmtInt r.1 ++ " handling cmd error\n".toList, r.2.2)
        else (r.2.1.rep, r.2.2)

/-- **A message** of a registered device is sent on with an `OK` behind it. -/
theorem serve_send {devs : List Device} {line rest : Str} {id : ℤ} {p : Str} {ws : List Str}
    (hmin : intMin ≤ id) (hmax : id ≤ intMax) (hid : id ∈ devs.map Device.id)
    (hline : line = rest ++ ['\n'])
    (hwords : words line = fmtInt id :: "msgctrl".toList :: "send".toList :: p :: ws) :
    serve devs line =
      if argMax ≤ ws.length + 2 ∨ cmdMax ≤ rest.length + 4 then none
      else some (rest ++ " OK\n".toList,
        if p = "all".toList then brcastCmdToAll (rest ++ " OK\n".toList)
        else sendToIdlist devs (rest ++ " OK\n".toList) p) := by
  have hrep : repOf line = rest := by
    rw [hline, repOf, if_pos List.getLast?_concat, List.dropLast_concat]
  have hlen : (rest ++ " OK\n".toList).length = rest.length + 4 := List.length_append
  unfold serve
  rw [parseCmd_eq hmin hmax hwords]
  simp only [List.length_cons]
  by_cases hargs : argMax ≤ ws.length + 2
  · rw [if_pos hargs, if_pos (.inl hargs)]
    rfl
  · rw [if_neg hargs, Option.bind_some]
    refine (if_neg (not_not.mpr rfl)).trans ?_
    unfold cmdMsgctrl
    rw [hrep, if_neg (not_not.mpr hid), nextArg_cons, if_neg (by decide), if_pos rfl, nextArg_cons]
    simp only [repOk, hlen, hargs, false_or]
    by_cases hmax' : cmdMax ≤ rest.length + 4
    · rw [if_pos hmax', if_pos hmax']
      rfl
    · rw [if_neg hmax', if_neg hmax']
      split <;> rfl

end GSConferencing.Serv.Msgctrl
