import GSConferencing.Cmd.IdList
import GSConferencing.Lib.Run
import GSConferencing.Serv.Msgctrl
import GSConferencing.Serv.Roster

/-!
# The list of clients

`msgctrl_query` of `client.c` against `msgctrl query` of the server, whose list of devices begins
with the one that `add_manager_dev` registers at the start.

* `started_reached`: the list begins with the manager device, and ids are distinct.
* `msgctrlQuery_eq`: the array that a client gets, if the list has room in the reply.
* `reports_iff`: the array is right exactly while there are no clients.
-/

namespace GSConferencing.Client.MsgctrlQuery

open GSConferencing.Lib.Run GSConferencing.Lib.Tokens
open GSConferencing.Cmd.ParseCmd GSConferencing.Cmd.IdList
open GSConferencing.Serv.Strutil GSConferencing.Serv.CmdHandler GSConferencing.Serv.Roster
open GSConferencing.Serv.Msgctrl (query cmdMsgctrl repOf serve)

/-! ## The query -/

/-- The devices of the group, as `cmd_msgctrl` sees them. -/
def devices (s : Group) : List Serv.Msgctrl.Device := s.devs.map fun d => ⟨d, (s.dev d).active⟩

/-- The command line of `msgctrl_query`. -/
def queryLine (id : ℤ) : Str := fmtInt id ++ " msgctrl query\n".toList

/-- `FIND_OK`: where the `OK` is, or the ending `NULL`. -/
def findOk (args : List Str) : ℕ := args.findIdx (· = "OK".toList)

/-- `msgctrl_query` of the client `id`: the error code, or the array behind `idlist`. -/
def msgctrlQuery (s : Group) (id : ℤ) : Option (Except ℤ (List ℤ)) :=
  (serve (devices s) (queryLine id)).bind fun r =>
  (parseCmd r.1).map fun c => c.map fun c => strToIntList c.args[findOk c.args + 1]?

/-- What stands in an array up to the `0` at its end. -/
def zeroTerminated (a : List ℤ) : List ℤ := a.takeWhile (· ≠ 0)

/-- The registered devices other than the manager device, in the order of registration. -/
def clients (s : Group) : List ℤ := s.devs.filter (· ≠ 0)

/-- **The property:** every client that asks gets the clients. -/
def Reports (s : Group) : Prop :=
  ∀ id ∈ s.devs, intMin ≤ id ∧ id ≤ intMax →
    ∃ a, msgctrlQuery s id = some (.ok a) ∧ zeroTerminated a = clients s

/-! ## Registrations -/

section Registrations

variable (cksum : BitVec 32 → Str) (info : Group → ℤ → Str)

/-- A `reg` command, whether it is accepted or not. -/
def register (s : Group) (cmd : Cmd) : Option Group := (cmdReg cksum info s cmd).map fun r => r.2.2

/-- The state after the start and some `reg` commands. -/
def reached (db : Db) (cmds : List Cmd) : Option Group :=
  (recoverServer db).bind fun s => run (register cksum info) s cmds

/-- The list begins with the manager device, and ids are distinct. -/
structure Started (s : Group) : Prop where
  head : s.devs.head? = some 0
  nodup : s.devs.Nodup

variable {cksum info} {s s' : Group} {d : ℤ}

theorem Started.of_devs (hs : Started s) (h : s'.devs = s.devs) : Started s' :=
  ⟨h ▸ hs.head, h ▸ hs.nodup⟩

/-- **A device registers** at the end of the list. -/
theorem Started.devRegister (hs : Started s) {type : ℤ} (h : devRegister s d type = some s') :
    Started s' := by
  rw [devRegister_eq] at h
  split at h
  · cases h
    exact hs
  · next hd =>
    split at h
    · cases h
    · cases h
      have hdevs : (enrolled s d type).devs = s.devs ++ [d] := rfl
      refine ⟨?_, ?_⟩
      · rw [hdevs, List.head?_append, hs.head]
        rfl
      · rw [hdevs, ← List.concat_eq_append]
        exact hs.nodup.concat hd

theorem Started.doDevActivate (hs : Started s) {a : Bool} (h : doDevActivate s d a = some s') :
    Started s' := by
  rw [doDevActivate_eq] at h
  split at h
  · cases h
    exact hs
  · split at h
    · cases h
    · cases h
      exact hs.of_devs rfl

theorem Started.register {cmd : Cmd} (hs : Started s) (h : register cksum info s cmd = some s') :
    Started s' := by
  unfold MsgctrlQuery.register at h
  rw [cmdReg_state] at h
  split at h
  · next type _ =>
    unfold regDev at h
    obtain ⟨s₁, hreg, hact⟩ := Option.bind_eq_some_iff.mp h
    have hdevs : (devUpdateData (setType s cmd.deviceId type) cmd.deviceId type).devs = s.devs := by
      rw [devUpdateData_devs, setType_devs]
    exact ((hs.of_devs hdevs).devRegister hreg).doDevActivate hact
  · cases h
    exact hs

theorem Started.recoverDev (hs : Started s) (h : recoverDev s d = some s') : Started s' := by
  unfold Serv.Roster.recoverDev at h
  split at h
  · cases h
    exact hs
  · split at h
    · cases h
    · exact hs.devRegister h

/-- **After the start:** the manager device comes first. -/
theorem started_recover {db : Db} (h : recoverServer db = some s) : Started s := by
  obtain ⟨s₀, hman, hrec⟩ := Option.bind_eq_some_iff.mp h
  have hstart : Started s₀ := by
    have hnot : (0 : ℤ) ∉ (boot db).devs := List.not_mem_nil
    rw [devRegister_eq, if_neg hnot, if_neg (by decide)] at hman
    cases hman
    exact ⟨rfl, List.nodup_singleton _⟩
  exact of_run (fun _ _ _ hs _ hdev => hs.recoverDev hdev) hstart (guarded_true s₀ db.table) hrec

/-- **The states that are reached** from the start by registrations. -/
theorem started_reached {db : Db} {cmds : List Cmd} (h : reached cksum info db cmds = some s) :
    Started s := by
  obtain ⟨s₀, hrec, hrun⟩ := Option.bind_eq_some_iff.mp h
  exact of_run (fun _ _ _ hs _ hstep => hs.register hstep) (started_recover hrec)
    (guarded_true s₀ cmds) hrun

end Registrations

/-! ## The reply -/

variable {s : Group} {id : ℤ}

/-- What the reply starts with. -/
def replyHead (id : ℤ) : Cmd :=
  repAdd ⟨id, ["query".toList], fmtInt id ++ " msgctrl query".toList⟩ "OK".toList

/-- The reply of `query`. -/
def reply (s : Group) (id : ℤ) : Cmd := repEnd (repAdd (replyHead id) (listToNumlist s.devs))

/-- `buf` or the reply is too short for the list. -/
def Overrun (s : Group) (id : ℤ) : Prop :=
  cmdMax ≤ (listToNumlist s.devs).length ∨ cmdMax ≤ (reply s id).rep.length

instance (s : Group) (id : ℤ) : Decidable (Overrun s id) := inferInstanceAs (Decidable (_ ∨ _))

theorem words_queryLine (id : ℤ) :
    words (queryLine id) = [fmtInt id, "msgctrl".toList, "query".toList] := by
  have hline : queryLine id =
      fmtInt id ++ ' ' :: ("msgctrl".toList ++ ' ' :: ("query".toList ++ ['\n'])) := rfl
  unfold words
  rw [hline, tokens_cons (word_fmtInt id) isSep_space, tokens_cons (by decide) isSep_space,
    tokens_append_sep isSep_newline, tokens_word (by decide)]

theorem words_replyHead (id : ℤ) :
    words (replyHead id).rep = [fmtInt id, "msgctrl".toList, "query".toList, "OK".toList] := by
  have hrep : (replyHead id).rep =
      fmtInt id ++ ' ' :: ("msgctrl".toList ++ ' ' :: ("query".toList ++ ' ' :: "OK".toList)) := by
    show (fmtInt id ++ " msgctrl query".toList) ++ ' ' :: "OK".toList = _
    rw [List.append_assoc]
    rfl
  unfold words
  rw [hrep, tokens_cons (word_fmtInt id) isSep_space, tokens_cons (by decide) isSep_space,
    tokens_cons (by decide) isSep_space, tokens_word (by decide)]

theorem map_id_devices (s : Group) : (devices s).map Serv.Msgctrl.Device.id = s.devs := by
  unfold devices
  rw [List.map_map]
  exact List.map_id s.devs

/-- The server answers with its whole list. -/
theorem serve_query (hid : id ∈ s.devs) (hint : intMin ≤ id ∧ id ≤ intMax) :
    serve (devices s) (queryLine id) =
      if Overrun s id then none else some ((reply s id).rep, []) := by
  have hrep : repOf (queryLine id) = fmtInt id ++ " msgctrl query".toList := by
    have hline : queryLine id = (fmtInt id ++ " msgctrl query".toList) ++ ['\n'] := by
      rw [List.append_assoc]
      rfl
    rw [hline, repOf, if_pos List.getLast?_concat, List.dropLast_concat]
  unfold serve
  rw [parseCmd_eq hint.1 hint.2 (words_queryLine id), if_neg (by decide), Option.bind_some]
  show (if "msgctrl".toList ≠ "msgctrl".toList then _ else
    Option.map _ (cmdMsgctrl (devices s) ⟨id, ["query".toList], repOf (queryLine id)⟩)) = _
  rw [if_neg (not_not.mpr rfl), hrep]
  unfold cmdMsgctrl
  rw [map_id_devices, if_neg (not_not.mpr hid), nextArg_cons, if_pos rfl]
  unfold query
  rw [map_id_devices]
  show Option.map _ (if Overrun s id then none else some (0, reply s id, [])) = _
  split
  · rfl
  · rfl

/-- **The array of a client** that is registered. -/
theorem msgctrlQuery_eq (hid : id ∈ s.devs) (hint : intMin ≤ id ∧ id ≤ intMax) :
    msgctrlQuery s id =
      if Overrun s id then none else some (.ok ((s.devs.map fmtInt).map atoi ++ [0])) := by
  obtain ⟨args', hparse, htake, hlist⟩ :=
    strToIntList_reply s.devs hint (words_replyHead id) (by decide)
  have hok : findOk args' = 1 := by
    rw [← List.take_append_drop 2 args', show args'.take 2 = _ from htake]
    rfl
  unfold msgctrlQuery
  rw [serve_query hid hint]
  split
  · rfl
  · rw [Option.bind_some]
    show (parseCmd (reply s id).rep).map _ = _
    rw [show parseCmd (reply s id).rep = _ from hparse, Option.map_some]
    show some (Except.ok (strToIntList args'[findOk args' + 1]?)) = _
    rw [hok]
    exact congrArg (fun a => some (Except.ok a)) hlist

/-- **Every client gets the clients** exactly while there are none: the id of the manager device is
the first one in the list, and ends it. -/
theorem reports_iff {cksum : BitVec 32 → Str} {info : Group → ℤ → Str} {db : Db} {cmds : List Cmd}
    (h : reached cksum info db cmds = some s) : Reports s ↔ s.devs = [0] := by
  have hs := started_reached h
  obtain ⟨l, hl⟩ : ∃ l, s.devs = 0 :: l := List.head?_eq_some_iff.mp hs.head
  have hzero : atoi (fmtInt 0) = 0 := atoi_fmtInt (by decide) (by decide)
  have hint : intMin ≤ 0 ∧ (0 : ℤ) ≤ intMax := by decide
  constructor
  · intro hrep
    have hmem : (0 : ℤ) ∈ s.devs := by
      rw [hl]
      exact List.mem_cons_self
    obtain ⟨a, ha, hclients⟩ := hrep 0 hmem hint
    rw [msgctrlQuery_eq hmem hint] at ha
    split at ha
    · cases ha
    · cases ha
      have hend : zeroTerminated ((s.devs.map fmtInt).map atoi ++ [0]) = [] := by
        rw [hl, List.map_cons, List.map_cons, hzero]
        rfl
      have hnot : (0 : ℤ) ∉ l := (List.nodup_cons.mp (hl ▸ hs.nodup)).1
      have hall : clients s = l := by
        unfold clients
        rw [hl, List.filter_cons_of_neg (by simp)]
        exact List.filter_eq_self.mpr fun d hd => decide_eq_true fun h0 => hnot (h0 ▸ hd)
      rw [hend, hall] at hclients
      rw [hl, ← hclients]
  · intro hone id hid _
    have hid0 : id = 0 := by
      rw [hone] at hid
      exact List.mem_singleton.mp hid
    subst hid0
    have hroom : ¬ Overrun s 0 := by
      unfold Overrun reply
      rw [hone]
      decide
    rw [msgctrlQuery_eq hid hint, if_neg hroom]
    refine ⟨_, rfl, ?_⟩
    unfold clients
    rw [hone]
    decide

theorem oneDevice_nodup : ([101] : List ℤ).Nodup := by decide

/-- A table with one device. -/
def oneDevice : Db where
  table := [101]
  nodup := oneDevice_nodup
  row := fun _ => ⟨1, "101".toList, 1⟩

/-- The `reg` command of the client 102. -/
def regCmd : Cmd where
  deviceId := 102
  args := ["1".toList, [], "9000".toList, "none".toList]
  rep := []

/-- The start with one device in the table, and another one that registers. -/
theorem reports_iff_registered :
    ∃ s, reached (fun _ => []) (fun _ _ => []) oneDevice [regCmd] = some s ∧
      s.devs = [0, 101, 102] ∧ (Reports s ↔ s.devs = [0]) := by
  have hstart : (reached (fun _ => []) (fun _ _ => []) oneDevice [regCmd]).map Group.devs =
      some [0, 101, 102] := by
    decide +kernel
  obtain ⟨s, hs, hdevs⟩ := Option.map_eq_some_iff.mp hstart
  exact ⟨s, hs, hdevs, reports_iff hs⟩

/-- The device 101 gets the ids 0 and 101, and so an empty list. -/
theorem query_of_oneDevice : ¬ ∀ (cksum : BitVec 32 → Str) (info : Group → ℤ → Str) (db : Db)
    (cmds : List Cmd) (s : Group), reached cksum info db cmds = some s → Reports s := by
  intro h
  have hrun : ((reached (fun _ => []) (fun _ _ => []) oneDevice []).map fun s =>
      (s.devs, (msgctrlQuery s 101).map Except.toOption)) =
        some ([0, 101], some (some [0, 101, 0])) := by
    decide +kernel
  obtain ⟨s, hs, heq⟩ := Option.map_eq_some_iff.mp hrun
  obtain ⟨hdevs, hquery⟩ := Prod.mk.inj heq
  obtain ⟨a, ha, hclients⟩ := h _ _ _ _ s hs 101 (by rw [hdevs]; decide) (by decide)
  rw [ha] at hquery
  have hlist : a = [0, 101, 0] := Option.some.inj (Option.some.inj hquery)
  rw [hlist, clients, hdevs] at hclients
  exact absurd hclients (by decide)

end GSConferencing.Client.MsgctrlQuery
