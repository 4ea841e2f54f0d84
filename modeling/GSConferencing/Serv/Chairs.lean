import GSConferencing.Serv.NetMixer
import GSConferencing.Lib.Sessions

/-!
# The chair of a discussion

`discctrl select` marks the device that opens a discussion, and `discctrl close` takes the mark
from the device that closes it.

* `chairs_requestPost` and the lemmas before it: nothing else touches the marks or opens and closes.
* `discctrl_move`: what a command does to the discussion as a session.
* `recoverServer_ok`: the start from a database without marks.
-/

namespace GSConferencing.Serv.Chairs

open GSConferencing.Lib.CyclicList GSConferencing.Lib.Run GSConferencing.Lib.Sessions
open GSConferencing.Include.ListHead
open GSConferencing.Serv.Strutil GSConferencing.Serv.CmdHandler GSConferencing.Serv.Dev
open GSConferencing.Serv.Tag GSConferencing.Serv.Interp GSConferencing.Serv.Devctl
open GSConferencing.Serv.Ptc GSConferencing.Serv.Discuss GSConferencing.Serv.Server
open GSConferencing.Serv.Frame
open GSConferencing.Serv.NetMixer (ite_rule)

/-! ## The discussion as a session -/

/-- The devices, those with `discuss_chair`, and whether a discussion is open. -/
def chairs (s : Server) : Session ℤ where
  members := {d | d ∈ s.devs}
  marked := {d | (s.row d).discussChair = 1}
  isOpen := s.grp.current.isSome

section Frame
variable (s : Server) (d t : ℤ)

@[simp] theorem chairs_setDev (f : Device → Device) : chairs (s.setDev d f) = chairs s := rfl

@[simp] theorem chairs_setTag (f : Tag → Tag) : chairs (s.setTag t f) = chairs s := rfl

@[simp] theorem chairs_send (o : Out) : chairs (s.send o) = chairs s := rfl

/-- A record's other fields. -/
theorem chairs_setRow (f : DbDevice → DbDevice)
    (hf : (f (s.row d)).discussChair = (s.row d).discussChair) :
    chairs (s.setRow d f) = chairs s := by
  refine Session.ext rfl (Set.ext fun x => ?_) rfl
  show (Function.update s.row d (f (s.row d)) x).discussChair = 1 ↔ (s.row x).discussChair = 1
  by_cases e : x = d
  · rw [e, Function.update_self, hf]
  · rw [Function.update_of_ne e]

/-- The group's other fields. -/
theorem chairs_setGrp (f : Group → Group) (hf : (f s.grp).current = s.grp.current) :
    chairs (s.setGrp f) = chairs s :=
  Session.ext rfl rfl (congrArg (fun c : Option DbDiscuss => (c.isSome : Prop)) hf)

@[simp] theorem chairs_deviceSave : chairs (deviceSave s d) = chairs s :=
  deviceSave_same chairs_send s d

@[simp] theorem chairs_deviceCmd (text : Str) : chairs (deviceCmd s d text) = chairs s :=
  deviceCmd_same chairs_send s d text

@[simp] theorem chairs_kickUser (k : ℤ) : chairs (kickUser s d k) = chairs s :=
  chairs_deviceCmd ..

@[simp] theorem chairs_sendCmdToDevId (cmd : Cmd) :
    chairs (sendCmdToDevId s cmd d) = chairs s :=
  sendCmdToDevId_same chairs_send s cmd d

theorem chairs_sparesPtc : SparesPtc chairs :=
  ⟨fun _ _ => rfl, fun _ _ => rfl, fun _ _ => rfl, chairs_send⟩

@[simp] theorem chairs_addPtc : chairs (addPtc s d) = chairs s :=
  addPtc_same chairs_sparesPtc.ptcs s d

@[simp] theorem chairs_ptcGoCurrent : chairs (ptcGoCurrent s) = chairs s :=
  ptcGoCurrent_same chairs_sparesPtc.ptcs chairs_send s

@[simp] theorem chairs_tagCheckUcast : chairs (tagCheckUcast s t d) = chairs s :=
  tagCheckUcast_same (fun _ _ _ => chairs_setTag ..) s t d

@[simp] theorem chairs_requestTag : chairs (requestTag s t) = chairs s := by
  unfold requestTag
  split <;> rfl

@[simp] theorem chairs_devSubscribe : chairs (devSubscribe s d t) = chairs s :=
  devSubscribe_same (fun _ _ _ => rfl) (fun _ _ _ => rfl) (fun _ _ _ => rfl)
    (fun _ _ _ => chairs_setRow _ _ _ rfl) s d t

@[simp] theorem chairs_allowMembers : chairs (allowMembers s) = chairs s :=
  allowMembers_same (fun _ _ _ => chairs_setDev ..) s

@[simp] theorem chairs_resetOpenList : chairs (resetOpenList s t) = chairs s := rfl

@[simp] theorem chairs_tagAddOutstanding : chairs (tagAddOutstanding s t d) = chairs s :=
  tagAddOutstanding_same (fun _ _ _ _ _ => rfl) (fun _ _ _ _ _ => rfl) (fun _ _ _ _ => rfl) s t d

@[simp] theorem chairs_tagRmOutstanding : chairs (tagRmOutstanding s t d) = chairs s :=
  tagRmOutstanding_same (fun _ _ _ _ _ => rfl) (fun _ _ _ _ _ => rfl) (fun _ _ _ _ => rfl) s t d

variable {s d t}
variable {s' : Server}

theorem chairs_addOpen (h : addOpen s t d = some s') : chairs s' = chairs s := by
  obtain ⟨L, -, h⟩ := Option.bind_eq_some_iff.mp h
  cases h
  rw [chairs_deviceSave, chairs_setRow _ _ _ rfl, chairs_tagAddOutstanding]
  rfl

theorem chairs_delOpen (h : delOpen s t d = some s') : chairs s' = chairs s := by
  obtain ⟨L, -, h⟩ := Option.bind_eq_some_iff.mp h
  cases h
  rw [chairs_deviceSave, chairs_setRow _ _ _ rfl, chairs_tagRmOutstanding]
  rfl

theorem chairs_ptcPush (h : ptcPush s d = some s') : chairs s' = chairs s :=
  chairs_sparesPtc.ptcPush h

theorem chairs_ptcRemove (h : ptcRemove s d = some s') : chairs s' = chairs s :=
  chairs_sparesPtc.ptcRemove h

theorem chairs_openit (h : openit s t d = some s') : chairs s' = chairs s := by
  obtain ⟨s₁, hs₁, h⟩ := Option.bind_eq_some_iff.mp h
  rw [chairs_ptcPush h, chairs_addOpen hs₁]

theorem chairs_closeit (h : closeit s t d = some s') : chairs s' = chairs s := by
  obtain ⟨s₁, hs₁, h⟩ := Option.bind_eq_some_iff.mp h
  rw [chairs_ptcRemove h, chairs_delOpen hs₁]

theorem chairs_requestPost {cmd : Cmd} {a : ℤ} {r : Reply Server}
    (h : requestPost s cmd t d a = some r) : chairs r.2.2 = chairs s :=
  requestPost_same (fun _ _ _ => rfl) h

end Frame

/-! ## The commands -/

/-- The command ends the discussion. -/
def EndsDiscuss (s : Server) (cmd : Cmd) : Prop :=
  cmd.deviceId ∈ s.devs ∧ cmd.args.head? = some "close".toList ∧ s.grp.current.isSome

instance (s : Server) (cmd : Cmd) : Decidable (EndsDiscuss s cmd) :=
  inferInstanceAs (Decidable (_ ∧ _))

section Moves
variable {σ : Type*} {view : σ → Session ℤ} {s s' : σ}

/-- A handler that makes a move of the session that `view` sees. -/
def Moves (view : σ → Session ℤ) (s : σ) (c : Option (Set ℤ)) (o : Option (Reply σ)) : Prop :=
  ∀ r, o = some r → (view s).Move c (view r.2.2)

theorem moves_some {c : ℤ} {cmd : Cmd} (h : view s' = view s) :
    Moves view s none (some (c, cmd, s')) := by
  intro r hr
  cases hr
  show (view s).Move none (view s')
  rw [h]
  exact .same

theorem moves_none {c : Option (Set ℤ)} : Moves view s c none := by
  intro r hr
  cases hr

theorem moves_nextArg {args : List Str} {cmd : Cmd} {f : Str → List Str → Option (Reply σ)}
    (h : ∀ p l, args = p :: l → Moves view s none (f p l)) :
    Moves view s none (nextArg args cmd s f) := by
  cases args with
  | nil => exact moves_some rfl
  | cons p l => exact h p l rfl

end Moves

section Commands
variable {s s' : Server} {d t : ℤ}

/-- The device that opens the discussion is marked. -/
theorem marked_chair (d : ℤ) : {x | ((s.setRow d fun r =>
    { r with discussChair := 1 }).row x).discussChair = 1} = insert d (chairs s).marked :=
  marked_update (fun r : DbDevice => r.discussChair = 1) rfl

/-- The device that closes the discussion is not marked any more. -/
theorem marked_former (d : ℤ) : {x | ((s.setRow d fun r =>
    { r with discussChair := 0 }).row x).discussChair = 1} = (chairs s).marked \ {d} :=
  unmarked_update (fun r : DbDevice => r.discussChair = 1) zero_ne_one

theorem chairs_chair (d : ℤ) (ho : (chairs s).isOpen) :
    chairs (s.setRow d fun r => { r with discussChair := 1 }) = (chairs s).begins d :=
  Session.ext rfl (marked_chair d) (eq_true ho)

theorem chairs_former (d : ℤ) (ho : ¬ (chairs s).isOpen) :
    chairs (s.setRow d fun r => { r with discussChair := 0 }) = (chairs s).ends {d} :=
  Session.ext rfl (marked_former d) (eq_false ho)

theorem chairs_groupSetupDiscuss {r : DbDiscuss} (h : groupSetupDiscuss s r = some s') :
    chairs s' = { chairs s with isOpen := True } := by
  unfold groupSetupDiscuss at h
  simp only [] at h
  split at h
  · cases h
  · cases h
    exact Session.ext rfl rfl (eq_true rfl)

/-- **`select`** begins a discussion. -/
theorem select_moves (cmd : Cmd) (d : ℤ) (args : List Str) :
    Moves chairs s none (discctrlSelect s cmd d args) := by
  unfold discctrlSelect
  refine ite_rule (fun _ => moves_some rfl) fun hcur => moves_nextArg fun p l _ => ?_
  simp only []
  refine ite_rule (fun _ => moves_some rfl) fun _ => ite_rule (fun _ => moves_none) fun _ => ?_
  intro r hr
  obtain ⟨row, -, hr⟩ := Option.bind_eq_some_iff.mp hr
  obtain ⟨s₁, hs₁, hr⟩ := Option.bind_eq_some_iff.mp hr
  cases hr
  simp only [chairs_send]
  rw [chairs_setGrp _ _ rfl, chairs_deviceSave]
  have hchairs : ∀ s₂ : Server, chairs s₂ = chairs s₁ →
      chairs (s₂.setRow d fun r => { r with discussChair := 1 }) = (chairs s).begins d := by
    intro s₂ hs₂
    have hopen : chairs s₂ = { chairs s with isOpen := True } :=
      hs₂.trans (chairs_groupSetupDiscuss hs₁)
    rw [chairs_chair d (hopen ▸ trivial), hopen]
    rfl
  rw [hchairs]
  · exact .begins d hcur
  · simp only [chairs_sendCmdToDevId, chairs_allowMembers, chairs_resetOpenList, chairs_send]
    exact chairs_setGrp _ _ rfl

/-- **`close`** ends it; the mark is taken from the device that closes. -/
theorem close_moves (cmd : Cmd) (d : ℤ) :
    Moves chairs s (if s.grp.current.isSome then some {d} else none) (discctrlClose s cmd d) := by
  unfold discctrlClose
  cases hcur : s.grp.current with
  | none => exact moves_some rfl
  | some dr =>
    intro r hr
    cases hr
    simp only [chairs_send]
    rw [chairs_setGrp _ _ rfl, chairs_deviceSave, chairs_former d (fun h => by cases h)]
    exact .ends {d}

theorem moves_request (cmd : Cmd) (d : ℤ) (args : List Str) :
    Moves chairs s none (discctrlRequest s cmd d args) := by
  have hsame : ∀ {s₁ : Server} {cmd : Cmd} {t a : ℤ}, chairs s₁ = chairs s →
      Moves chairs s none (requestPost s₁ cmd t d a) := by
    intro s₁ cmd t a hs₁ r hr
    rw [chairs_requestPost hr, hs₁]
    exact .same
  refine moves_nextArg fun p l _ => ?_
  simp only []
  refine ite_rule (fun _ => ite_rule (fun _ => ?_) fun _ => hsame rfl) fun _ =>
    ite_rule (fun _ => ?_) fun _ => ?_
  · intro r hr
    obtain ⟨s₁, hs₁, hr⟩ := Option.bind_eq_some_iff.mp hr
    exact hsame ((chairs_ptcPush hs₁).trans (chairs_tagAddOutstanding ..)) r hr
  · intro r hr
    obtain ⟨adm, -, hr⟩ := Option.bind_eq_some_iff.mp hr
    cases adm with
    | reject => exact moves_some rfl r hr
    | openit =>
      obtain ⟨s₁, hs₁, hr⟩ := Option.bind_eq_some_iff.mp hr
      exact hsame (chairs_openit hs₁) r hr
    | kick k =>
      obtain ⟨s₁, hs₁, hr⟩ := Option.bind_eq_some_iff.mp hr
      obtain ⟨s₂, hs₂, hr⟩ := Option.bind_eq_some_iff.mp hr
      refine hsame ?_ r hr
      rw [chairs_openit hs₂, chairs_kickUser, chairs_closeit hs₁]
  · intro r hr
    obtain ⟨s₁, hs₁, hr⟩ := Option.bind_eq_some_iff.mp hr
    exact hsame (chairs_closeit hs₁) r hr

theorem moves_setmode (cmd : Cmd) (d : ℤ) (args : List Str) :
    Moves chairs s none (discctrlSetmode s cmd d args) :=
  moves_nextArg fun _ _ _ => moves_some rfl

theorem moves_setMaxuser (cmd : Cmd) (args : List Str) :
    Moves chairs s none (discctrlSetMaxuser s cmd args) :=
  moves_nextArg fun _ _ _ =>
    ite_rule (fun _ => moves_some rfl) fun _ => moves_none

theorem moves_status (cmd : Cmd) (d : ℤ) : Moves chairs s none (discctrlStatus s cmd d) := by
  unfold discctrlStatus
  refine ite_rule (fun _ => moves_some rfl) fun _ => ?_
  intro r hr
  obtain ⟨v, -, hr⟩ := Option.bind_eq_some_iff.mp hr
  split at hr
  exact moves_some rfl r hr

theorem moves_forbid (cmd : Cmd) (args : List Str) :
    Moves chairs s none (discctrlForbid s cmd args) :=
  moves_nextArg fun _ _ _ =>
    ite_rule (fun _ => moves_some (chairs_deviceCmd ..)) fun _ => moves_some rfl

theorem moves_disableall (cmd : Cmd) (d : ℤ) (args : List Str) :
    Moves chairs s none (discctrlDisableall s cmd d args) :=
  moves_nextArg fun _ _ _ => moves_some rfl

theorem moves_demand (cmd : Cmd) (d : ℤ) (args : List Str) :
    Moves chairs s none (discctrlDemand s cmd d args) :=
  moves_nextArg fun _ _ _ => moves_nextArg fun _ _ _ =>
    ite_rule (fun _ => moves_some rfl) fun _ => moves_some (chairs_sendCmdToDevId ..)

/-- **`discctrl`.** -/
theorem discctrl_move (cmd : Cmd) : Moves chairs s
    (if EndsDiscuss s cmd then some {cmd.deviceId} else none) (cmdDiscctrl s cmd) := by
  unfold cmdDiscctrl
  by_cases hd : cmd.deviceId ∈ s.devs
  swap
  · rw [if_pos hd, if_neg fun h => hd h.1]
    exact moves_some rfl
  rw [if_neg (not_not.mpr hd)]
  cases hargs : cmd.args with
  | nil =>
    have hends : ¬ EndsDiscuss s cmd := fun h => by rw [EndsDiscuss, hargs] at h; cases h.2.1
    rw [if_neg hends]
    exact moves_some rfl
  | cons subcmd args =>
    have hends : EndsDiscuss s cmd ↔ subcmd = "close".toList ∧ s.grp.current.isSome := by
      unfold EndsDiscuss
      rw [hargs, List.head?_cons, Option.some.injEq]
      exact and_iff_right hd
    rw [nextArg_cons]
    by_cases hclose : subcmd = "close".toList
    · subst hclose
      have hlose : (if EndsDiscuss s cmd then some {cmd.deviceId} else none : Option (Set ℤ)) =
          if s.grp.current.isSome then some {cmd.deviceId} else none :=
        if_congr (hends.trans (and_iff_right rfl)) rfl rfl
      have hcmd : cmdDiscctrl s cmd = discctrlClose s cmd cmd.deviceId :=
        cmdDiscctrl_close hd hargs
      unfold cmdDiscctrl at hcmd
      rw [if_neg (not_not.mpr hd), hargs, nextArg_cons] at hcmd
      rw [hlose, hcmd]
      exact close_moves cmd _
    · rw [if_neg fun h => hclose (hends.mp h).1]
      refine ite_rule (fun _ => moves_setmode cmd _ args) fun _ => ?_
      refine ite_rule (fun _ => moves_setMaxuser cmd args) fun _ => ?_
      refine ite_rule (fun _ => moves_some rfl) fun _ => ?_
      refine ite_rule (fun _ => select_moves cmd _ args) fun _ => ?_
      refine ite_rule (fun _ => moves_request cmd _ args) fun _ => ?_
      refine ite_rule (fun _ => moves_status cmd _) fun _ => ?_
      refine ite_rule (fun h => absurd h hclose) fun _ => ?_
      refine ite_rule (fun _ => moves_forbid cmd args) fun _ => ?_
      refine ite_rule (fun _ => moves_some rfl) fun _ => ?_
      refine ite_rule (fun _ => moves_disableall cmd _ args) fun _ => ?_
      exact ite_rule (fun _ => moves_demand cmd _ args) fun _ => moves_some rfl

end Commands

/-! ## The start -/

section Start
variable {s s' : Server} {d : ℤ}

theorem chairs_devRegister (s : Server) (d type : ℤ) : chairs (devRegister s d type) =
    { chairs s with members := insert d (chairs s).members } := by
  unfold devRegister
  by_cases hd : d ∈ s.devs
  · rw [if_pos hd]
    exact Session.ext (Set.insert_eq_of_mem (s := (chairs s).members) hd).symm rfl rfl
  · have hnew : chairs (({ s with devs := s.devs ++ [d] } : Server).setDev d fun _ =>
        newDev type) = { chairs s with members := insert d (chairs s).members } := by
      refine Session.ext (Set.ext fun x => ?_) rfl rfl
      show x ∈ s.devs ++ [d] ↔ x = d ∨ x ∈ s.devs
      rw [List.mem_append, List.mem_singleton, or_comm]
    rw [if_neg hd]
    simp only []
    split_ifs <;>
    · simp only [chairs_devSubscribe, chairs_requestTag, chairs_tagCheckUcast, chairs_setDev]
      exact (chairs_requestTag ..).trans hnew

theorem chairs_restoreSub (s : Server) (d : ℤ) : chairs (restoreSub s d) = chairs s :=
  restoreSub_same chairs_requestTag chairs_devSubscribe s d

theorem chairs_restoreDiscuss (h : restoreDiscuss s d = some s') : chairs s' = chairs s := by
  unfold restoreDiscuss at h
  have hptc : chairs (if isPtc s d then addPtc s d else s) = chairs s := by
    split
    · exact chairs_addPtc s d
    · rfl
  simp only [] at h
  generalize (if isPtc s d then addPtc s d else s) = s₁ at h hptc
  split at h
  · obtain ⟨s₂, hs₂, h⟩ := Option.bind_eq_some_iff.mp h
    rw [chairs_sparesPtc.ptcPut h, chairs_addOpen hs₂, hptc]
  · cases h
    exact hptc

/-- A device is recovered: it is a member then, with the mark of its record. -/
theorem chairs_recoverDev (h : recoverDev s d = some s') :
    chairs s' = chairs s ∨ chairs s' = { chairs s with members := insert d (chairs s).members } := by
  unfold recoverDev at h
  split at h
  · cases h
    exact .inl rfl
  split at h
  · cases h
  · right
    rw [chairs_restoreDiscuss h, chairs_restoreSub, chairs_devRegister, chairs_setRow _ _ _ rfl]

theorem chairs_groupCreate (h : groupCreate s = some s') :
    (chairs s').members = (chairs s).members ∧ (chairs s').marked = (chairs s).marked := by
  unfold groupCreate at h
  split at h
  · cases h
    exact ⟨rfl, rfl⟩
  split at h
  · cases h
    exact ⟨rfl, rfl⟩
  · rw [chairs_groupSetupDiscuss h]
    exact ⟨rfl, rfl⟩

/-- A device that is recovered without a mark is no chair. -/
theorem recoverDevs_masters {l : List ℤ} (hl : ∀ d ∈ l, d ∉ (chairs s).marked)
    (hno : (chairs s).masters = ∅) (h : l.foldlM recoverDev s = some s') :
    (chairs s').masters = ∅ := by
  have hstep : ∀ t d t', ((chairs t).marked = (chairs s).marked ∧ (chairs t).masters = ∅) →
      d ∉ (chairs s).marked → recoverDev t d = some t' →
      (chairs t').marked = (chairs s).marked ∧ (chairs t').masters = ∅ := by
    intro t d t' ⟨hmarked, ht⟩ hd hs
    rcases chairs_recoverDev hs with he | he
    · rw [he]
      exact ⟨hmarked, ht⟩
    · rw [he]
      exact ⟨hmarked, (Set.insert_inter_of_notMem (hmarked ▸ hd)).trans ht⟩
  exact (of_run_forall hstep ⟨rfl, hno⟩ hl h).2

/-- **The start** from a database in which no device has the chair. -/
theorem recoverServer_ok {db : Db} (h0 : ∀ d ∈ db.table, (db.row d).discussChair = 0)
    (hs : recoverServer db = some s) : (chairs s).Ok := by
  obtain ⟨s₁, s₂, hs₁, hs₂, rfl⟩ := recoverServer_some hs
  rw [chairs_ptcGoCurrent]
  obtain ⟨hmem, hmark⟩ := chairs_groupCreate hs₁
  have hmanager : chairs (addManagerDev s₁) =
      { chairs s₁ with
        members := {0}
        marked := (chairs s₁).marked \ {0} } := by
    unfold addManagerDev
    rw [chairs_devRegister]
    refine Session.ext ?_ (unmarked_update (fun r : DbDevice => r.discussChair = 1) zero_ne_one) rfl
    show insert 0 (chairs s₁).members = {0}
    rw [hmem]
    exact Set.ext fun x => or_iff_left List.not_mem_nil
  refine Session.ok_of_no_master (recoverDevs_masters (fun d hd => ?_) ?_ hs₂)
  · rw [hmanager]
    rintro ⟨hx, -⟩
    rw [hmark] at hx
    exact zero_ne_one ((h0 d hd).symm.trans hx)
  · rw [hmanager]
    refine Set.eq_empty_of_forall_notMem ?_
    rintro x ⟨hx, -, hne⟩
    exact hne hx

end Start

end GSConferencing.Serv.Chairs
