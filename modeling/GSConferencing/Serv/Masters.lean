import GSConferencing.Serv.Chairs
import GSConferencing.Serv.RegistRuns
import GSConferencing.Serv.VoteRefs

/-!
# Session masters

A discussion, a registration and a vote each have a master, the device that opened them.  All three
are sessions in the same sense, and are followed side by side.

* `regist_move`, `votectrl_move`: what a command does to the registration and to the vote.
* `masters_along`: there is at most one master of each, and only while it is open, as long as every
  end takes the mark from all who have it.
* `stranger_ends`: another device ends the session.
-/

namespace GSConferencing.Serv.Masters

open GSConferencing.Lib.Run GSConferencing.Lib.Sessions
open GSConferencing.Serv.Strutil GSConferencing.Serv.CmdHandler
open GSConferencing.Serv.Dev (Server Out)
open GSConferencing.Serv.NetMixer (ite_rule)
open GSConferencing.Serv.Chairs

/-! ## The registration -/

section Regist
open GSConferencing.Serv.Regist

/-- The devices, those with `regist_master`, and whether a registration is open. -/
def registMasters (s : Regist.State) : Session ℤ where
  members := {d | d ∈ s.devs}
  marked := {d | (s.row d).registMaster = 1}
  isOpen := s.grp.dbData.registStart ≠ 0

section Frame
variable (s : Regist.State) (d : ℤ)

@[simp] theorem regist_setReg (a : ℤ) : registMasters (s.setReg d a) = registMasters s := rfl

@[simp] theorem regist_send (o : Out) : registMasters (s.send o) = registMasters s := rfl

theorem regist_setRow (f : Regist.DbDevice → Regist.DbDevice)
    (hf : (f (s.row d)).registMaster = (s.row d).registMaster) :
    registMasters (s.setRow d f) = registMasters s := by
  refine Session.ext rfl (Set.ext fun x => ?_) rfl
  show (Function.update s.row d (f (s.row d)) x).registMaster = 1 ↔ (s.row x).registMaster = 1
  by_cases e : x = d
  · rw [e, Function.update_self, hf]
  · rw [Function.update_of_ne e]

theorem regist_setGrp (f : Regist.Group → Regist.Group)
    (hf : (f s.grp).dbData.registStart = s.grp.dbData.registStart) :
    registMasters (s.setGrp f) = registMasters s :=
  Session.ext rfl rfl (congrArg (· ≠ (0 : ℤ)) hf)

@[simp] theorem regist_deviceSave : registMasters (s.deviceSave d) = registMasters s := by
  unfold State.deviceSave
  split <;> rfl

@[simp] theorem regist_sendCmdToDevId (cmd : Cmd) :
    registMasters (s.sendCmdToDevId d cmd) = registMasters s := by
  unfold State.sendCmdToDevId
  split <;> rfl

@[simp] theorem regist_resetAll : registMasters (registResetAll s) = registMasters s := by
  unfold registResetAll
  refine foldl_same (fun s m => ?_) _ _
  split
  · exact (regist_setRow _ _ _ rfl).trans (regist_setReg ..)
  · rfl

variable {s d}
variable {s' : Regist.State}

theorem regist_setup {dr : DbRegist} (h : registSetup s dr = some s') :
    registMasters s' = registMasters s := by
  unfold registSetup at h
  simp only [] at h
  split at h
  · cases h
  · cases h
    exact regist_setGrp _ _ rfl

theorem regist_arriveDev (h : arriveDev s d = some s') : registMasters s' = registMasters s := by
  unfold arriveDev at h
  split at h
  · cases h
  · obtain ⟨idstr, -, rfl⟩ := Option.map_eq_some_iff.mp h
    rw [regist_setRow _ _ _ rfl]
    rfl

/-- The device that opens the registration is marked. -/
theorem regist_master (d : ℤ) (ho : (registMasters s).isOpen) :
    registMasters (s.setRow d fun r => { r with registMaster := 1 }) =
      (registMasters s).begins d :=
  Session.ext rfl (marked_update (fun r : DbDevice => r.registMaster = 1) rfl) (eq_true ho)

/-- The device that closes the registration is not marked any more. -/
theorem regist_former (d : ℤ) (ho : ¬ (registMasters s).isOpen) :
    registMasters (s.setRow d fun r => { r with registMaster := 0 }) =
      (registMasters s).ends {d} :=
  Session.ext rfl (unmarked_update (fun r : DbDevice => r.registMaster = 1) zero_ne_one)
    (eq_false ho)

end Frame

/-- The command ends the registration. -/
def EndsRegist (s : Regist.State) (cmd : Cmd) : Prop :=
  cmd.deviceId ∈ s.devs ∧ cmd.args.head? = some "stop".toList ∧ s.grp.dbData.registStart ≠ 0

instance (s : Regist.State) (cmd : Cmd) : Decidable (EndsRegist s cmd) :=
  inferInstanceAs (Decidable (_ ∧ _))

section Commands
variable {s s' : Regist.State}

theorem regist_start (cmd : Cmd) (d : ℤ) (args : List Str) :
    Moves registMasters s none (registStart s cmd d args) := by
  unfold registStart
  refine ite_rule (fun _ => moves_some rfl) fun hno => ?_
  rw [not_not] at hno
  cases s.registTable with
  | nil => exact moves_some rfl
  | cons dr l =>
    intro r hr
    obtain ⟨s₁, hs₁, hr⟩ := Option.bind_eq_some_iff.mp hr
    have hsame : registMasters (registResetAll s₁) = registMasters s := by
      rw [regist_resetAll, regist_setup hs₁]
    cases args with
    | nil => exact moves_some hsame r hr
    | cons p l =>
      cases hr
      simp only [regist_send, regist_sendCmdToDevId, regist_deviceSave]
      have hopen : (registMasters (((registResetAll s₁).setGrp (openRegist dr (atoi p))).send
          .saveGroup)).isOpen := one_ne_zero
      rw [regist_master d hopen, regist_send]
      rw [show Session.begins (registMasters ((registResetAll s₁).setGrp
        (openRegist dr (atoi p)))) d = (registMasters s).begins d from hsame ▸ rfl]
      exact .begins d fun h => h hno

theorem regist_stop (cmd : Cmd) (d : ℤ) : Moves registMasters s
    (if s.grp.dbData.registStart ≠ 0 then some {d} else none) (registStop s cmd d) := by
  unfold registStop
  by_cases hno : s.grp.dbData.registStart = 0
  · rw [if_pos hno, if_neg (not_not.mpr hno)]
    exact moves_some rfl
  · rw [if_neg hno, if_pos hno]
    intro r hr
    obtain ⟨idstr, -, hr⟩ := Option.bind_eq_some_iff.mp hr
    cases hr
    rw [regist_deviceSave, regist_former d (fun h => h rfl), regist_send]
    rw [show ∀ s₁ : Regist.State, registMasters s₁ = registMasters s →
        (registMasters (s₁.setGrp closeRegist)).ends {d} = (registMasters s).ends {d} from
      fun s₁ hs₁ => by rw [← hs₁]; rfl]
    · exact .ends {d}
    · rw [regist_resetAll, regist_sendCmdToDevId, regist_send]

theorem regist_status (cmd : Cmd) (d : ℤ) :
    Moves registMasters s none (registStatus s cmd d) := by
  unfold registStatus
  refine ite_rule (fun _ => ?_) fun _ => moves_some rfl
  intro r hr
  obtain ⟨idstr, -, rfl⟩ := Option.map_eq_some_iff.mp hr
  exact .same

theorem regist_reg (cmd : Cmd) (d : ℤ) (args : List Str) :
    Moves registMasters s none (registReg s cmd d args) := by
  refine moves_nextArg fun p l _ => moves_nextArg fun q _ _ => ?_
  refine ite_rule (fun _ => moves_some rfl) fun _ => ite_rule (fun _ => moves_some rfl) fun _ => ?_
  refine ite_rule (fun _ => moves_some rfl) fun _ => ?_
  intro r hr
  obtain ⟨s₁, hs₁, rfl⟩ := Option.map_eq_some_iff.mp hr
  show (registMasters s).Move none (registMasters s₁)
  rw [regist_arriveDev hs₁]
  exact .same

/-- **`regist`.** -/
theorem regist_move (cmd : Cmd) : Moves registMasters s
    (if EndsRegist s cmd then some {cmd.deviceId} else none) (cmdRegist s cmd) := by
  unfold cmdRegist
  by_cases hd : cmd.deviceId ∈ s.devs
  swap
  · rw [if_pos hd, if_neg fun h => hd h.1]
    exact moves_some rfl
  rw [if_neg (not_not.mpr hd)]
  cases hargs : cmd.args with
  | nil =>
    rw [if_neg fun h => (by rw [EndsRegist, hargs] at h; cases h.2.1)]
    exact moves_some rfl
  | cons sub l =>
    have hends : EndsRegist s cmd ↔ sub = "stop".toList ∧ s.grp.dbData.registStart ≠ 0 := by
      unfold EndsRegist
      rw [hargs, List.head?_cons, Option.some.injEq]
      exact and_iff_right hd
    rw [nextArg_cons]
    by_cases hstop : sub = "stop".toList
    · subst hstop
      rw [if_neg (show "stop".toList ≠ "start".toList by decide), if_pos rfl]
      have hlose : (if EndsRegist s cmd then some {cmd.deviceId} else none : Option (Set ℤ)) =
          if s.grp.dbData.registStart ≠ 0 then some {cmd.deviceId} else none :=
        if_congr (hends.trans (and_iff_right rfl)) rfl rfl
      rw [hlose]
      exact regist_stop cmd _
    · rw [if_neg fun h => hstop (hends.mp h).1]
      refine ite_rule (fun _ => regist_start cmd _ l) fun _ => ?_
      refine ite_rule (fun h => absurd h hstop) fun _ => ?_
      refine ite_rule (fun _ => regist_status cmd _) fun _ => ?_
      exact ite_rule (fun _ => regist_reg cmd _ l) fun _ => moves_some rfl

end Commands

/-- **The start** from a database in which no device has the registration. -/
theorem registRecover_ok {db : Regist.Db} (h0 : ∀ d ∈ db.table, (db.row d).registMaster = 0)
    {s : Regist.State} (hs : Regist.recoverServer db = some s) : (registMasters s).Ok := by
  unfold Regist.recoverServer at hs
  simp only [] at hs
  split at hs
  · cases hs
  rename_i hzero
  cases hs
  refine Session.ok_of_no_master (Set.eq_empty_of_forall_notMem ?_)
  rintro x ⟨hx, hm⟩
  replace hm : (Function.update db.row 0 managerRow x).registMaster = 1 := hm
  by_cases e : x = 0
  · rw [e, Function.update_self] at hm
    exact zero_ne_one hm
  · rw [Function.update_of_ne e] at hm
    have hx' : x ∈ db.table := by
      replace hx : x ∈ insert 0 (db.table.filter fun d => (db.row d).enabled ≠ 0).toFinset := hx
      have hlist := (Finset.mem_insert.mp hx).resolve_left e
      exact (List.mem_filter.mp (List.mem_toFinset.mp hlist)).1
    exact zero_ne_one ((h0 x hx').symm.trans hm)

end Regist

/-! ## The vote -/

section Vote
open GSConferencing.Serv.Votectrl

/-- The devices, those with `vote_master`, and whether a vote is open. -/
def voteMasters (s : Votectrl.State) : Session ℤ where
  members := {d | d ∈ s.devs}
  marked := {d | (s.row d).voteMaster = 1}
  isOpen := s.grp.current.isSome

section Frame
variable (s : Votectrl.State) (d : ℤ)

@[simp] theorem vote_setDev (f : Votectrl.Device → Votectrl.Device) :
    voteMasters (s.setDev d f) = voteMasters s := rfl

@[simp] theorem vote_setVote (a : ℕ) (f : Vote → Vote) :
    voteMasters (s.setVote a f) = voteMasters s := rfl

@[simp] theorem vote_send (o : Out) : voteMasters (s.send o) = voteMasters s := rfl

@[simp] theorem vote_groupSave : voteMasters s.groupSave = voteMasters s := rfl

theorem vote_setRow (f : Votectrl.DbDevice → Votectrl.DbDevice)
    (hf : (f (s.row d)).voteMaster = (s.row d).voteMaster) :
    voteMasters (s.setRow d f) = voteMasters s := by
  refine Session.ext rfl (Set.ext fun x => ?_) rfl
  show (Function.update s.row d (f (s.row d)) x).voteMaster = 1 ↔ (s.row x).voteMaster = 1
  by_cases e : x = d
  · rw [e, Function.update_self, hf]
  · rw [Function.update_of_ne e]

theorem vote_setGrp (f : Votectrl.Group → Votectrl.Group)
    (hf : (f s.grp).current = s.grp.current) : voteMasters (s.setGrp f) = voteMasters s :=
  Session.ext rfl rfl (congrArg (fun c : Option DbVote => (c.isSome : Prop)) hf)

@[simp] theorem vote_deviceSave : voteMasters (s.deviceSave d) = voteMasters s := by
  unfold State.deviceSave
  split <;> rfl

@[simp] theorem vote_deviceCmd (cmd : Cmd) : voteMasters (s.deviceCmd d cmd) = voteMasters s := by
  unfold State.deviceCmd
  split <;> rfl

@[simp] theorem vote_sendCmdToDevId (cmd : Cmd) :
    voteMasters (s.sendCmdToDevId d cmd) = voteMasters s := by
  unfold State.sendCmdToDevId
  split
  · exact vote_deviceCmd ..
  · rfl

variable {s d}
variable {s' : Votectrl.State} {a : ℕ}

theorem vote_prepareVote {dv : DbVote} (h : prepareVote s dv = some s') :
    voteMasters s' = voteMasters s := by
  unfold prepareVote at h
  simp only [] at h
  split at h
  · cases h
  · cases h
    exact vote_setGrp _ _ rfl

theorem vote_addDevice (h : voteAddDevice s a d = some s') : voteMasters s' = voteMasters s := by
  obtain ⟨L, -, rfl⟩ := Option.map_eq_some_iff.mp h
  rfl

theorem vote_startMember {m : ℤ} (h : startMember a s m = some s') :
    voteMasters s' = voteMasters s := by
  obtain ⟨s₁, hs₁, rfl⟩ := Option.map_eq_some_iff.mp h
  rw [vote_setVote]
  split at hs₁
  · obtain ⟨s₂, hs₂, rfl⟩ := Option.map_eq_some_iff.mp hs₁
    rw [vote_setRow _ _ _ rfl, vote_setDev, vote_addDevice hs₂]
  · cases hs₁
    rfl

theorem vote_startMembers {ids : List ℤ} (h : ids.foldlM (startMember a) s = some s') :
    voteMasters s' = voteMasters s :=
  of_run (I := fun t => voteMasters t = voteMasters s) (fun _ _ _ ht _ hs =>
    (vote_startMember hs).trans ht) rfl (guarded_true ..) h

theorem vote_beginVote {dv : DbVote} {num : ℤ} (h : beginVote s d dv num = some s') :
    voteMasters s' = { voteMasters s with isOpen := True } :=
  (vote_startMembers h).trans (Session.ext rfl rfl (eq_true rfl))

theorem vote_dropVote (s : Votectrl.State) (a : ℕ) (ms : List ℤ) (d : ℤ) :
    voteMasters (dropVote s a ms d) = voteMasters s := by
  have hfold : voteMasters (ms.foldl (fun s m => s.setDev m fun D => { D with v := none }) s) =
      voteMasters s := by
    refine foldl_same (fun s m => ?_) ms s
    rfl
  exact hfold

/-- The device that opens the vote is marked. -/
theorem vote_master (d : ℤ) (ho : (voteMasters s).isOpen) :
    voteMasters (s.setRow d fun r => { r with voteMaster := 1 }) = (voteMasters s).begins d :=
  Session.ext rfl (marked_update (fun r : DbDevice => r.voteMaster = 1) rfl) (eq_true ho)

/-- The device that shows the result is not marked any more. -/
theorem vote_former (d : ℤ) : voteMasters ((s.setRow d fun r => { r with voteMaster := 0 }).setGrp
    closeVote) = (voteMasters s).ends {d} :=
  Session.ext rfl (unmarked_update (fun r : DbDevice => r.voteMaster = 1) zero_ne_one)
    (eq_false fun h => by cases h)

end Frame

/-- The command shows the result, which ends the vote. -/
def ShowsResult (s : Votectrl.State) (cmd : Cmd) : Prop :=
  cmd.deviceId ∈ s.devs ∧ cmd.args.head? = some "showresult".toList ∧ 2 ≤ cmd.args.length ∧
    s.grp.current.isSome ∧ (s.dev cmd.deviceId).v.isSome

/-- The command stops the vote. -/
def StopsVote (s : Votectrl.State) (cmd : Cmd) : Prop :=
  cmd.deviceId ∈ s.devs ∧ cmd.args.head? = some "stop".toList

instance (s : Votectrl.State) (cmd : Cmd) : Decidable (ShowsResult s cmd) :=
  inferInstanceAs (Decidable (_ ∧ _))

instance (s : Votectrl.State) (cmd : Cmd) : Decidable (StopsVote s cmd) :=
  inferInstanceAs (Decidable (_ ∧ _))

section Commands
variable {s s' : Votectrl.State}

/-- **`start`** begins a vote, if it is not rejected. -/
theorem vote_start (cmd : Cmd) (d : ℤ) (args : List Str) :
    Moves voteMasters s none (votectrlStart s cmd d args) := by
  unfold votectrlStart
  refine ite_rule (fun _ => moves_some rfl) fun hno => moves_nextArg fun p l _ => ?_
  simp only []
  refine ite_rule (fun _ => moves_some rfl) fun _ => ite_rule (fun _ => moves_none) fun _ => ?_
  intro r hr
  obtain ⟨dv, -, hr⟩ := Option.bind_eq_some_iff.mp hr
  obtain ⟨s₁, hs₁, hr⟩ := Option.bind_eq_some_iff.mp hr
  have hsame := vote_prepareVote hs₁
  split at hr
  · exact moves_some hsame r hr
  · obtain ⟨s₂, hs₂, rfl⟩ := Option.map_eq_some_iff.mp hr
    have hopen := vote_beginVote hs₂
    rw [hsame] at hopen
    have hsent : ∀ s₃ : Votectrl.State, voteMasters s₃ = voteMasters s₂ →
        voteMasters (s₃.setRow d fun r => { r with voteMaster := 1 }) =
          (voteMasters s).begins d := by
      intro s₃ hs₃
      rw [vote_master d (by rw [hs₃, hopen]; trivial), hs₃, hopen]
      rfl
    simp only [vote_groupSave]
    rw [vote_setGrp _ _ rfl, vote_deviceSave, hsent]
    · exact .begins d hno
    · rw [vote_sendCmdToDevId, vote_send]

theorem vote_result (cmd : Cmd) (d : ℤ) (args : List Str) :
    Moves voteMasters s none (votectrlResult s cmd d args) := by
  unfold votectrlResult
  refine ite_rule (fun _ => moves_some rfl) fun _ => moves_nextArg fun _ _ _ =>
    moves_nextArg fun p _ _ => ?_
  split
  · exact moves_some rfl
  · rename_i a _
    intro r hr
    obtain ⟨v, -, hr⟩ := Option.bind_eq_some_iff.mp hr
    obtain ⟨v', -, hr⟩ := Option.bind_eq_some_iff.mp hr
    obtain ⟨text, -, hr⟩ := Option.bind_eq_some_iff.mp hr
    refine moves_some ?_ r hr
    unfold noteBallot
    rw [vote_groupSave, vote_deviceSave, vote_setGrp _ _ rfl, vote_setRow _ _ _ rfl, vote_setDev]
    rfl

theorem vote_status (cmd : Cmd) (d : ℤ) (args : List Str) :
    Moves voteMasters s none (votectrlStatus s cmd d args) := by
  refine moves_nextArg fun _ _ _ => ?_
  simp only []
  split
  · refine ite_rule (fun _ => ?_) fun _ => moves_some rfl
    intro r hr
    obtain ⟨v, -, hr⟩ := Option.bind_eq_some_iff.mp hr
    obtain ⟨ms, -, hr⟩ := Option.bind_eq_some_iff.mp hr
    exact moves_some rfl r hr
  · exact moves_some rfl

theorem vote_select (cmd : Cmd) (args : List Str) :
    Moves voteMasters s none (votectrlSelect s cmd args) := by
  refine moves_nextArg fun p _ _ => ?_
  refine ite_rule (fun _ => moves_some rfl) fun _ => ite_rule (fun _ => moves_none) fun _ => ?_
  intro r hr
  obtain ⟨dv, -, rfl⟩ := Option.map_eq_some_iff.mp hr
  exact .same

theorem vote_remind (cmd : Cmd) (args : List Str) :
    Moves voteMasters s none (votectrlRemind s cmd args) :=
  moves_nextArg fun _ _ _ =>
    ite_rule (fun _ => moves_some (vote_deviceCmd ..)) fun _ => moves_some rfl

theorem vote_forbid (cmd : Cmd) (args : List Str) :
    Moves voteMasters s none (votectrlForbid s cmd args) :=
  moves_nextArg fun _ _ _ => ite_rule (fun _ => moves_nextArg fun _ _ _ =>
    moves_some ((vote_deviceCmd ..).trans (vote_setDev ..))) fun _ => moves_some rfl

/-- **`showresult`** ends the vote; the mark is taken from the device that asks. -/
theorem vote_showresult (cmd : Cmd) (d : ℤ) (args : List Str) : Moves voteMasters s
    (if 1 ≤ args.length ∧ s.grp.current.isSome ∧ (s.dev d).v.isSome then some {d} else none)
    (votectrlShowresult s cmd d args) := by
  unfold votectrlShowresult
  cases hcur : s.grp.current with
  | none =>
    rw [if_neg fun h => (by cases h.2.1)]
    exact moves_some rfl
  | some dv =>
    cases args with
    | nil =>
      rw [if_neg fun h => absurd h.1 (Nat.not_succ_le_zero 0)]
      exact moves_some rfl
    | cons p l =>
      rw [nextArg_cons]
      cases hv : (s.dev d).v with
      | none =>
        rw [if_neg fun h => (by cases h.2.2)]
        exact moves_some rfl
      | some a =>
        rw [if_pos ⟨Nat.le_add_left 1 _, rfl, rfl⟩]
        intro r hr
        obtain ⟨v, -, hr⟩ := Option.bind_eq_some_iff.mp hr
        obtain ⟨ms, -, hr⟩ := Option.bind_eq_some_iff.mp hr
        obtain ⟨result, -, hr⟩ := Option.bind_eq_some_iff.mp hr
        cases hr
        have hsave : ∀ s₁ : Votectrl.State, voteMasters ((s₁.deviceSave d).setGrp closeVote) =
            voteMasters (s₁.setGrp closeVote) := by
          intro s₁
          unfold State.deviceSave
          split <;> rfl
        unfold noteShown
        simp only [vote_groupSave]
        rw [hsave, vote_former, vote_dropVote, vote_sendCmdToDevId, vote_send]
        exact .ends {d}

/-- **`stop`** ends the vote and takes no mark away. -/
theorem vote_stop (cmd : Cmd) : Moves voteMasters s (some ∅) (votectrlStop s cmd) := by
  intro r hr
  cases hr
  have hends : voteMasters ({ ((s.send (.brcastAll (repOk cmd).rep)).setGrp closeVote).groupSave
      with db := [] }) = (voteMasters s).ends ∅ :=
    Session.ext rfl Set.sdiff_empty.symm (eq_false fun h => by cases h)
  show (voteMasters s).Move (some ∅) (voteMasters _)
  rw [hends]
  exact .ends ∅

/-- Who loses the mark when the command ends the vote. -/
def losingVote (s : Votectrl.State) (cmd : Cmd) : Option (Set ℤ) :=
  if ShowsResult s cmd then some {cmd.deviceId} else if StopsVote s cmd then some ∅ else none

/-- **`votectrl`.** -/
theorem votectrl_move (cmd : Cmd) :
    Moves voteMasters s (losingVote s cmd) (cmdVotectrl s cmd) := by
  unfold cmdVotectrl losingVote
  by_cases hd : cmd.deviceId ∈ s.devs
  swap
  · rw [if_pos hd, if_neg fun h => hd h.1, if_neg fun h => hd h.1]
    exact moves_some rfl
  rw [if_neg (not_not.mpr hd)]
  cases hargs : cmd.args with
  | nil =>
    have hshow : ¬ ShowsResult s cmd := fun h => by rw [ShowsResult, hargs] at h; cases h.2.1
    have hstop : ¬ StopsVote s cmd := fun h => by rw [StopsVote, hargs] at h; cases h.2
    rw [if_neg hshow, if_neg hstop]
    exact moves_some rfl
  | cons scmd l =>
    have hshow : ShowsResult s cmd ↔ scmd = "showresult".toList ∧ 1 ≤ l.length ∧
        s.grp.current.isSome ∧ (s.dev cmd.deviceId).v.isSome := by
      unfold ShowsResult
      rw [hargs, List.head?_cons, Option.some.injEq, List.length_cons,
        show 2 ≤ l.length + 1 ↔ 1 ≤ l.length by omega]
      exact and_iff_right hd
    have hstop : StopsVote s cmd ↔ scmd = "stop".toList := by
      unfold StopsVote
      rw [hargs, List.head?_cons, Option.some.injEq]
      exact and_iff_right hd
    have hother : ∀ {o : Option (Reply Votectrl.State)}, scmd ≠ "showresult".toList →
        scmd ≠ "stop".toList → Moves voteMasters s none o → Moves voteMasters s
          (if ShowsResult s cmd then some {cmd.deviceId}
            else if StopsVote s cmd then some ∅ else none) o := by
      intro o h1 h2 ho
      rw [if_neg fun h => h1 (hshow.mp h).1, if_neg fun h => h2 (hstop.mp h)]
      exact ho
    rw [nextArg_cons]
    refine ite_rule (fun h => hother (h ▸ by decide) (h ▸ by decide) (moves_some rfl)) fun _ => ?_
    refine ite_rule (fun h => hother (h ▸ by decide) (h ▸ by decide) (vote_select cmd l))
      fun _ => ?_
    refine ite_rule (fun h => hother (h ▸ by decide) (h ▸ by decide) (vote_start cmd _ l))
      fun _ => ?_
    refine ite_rule (fun h => hother (h ▸ by decide) (h ▸ by decide) (vote_result cmd _ l))
      fun _ => ?_
    refine ite_rule (fun h => hother (h ▸ by decide) (h ▸ by decide) (vote_status cmd _ l))
      fun _ => ?_
    refine ite_rule (fun h => ?_) fun h1 => ?_
    · have hlose : (if ShowsResult s cmd then some {cmd.deviceId}
          else if StopsVote s cmd then some ∅ else none : Option (Set ℤ)) =
          if 1 ≤ l.length ∧ s.grp.current.isSome ∧ (s.dev cmd.deviceId).v.isSome then
            some {cmd.deviceId} else none := by
        rw [if_neg fun hs => absurd (h.symm.trans (hstop.mp hs)) (by decide)]
        exact if_congr (hshow.trans (and_iff_right h)) rfl rfl
      rw [hlose]
      exact vote_showresult cmd _ l
    refine ite_rule (fun h => ?_) fun h2 => ?_
    · rw [if_neg fun hs => h1 (hshow.mp hs).1, if_pos (hstop.mpr h)]
      exact vote_stop cmd
    refine ite_rule (fun _ => hother h1 h2 (vote_remind cmd l)) fun _ => ?_
    exact ite_rule (fun _ => hother h1 h2 (vote_forbid cmd l)) fun _ =>
      hother h1 h2 (moves_some rfl)

end Commands

section Start
variable {s s' : Votectrl.State} {d : ℤ}

theorem vote_devRegister (s : Votectrl.State) (d : ℤ) : voteMasters (devRegister s d) =
    { voteMasters s with members := insert d (voteMasters s).members } := by
  refine Session.ext (Set.ext fun x => ?_) rfl rfl
  show x ∈ s.devs ++ [d] ↔ x = d ∨ x ∈ s.devs
  rw [List.mem_append, List.mem_singleton, or_comm]

theorem vote_restoreVote (h : restoreVote s d = some s') : voteMasters s' = voteMasters s := by
  have hmember : ∀ {s₁ : Votectrl.State} {a : ℕ}, restoreMember s₁ a d = some s' →
      voteMasters s' = voteMasters s₁ := by
    intro s₁ a h
    obtain ⟨s₂, hs₂, rfl⟩ := Option.map_eq_some_iff.mp h
    rw [vote_setVote, vote_setDev, vote_addDevice hs₂]
  unfold restoreVote at h
  split at h
  · rename_i dv a _ _
    simp only [] at h
    have hmaster : voteMasters (if (s.row d).voteMaster ≠ 0 then
        s.setDev d fun D => { D with v := some a } else s) = voteMasters s := by
      split <;> rfl
    split at h
    · exact (hmember h).trans hmaster
    · cases h
      exact hmaster
  · split at h
    · cases h
    · cases h
      rfl
  · cases h
    rfl

/-- A device that is recovered without a mark is no master. -/
theorem recoverDevs_no_master {l : List ℤ} (hl : ∀ d ∈ l, d ∉ (voteMasters s).marked)
    (hno : (voteMasters s).masters = ∅) (h : l.foldlM recoverDev s = some s') :
    (voteMasters s').masters = ∅ := by
  have hstep : ∀ t d t', ((voteMasters t).marked = (voteMasters s).marked ∧
      (voteMasters t).masters = ∅) → d ∉ (voteMasters s).marked → recoverDev t d = some t' →
      (voteMasters t').marked = (voteMasters s).marked ∧ (voteMasters t').masters = ∅ := by
    intro t d t' ⟨hmarked, ht⟩ hd hs
    unfold recoverDev at hs
    split at hs
    · cases hs
      exact ⟨hmarked, ht⟩
    split at hs
    · cases hs
    · rw [(vote_restoreVote hs).trans (vote_devRegister t d)]
      exact ⟨hmarked, (Set.insert_inter_of_notMem (hmarked ▸ hd)).trans ht⟩
  exact (of_run_forall hstep ⟨rfl, hno⟩ hl h).2

theorem vote_groupCreate (h : groupCreate s = some s') :
    (voteMasters s').members = (voteMasters s).members ∧
      (voteMasters s').marked = (voteMasters s).marked := by
  unfold groupCreate at h
  split at h
  · cases h
    exact ⟨rfl, rfl⟩
  split at h
  · cases h
    exact ⟨rfl, rfl⟩
  · obtain ⟨s₁, hs₁, rfl⟩ := Option.map_eq_some_iff.mp h
    obtain ⟨s₂, hs₂, rfl⟩ := Option.map_eq_some_iff.mp hs₁
    rw [← vote_prepareVote hs₂]
    exact ⟨rfl, rfl⟩

/-- **The start** from a database in which no device has the vote. -/
theorem voteRecover_ok {db : Votectrl.Db} (h0 : ∀ d ∈ db.table, (db.row d).voteMaster = 0)
    (hs : Votectrl.recoverServer db = some s) : (voteMasters s).Ok := by
  unfold Votectrl.recoverServer at hs
  split at hs
  · cases hs
  obtain ⟨s₁, hs₁, hs⟩ := Option.bind_eq_some_iff.mp hs
  obtain ⟨hmem, hmark⟩ := vote_groupCreate hs₁
  have hrow : ∀ x, x ≠ 0 → (x ∈ (voteMasters (addManagerDev s₁)).marked ↔
      (db.row x).voteMaster = 1) := by
    intro x hx
    have hold : (s₁.row x).voteMaster = 1 ↔ (db.row x).voteMaster = 1 :=
      Set.ext_iff.mp hmark x
    show (Function.update s₁.row 0 _ x).voteMaster = 1 ↔ _
    rw [Function.update_of_ne hx, hold]
  have hmanager : (0 : ℤ) ∉ (voteMasters (addManagerDev s₁)).marked := by
    show ¬ (Function.update s₁.row 0 _ 0).voteMaster = 1
    rw [Function.update_self]
    exact zero_ne_one
  refine Session.ok_of_no_master (recoverDevs_no_master (fun d hd hm => ?_) ?_ hs)
  · have hd0 : d ≠ 0 := fun e => hmanager (e ▸ hm)
    exact zero_ne_one ((h0 d hd).symm.trans ((hrow d hd0).mp hm))
  · refine Set.eq_empty_of_forall_notMem ?_
    rintro x ⟨hx, hm⟩
    have hx0 : x = 0 := by
      replace hx : x ∈ s₁.devs ++ [0] := hx
      rw [show s₁.devs = [] from List.eq_nil_iff_forall_not_mem.mpr fun y hy =>
        List.not_mem_nil (Set.ext_iff.mp hmem y |>.mp hy)] at hx
      exact List.mem_singleton.mp hx
    exact hmanager (hx0 ▸ hm)

end Start

end Vote

/-! ## The three sessions -/

/-- The database, as the three parts of the server see it. -/
structure Db where
  discuss : Server.Db
  regist : Regist.Db
  vote : Votectrl.Db
  registTable : regist.table = discuss.table
  voteTable : vote.table = discuss.table
  registEnabled : ∀ d, (regist.row d).enabled = (discuss.row d).enabled
  voteEnabled : ∀ d, (vote.row d).enabled = (discuss.row d).enabled

/-- The server with its discussion, its registration and its vote. -/
structure System where
  discuss : Server
  regist : Regist.State
  vote : Votectrl.State

def recoverServer (db : Db) : Option System := do
  let discuss ← Server.recoverServer db.discuss
  let regist ← Regist.recoverServer db.regist
  let vote ← Votectrl.recoverServer db.vote
  some { discuss := discuss, regist := regist, vote := vote }

/-- No device of the table is a master. -/
def NoMaster (db : Db) : Prop := ∀ d ∈ db.discuss.table,
  (db.discuss.row d).discussChair = 0 ∧ (db.regist.row d).registMaster = 0 ∧
    (db.vote.row d).voteMaster = 0

inductive Event where
  | discctrl (cmd : Cmd)
  | regist (cmd : Cmd)
  | votectrl (cmd : Cmd)

def step (s : System) : Event → Option System
  | .discctrl cmd => (Discuss.cmdDiscctrl s.discuss cmd).map fun r => { s with discuss := r.2.2 }
  | .regist cmd => (Regist.cmdRegist s.regist cmd).map fun r => { s with regist := r.2.2 }
  | .votectrl cmd => (Votectrl.cmdVotectrl s.vote cmd).map fun r => { s with vote := r.2.2 }

/-- **The property:** of each kind there is at most one master, and only while it is open. -/
def MastersOk (s : System) : Prop :=
  (chairs s.discuss).Ok ∧ (registMasters s.regist).Ok ∧ (voteMasters s.vote).Ok

/-- Whoever ends a session is its master, if there is one; `votectrl stop`, which takes no mark
away, comes when there is none. -/
def MasterEnds (s : System) : Event → Prop
  | .discctrl cmd => EndsDiscuss s.discuss cmd →
    ∀ x ∈ s.discuss.devs, (s.discuss.row x).discussChair = 1 → x = cmd.deviceId
  | .regist cmd => EndsRegist s.regist cmd →
    ∀ x ∈ s.regist.devs, (s.regist.row x).registMaster = 1 → x = cmd.deviceId
  | .votectrl cmd =>
    (ShowsResult s.vote cmd →
      ∀ x ∈ s.vote.devs, (s.vote.row x).voteMaster = 1 → x = cmd.deviceId) ∧
    (StopsVote s.vote cmd → ∀ x ∈ s.vote.devs, (s.vote.row x).voteMaster ≠ 1)

instance (s : System) : ∀ e, Decidable (MasterEnds s e)
  | .discctrl cmd => inferInstanceAs (Decidable (EndsDiscuss s.discuss cmd →
    ∀ x ∈ s.discuss.devs, (s.discuss.row x).discussChair = 1 → x = cmd.deviceId))
  | .regist cmd => inferInstanceAs (Decidable (EndsRegist s.regist cmd →
    ∀ x ∈ s.regist.devs, (s.regist.row x).registMaster = 1 → x = cmd.deviceId))
  | .votectrl _ => inferInstanceAs (Decidable (_ ∧ _))

section Steps
variable {s s' : System} {e : Event}

/-- The marks that a step may leave in the way of the property. -/
theorem discuss_covered (s : Server) (cmd : Cmd) :
    (chairs s).Covered (if EndsDiscuss s cmd then some {cmd.deviceId} else none) ↔
      (EndsDiscuss s cmd → ∀ x ∈ s.devs, (s.row x).discussChair = 1 → x = cmd.deviceId) := by
  rw [Session.covered_ite]
  exact imp_congr_right fun _ => ⟨fun h x hx hm => h ⟨hx, hm⟩, fun h x hx => h x hx.1 hx.2⟩

theorem regist_covered (s : Regist.State) (cmd : Cmd) :
    (registMasters s).Covered (if EndsRegist s cmd then some {cmd.deviceId} else none) ↔
      (EndsRegist s cmd → ∀ x ∈ s.devs, (s.row x).registMaster = 1 → x = cmd.deviceId) := by
  rw [Session.covered_ite]
  exact imp_congr_right fun _ => ⟨fun h x hx hm => h ⟨hx, hm⟩, fun h x hx => h x hx.1 hx.2⟩

theorem vote_covered (s : Votectrl.State) (cmd : Cmd) :
    (voteMasters s).Covered (losingVote s cmd) ↔
      (ShowsResult s cmd → ∀ x ∈ s.devs, (s.row x).voteMaster = 1 → x = cmd.deviceId) ∧
        (StopsVote s cmd → ∀ x ∈ s.devs, (s.row x).voteMaster ≠ 1) := by
  have hone : ShowsResult s cmd → ¬ StopsVote s cmd := fun h h' =>
    absurd (h.2.1.symm.trans h'.2) (by decide)
  unfold losingVote
  by_cases hshow : ShowsResult s cmd
  · rw [if_pos hshow, Session.covered_some]
    refine ⟨fun h => ⟨fun _ x hx hm => h ⟨hx, hm⟩, fun hs => absurd hs (hone hshow)⟩, fun h x hx =>
      h.1 hshow x hx.1 hx.2⟩
  · rw [if_neg hshow, Session.covered_ite]
    exact ⟨fun h => ⟨fun hs => absurd hs hshow, fun hs x hx hm => h hs ⟨hx, hm⟩⟩,
      fun h hs x hx => h.2 hs x hx.1 hx.2⟩

/-- **A step** in which the master ends. -/
theorem step_ok (h : MastersOk s) (hg : MasterEnds s e) (hs : step s e = some s') :
    MastersOk s' := by
  obtain ⟨h1, h2, h3⟩ := h
  cases e with
  | discctrl cmd =>
    obtain ⟨r, hr, rfl⟩ := Option.map_eq_some_iff.mp hs
    exact ⟨(discctrl_move cmd r hr).ok h1 ((discuss_covered _ _).mpr hg), h2, h3⟩
  | regist cmd =>
    obtain ⟨r, hr, rfl⟩ := Option.map_eq_some_iff.mp hs
    exact ⟨h1, (regist_move cmd r hr).ok h2 ((regist_covered _ _).mpr hg), h3⟩
  | votectrl cmd =>
    obtain ⟨r, hr, rfl⟩ := Option.map_eq_some_iff.mp hs
    exact ⟨h1, h2, (votectrl_move cmd r hr).ok h3 ((vote_covered _ _).mpr hg)⟩

/-- Any other end leaves a master behind. -/
theorem step_not_ok (hg : ¬ MasterEnds s e) (hs : step s e = some s') : ¬ MastersOk s' := by
  rintro ⟨h1, h2, h3⟩
  cases e with
  | discctrl cmd =>
    obtain ⟨r, hr, rfl⟩ := Option.map_eq_some_iff.mp hs
    exact (discctrl_move cmd r hr).not_ok (fun h => hg ((discuss_covered _ _).mp h)) h1
  | regist cmd =>
    obtain ⟨r, hr, rfl⟩ := Option.map_eq_some_iff.mp hs
    exact (regist_move cmd r hr).not_ok (fun h => hg ((regist_covered _ _).mp h)) h2
  | votectrl cmd =>
    obtain ⟨r, hr, rfl⟩ := Option.map_eq_some_iff.mp hs
    exact (votectrl_move cmd r hr).not_ok (fun h => hg ((vote_covered _ _).mp h)) h3

theorem recover_ok {db : Db} (h0 : NoMaster db) (hs : recoverServer db = some s) :
    MastersOk s := by
  obtain ⟨discuss, hd, hs⟩ := Option.bind_eq_some_iff.mp hs
  obtain ⟨regist, hr, hs⟩ := Option.bind_eq_some_iff.mp hs
  obtain ⟨vote, hv, hs⟩ := Option.bind_eq_some_iff.mp hs
  cases hs
  refine ⟨recoverServer_ok (fun d hd => (h0 d hd).1) hd, registRecover_ok (fun d hd => ?_) hr,
    voteRecover_ok (fun d hd => ?_) hv⟩
  · exact (h0 d (db.registTable ▸ hd)).2.1
  · exact (h0 d (db.voteTable ▸ hd)).2.2

end Steps

/-! ## Runs -/

/-- **Session masters.**  In a run in which every session is ended by its master there is at most
one master of each kind, and only while its session is open; and a run that reaches its end has
this property only so. -/
theorem masters_along {db : Db} {s : System} (hs : recoverServer db = some s) (h0 : NoMaster db)
    {es : List Event} : (Guarded step MasterEnds s es → Along step MastersOk s es) ∧
      ∀ t, run step s es = some t → Along step MastersOk s es → Guarded step MasterEnds s es := by
  have hstep : ∀ s e s', MastersOk s → True → MasterEnds s e → step s e = some s' →
      MastersOk s' := fun _ _ _ h _ hg hs => step_ok h hg hs
  have hbad : ∀ s e s', MastersOk s → True → ¬ MasterEnds s e → step s e = some s' →
      ¬ MastersOk s' := fun _ _ _ _ _ hg hs => step_not_ok hg hs
  exact ⟨along_of_guarded (fun _ h => h) hstep (recover_ok h0 hs) fun _ _ => trivial,
    fun t ht => guarded_of_along hstep hbad (recover_ok h0 hs) (fun _ _ => trivial) ht⟩

/-- Two clients, with one entry in each table. -/
def twoClients : Db where
  discuss := OpenRuns.twoClients
  regist := RegistRuns.memberAndCard
  vote := VoteRefs.twoMembers
  registTable := rfl
  voteTable := rfl
  registEnabled := fun _ => rfl
  voteEnabled := fun _ => rfl

def booted : System := (recoverServer twoClients).get (by decide)

theorem recover_twoClients : recoverServer twoClients = some booted := (Option.some_get _).symm

theorem noMaster_twoClients : NoMaster twoClients := fun _ _ => ⟨rfl, rfl, rfl⟩

def command (d : ℤ) (args : List String) : Cmd :=
  { deviceId := d, args := args.map String.toList, rep := [] }

theorem masters_along_twoClients : Along step MastersOk booted
    [.discctrl (command 101 ["query"]), .discctrl (command 101 ["select", "0"]),
      .regist (command 102 ["start", "0"]), .discctrl (command 101 ["close"]),
      .votectrl (command 101 ["query"]), .votectrl (command 101 ["start", "0"]),
      .regist (command 102 ["stop"]), .votectrl (command 101 ["showresult", "0"]),
      .votectrl (command 102 ["stop"])] :=
  (masters_along recover_twoClients noMaster_twoClients).1 (by decide +kernel)

/-- One device opens the registration, the other one closes it. -/
def strangers : List Event :=
  [.regist (command 101 ["start", "0"]), .regist (command 102 ["stop"])]

/-- **A master without a session:** the mark stays when the session is gone. -/
theorem stranger_ends : (run step booted strangers).map (fun s =>
    (decide (101 ∈ s.regist.devs), (s.regist.row 101).registMaster,
      s.regist.grp.dbData.registStart)) = some (true, 1, 0) := by
  decide +kernel

theorem not_mastersOk : ¬ ∀ db s, recoverServer db = some s → NoMaster db →
    ∀ es, Along step MastersOk s es := by
  intro h
  have halong := h twoClients booted recover_twoClients noMaster_twoClients strangers
  obtain ⟨s, ⟨-, hregist, -⟩, heq⟩ := halong.observed stranger_ends
  simp only [Prod.mk.injEq, decide_eq_true_eq] at heq
  exact hregist.2 ⟨101, heq.1, heq.2.1⟩ heq.2.2

end GSConferencing.Serv.Masters
