import GSConferencing.Serv.VoteRefs

/-!
# A vote across a restart

The group record keeps the id of the open vote, and the device records keep the choices and who is
the master of a vote; the rest of a vote is in memory only.

* `restarted`: what a restart finds of the open vote.
* `Alike.reply`: states whose open votes look the same give the same replies.
* `restart_exact`: for which states a restart from the database as saved so far brings the vote back
  as it was, so that nobody can tell from the replies that there was a restart.
-/

namespace GSConferencing.Serv.VoteRecover

open GSConferencing.Lib.Run
open GSConferencing.Serv.Strutil GSConferencing.Serv.CmdHandler GSConferencing.Serv.Votectrl
open GSConferencing.Serv.VoteEffect GSConferencing.Serv.VoteInv GSConferencing.Serv.VoteRefs

/-- The options of the group's vote and their counters. -/
def tallies (s : State) : Option (ℤ × (Fin 40 → ℤ)) :=
  (s.grp.v.bind s.objs).map fun v => (v.cnOptions, v.results)

/-- The devices of the group's vote, in the order of its list. -/
def voteList (s : State) : Option (List ℤ) := s.grp.v.bind s.voteDevices

/-- Whether a device has a vote object, and whether it is that of the group. -/
def objectOf (s : State) (d : ℤ) : Option Bool :=
  (s.dev d).v.map fun a => decide (s.grp.v = some a)

/-- The code and the reply of a command. -/
def reply (s : State) (cmd : Cmd) : Option (ℤ × Cmd) :=
  (cmdVotectrl s cmd).map fun r => (r.1, r.2.1)

/-- A registered device asks for the status of the vote or for its result. -/
def Asks (s : State) (cmd : Cmd) : Prop :=
  cmd.deviceId ∈ s.devs ∧
    (cmd.args.head? = some "status".toList ∨ cmd.args.head? = some "showresult".toList)

/-- **The vote on the record `dv` is the same in both states,** and so is what the server replies
about it. -/
structure SameVote (dv : DbVote) (s s' : State) : Prop where
  memberids : s'.grp.memberids = s.grp.memberids
  expect : s'.grp.expect = s.grp.expect
  nvoted : s'.grp.nvoted = s.grp.nvoted
  tallies : tallies s' = tallies s
  choices : ∀ d ∈ s.devs, isMember dv d → (s'.dev d).choice = (s.dev d).choice
  voteList : voteList s' = voteList s
  objects : ∀ d ∈ s.devs, objectOf s' d = objectOf s d
  replies : ∀ cmd, Asks s cmd → reply s' cmd = reply s cmd

/-- A restart from what has been saved brings the vote back. -/
def Recovers (s : State) (dv : DbVote) : Prop :=
  ∃ s', recoverServer s.saved = some s' ∧ SameVote dv s s'

/-- The vote has nothing yet that only the memory knows. -/
structure Recoverable (s : State) (dv : DbVote) : Prop where
  id : dv.id ≠ 0
  expect : s.grp.expect = 0
  nvoted : s.grp.nvoted = 0
  named : dv.members = "all".toList → s.grp.memberids = []
  choices : ∀ d ∈ s.devs, isMember dv d →
    (s.dev d).choice = if d = 0 then 0 else (s.savedRow d).voteChoice
  listed : voteList s = some (relinked dv (startDevs s.saved))
  objects : ∀ d ∈ s.devs,
    (s.dev d).v = if d ≠ 0 ∧ Rejoins s.saved dv d then s.grp.v else none

instance (s : State) (dv : DbVote) : Decidable (Recoverable s dv) :=
  decidable_of_iff (dv.id ≠ 0 ∧ s.grp.expect = 0 ∧ s.grp.nvoted = 0 ∧
      (dv.members = "all".toList → s.grp.memberids = []) ∧
      (∀ d ∈ s.devs, isMember dv d →
        (s.dev d).choice = if d = 0 then 0 else (s.savedRow d).voteChoice) ∧
      voteList s = some (relinked dv (startDevs s.saved)) ∧
      ∀ d ∈ s.devs, (s.dev d).v = if d ≠ 0 ∧ Rejoins s.saved dv d then s.grp.v else none)
    ⟨fun ⟨hid, hexpect, hnvoted, hnamed, hchoices, hlisted, hobjects⟩ =>
      ⟨hid, hexpect, hnvoted, hnamed, hchoices, hlisted, hobjects⟩,
    fun ⟨hid, hexpect, hnvoted, hnamed, hchoices, hlisted, hobjects⟩ =>
      ⟨hid, hexpect, hnvoted, hnamed, hchoices, hlisted, hobjects⟩⟩

section Restart
variable {s s' : State} {dv : DbVote}

/-- A record is found by its id. -/
theorem VoteTable.find_id (T : VoteTable) (h : dv ∈ T.records) :
    (T.records.find? fun r => r.id = dv.id) = some dv := by
  obtain ⟨records, hn⟩ := T
  induction records with
  | nil => cases h
  | cons r l ih =>
    rw [List.map_cons, List.nodup_cons] at hn
    rcases List.mem_cons.mp h with rfl | h
    · exact List.find?_cons_of_pos (by simp)
    · have hne : r.id ≠ dv.id := fun e => hn.1 (e ▸ List.mem_map_of_mem h)
      rw [List.find?_cons_of_neg (by simpa using hne)]
      exact ih hn.2 h

/-- The vote that a restart finds in the database. -/
theorem openRecord_saved (hw : Wf (view s)) (hrun : Running (view s) dv) :
    openRecord s.saved = if dv.id = 0 then none else some dv := by
  have hid : s.saved.group.voteId = dv.id := hw.saved.trans hrun.id
  unfold openRecord
  rw [hid]
  split_ifs
  · rfl
  · exact VoteTable.find_id s.voteTable hrun.record

theorem startable_saved (hw : Wf (view s)) (hrun : Running (view s) dv) : Startable s.saved := by
  refine ⟨fun h => h.2 (hw.zero h.1), fun dv' hdv' => ?_⟩
  rw [openRecord_saved hw hrun] at hdv'
  split_ifs at hdv'
  cases hdv'
  unfold restoredIds
  split_ifs with hall
  · exact Nat.zero_le _
  · exact hrun.fit hall

/-- The devices register again. -/
theorem mem_startDevs (hw : Wf (view s)) {d : ℤ} (hd : d ∈ s.devs) : d ∈ startDevs s.saved := by
  by_cases h0 : d = 0
  · rw [h0]
    exact List.mem_cons_self
  · obtain ⟨ht, hen⟩ := hw.known d hd h0
    refine List.mem_cons_of_mem _ (List.mem_filter.mpr ⟨ht, ?_⟩)
    rw [← hw.enabled d h0] at hen
    exact decide_eq_true hen

/-- What a restart brings back of a vote. -/
structure Restarted (s : State) (dv : DbVote) (s' : State) : Prop where
  devs : s.devs ⊆ s'.devs
  current : s'.grp.current = some dv
  memberids : s'.grp.memberids = restoredIds dv
  expect : s'.grp.expect = 0
  nvoted : s'.grp.nvoted = 0
  gv : s'.grp.v = some 0
  object : ∃ o, s'.objs 0 = some o ∧ SameCounts o (zeroVote dv)
  choices : ∀ d ∈ s.devs, isMember dv d →
    (s'.dev d).choice = if d = 0 then 0 else (s.savedRow d).voteChoice
  list : s'.voteDevices 0 = some (relinked dv (startDevs s.saved))
  refs : ∀ d ∈ s.devs, (s'.dev d).v = if d ≠ 0 ∧ Rejoins s.saved dv d then some 0 else none

theorem restarted (hw : Wf (view s)) (hrun : Running (view s) dv)
    (hb : Booted s.saved (startDevs s.saved) (view s')) (h0 : dv.id ≠ 0) : Restarted s dv s' := by
  have hopen : openRecord s.saved = some dv := by
    rw [openRecord_saved hw hrun, if_neg h0]
  have hframe := hb.frame
  rw [groupView_some hopen] at hframe
  have hdevs : s'.devs = startDevs s.saved := hb.devs_eq
  refine ⟨fun d hd => ?_, congrArg View.current hframe, congrArg View.memberids hframe,
    congrArg View.expect hframe, congrArg View.nvoted hframe, congrArg View.gv hframe,
    hb.obj dv hopen, fun d hd hmem => ?_, ?_,
    fun d hd => hb.rejoined dv hopen d (mem_startDevs hw hd)⟩
  · rw [hdevs]
    exact mem_startDevs hw hd
  · have hchoice := hb.choice dv hopen d (mem_startDevs hw hd)
    refine Eq.trans hchoice ?_
    by_cases hd0 : d = 0
    · rw [if_pos hd0, if_neg fun h => h.1 hd0]
    · rw [if_neg hd0, if_pos ⟨hd0, hmem⟩]
      rfl
  · have hlinks : LinksOk s'.devs s'.next s'.links := hdevs ▸ hb.links
    exact voteDevices_of_leads hlinks (hb.ring dv hopen).leads

theorem Restarted.tallies (h : Restarted s dv s') :
    tallies s' = some (dv.optionsCount, fun _ => 0) := by
  obtain ⟨o, ho, -, hcn, hres⟩ := h.object
  unfold VoteRecover.tallies
  rw [h.gv, Option.bind_some, ho, Option.map_some, hcn, hres]
  rfl

theorem Restarted.voteList (h : Restarted s dv s') :
    voteList s' = some (relinked dv (startDevs s.saved)) := by
  unfold VoteRecover.voteList
  rw [h.gv, Option.bind_some, h.list]

theorem Restarted.objectOf (h : Restarted s dv s') {d : ℤ} (hd : d ∈ s.devs) :
    objectOf s' d = if d ≠ 0 ∧ Rejoins s.saved dv d then some true else none := by
  unfold VoteRecover.objectOf
  rw [h.refs d hd, h.gv]
  split_ifs <;> rfl

/-- Without an id in the group's record no vote is found. -/
theorem restart_none (hw : Wf (view s)) (hrun : Running (view s) dv)
    (hb : Booted s.saved (startDevs s.saved) (view s')) (h0 : dv.id = 0) : tallies s' = none := by
  have hopen : openRecord s.saved = none := by
    rw [openRecord_saved hw hrun, if_pos h0]
  have hgv : s'.grp.v = none := by
    have := hb.gv_eq
    rw [hopen] at this
    exact this
  unfold tallies
  rw [hgv]
  rfl

theorem tallies_running (hrun : Running (view s) dv) :
    ∃ r, tallies s = some (dv.optionsCount, r) ∧ (s.grp.nvoted = 0 → r = fun _ => 0) := by
  obtain ⟨a, o, hgv, hobj, -, hcn, hres⟩ := hrun.obj
  refine ⟨o.results, ?_, hres⟩
  unfold tallies
  rw [show s.grp.v = some a from hgv, Option.bind_some, show s.objs a = some o from hobj,
    Option.map_some, hcn]

end Restart

/-! ## Replies -/

section Replies
variable {s s' : State} {ms : List ℤ} {a a' : ℕ} {o o' : Vote} {cmd : Cmd} {d : ℤ}

/-- The choices of a list of devices read the same. -/
theorem choiceList_congr (h : ∀ m ∈ ms, (s'.dev m).choice = (s.dev m).choice) :
    choiceList s' ms = choiceList s ms :=
  List.foldl_ext _ _ _ fun _ m hm => by rw [h m hm]

theorem choiceList_send (s : State) (o : Dev.Out) (ms : List ℤ) :
    choiceList (s.send o) ms = choiceList s ms := rfl

/-- So do their results. -/
theorem resultReply_congr (h : ∀ m ∈ ms, (s'.dev m).choice = (s.dev m).choice)
    (ho : SameCounts o' o) : resultReply s' o' ms = resultReply s o ms := by
  obtain ⟨htype, hcn, hres⟩ := ho
  have hmap : (ms.map fun m => (s'.dev m).choice) = ms.map fun m => (s.dev m).choice :=
    List.map_congr_left h
  unfold resultReply averageScore voteResultsToStr
  rw [htype, hcn, hres, hmap]

/-- The open votes of two states with their objects and their devices, as far as they show. -/
structure Alike (s s' : State) (a a' : ℕ) (o o' : Vote) (ms : List ℤ) : Prop where
  current : s.grp.current ≠ none
  current' : s'.grp.current ≠ none
  expect : s'.grp.expect = s.grp.expect
  nvoted : s'.grp.nvoted = s.grp.nvoted
  gv : s.grp.v = some a
  gv' : s'.grp.v = some a'
  object : s.objs a = some o
  object' : s'.objs a' = some o'
  counts : SameCounts o' o
  list : s.voteDevices a = some ms
  list' : s'.voteDevices a' = some ms
  choices : ∀ m ∈ ms, (s'.dev m).choice = (s.dev m).choice

theorem Alike.status (h : Alike s s' a a' o o' ms) (cmd : Cmd) (d : ℤ) (args : List Str) :
    (votectrlStatus s' cmd d args).map (fun r => (r.1, r.2.1)) =
      (votectrlStatus s cmd d args).map fun r => (r.1, r.2.1) := by
  unfold votectrlStatus
  cases args with
  | nil => rfl
  | cons p l =>
    simp only [nextArg_cons, h.gv, h.gv', h.object, h.object', h.list, h.list', h.expect, h.nvoted,
      choiceList_congr h.choices, Option.bind_eq_bind, Option.bind_some]
    split_ifs <;> rfl

theorem Alike.showresult (h : Alike s s' a a' o o' ms) (cmd : Cmd) (args : List Str)
    (hd : (s.dev d).v = some a ∧ (s'.dev d).v = some a' ∨
      (s.dev d).v = none ∧ (s'.dev d).v = none) :
    (votectrlShowresult s' cmd d args).map (fun r => (r.1, r.2.1)) =
      (votectrlShowresult s cmd d args).map fun r => (r.1, r.2.1) := by
  unfold votectrlShowresult
  rw [if_neg (by simpa using h.current'), if_neg (by simpa using h.current)]
  cases args with
  | nil => rfl
  | cons p l =>
    rw [nextArg_cons, nextArg_cons]
    rcases hd with ⟨hv, hv'⟩ | ⟨hv, hv'⟩
    · simp only [hv, hv', h.object, h.object', h.list, h.list', h.expect, choiceList_send,
        choiceList_congr h.choices, resultReply_congr h.choices h.counts, Option.bind_eq_bind,
        Option.bind_some]
      cases resultReply s o ms <;> rfl
    · rw [hv, hv']
      rfl

/-- **The replies are the same.** -/
theorem Alike.reply (h : Alike s s' a a' o o' ms) (hdevs : s.devs ⊆ s'.devs) (hask : Asks s cmd)
    (hd : (s.dev cmd.deviceId).v = some a ∧ (s'.dev cmd.deviceId).v = some a' ∨
      (s.dev cmd.deviceId).v = none ∧ (s'.dev cmd.deviceId).v = none) :
    reply s' cmd = reply s cmd := by
  obtain ⟨hmem, hstatus | hshow⟩ := hask
  · obtain ⟨l, hargs⟩ := List.head?_eq_some_iff.mp hstatus
    unfold VoteRecover.reply
    rw [cmdVotectrl_status hmem hargs, cmdVotectrl_status (hdevs hmem) hargs]
    exact h.status cmd _ l
  · obtain ⟨l, hargs⟩ := List.head?_eq_some_iff.mp hshow
    unfold VoteRecover.reply
    rw [cmdVotectrl_showresult hmem hargs, cmdVotectrl_showresult (hdevs hmem) hargs]
    exact h.showresult cmd l hd

end Replies

/-! ## The restart -/

section Exact
variable {s s' : State} {dv : DbVote}

/-- A vote that can be recovered shows the same after the restart. -/
theorem alike_restarted (hw : Wf (view s)) (hopen : s.grp.current = some dv)
    (hr : Restarted s dv s') (h : Recoverable s dv) :
    ∃ a o o', Alike s s' a 0 o o' (relinked dv (startDevs s.saved)) := by
  obtain ⟨a, o, hgv, hobj, htype, hcn, hres⟩ := (hw.running dv hopen).obj
  obtain ⟨o', hobj', htype', hcn', hres'⟩ := hr.object
  have hlist : s.voteDevices a = some (relinked dv (startDevs s.saved)) := by
    have hlisted := h.listed
    unfold voteList at hlisted
    rwa [show s.grp.v = some a from hgv, Option.bind_some] at hlisted
  have hsub : relinked dv (startDevs s.saved) ⊆ s.devs :=
    (voteDevices_iff.mp hlist).1.mem (fun x hx => hw.links.entry _ x hx)
      fun y x hx => hw.links.entry y x hx
  refine ⟨a, o, o', ?_, ?_, ?_, ?_, hgv, hr.gv, hobj, hobj', ⟨?_, ?_, ?_⟩, hlist, hr.list,
    fun m hm => ?_⟩
  · rw [hopen]
    exact Option.some_ne_none dv
  · rw [hr.current]
    exact Option.some_ne_none dv
  · rw [hr.expect, h.expect]
  · rw [hr.nvoted, h.nvoted]
  · rw [htype', htype]
    rfl
  · rw [hcn', hcn]
    rfl
  · rw [hres', hres h.nvoted]
    rfl
  · have hmem : isMember dv m := (of_decide_eq_true (List.mem_filter.mp hm).2).2
    rw [hr.choices m (hsub hm) hmem, h.choices m (hsub hm) hmem]

theorem sameVote_of_recoverable (hw : Wf (view s)) (hopen : s.grp.current = some dv)
    (hr : Restarted s dv s') (h : Recoverable s dv) : SameVote dv s s' := by
  have hvote := hw.running dv hopen
  obtain ⟨r, htallies, hzero⟩ := tallies_running hvote
  obtain ⟨a, o, o', halike⟩ := alike_restarted hw hopen hr h
  refine ⟨?_, halike.expect, halike.nvoted, ?_, fun d hd hmem => ?_, ?_, fun d hd => ?_,
    fun cmd hask => halike.reply hr.devs hask ?_⟩
  · rw [hr.memberids]
    unfold restoredIds
    split_ifs with hall
    · exact (h.named hall).symm
    · exact (hvote.members hall).symm
  · rw [hr.tallies, htallies, hzero h.nvoted]
  · rw [hr.choices d hd hmem, h.choices d hd hmem]
  · rw [hr.voteList, h.listed]
  · rw [hr.objectOf hd, objectOf, h.objects d hd, halike.gv]
    split_ifs
    · simp
    · rfl
  · rw [h.objects _ hask.1, hr.refs _ hask.1, halike.gv]
    split_ifs
    · exact .inl ⟨rfl, rfl⟩
    · exact .inr ⟨rfl, rfl⟩

theorem recoverable_of_sameVote (h0 : dv.id ≠ 0) (hr : Restarted s dv s') (h : SameVote dv s s') :
    Recoverable s dv := by
  refine ⟨h0, ?_, ?_, fun hall => ?_, fun d hd hmem => ?_, ?_, fun d hd => ?_⟩
  · rw [← h.expect, hr.expect]
  · rw [← h.nvoted, hr.nvoted]
  · rw [← h.memberids, hr.memberids]
    unfold restoredIds
    rw [if_pos hall]
  · rw [← h.choices d hd hmem, hr.choices d hd hmem]
  · rw [← h.voteList, hr.voteList]
  · have hobject := h.objects d hd
    rw [hr.objectOf hd] at hobject
    split_ifs at hobject ⊢
    · obtain ⟨a, ha, hgv⟩ := Option.map_eq_some_iff.mp hobject.symm
      rw [ha, of_decide_eq_true hgv]
    · exact Option.map_eq_none_iff.mp hobject.symm

end Exact

/-- **A restart brings an open vote back exactly when nothing of it is in memory only:** it expects
nobody, no ballot has been counted, its members are named, the database has their choices, they are
listed in its order, and it tells which devices have the object of the vote. -/
theorem restart_exact {db : Db} {s₀ s : State} {es : List Event} {dv : DbVote}
    (hs : recoverServer db = some s₀) (hrun : run step s₀ es = some s)
    (hopen : s.grp.current = some dv) : Recovers s dv ↔ Recoverable s dv := by
  have hw := wf_of_run hs hrun
  have hvote := hw.running dv hopen
  constructor
  · rintro ⟨s', hs', hsame⟩
    have hb := recoverServer_booted hs'
    have h0 : dv.id ≠ 0 := by
      intro h0
      obtain ⟨r, htallies, -⟩ := tallies_running hvote
      have := hsame.tallies
      rw [restart_none hw hvote hb h0, htallies] at this
      cases this
    exact recoverable_of_sameVote h0 (restarted hw hvote hb h0) hsame
  · intro h
    obtain ⟨s', hs', hb⟩ := recoverServer_total (startable_saved hw hvote)
    exact ⟨s', hs', sameVote_of_recoverable hw hopen (restarted hw hvote hb h.id) h⟩

/-- The states before and after a restart at the end of a run. -/
def restartAfter (db : Db) (es : List Event) : Option (State × State × State) :=
  (recoverServer db).bind fun s₀ => (run step s₀ es).bind fun s =>
    (recoverServer s.saved).map fun s' => (s₀, s, s')

theorem of_restartAfter {db : Db} {es : List Event} {s₀ s s' : State}
    (h : restartAfter db es = some (s₀, s, s')) :
    recoverServer db = some s₀ ∧ run step s₀ es = some s ∧ recoverServer s.saved = some s' := by
  obtain ⟨s₁, hs₁, h⟩ := Option.bind_eq_some_iff.mp h
  obtain ⟨s₂, hs₂, h⟩ := Option.bind_eq_some_iff.mp h
  obtain ⟨s₃, hs₃, h⟩ := Option.map_eq_some_iff.mp h
  cases h
  exact ⟨hs₁, hs₂, hs₃⟩

/-- The vote has started. -/
def startRun : List Event := [command 101 ["query"], command 101 ["start", "0"]]

/-- One member has voted. -/
def ballotRun : List Event := startRun ++ [command 102 ["result", "0", "1"]]

/-- The vote is open in the database already. -/
def openVote : Db := { twoMembers with group := { voteId := 1, voteResults := ['0'] } }

theorem restart_exact_openVote : ∃ s₀ s dv, recoverServer openVote = some s₀ ∧
    run step s₀ [.reg 103 false, command 0 ["status", "0"]] = some s ∧
    s.grp.current = some dv ∧ (Recovers s dv ↔ Recoverable s dv) ∧ Recovers s dv := by
  have h : ((restartAfter openVote [.reg 103 false, command 0 ["status", "0"]]).any fun x =>
      x.2.1.grp.current.any fun dv => decide (Recoverable x.2.1 dv)) = true := by
    decide +kernel
  obtain ⟨⟨s₀, s, s'⟩, hx, hcur⟩ := (Option.any_eq_true _ _).mp h
  obtain ⟨dv, hdv, hok⟩ := (Option.any_eq_true _ _).mp hcur
  obtain ⟨hs, hrun, -⟩ := of_restartAfter hx
  have hexact := restart_exact hs hrun hdv
  exact ⟨s₀, s, dv, hs, hrun, hdv, hexact, hexact.mpr (of_decide_eq_true hok)⟩

/-- The count of the ballots is lost. -/
theorem restart_loses_ballot : ∃ s₀ s dv, recoverServer twoMembers = some s₀ ∧
    run step s₀ ballotRun = some s ∧ s.grp.current = some dv ∧ ¬ Recovers s dv := by
  have h : (restartAfter twoMembers ballotRun).map (fun x =>
      (x.2.1.grp.current.isSome, x.2.1.grp.nvoted, x.2.2.grp.nvoted)) = some (true, 1, 0) := by
    decide
  obtain ⟨⟨s₀, s, s'⟩, hx, hval⟩ := Option.map_eq_some_iff.mp h
  simp only [Prod.mk.injEq] at hval
  obtain ⟨hcur, hone, hzero⟩ := hval
  obtain ⟨hs, hrun, hs'⟩ := of_restartAfter hx
  obtain ⟨dv, hdv⟩ := Option.isSome_iff_exists.mp hcur
  refine ⟨s₀, s, dv, hs, hrun, hdv, ?_⟩
  rintro ⟨t, ht, hsame⟩
  rw [hs'] at ht
  cases ht
  have := hsame.nvoted
  omega

end GSConferencing.Serv.VoteRecover
