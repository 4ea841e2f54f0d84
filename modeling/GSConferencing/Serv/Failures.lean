import GSConferencing.Serv.Masters

/-!
# Commands that fail

What `votectrl start`, `regist start`, `discctrl select` and `discctrl request` leave behind when they
return an error.

* `start_failed`: `votectrl start` sets the members up before it looks for the sender among them.
* `registStart_failed`: `regist start` sets the members up, and clears them, before it looks for the
  mode.
* `select_failed`, `request_failed`: `discctrl` checks first.
* `failsClean_iff`: when such a command changes nothing.
-/

namespace GSConferencing.Serv.Failures

open GSConferencing.Serv.Strutil GSConferencing.Serv.CmdHandler
open GSConferencing.Serv.Masters (System Event)

/-- The return code of a command, and the state after it. -/
def handle (s : System) : Event → Option (ℤ × System)
  | .discctrl cmd =>
    (Discuss.cmdDiscctrl s.discuss cmd).map fun r => (r.1, { s with discuss := r.2.2 })
  | .regist cmd => (Regist.cmdRegist s.regist cmd).map fun r => (r.1, { s with regist := r.2.2 })
  | .votectrl cmd => (Votectrl.cmdVotectrl s.vote cmd).map fun r => (r.1, { s with vote := r.2.2 })

/-- The commands in question. -/
def Concerned : Event → Prop
  | .discctrl cmd => cmd.args.head? = some "select".toList ∨ cmd.args.head? = some "request".toList
  | .regist cmd => cmd.args.head? = some "start".toList
  | .votectrl cmd => cmd.args.head? = some "start".toList

/-- The vote, the registration and the discussion of the group, the discussions of the tags with
their lists and mix slots, and those of the devices are the same. -/
structure Untouched (s s' : System) : Prop where
  voteGroup : s'.vote.grp = s.vote.grp
  votes : s'.vote.objs = s.vote.objs ∧ s'.vote.links = s.vote.links
  voteDevs : s'.vote.dev = s.vote.dev ∧ s'.vote.row = s.vote.row
  registGroup : s'.regist.grp = s.regist.grp
  registDevs : s'.regist.reg = s.regist.reg ∧ s'.regist.row = s.regist.row
  discussGroup : s'.discuss.grp = s.discuss.grp
  tags : s'.discuss.tag = s.discuss.tag ∧ s'.discuss.openL = s.discuss.openL
  slots : s'.discuss.avail = s.discuss.avail
  discussDevs : s'.discuss.dev = s.discuss.dev ∧ s'.discuss.row = s.discuss.row

theorem Untouched.refl (s : System) : Untouched s s :=
  ⟨rfl, ⟨rfl, rfl⟩, ⟨rfl, rfl⟩, rfl, ⟨rfl, rfl⟩, rfl, ⟨rfl, rfl⟩, rfl, ⟨rfl, rfl⟩⟩

/-- **The property:** a command that returns an error changes nothing. -/
def FailsClean (s : System) (e : Event) : Prop :=
  Concerned e → ∀ code s', handle s e = some (code, s') → code ≠ 0 → Untouched s s'

/-! ## `votectrl start` -/

section Vote

open GSConferencing.Serv.Votectrl

/-- The names `prepare_vote` collects. -/
def memberNames (s : State) (dv : DbVote) : Str :=
  (memberList s dv).foldl (fun l mid =>
    listAdd l (((s.mdFindDevice mid).map DbDevice.userName).getD ['?'])) []

/-- The members of a vote are set up. -/
def prepared (s : State) (dv : DbVote) : State :=
  s.setGrp fun g =>
    { g with memberids := memberList s dv, membernames := memberNames s dv, nvoted := 0 }

theorem prepareVote_eq (s : State) (dv : DbVote) :
    prepareVote s dv =
      if memberMax < (memberList s dv).length then none else some (prepared s dv) := rfl

/-- The vote `dv` is asked for by a device that is not a member. -/
def NotMember (s : State) (cmd : Cmd) (dv : DbVote) : Prop :=
  cmd.deviceId ∈ s.devs ∧ cmd.args.head? = some "start".toList ∧ s.grp.current = none ∧
    (∃ p ∈ cmd.args[1]?, 0 ≤ atoi p ∧ s.db[(atoi p).toNat]? = some dv) ∧
    (memberList s dv).length ≤ memberMax ∧ cmd.deviceId ≠ 0 ∧ cmd.deviceId ∉ memberList s dv

/-- A member's `start` succeeds. -/
theorem start_of_not_notMember {s : State} {cmd : Cmd} (hd : cmd.deviceId ∈ s.devs)
    {l : List Str} (hargs : cmd.args = "start".toList :: l) {code : ℤ} {c : Cmd} {s' : State}
    (h : votectrlStart s cmd cmd.deviceId l = some (code, c, s')) :
    s' = s ∨ code = 0 ∨ ∃ dv, NotMember s cmd dv ∧ s' = prepared s dv := by
  unfold votectrlStart at h
  cases hcur : s.grp.current with
  | some dv =>
    rw [hcur] at h
    cases h
    exact .inl rfl
  | none =>
    rw [hcur, if_neg (by decide)] at h
    cases l with
    | nil =>
      cases h
      exact .inl rfl
    | cons p l =>
      rw [nextArg_cons] at h
      simp only at h
      split at h
      · cases h
        exact .inl rfl
      split at h
      · cases h
      · next hneg =>
        obtain ⟨dv, hdv, h⟩ := Option.bind_eq_some_iff.mp h
        rw [prepareVote_eq] at h
        split at h
        · cases h
        · next hfit =>
          rw [Option.bind_some] at h
          split at h
          · next hrej =>
            cases h
            refine .inr (.inr ⟨dv, ⟨hd, by rw [hargs]; rfl, hcur, ⟨p, by rw [hargs]; rfl, ?_, hdv⟩,
              ?_, hrej⟩, rfl⟩)
            · omega
            · omega
          · obtain ⟨t, -, heq⟩ := Option.map_eq_some_iff.mp h
            cases heq
            exact .inr (.inl rfl)

/-- **A `start` of a device that is not a member** fails with the members set up. -/
theorem start_notMember {s : State} {cmd : Cmd} {dv : DbVote} (h : NotMember s cmd dv) :
    cmdVotectrl s cmd = some (errRejected, cmd, prepared s dv) := by
  obtain ⟨hd, hhead, hcur, ⟨p, hp, h0, hdv⟩, hfit, hrej⟩ := h
  obtain ⟨l, hargs⟩ := List.head?_eq_some_iff.mp hhead
  rw [cmdVotectrl_start hd hargs]
  rw [hargs] at hp
  obtain ⟨l, rfl⟩ : ∃ l', l = p :: l' := by
    cases l with
    | nil => cases hp
    | cons q l =>
      cases hp
      exact ⟨l, rfl⟩
  have hlt : ¬ (s.db.length : ℤ) ≤ atoi p := by
    have := (List.getElem?_eq_some_iff.mp hdv).1
    omega
  unfold votectrlStart
  rw [hcur, if_neg (by decide), nextArg_cons]
  simp only
  rw [if_neg hlt, if_neg (by omega), hdv, Option.bind_some, prepareVote_eq,
    if_neg (by omega), Option.bind_some]
  exact if_pos hrej

end Vote

/-! ## `regist start` -/

section Registration

open GSConferencing.Serv.Regist
open GSConferencing.Serv.RegistEffect (memberIds registSetup_eq resetFold)
open GSConferencing.Serv.RegistRuns (cmdRegist_start)

/-- The members `ids` are set up and cleared. -/
def cleared (s : State) (ids : List ℤ) : State :=
  { s.setGrp fun g => { g with memberids := ids } with
    reg := fun d => if d ∈ s.devs ∧ d ∈ ids then 0 else s.reg d
    row := fun d =>
      if d ∈ s.devs ∧ d ∈ ids then { s.row d with registReg := 0 } else s.row d }

theorem registResetAll_eq (s : State) (ids : List ℤ) :
    registResetAll (s.setGrp fun g => { g with memberids := ids }) = cleared s ids :=
  resetFold _ ids

/-- A registration could start on the record `dr`, and the mode is missing. -/
def NoMode (s : State) (cmd : Cmd) (dr : DbRegist) : Prop :=
  cmd.deviceId ∈ s.devs ∧ cmd.args = ["start".toList] ∧ s.grp.dbData.registStart = 0 ∧
    s.registTable.head? = some dr ∧ (memberIds dr).length ≤ memberMax

/-- What `regist start` does when it fails. -/
theorem registStart_failed {s : State} {cmd : Cmd} (hd : cmd.deviceId ∈ s.devs) {l : List Str}
    (hargs : cmd.args = "start".toList :: l) {code : ℤ} {c : Cmd} {s' : State}
    (h : registStart s cmd cmd.deviceId l = some (code, c, s')) :
    s' = s ∨ code = 0 ∨ ∃ dr, NoMode s cmd dr ∧ s' = cleared s (memberIds dr) := by
  unfold registStart at h
  split at h
  · cases h
    exact .inl rfl
  · next h0 =>
    cases htable : s.registTable with
    | nil =>
      rw [htable] at h
      cases h
      exact .inl rfl
    | cons dr rest =>
      rw [htable] at h
      simp only [Option.bind_eq_bind] at h
      rw [registSetup_eq] at h
      split at h
      · cases h
      · next hfit =>
        rw [Option.bind_some, registResetAll_eq] at h
        cases l with
        | nil =>
          cases h
          refine .inr (.inr ⟨dr, ⟨hd, hargs, not_not.mp h0, ?_, by omega⟩, rfl⟩)
          rw [htable]
          rfl
        | cons p l =>
          cases h
          exact .inr (.inl rfl)

/-- **A `start` without a mode** fails with the members cleared. -/
theorem start_noMode {s : State} {cmd : Cmd} {dr : DbRegist} (h : NoMode s cmd dr) :
    cmdRegist s cmd = some (1, cmd, cleared s (memberIds dr)) := by
  obtain ⟨hd, hargs, h0, htable, hfit⟩ := h
  obtain ⟨rest, htable⟩ := List.head?_eq_some_iff.mp htable
  rw [cmdRegist_start hd hargs]
  unfold registStart
  rw [if_neg (not_not.mpr h0), htable]
  simp only [Option.bind_eq_bind]
  rw [registSetup_eq, if_neg (by omega), Option.bind_some, registResetAll_eq, nextArg_nil]

end Registration

/-! ## `discctrl` -/

section Discussion

open GSConferencing.Serv.Dev GSConferencing.Serv.Discuss

/-- **`select`** looks for the discussion before it changes anything. -/
theorem select_failed {s s' : Server} {cmd c : Cmd} {d code : ℤ} {l : List Str}
    (h : discctrlSelect s cmd d l = some (code, c, s')) (hcode : code ≠ 0) : s' = s := by
  unfold discctrlSelect at h
  split at h
  · cases h
    rfl
  · cases l with
    | nil =>
      cases h
      rfl
    | cons p l =>
      rw [nextArg_cons] at h
      simp only at h
      split at h
      · cases h
        rfl
      split at h
      · cases h
      · obtain ⟨r, -, h⟩ := Option.bind_eq_some_iff.mp h
        obtain ⟨t, -, h⟩ := Option.bind_eq_some_iff.mp h
        cases h
        exact absurd rfl hcode

/-- What follows `post:` returns 0. -/
theorem requestPost_code {s s' : Server} {cmd c : Cmd} {t d a code : ℤ}
    (h : requestPost s cmd t d a = some (code, c, s')) : code = 0 := by
  unfold requestPost at h
  simp only at h
  split at h
  · split at h
    · obtain ⟨t, -, h⟩ := Option.bind_eq_some_iff.mp h
      cases h
      rfl
    · obtain ⟨t, -, h⟩ := Option.bind_eq_some_iff.mp h
      cases h
      rfl
  · obtain ⟨t, -, h⟩ := Option.bind_eq_some_iff.mp h
    cases h
    rfl

/-- **`request`** is rejected before it changes anything. -/
theorem request_failed {s s' : Server} {cmd c : Cmd} {d code : ℤ} {l : List Str}
    (h : discctrlRequest s cmd d l = some (code, c, s')) (hcode : code ≠ 0) : s' = s := by
  unfold discctrlRequest at h
  cases l with
  | nil =>
    cases h
    rfl
  | cons p l =>
    rw [nextArg_cons] at h
    simp only at h
    split at h
    · split at h
      · obtain ⟨t, -, h⟩ := Option.bind_eq_some_iff.mp h
        exact absurd (requestPost_code h) hcode
      · exact absurd (requestPost_code h) hcode
    split at h
    · obtain ⟨adm, -, h⟩ := Option.bind_eq_some_iff.mp h
      cases adm with
      | reject =>
        cases h
        rfl
      | openit =>
        obtain ⟨t, -, h⟩ := Option.bind_eq_some_iff.mp h
        exact absurd (requestPost_code h) hcode
      | kick k =>
        obtain ⟨t, -, h⟩ := Option.bind_eq_some_iff.mp h
        obtain ⟨t', -, h⟩ := Option.bind_eq_some_iff.mp h
        exact absurd (requestPost_code h) hcode
    · obtain ⟨t, -, h⟩ := Option.bind_eq_some_iff.mp h
      exact absurd (requestPost_code h) hcode

end Discussion

/-! ## Together -/

/-- **The condition:** a `votectrl start` of a device that is not a member finds the members of the
record set up and no ballots counted, and a `regist start` without a mode finds the members of the
record set up and cleared. -/
def NothingToUndo (s : System) : Event → Prop
  | .discctrl _ => True
  | .regist cmd => ∀ dr, NoMode s.regist cmd dr →
      s.regist.grp.memberids = RegistEffect.memberIds dr ∧
        ∀ m ∈ RegistEffect.memberIds dr, m ∈ s.regist.devs →
          s.regist.reg m = 0 ∧ (s.regist.row m).registReg = 0
  | .votectrl cmd => ∀ dv, NotMember s.vote cmd dv →
      s.vote.grp.memberids = Votectrl.memberList s.vote dv ∧
        s.vote.grp.membernames = memberNames s.vote dv ∧ s.vote.grp.nvoted = 0

theorem prepared_untouched {s : System} {dv : Votectrl.DbVote} :
    Untouched s { s with vote := prepared s.vote dv } ↔
      s.vote.grp.memberids = Votectrl.memberList s.vote dv ∧
        s.vote.grp.membernames = memberNames s.vote dv ∧ s.vote.grp.nvoted = 0 := by
  constructor
  · intro h
    have hgrp := h.voteGroup
    exact ⟨(congrArg Votectrl.Group.memberids hgrp).symm,
      (congrArg Votectrl.Group.membernames hgrp).symm, (congrArg Votectrl.Group.nvoted hgrp).symm⟩
  · rintro ⟨hids, hnames, hvoted⟩
    have hgrp : (prepared s.vote dv).grp = s.vote.grp := by
      show { s.vote.grp with
        memberids := Votectrl.memberList s.vote dv, membernames := memberNames s.vote dv
        nvoted := 0 } = s.vote.grp
      rw [← hids, ← hnames, ← hvoted]
    exact { Untouched.refl s with voteGroup := hgrp }

theorem cleared_untouched {s : System} {ids : List ℤ} :
    Untouched s { s with regist := cleared s.regist ids } ↔
      s.regist.grp.memberids = ids ∧ ∀ m ∈ ids, m ∈ s.regist.devs →
        s.regist.reg m = 0 ∧ (s.regist.row m).registReg = 0 := by
  constructor
  · intro h
    refine ⟨(congrArg Regist.Group.memberids h.registGroup).symm, fun m hm hd => ⟨?_, ?_⟩⟩
    · have hreg := congrFun h.registDevs.1 m
      replace hreg : (if m ∈ s.regist.devs ∧ m ∈ ids then 0 else s.regist.reg m) =
        s.regist.reg m := hreg
      rw [if_pos ⟨hd, hm⟩] at hreg
      exact hreg.symm
    · have hrow := congrFun h.registDevs.2 m
      replace hrow : (if m ∈ s.regist.devs ∧ m ∈ ids then { s.regist.row m with registReg := 0 }
        else s.regist.row m) = s.regist.row m := hrow
      rw [if_pos ⟨hd, hm⟩] at hrow
      exact (congrArg Regist.DbDevice.registReg hrow).symm
  · rintro ⟨hids, hclear⟩
    have hgrp : (cleared s.regist ids).grp = s.regist.grp := by
      show { s.regist.grp with memberids := ids } = s.regist.grp
      rw [← hids]
    have hreg : (cleared s.regist ids).reg = s.regist.reg := by
      funext d
      show (if d ∈ s.regist.devs ∧ d ∈ ids then 0 else s.regist.reg d) = s.regist.reg d
      split
      · next h => exact (hclear d h.2 h.1).1.symm
      · rfl
    have hrow : (cleared s.regist ids).row = s.regist.row := by
      funext d
      show (if d ∈ s.regist.devs ∧ d ∈ ids then { s.regist.row d with registReg := 0 }
        else s.regist.row d) = s.regist.row d
      split
      · next h => rw [← (hclear d h.2 h.1).2]
      · rfl
    exact { Untouched.refl s with registGroup := hgrp, registDevs := ⟨hreg, hrow⟩ }

/-- **A failed command changes nothing** exactly when it had nothing to undo. -/
theorem failsClean_iff (s : System) (e : Event) : FailsClean s e ↔ NothingToUndo s e := by
  cases e with
  | discctrl cmd =>
    refine ⟨fun _ => trivial, fun _ hc code s' hs hcode => ?_⟩
    obtain ⟨⟨code', c, t⟩, h, heq⟩ := Option.map_eq_some_iff.mp hs
    cases heq
    have hsame : t = s.discuss := by
      by_cases hd : cmd.deviceId ∈ s.discuss.devs
      · rcases hc with hc | hc
        · obtain ⟨l, hl⟩ := List.head?_eq_some_iff.mp hc
          exact select_failed ((Discuss.cmdDiscctrl_select hd hl).symm.trans h) hcode
        · obtain ⟨l, hl⟩ := List.head?_eq_some_iff.mp hc
          exact request_failed ((Discuss.cmdDiscctrl_request hd hl).symm.trans h) hcode
      · have hnot : Discuss.cmdDiscctrl s.discuss cmd = some (errNotReg, cmd, s.discuss) :=
          if_pos hd
        cases hnot.symm.trans h
        rfl
    rw [hsame]
    exact Untouched.refl s
  | regist cmd =>
    constructor
    · intro h dr hno
      have hhead : cmd.args.head? = some "start".toList := by
        rw [hno.2.1]
        rfl
      refine cleared_untouched.mp (h hhead 1 _ ?_ one_ne_zero)
      show (Regist.cmdRegist s.regist cmd).map _ = _
      rw [start_noMode hno]
      rfl
    · intro h hc code s' hs hcode
      obtain ⟨⟨code', c, t⟩, hr, heq⟩ := Option.map_eq_some_iff.mp hs
      cases heq
      obtain ⟨l, hl⟩ := List.head?_eq_some_iff.mp hc
      by_cases hd : cmd.deviceId ∈ s.regist.devs
      · rw [RegistRuns.cmdRegist_start hd hl] at hr
        rcases registStart_failed hd hl hr with rfl | h0 | ⟨dr, hno, rfl⟩
        · exact Untouched.refl s
        · exact absurd h0 hcode
        · exact cleared_untouched.mpr (h dr hno)
      · have hnot : Regist.cmdRegist s.regist cmd = some (errNotReg, cmd, s.regist) := if_pos hd
        cases hnot.symm.trans hr
        exact Untouched.refl s
  | votectrl cmd =>
    constructor
    · intro h dv hno
      refine prepared_untouched.mp (h hno.2.1 errRejected _ ?_ (by decide))
      show (Votectrl.cmdVotectrl s.vote cmd).map _ = _
      rw [start_notMember hno]
      rfl
    · intro h hc code s' hs hcode
      obtain ⟨⟨code', c, t⟩, hr, heq⟩ := Option.map_eq_some_iff.mp hs
      cases heq
      obtain ⟨l, hl⟩ := List.head?_eq_some_iff.mp hc
      by_cases hd : cmd.deviceId ∈ s.vote.devs
      · rw [Votectrl.cmdVotectrl_start hd hl] at hr
        rcases start_of_not_notMember hd hl hr with rfl | h0 | ⟨dv, hno, rfl⟩
        · exact Untouched.refl s
        · exact absurd h0 hcode
        · exact prepared_untouched.mpr (h dv hno)
      · have hnot : Votectrl.cmdVotectrl s.vote cmd = some (errNotReg, cmd, s.vote) := if_pos hd
        cases hnot.symm.trans hr
        exact Untouched.refl s

/-- **A `start` without a mode:** it fails, and the members have been set up. -/
theorem members_after_start :
    (handle Masters.booted (.regist (Masters.command 101 ["start"]))).map (fun r =>
      (r.1, Masters.booted.regist.grp.memberids, r.2.regist.grp.memberids)) =
      some (1, [], [101]) := by
  decide +kernel

theorem not_forall_failsClean : ¬ ∀ db s e, Masters.recoverServer db = some s → FailsClean s e := by
  intro h
  have hclean := h _ _ (.regist (Masters.command 101 ["start"])) Masters.recover_twoClients
  obtain ⟨⟨code, s⟩, hs, hobs⟩ := Option.map_eq_some_iff.mp members_after_start
  simp only [Prod.mk.injEq] at hobs
  obtain ⟨rfl, hbefore, hafter⟩ := hobs
  have hgrp := (hclean rfl 1 s hs one_ne_zero).registGroup
  rw [hgrp, hbefore] at hafter
  exact absurd hafter (by decide)

end GSConferencing.Serv.Failures
