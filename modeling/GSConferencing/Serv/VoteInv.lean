import GSConferencing.Serv.VoteEffect
import GSConferencing.Lib.Run

/-!
# Votes from the start on

`Booted` says what `recover_server` restores of a vote.  `Wf` is the invariant of every run: the
open vote has its record, its members and an object, the pointers are to addresses that have been
given out, and the database can be started from again.

* `recoverServer_booted`, `recoverServer_total`: the start.
* `step_wf`, `wf_of_run`: the invariant.
-/

namespace GSConferencing.Serv.VoteInv

open GSConferencing.Lib.CyclicList GSConferencing.Include.ListHead GSConferencing.Lib.Run
open GSConferencing.Serv.Strutil GSConferencing.Serv.CmdHandler GSConferencing.Serv.Votectrl
open GSConferencing.Serv.VoteEffect

/-! ## The start -/

/-- The record of the vote that is open in the database. -/
def openRecord (db : Db) : Option DbVote :=
  if db.group.voteId = 0 then none
  else db.voteTable.records.find? fun dv => dv.id = db.group.voteId

/-- The members that are found again: the group has no device yet. -/
def restoredIds (dv : DbVote) : List ℤ := if dv.members = "all".toList then [] else idsOf dv

/-- The view once the group has been created. -/
def groupView (db : Db) : View :=
  match openRecord db with
  | none => view (boot db)
  | some dv => { view (boot db) with
    current := some dv, memberids := restoredIds dv, gv := some 0, next := 1
    objs := Function.update (fun _ => none) 0 (some (zeroVote dv))
    links := (boot db).links.init (.head 0) }

theorem groupCreate_cases (db : Db) :
    ((∃ dv, openRecord db = some dv ∧ memberMax < (restoredIds dv).length) ∧
      groupCreate (boot db) = none) ∨
    ((∀ dv, openRecord db = some dv → (restoredIds dv).length ≤ memberMax) ∧
      ∃ s, groupCreate (boot db) = some s ∧ view s = groupView db) := by
  unfold groupCreate groupView openRecord
  by_cases h0 : db.group.voteId = 0
  · rw [if_pos h0, if_pos (show (boot db).grp.dbData.voteId = 0 from h0)]
    exact .inr ⟨fun dv h => by (cases h), _, rfl, rfl⟩
  rw [if_neg h0, if_neg (show ¬ (boot db).grp.dbData.voteId = 0 from h0)]
  have hfind : (boot db).voteTable.records.find? (fun dv =>
      decide (dv.id = (boot db).grp.dbData.voteId)) =
      db.voteTable.records.find? fun dv => decide (dv.id = db.group.voteId) := rfl
  rw [hfind]
  cases db.voteTable.records.find? fun dv => decide (dv.id = db.group.voteId) with
  | none => exact .inr ⟨fun dv h => by (cases h), _, rfl, rfl⟩
  | some dv =>
    simp only [groupSetupVote]
    rcases prepareVote_eq (boot db) dv with ⟨hlong, hnone⟩ | ⟨hfit, names, hsome⟩
    · rw [hnone]
      exact .inl ⟨⟨dv, rfl, hlong⟩, rfl⟩
    · rw [hsome]
      refine .inr ⟨fun dv' h => ?_, _, rfl, rfl⟩
      cases h
      exact hfit

/-- A device gets the object of the open vote back. -/
def Rejoins (db : Db) (dv : DbVote) (d : ℤ) : Prop :=
  isMember dv d ∨ (db.row d).voteMaster ≠ 0

instance (db : Db) (dv : DbVote) (d : ℤ) : Decidable (Rejoins db dv d) :=
  inferInstanceAs (Decidable (_ ∨ _))

/-- The devices of `ds` that are linked into the list of the open vote. -/
def relinked (dv : DbVote) (ds : List ℤ) : List ℤ := ds.filter fun d => d ≠ 0 ∧ isMember dv d

theorem relinked_append {dv : DbVote} {ds : List ℤ} {d : ℤ} (h0 : d ≠ 0) (hmem : isMember dv d) :
    relinked dv (ds ++ [d]) = relinked dv ds ++ [d] := by
  unfold relinked
  rw [List.filter_append, List.filter_cons_of_pos (by simp [h0, hmem]), List.filter_nil]

theorem relinked_append_of_not {dv : DbVote} {ds : List ℤ} {d : ℤ} (hmem : ¬ isMember dv d) :
    relinked dv (ds ++ [d]) = relinked dv ds := by
  unfold relinked
  rw [List.filter_append, List.filter_cons_of_neg (by simp [hmem]), List.filter_nil,
    List.append_nil]

/-- The devices `ds` have been recovered. -/
structure Booted (db : Db) (ds : List ℤ) (v : View) : Prop where
  frame : v = { groupView db with
    devs := ds, ref := v.ref, choice := v.choice, row := v.row, objs := v.objs, links := v.links }
  row : ∀ d, d ≠ 0 → v.row d = db.row d
  manager : (v.row 0).enabled = 0
  ref : ∀ d, v.ref d = none ∨ v.ref d = v.gv
  rejoined : ∀ dv, openRecord db = some dv → ∀ d ∈ ds,
    v.ref d = if d ≠ 0 ∧ Rejoins db dv d then some 0 else none
  obj : ∀ dv, openRecord db = some dv → ∃ o, v.objs 0 = some o ∧ SameCounts o (zeroVote dv)
  choice : ∀ dv, openRecord db = some dv → ∀ d ∈ ds,
    v.choice d = if d ≠ 0 ∧ isMember dv d then (db.row d).voteChoice else 0
  links : LinksOk ds v.next v.links
  ring : ∀ dv, openRecord db = some dv → Ring v.links 0 (relinked dv ds)

theorem groupView_none {db : Db} (h : openRecord db = none) : groupView db = view (boot db) := by
  unfold groupView
  rw [h]

theorem groupView_some {db : Db} {dv : DbVote} (h : openRecord db = some dv) :
    groupView db = { view (boot db) with
      current := some dv, memberids := restoredIds dv, gv := some 0, next := 1
      objs := Function.update (fun _ => none) 0 (some (zeroVote dv))
      links := (boot db).links.init (.head 0) } := by
  unfold groupView
  rw [h]

theorem groupView_current (db : Db) : (groupView db).current = openRecord db := by
  unfold groupView
  cases h : openRecord db <;> rfl

theorem groupView_gv (db : Db) : (groupView db).gv = (openRecord db).map fun _ => 0 := by
  unfold groupView
  cases h : openRecord db <;> rfl

theorem boot_links (db : Db) : LinksOk [] 0 (boot db).links :=
  ⟨fun a ha => absurd ha (Nat.not_lt_zero a), fun y x hx => by cases hx⟩

/-- No device has registered yet. -/
theorem groupView_devs (db : Db) : (groupView db).devs = [] := by
  unfold groupView
  cases h : openRecord db <;> rfl

theorem groupView_ref (db : Db) : (groupView db).ref = fun _ => none := by
  unfold groupView
  cases h : openRecord db <;> rfl

theorem groupView_choice (db : Db) : (groupView db).choice = fun _ => 0 := by
  unfold groupView
  cases h : openRecord db <;> rfl

theorem groupView_row (db : Db) : (groupView db).row = db.row := by
  unfold groupView
  cases h : openRecord db <;> rfl

/-- The manager device, with no object and no choice, is added to the devices. -/
theorem view_addManagerDev {db : Db} {s : State} (hs : view s = groupView db) :
    view (addManagerDev s) =
      { groupView db with devs := [0], row := (addManagerDev s).row } := by
  have hdevs : s.devs = [] := (congrArg View.devs hs).trans (groupView_devs db)
  have href : (fun x => (s.dev x).v) = fun _ => none :=
    (congrArg View.ref hs).trans (groupView_ref db)
  have hchoice : (fun x => (s.dev x).choice) = fun _ => 0 :=
    (congrArg View.choice hs).trans (groupView_choice db)
  have hv : view (addManagerDev s) = { view s with
      devs := s.devs ++ [0], ref := Function.update (fun x => (s.dev x).v) 0 none
      choice := Function.update (fun x => (s.dev x).choice) 0 0
      row := (addManagerDev s).row } := by
    unfold addManagerDev
    rw [view_devRegister]
    rfl
  rw [hv, hs, hdevs, href, hchoice]
  ext1 <;> try rfl
  · exact (Function.update_eq_self 0 _).trans (groupView_ref db).symm
  · exact (Function.update_eq_self 0 _).trans (groupView_choice db).symm

/-- The manager device registers first. -/
theorem addManagerDev_booted {db : Db} {s : State} (hs : view s = groupView db) :
    Booted db [0] (view (addManagerDev s)) := by
  have hv := view_addManagerDev hs
  have hrow : s.row = db.row := (congrArg View.row hs).trans (groupView_row db)
  have hobjs : (addManagerDev s).objs = (groupView db).objs := congrArg View.objs hv
  have href : ∀ d, (view (addManagerDev s)).ref d = none := by
    intro d
    rw [hv]
    exact congrFun (groupView_ref db) d
  refine ⟨?_, fun d hd => ?_, ?_, fun d => .inl (href d), fun dv hdv d hd => ?_,
    fun dv hdv => ?_, fun dv hdv d hd => ?_, ?_, fun dv hdv => ?_⟩
  · rw [hv]
  · show Function.update s.row 0 _ d = _
    rw [Function.update_of_ne hd, hrow]
  · exact congrArg DbDevice.enabled (Function.update_self (f := s.row) 0 _)
  · rw [href, if_neg fun h => h.1 (List.mem_singleton.mp hd)]
  · refine ⟨zeroVote dv, ?_, rfl, rfl, rfl⟩
    show (addManagerDev s).objs 0 = _
    rw [hobjs, groupView_some hdv]
    show Function.update (fun _ => (none : Option Vote)) 0 (some (zeroVote dv)) 0 = _
    rw [Function.update_self]
  · rw [List.mem_singleton.mp hd, if_neg fun h => h.1 rfl, hv]
    exact congrFun (groupView_choice db) 0
  · rw [hv]
    show LinksOk [0] (groupView db).next (groupView db).links
    have hsub : ∀ {next : ℕ} {L : Links ℕ ℤ}, LinksOk [] next L → LinksOk [0] next L :=
      fun h => ⟨h.head, fun y x hx => absurd (h.entry y x hx) List.not_mem_nil⟩
    cases h : openRecord db with
    | none =>
      rw [groupView_none h]
      exact hsub (boot_links db)
    | some dv =>
      rw [groupView_some h]
      exact hsub (boot_links db).init
  · have hlinks : (addManagerDev s).links = (groupView db).links := congrArg View.links hv
    show Ring (addManagerDev s).links 0 []
    rw [hlinks, groupView_some hdv]
    exact ring_init _ 0

section Recover
variable {db : Db} {ds : List ℤ} {s : State} {d : ℤ}

theorem Booted.devs_eq {v : View} (h : Booted db ds v) : v.devs = ds := by rw [h.frame]

theorem Booted.current_eq {v : View} (h : Booted db ds v) : v.current = openRecord db := by
  rw [h.frame]
  exact groupView_current db

theorem Booted.gv_eq {v : View} (h : Booted db ds v) :
    v.gv = (openRecord db).map fun _ => 0 := by
  rw [h.frame]
  exact groupView_gv db

theorem Booted.next_pos {v : View} (h : Booted db ds v) {dv : DbVote}
    (hdv : openRecord db = some dv) : 0 < v.next := by
  have hnext : v.next = (groupView db).next := by rw [h.frame]
  rw [hnext, groupView_some hdv]
  exact Nat.one_pos

/-- A member of the restored vote. -/
theorem restoreMember_spec {a : ℕ} {L : Links ℕ ℤ}
    (hadd : listAddTail s.links (.entry d) (.head a) = some L) :
    ∃ s', restoreMember s a d = some s' ∧ view s' = { view s with
      ref := Function.update (view s).ref d (some a)
      choice := Function.update (view s).choice d (s.row d).voteChoice
      objs := Function.update s.objs a ((s.objs a).map fun v =>
        { v with nMembers := v.nMembers + 1 })
      links := L } := by
  unfold restoreMember voteAddDevice
  rw [hadd]
  refine ⟨_, rfl, ?_⟩
  ext1 <;> try rfl
  · exact Function.comp_update Device.v s.dev d _
  · exact Function.comp_update Device.choice s.dev d _

/-- What the recovery of the device `d` adds to the view: its reference `r`, its choice `c`, and
for a member its place in the object `O` and in the list `L`. -/
structure Restored (db : Db) (ds : List ℤ) (v : View) (d : ℤ) (r : Option ℕ) (c : ℤ)
    (O : ℕ → Option Vote) (L : Links ℕ ℤ) : Prop where
  ref : r = none ∨ r = v.gv
  rejoined : ∀ dv, openRecord db = some dv → r = if Rejoins db dv d then some 0 else none
  choice : ∀ dv, openRecord db = some dv → c = if isMember dv d then (db.row d).voteChoice else 0
  obj : ∀ dv, openRecord db = some dv → ∃ o, O 0 = some o ∧ SameCounts o (zeroVote dv)
  links : LinksOk (ds ++ [d]) v.next L
  ring : ∀ dv, openRecord db = some dv → Ring L 0 (relinked dv (ds ++ [d]))

/-- The view with the device `d` added. -/
def View.added (v : View) (d : ℤ) (r : Option ℕ) (c : ℤ) (O : ℕ → Option Vote)
    (L : Links ℕ ℤ) : View :=
  { v with
    devs := v.devs ++ [d], ref := Function.update v.ref d r
    choice := Function.update v.choice d c, objs := O, links := L }

theorem Booted.added {v : View} (h : Booted db ds v) {r : Option ℕ} {c : ℤ}
    {O : ℕ → Option Vote} {L : Links ℕ ℤ} (h0 : d ≠ 0)
    (hr : Restored db ds v d r c O L) : Booted db (ds ++ [d]) (View.added v d r c O L) := by
  refine ⟨?_, h.row, h.manager, fun x => ?_, fun dv hdv x hx => ?_, hr.obj,
    fun dv hdv x hx => ?_, hr.links, hr.ring⟩
  · have hf := h.frame
    unfold View.added
    rw [hf]
  · show Function.update v.ref d r x = none ∨ Function.update v.ref d r x = v.gv
    by_cases e : x = d
    · rw [e, Function.update_self]
      exact hr.ref
    · rw [Function.update_of_ne e]
      exact h.ref x
  · show Function.update v.ref d r x = _
    by_cases e : x = d
    · rw [e, Function.update_self, hr.rejoined dv hdv]
      exact if_congr (and_iff_right h0).symm rfl rfl
    · rw [Function.update_of_ne e]
      exact h.rejoined dv hdv x ((List.mem_append.mp hx).resolve_right fun h' =>
        e (List.mem_singleton.mp h'))
  · show Function.update v.choice d c x = _
    by_cases e : x = d
    · rw [e, Function.update_self, hr.choice dv hdv]
      by_cases hm : isMember dv d
      · rw [if_pos hm, if_pos ⟨h0, hm⟩]
      · rw [if_neg hm, if_neg fun h' => hm h'.2]
    · rw [Function.update_of_ne e]
      exact h.choice dv hdv x ((List.mem_append.mp hx).resolve_right fun h' =>
        e (List.mem_singleton.mp h'))

/-- A device that registers again as the master of the open vote has its object. -/
theorem view_restoreMaster (db : Db) (s : State) (d : ℤ) :
    view (if (db.row d).voteMaster ≠ 0 then
      (devRegister s d).setDev d fun D => { D with v := some 0 } else devRegister s d) =
      View.added (view s) d (if (db.row d).voteMaster ≠ 0 then some 0 else none) 0 s.objs
        s.links := by
  by_cases hm : (db.row d).voteMaster ≠ 0
  · have href : (fun x => ((devRegister s d).dev x).v) = Function.update (view s).ref d none :=
      congrArg View.ref (view_devRegister s d)
    have hchoice : (fun x => ((devRegister s d).dev x).choice) =
        Function.update (view s).choice d 0 :=
      congrArg View.choice (view_devRegister s d)
    have hzero : ((devRegister s d).dev d).choice = 0 :=
      (congrFun hchoice d).trans (Function.update_self ..)
    rw [if_pos hm, if_pos hm, view_setDev, href, hchoice, hzero, Function.update_idem,
      Function.update_idem, view_devRegister]
    rfl
  · rw [if_neg hm, if_neg hm, view_devRegister]
    rfl

/-- **A device is recovered:** it registers, and takes its place in the open vote. -/
theorem restoreVote_spec (h : Booted db ds (view s)) (h0 : d ≠ 0) (hd : d ∉ ds) :
    ∃ s' r c O L, restoreVote (devRegister s d) d = some s' ∧
      view s' = View.added (view s) d r c O L ∧ Restored db ds (view s) d r c O L := by
  have hdevs : s.devs = ds := h.devs_eq
  have hcur : (devRegister s d).grp.current = openRecord db := h.current_eq
  have hgv : (devRegister s d).grp.v = (openRecord db).map fun _ => 0 := h.gv_eq
  have hrow : (devRegister s d).row d = db.row d := h.row d h0
  have hlinks : LinksOk (ds ++ [d]) s.next s.links :=
    ⟨h.links.head, fun y x hx => List.mem_append_left _ (h.links.entry y x hx)⟩
  unfold restoreVote
  cases hdv : openRecord db with
  | none =>
    rw [hcur, hgv, hdv]
    have hno : ∀ {P : DbVote → Prop}, ∀ dv', openRecord db = some dv' → P dv' := by
      intro P dv' hdv'
      rw [hdv] at hdv'
      cases hdv'
    exact ⟨_, none, 0, s.objs, s.links, rfl, view_devRegister s d, .inl rfl, hno, hno, h.obj,
      hlinks, hno⟩
  | some dv =>
    rw [hcur, hgv, hdv, hrow]
    simp only [Option.map_some]
    have hgv' : (view s).gv = some 0 := by
      have := h.gv_eq
      rw [hdv] at this
      exact this
    have hone : ∀ {P : DbVote → Prop}, P dv → ∀ dv', openRecord db = some dv' → P dv' :=
      fun hP dv' hdv' => Option.some.inj (hdv.symm.trans hdv') ▸ hP
    have hv₁ := view_restoreMaster db s d
    set r : Option ℕ := if (db.row d).voteMaster ≠ 0 then some 0 else none with hr
    have href : r = none ∨ r = (view s).gv := by
      rw [hr, hgv']
      split_ifs
      · exact .inr rfl
      · exact .inl rfl
    generalize (if (db.row d).voteMaster ≠ 0 then
      (devRegister s d).setDev d fun D => { D with v := some 0 } else devRegister s d) = s₁ at hv₁ ⊢
    by_cases hmem : isMember dv d
    swap
    · rw [if_neg hmem]
      refine ⟨s₁, r, 0, s.objs, s.links, rfl, hv₁, href, hone ?_, hone (if_neg hmem).symm, h.obj,
        hlinks, hone ?_⟩
      · exact hr.trans (if_congr (or_iff_right hmem).symm rfl rfl)
      · rw [relinked_append_of_not hmem]
        exact h.ring dv hdv
    rw [if_pos hmem]
    have hlinks₁ : s₁.links = s.links := congrArg View.links hv₁
    have hobjs₁ : s₁.objs = s.objs := congrArg View.objs hv₁
    have hrow₁ : s₁.row = s.row := congrArg View.row hv₁
    obtain ⟨L, hadd, hL⟩ := hlinks.addTail (h.next_pos hdv)
      (show d ∈ ds ++ [d] from List.mem_append_right _ (List.mem_singleton_self d))
    obtain ⟨L', hadd', hring⟩ := listAddTail_ring (h.ring dv hdv) (x := d)
      fun hin => hd (List.mem_of_mem_filter hin)
    obtain rfl : L = L' := Option.some.inj (hadd.symm.trans hadd')
    obtain ⟨o, ho, hsame⟩ := h.obj dv hdv
    obtain ⟨s₂, hs₂, hv₂⟩ := restoreMember_spec (hlinks₁ ▸ hadd)
    refine ⟨s₂, some 0, (db.row d).voteChoice, Function.update s.objs 0
      (some { o with nMembers := o.nMembers + 1 }), L, hs₂, ?_, .inr hgv'.symm,
      hone (if_pos (.inl hmem)).symm, hone (if_pos hmem).symm,
      hone ⟨_, Function.update_self .., hsame⟩, hL, hone ?_⟩
    · have hchoice : s₁.row d = db.row d := by rw [hrow₁, ← hrow]; rfl
      have ho' : s.objs 0 = some o := ho
      rw [hv₂, hv₁, hobjs₁, ho', hchoice]
      ext1 <;> try rfl
      · exact Function.update_idem ..
      · exact Function.update_idem ..
    · rw [relinked_append h0 hmem]
      exact hring

/-- The record of a device that is recovered is one that is enabled. -/
def enabledIn (db : Db) (l : List ℤ) : List ℤ := l.filter fun d => (db.row d).enabled ≠ 0

theorem enabledIn_cons (db : Db) (d : ℤ) (l : List ℤ) :
    enabledIn db (d :: l) =
      if (db.row d).enabled = 0 then enabledIn db l else d :: enabledIn db l := by
  unfold enabledIn
  by_cases hen : (db.row d).enabled = 0
  · rw [if_pos hen, List.filter_cons_of_neg (by simpa using hen)]
  · rw [if_neg hen, List.filter_cons_of_pos (by simpa using hen)]

/-- One round of the loop of `recover_devs`. -/
theorem recoverDev_spec (h : Booted db ds (view s)) (hz : 0 ∈ ds)
    (hd : (db.row d).enabled ≠ 0 → d ∉ ds) :
    ∃ s', recoverDev s d = some s' ∧ Booted db (ds ++ enabledIn db [d]) (view s') := by
  have hdevs : s.devs = ds := h.devs_eq
  unfold recoverDev
  rw [hdevs, enabledIn_cons]
  by_cases hen : (db.row d).enabled = 0
  · have hrow : (s.row d).enabled = 0 := by
      by_cases h0 : d = 0
      · rw [h0]
        exact h.manager
      · rw [show s.row d = db.row d from h.row d h0, hen]
    rw [if_pos hrow, if_pos hen]
    exact ⟨s, rfl, (List.append_nil ds).symm ▸ h⟩
  · have h0 : d ≠ 0 := by
      rintro rfl
      exact hd hen hz
    rw [show s.row d = db.row d from h.row d h0, if_neg hen, if_neg (hd hen), if_neg hen]
    obtain ⟨s', r, c, O, L, hs', hv, hr⟩ := restoreVote_spec h h0 (hd hen)
    exact ⟨s', hs', hv ▸ h.added h0 hr⟩

/-- **The loop of `recover_devs`** registers the enabled devices. -/
theorem recoverDevs_spec {l : List ℤ} (h : Booted db ds (view s)) (hz : 0 ∈ ds)
    (hl : (ds ++ enabledIn db l).Nodup) :
    ∃ s', l.foldlM recoverDev s = some s' ∧ Booted db (ds ++ enabledIn db l) (view s') := by
  induction l generalizing s ds with
  | nil => exact ⟨s, rfl, (List.append_nil ds).symm ▸ h⟩
  | cons d l ih =>
    have hsplit : enabledIn db (d :: l) = enabledIn db [d] ++ enabledIn db l := by
      unfold enabledIn
      rw [← List.filter_append]
      rfl
    rw [hsplit, ← List.append_assoc] at hl ⊢
    obtain ⟨s₁, hs₁, h₁⟩ := recoverDev_spec (d := d) h hz fun hen hd => by
      rw [enabledIn_cons, if_neg hen, List.append_assoc] at hl
      exact (List.nodup_append.mp hl).2.2 d hd d List.mem_cons_self rfl
    obtain ⟨s', hs', h'⟩ := ih h₁ (List.mem_append_left _ hz) hl
    refine ⟨s', ?_, h'⟩
    rw [List.foldlM_cons, hs₁]
    exact hs'

/-- The devices after a start. -/
def startDevs (db : Db) : List ℤ := 0 :: enabledIn db db.table

/-- The database can be started from: no device takes the id of the manager device, and the members
of the open vote fit. -/
def Startable (db : Db) : Prop :=
  ¬ (0 ∈ db.table ∧ (db.row 0).enabled ≠ 0) ∧
    ∀ dv, openRecord db = some dv → (restoredIds dv).length ≤ memberMax

theorem startDevs_nodup (h : Startable db) : ([0] ++ enabledIn db db.table).Nodup := by
  refine List.nodup_append.mpr ⟨List.nodup_singleton 0, db.nodup.filter _, fun a ha b hb => ?_⟩
  rintro rfl
  rw [List.mem_singleton.mp ha] at hb
  obtain ⟨h1, h2⟩ := List.mem_filter.mp hb
  exact h.1 ⟨h1, by simpa using h2⟩

/-- **The server starts** from a database that can be started from. -/
theorem recoverServer_total (h : Startable db) :
    ∃ s, recoverServer db = some s ∧ Booted db (startDevs db) (view s) := by
  unfold recoverServer
  rw [if_neg h.1]
  rcases groupCreate_cases db with ⟨⟨dv, hdv, hlong⟩, -⟩ | ⟨-, s₀, hs₀, hv₀⟩
  · have := h.2 dv hdv
    omega
  · rw [hs₀, Option.bind_some]
    exact recoverDevs_spec (addManagerDev_booted hv₀) List.mem_cons_self (startDevs_nodup h)

theorem startable_of_recover (hs : recoverServer db = some s) : Startable db := by
  unfold recoverServer at hs
  split at hs
  · cases hs
  rename_i h0
  refine ⟨h0, ?_⟩
  rcases groupCreate_cases db with ⟨-, hnone⟩ | ⟨hfit, -⟩
  · rw [hnone] at hs
    cases hs
  · exact hfit

theorem recoverServer_booted (hs : recoverServer db = some s) :
    Booted db (startDevs db) (view s) := by
  obtain ⟨s', hs', h⟩ := recoverServer_total (startable_of_recover hs)
  rw [hs] at hs'
  cases hs'
  exact h

end Recover

/-! ## The invariant -/

/-- The vote on the record `dv` is open. -/
structure Running (v : View) (dv : DbVote) : Prop where
  record : dv ∈ v.records
  id : v.voteId = dv.id
  fit : dv.members ≠ "all".toList → (idsOf dv).length ≤ memberMax
  members : dv.members ≠ "all".toList → v.memberids = idsOf dv
  nvoted : 0 ≤ v.nvoted
  obj : ∃ a o, v.gv = some a ∧ v.objs a = some o ∧ o.type = dv.type ∧
    o.cnOptions = dv.optionsCount ∧ (v.nvoted = 0 → o.results = fun _ => 0)

/-- What holds in every state. -/
structure Wf (v : View) : Prop where
  links : LinksOk v.devs v.next v.links
  ref_lt : ∀ d a, v.ref d = some a → a < v.next
  gv_lt : ∀ a, v.gv = some a → a < v.next
  db : ∀ dv ∈ v.db, dv ∈ v.records
  saved : v.savedVoteId = v.voteId
  enabled : ∀ d, d ≠ 0 → (v.savedRow d).enabled = (v.row d).enabled
  zero : 0 ∈ v.table → (v.savedRow 0).enabled = 0
  known : ∀ d ∈ v.devs, d ≠ 0 → d ∈ v.table ∧ (v.row d).enabled ≠ 0
  running : ∀ dv, v.current = some dv → Running v dv

section Start
variable {db : Db} {ds : List ℤ} {v : View}

/-- What the start takes over from the database. -/
theorem groupView_frame (db : Db) :
    (groupView db).table = db.table ∧ (groupView db).savedRow = db.row ∧
      (groupView db).records = db.voteTable.records ∧ (groupView db).db = [] ∧
      (groupView db).expect = 0 ∧ (groupView db).nvoted = 0 ∧
      (groupView db).voteId = db.group.voteId ∧ (groupView db).savedVoteId = db.group.voteId := by
  unfold groupView
  cases openRecord db <;> exact ⟨rfl, rfl, rfl, rfl, rfl, rfl, rfl, rfl⟩

theorem openRecord_spec {dv : DbVote} (h : openRecord db = some dv) :
    dv ∈ db.voteTable.records ∧ dv.id = db.group.voteId := by
  unfold openRecord at h
  split at h
  · cases h
  · exact ⟨List.mem_of_find?_eq_some h, by simpa using List.find?_some h⟩

/-- **The invariant holds from the start.** -/
theorem Booted.wf (h : Booted db (startDevs db) v) (hs : Startable db) : Wf v := by
  obtain ⟨htable, hsaved, hrecords, hdb, hexpect, hnvoted, hid, hsid⟩ := groupView_frame db
  have hgv_lt : ∀ a, v.gv = some a → a < v.next := by
    intro a ha
    rw [h.gv_eq] at ha
    obtain ⟨dv, hdv, rfl⟩ := Option.map_eq_some_iff.mp ha
    exact h.next_pos hdv
  refine ⟨?_, fun d a ha => ?_, hgv_lt, ?_, ?_, fun d hd => ?_, fun hz => ?_, fun d hd h0 => ?_,
    fun dv hdv => ?_⟩
  · rw [h.devs_eq]
    exact h.links
  · rcases h.ref d with hn | hg
    · rw [hn] at ha
      cases ha
    · exact hgv_lt a (hg ▸ ha)
  · rw [h.frame]
    show ∀ dv ∈ (groupView db).db, _
    rw [hdb]
    exact fun dv hdv => absurd hdv List.not_mem_nil
  · rw [h.frame]
    exact hsid.trans hid.symm
  · have : v.savedRow = db.row := by rw [h.frame]; exact hsaved
    rw [this, h.row d hd]
  · have h1 : v.savedRow = db.row := by rw [h.frame]; exact hsaved
    have h2 : v.table = db.table := by rw [h.frame]; exact htable
    rw [h1]
    by_contra hne
    exact hs.1 ⟨h2 ▸ hz, hne⟩
  · have h2 : v.table = db.table := by rw [h.frame]; exact htable
    rw [h.devs_eq] at hd
    obtain ⟨h3, h4⟩ := List.mem_filter.mp ((List.mem_cons.mp hd).resolve_left h0)
    rw [h2, h.row d h0]
    exact ⟨h3, by simpa using h4⟩
  · rw [h.current_eq] at hdv
    obtain ⟨hmem, hidv⟩ := openRecord_spec hdv
    obtain ⟨o, ho, hsame⟩ := h.obj dv hdv
    have hids : v.memberids = restoredIds dv := by rw [h.frame, groupView_some hdv]
    have hfit := hs.2 dv hdv
    unfold restoredIds at hids hfit
    refine ⟨?_, ?_, fun hall => ?_, fun hall => ?_, ?_, 0, o, ?_, ho, hsame.1, hsame.2.1,
      fun _ => hsame.2.2⟩
    · have : v.records = db.voteTable.records := by rw [h.frame]; exact hrecords
      rw [this]
      exact hmem
    · have : v.voteId = db.group.voteId := by rw [h.frame]; exact hid
      rw [this, hidv]
    · rwa [if_neg hall] at hfit
    · rwa [if_neg hall] at hids
    · have : v.nvoted = 0 := by rw [h.frame]; exact hnvoted
      omega
    · rw [h.gv_eq, hdv]
      rfl

end Start

/-! ## Steps -/

section Steps
variable {s s' : State}

/-- A write of records keeps the invariant, if the `enabled` fields stay. -/
theorem Wf.rows {v : View} (h : Wf v) {R S : ℤ → DbDevice}
    (hR : ∀ d, (R d).enabled = (v.row d).enabled)
    (hS : ∀ d, (S d).enabled = (v.savedRow d).enabled ∨ d ≠ 0 ∧ (S d).enabled = (v.row d).enabled) :
    Wf { v with row := R, savedRow := S } := by
  refine { h with
    enabled := fun d h0 => ?_
    zero := fun hz => ?_
    known := fun d hd h0 => ?_
    running := fun dv hdv => ?_ }
  · rcases hS d with h1 | ⟨-, h1⟩
    · exact h1.trans ((h.enabled d h0).trans (hR d).symm)
    · exact h1.trans (hR d).symm
  · rcases hS 0 with h1 | ⟨h0, -⟩
    · exact h1.trans (h.zero hz)
    · exact absurd rfl h0
  · exact ⟨(h.known d hd h0).1, (hR d).symm ▸ (h.known d hd h0).2⟩
  · exact { h.running dv hdv with }

/-- The record that a handler changes and saves at its end. -/
theorem saved_enabled {v : View} {d : ℤ} {R : ℤ → DbDevice}
    (hR : ∀ x, (R x).enabled = (v.row x).enabled) (x : ℤ) :
    ((if d = 0 then v.savedRow else Function.update v.savedRow d (R d)) x).enabled =
        (v.savedRow x).enabled ∨
      x ≠ 0 ∧ ((if d = 0 then v.savedRow else Function.update v.savedRow d (R d)) x).enabled =
        (v.row x).enabled := by
  by_cases h0 : d = 0
  · rw [if_pos h0]
    exact .inl rfl
  rw [if_neg h0]
  by_cases e : x = d
  · subst e
    rw [Function.update_self]
    exact .inr ⟨h0, hR x⟩
  · rw [Function.update_of_ne e]
    exact .inl rfl

theorem Wf.started {v : View} (h : Wf v) {d : ℤ} {dv : DbVote} {ids : List ℤ}
    {R : ℤ → DbDevice} {o : Vote} {L : Links ℕ ℤ} (hdv : dv ∈ v.db)
    (hfit : ids.length ≤ memberMax) (hids : dv.members ≠ "all".toList → ids = idsOf dv)
    (hR : ∀ x, (R x).enabled = (v.row x).enabled) (ho : SameCounts o (zeroVote dv))
    (hL : LinksOk v.devs (v.next + 1) L) :
    Wf (v.started d dv ids R (if d = 0 then v.savedRow
      else Function.update v.savedRow d (R d)) o L) := by
  have hrows := h.rows hR (saved_enabled (d := d) hR)
  refine ⟨hL, fun x a ha => ?_, fun a ha => ?_, h.db, rfl, hrows.enabled, hrows.zero, hrows.known,
    fun dv' hdv' => ?_⟩
  · replace ha : (if (x ∈ ids ∧ x ∈ v.devs) ∨ x = d then some v.next else v.ref x) = some a := ha
    show a < v.next + 1
    split_ifs at ha
    · cases ha
      omega
    · have := h.ref_lt x a ha
      omega
  · cases ha
    exact Nat.lt_succ_self _
  · cases hdv'
    refine ⟨h.db dv hdv, rfl, fun hall => hids hall ▸ hfit, fun hall => hids hall, le_rfl,
      v.next, o, rfl, Function.update_self .., ho.1, ho.2.1, fun _ => ho.2.2⟩

/-- A rejected `start` has changed the members of no vote. -/
theorem Wf.rejected {v : View} (h : Wf v) (hcur : v.current = none) (ids : List ℤ) :
    Wf { v with memberids := ids, nvoted := 0 } :=
  { h with running := fun dv hdv => by rw [show v.current = some dv from hdv] at hcur; cases hcur }

theorem Wf.counted {v : View} (h : Wf v) {d : ℤ} {a : ℕ} {o o' : Vote} {p : Str} {c : ℤ}
    {R : ℤ → DbDevice} (hobj : v.objs a = some o) (hb : Ballot o o' p)
    (hR : ∀ x, (R x).enabled = (v.row x).enabled) :
    Wf (v.counted d a o' c R (if d = 0 then v.savedRow
      else Function.update v.savedRow d (R d))) := by
  have hrows := h.rows hR (saved_enabled (d := d) hR)
  refine ⟨h.links, h.ref_lt, h.gv_lt, h.db, rfl, hrows.enabled, hrows.zero, hrows.known,
    fun dv hdv => ?_⟩
  have hrun := h.running dv hdv
  obtain ⟨b, ob, hgv, hob, htype, hcn, -⟩ := hrun.obj
  have hpos := hrun.nvoted
  refine ⟨hrun.record, hrun.id, hrun.fit, hrun.members, ?_, b, ?_⟩
  · show 0 ≤ v.nvoted + 1
    omega
  -- a ballot on another object leaves the one of the open vote alone
  by_cases e : b = a
  · subst e
    rw [hobj] at hob
    cases hob
    refine ⟨o', hgv, Function.update_self .., hb.type.trans htype, hb.cnOptions.trans hcn, ?_⟩
    intro h0
    replace h0 : v.nvoted + 1 = 0 := h0
    omega
  · refine ⟨ob, hgv, (Function.update_of_ne e _ _).trans hob, htype, hcn, fun h0 => ?_⟩
    replace h0 : v.nvoted + 1 = 0 := h0
    omega

theorem Wf.shown {v : View} (h : Wf v) {d : ℤ} (a : ℕ) (ms : List ℤ) {R : ℤ → DbDevice}
    (hR : ∀ x, (R x).enabled = (v.row x).enabled) :
    Wf (v.shown d a ms R (if d = 0 then v.savedRow
      else Function.update v.savedRow d (R d))) := by
  have hrows := h.rows hR (saved_enabled (d := d) hR)
  refine ⟨h.links, fun x b hb => ?_, fun b hb => ?_, h.db, rfl, hrows.enabled, hrows.zero,
    hrows.known, fun dv hdv => ?_⟩
  · replace hb : (if x ∈ ms ∨ x = d then none else v.ref x) = some b := hb
    split_ifs at hb
    exact h.ref_lt x b hb
  · cases hb
  · cases hdv

theorem Wf.stopped {v : View} (h : Wf v) : Wf v.stopped :=
  ⟨h.links, h.ref_lt, h.gv_lt, fun _ hdv => absurd hdv List.not_mem_nil, rfl, h.enabled, h.zero,
    h.known, fun _ hdv => by cases hdv⟩

/-- The rows after a device has been recorded. -/
theorem Wf.recorded {v : View} (h : Wf v) {d : ℤ} {T : List ℤ} {R S : ℤ → DbDevice}
    (hr : Recorded v d T R S) :
    Wf { v with table := T, row := R, savedRow := S } ∧ d ∈ T ∧ (R d).enabled ≠ 0 := by
  have h0 := hr.nonzero
  obtain ⟨ht, hen, rfl, rfl, hS⟩ | ⟨ht, rfl, rfl, rfl⟩ := hr.cases
  · refine ⟨h.rows (fun _ => rfl) fun x => ?_, ht, hen⟩
    rcases hS with rfl | rfl
    · exact .inl rfl
    · by_cases e : x = d
      · rw [e, Function.update_self]
        exact .inr ⟨h0, rfl⟩
      · rw [Function.update_of_ne e]
        exact .inl rfl
  · refine ⟨?_, List.mem_append_right _ (List.mem_singleton_self d), ?_⟩
    · refine { h with
        enabled := fun x hx => ?_
        zero := fun hz => ?_
        known := fun x hx hx0 => ?_
        running := fun dv hdv => { h.running dv hdv with } }
      · show (Function.update v.savedRow d newRow x).enabled =
          (Function.update v.row d newRow x).enabled
        by_cases e : x = d
        · rw [e, Function.update_self, Function.update_self]
        · rw [Function.update_of_ne e, Function.update_of_ne e]
          exact h.enabled x hx
      · show (Function.update v.savedRow d newRow 0).enabled = 0
        rw [Function.update_of_ne (Ne.symm h0)]
        exact h.zero ((List.mem_append.mp hz).resolve_right fun h' =>
          h0 (List.mem_singleton.mp h').symm)
      · obtain ⟨h1, h2⟩ := h.known x hx hx0
        refine ⟨List.mem_append_left _ h1, ?_⟩
        show (Function.update v.row d newRow x).enabled ≠ 0
        have hxd : x ≠ d := by
          rintro rfl
          exact ht h1
        rw [Function.update_of_ne hxd]
        exact h2
    · rw [Function.update_self]
      exact one_ne_zero

theorem Wf.registered {v v' : View} (h : Wf v) {d : ℤ} (he : RegEffect v d v') : Wf v' := by
  cases he with
  | ignored => exact h
  | known hr hd => exact (h.recorded hr).1
  | joined hr hd =>
    obtain ⟨h', ht, hen⟩ := h.recorded hr
    refine ⟨⟨h.links.head, fun y x hx => List.mem_append_left _ (h.links.entry y x hx)⟩,
      fun x a ha => ?_, h'.gv_lt, h'.db, h'.saved, h'.enabled, h'.zero, fun x hx hx0 => ?_,
      fun dv hdv => { h'.running dv hdv with }⟩
    · replace ha : Function.update v.ref d none x = some a := ha
      by_cases e : x = d
      · rw [e, Function.update_self] at ha
        cases ha
      · rw [Function.update_of_ne e] at ha
        exact h.ref_lt x a ha
    · rcases List.mem_append.mp hx with hx | hx
      · exact h'.known x hx hx0
      · rw [List.mem_singleton.mp hx]
        exact ⟨ht, hen⟩

theorem memberList_eq {dv : DbVote} (hall : dv.members ≠ "all".toList) :
    memberList s dv = idsOf dv := by
  unfold memberList
  rw [if_neg hall]

/-- **Every command keeps the invariant.** -/
theorem cmdVotectrl_wf (h : Wf (view s)) {cmd : Cmd} {r : Reply State}
    (hr : cmdVotectrl s cmd = some r) : Wf (view r.2.2) := by
  obtain ⟨code, c, s'⟩ := r
  have hmap : (cmdVotectrl s cmd).map (fun r => (r.1, view r.2.2)) = some (code, view s') := by
    rw [hr]
    rfl
  obtain ⟨code', c', -, heq⟩ | ⟨-, scmd, l, -, hcases⟩ := votectrl_cases s cmd
  · rw [heq] at hr
    cases hr
    exact h
  show Wf (view s')
  rcases hcases with ⟨-, he⟩ | ⟨-, he⟩ | ⟨-, he⟩ | ⟨-, he⟩ | ⟨-, he⟩ | ⟨-, he⟩ | ⟨-, he⟩ |
    ⟨-, he⟩ | ⟨-, he⟩
  · rw [he, view_query] at hmap
    generalize view s' = v at hmap ⊢
    cases hmap
    exact { h with db := fun _ hdv => hdv, running := fun dv hdv => { h.running dv hdv with } }
  · rw [show view s' = view s from view_select (he ▸ hr)]
    exact h
  · have heff := start_effect cmd cmd.deviceId l h.links
    rw [← he, hmap] at heff
    generalize view s' = v at heff ⊢
    cases heff with
    | refused => exact h
    | rejected _ _ hcur => exact h.rejected hcur _
    | started _ _ hdv hfit hR ho hL =>
      exact h.started hdv hfit memberList_eq hR ho hL
  · have heff := result_effect s cmd cmd.deviceId l
    rw [← he, hmap] at heff
    generalize view s' = v at heff ⊢
    cases heff with
    | refused => exact h
    | counted _ _ _ hobj _ hb hR => exact h.counted hobj hb hR
  · rw [show view s' = view s from view_status (he ▸ hr)]
    exact h
  · have heff := show_effect cmd cmd.deviceId l h.links
    rw [← he, hmap] at heff
    generalize view s' = v at heff ⊢
    cases heff with
    | refused => exact h
    | shown _ _ _ _ _ _ hR => exact h.shown _ _ hR
  · rw [he, view_stop] at hmap
    generalize view s' = v at hmap ⊢
    cases hmap
    exact h.stopped
  · obtain ⟨r', hr', hv⟩ := view_remind s cmd l
    rw [he, hr'] at hr
    cases hr
    exact hv ▸ h
  · obtain ⟨r', hr', hv⟩ := view_forbid s cmd l
    rw [he, hr'] at hr
    cases hr
    exact hv ▸ h

theorem step_wf (h : Wf (view s)) {e : Event} (hs : step s e = some s') : Wf (view s') := by
  cases e with
  | votectrl cmd =>
    obtain ⟨r, hr, rfl⟩ := Option.map_eq_some_iff.mp hs
    exact cmdVotectrl_wf h hr
  | reg d moved =>
    cases hs
    exact h.registered (reg_effect s d moved)
  | save d =>
    cases hs
    rw [view_deviceSave]
    exact h.rows (fun _ => rfl) (saved_enabled (v := view s) (R := s.row) fun _ => rfl)

/-- **The invariant holds in every state reached.** -/
theorem wf_of_run {db : Db} {es : List Event} (hs : recoverServer db = some s)
    (hrun : run step s es = some s') : Wf (view s') := by
  exact of_run (I := fun s => Wf (view s)) (fun s e s' h _ hs' => step_wf h hs')
    ((recoverServer_booted hs).wf (startable_of_recover hs)) (guarded_true s es) hrun

end Steps

end GSConferencing.Serv.VoteInv
