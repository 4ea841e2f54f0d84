import GSConferencing.Serv.Votectrl

/-!
# What the vote commands do

`View` is the part of the state the votes live in.  `start_effect`, `result_effect`, `show_effect`
and `view_reg` say what each command can do to it and when it has no result (`StartSafe`,
`ResultSafe`, `ShowSafe`); `votectrl_cases` lists the ways through `cmd_votectrl`.
-/

namespace GSConferencing.Serv.VoteEffect

open GSConferencing.Lib.CyclicList GSConferencing.Include.ListHead
open GSConferencing.Serv.Strutil GSConferencing.Serv.CmdHandler GSConferencing.Serv.Votectrl

/-! ## The view -/

/-- The devices with their references and choices, the records in memory and in the database, the
vote of the group, and the vote objects with their lists. -/
@[ext] structure View where
  devs : List ℤ
  ref : ℤ → Option ℕ
  choice : ℤ → ℤ
  table : List ℤ
  row : ℤ → DbDevice
  savedRow : ℤ → DbDevice
  records : List DbVote
  db : List DbVote
  current : Option DbVote
  expect : ℤ
  nvoted : ℤ
  memberids : List ℤ
  gv : Option ℕ
  voteId : ℤ
  savedVoteId : ℤ
  objs : ℕ → Option Vote
  next : ℕ
  links : Links ℕ ℤ

def view (s : State) : View where
  devs := s.devs
  ref := fun d => (s.dev d).v
  choice := fun d => (s.dev d).choice
  table := s.table
  row := s.row
  savedRow := s.savedRow
  records := s.voteTable.records
  db := s.db
  current := s.grp.current
  expect := s.grp.expect
  nvoted := s.grp.nvoted
  memberids := s.grp.memberids
  gv := s.grp.v
  voteId := s.grp.dbData.voteId
  savedVoteId := s.savedGroup.voteId
  objs := s.objs
  next := s.next
  links := s.links

namespace View

variable (v : View) (d : ℤ)

/-- A vote on the record `dv` with the members `ids` starts; `d` starts it. -/
def started (dv : DbVote) (ids : List ℤ) (R S : ℤ → DbDevice) (o : Vote) (L : Links ℕ ℤ) : View :=
  { v with
    ref := fun x => if (x ∈ ids ∧ x ∈ v.devs) ∨ x = d then some v.next else v.ref x
    choice := fun x => if x ∈ ids ∧ x ∈ v.devs then -1 else v.choice x
    row := R, savedRow := S, current := some dv, expect := dv.expect, nvoted := 0
    memberids := ids, gv := some v.next, voteId := dv.id, savedVoteId := dv.id
    objs := Function.update v.objs v.next (some o), next := v.next + 1, links := L }

/-- A ballot of the device `d` is counted in the object `a`, which becomes `o`. -/
def counted (a : ℕ) (o : Vote) (c : ℤ) (R S : ℤ → DbDevice) : View :=
  { v with
    objs := Function.update v.objs a (some o), choice := Function.update v.choice d c
    row := R, savedRow := S, nvoted := v.nvoted + 1, savedVoteId := v.voteId }

/-- The result of the object `a` is shown: the devices `ms` and the sender `d` drop it. -/
def shown (a : ℕ) (ms : List ℤ) (R S : ℤ → DbDevice) : View :=
  { v with
    ref := fun x => if x ∈ ms ∨ x = d then none else v.ref x
    gv := none, objs := Function.update v.objs a none, row := R, savedRow := S
    current := none, memberids := [], voteId := 0, savedVoteId := 0 }

/-- The vote is stopped. -/
def stopped : View :=
  { v with current := none, memberids := [], voteId := 0, savedVoteId := 0, db := [] }

end View

section Frames
variable (s : State) (d : ℤ)

@[simp] theorem view_send (o : Dev.Out) : view (s.send o) = view s := rfl

theorem view_deviceSave :
    view (s.deviceSave d) = { view s with
      savedRow := if d = 0 then s.savedRow else Function.update s.savedRow d (s.row d) } := by
  unfold State.deviceSave
  split <;> rfl

theorem view_deviceCmd (cmd : Cmd) : view (s.deviceCmd d cmd) = view s := by
  unfold State.deviceCmd
  split <;> rfl

theorem view_sendCmdToDevId (cmd : Cmd) : view (s.sendCmdToDevId d cmd) = view s := by
  unfold State.sendCmdToDevId
  split
  · exact view_deviceCmd s d cmd
  · rfl

/-- A device that changes its reference and its choice, and no other. -/
theorem view_setDev (f : Device → Device) :
    view (s.setDev d f) = { view s with
      ref := Function.update (fun x => (s.dev x).v) d (f (s.dev d)).v
      choice := Function.update (fun x => (s.dev x).choice) d (f (s.dev d)).choice } := by
  ext1 <;> try rfl
  · exact Function.comp_update Device.v s.dev d (f (s.dev d))
  · exact Function.comp_update Device.choice s.dev d (f (s.dev d))

/-- A write to another field leaves the `enabled` fields. -/
theorem enabled_update {R : ℤ → DbDevice} {d : ℤ} {r : DbDevice} (hr : r.enabled = (R d).enabled)
    (x : ℤ) : (Function.update R d r x).enabled = (R x).enabled := by
  by_cases e : x = d
  · rw [e, Function.update_self, hr]
  · rw [Function.update_of_ne e]

end Frames

/-! ## `start` -/

/-- Every head of a list has been initialised, and the `next` fields lead to registered devices. -/
structure LinksOk (devs : List ℤ) (next : ℕ) (L : Links ℕ ℤ) : Prop where
  head : ∀ a, a < next → L.prev (.head a) ≠ none
  entry : ∀ y x, L.next y = some (.entry x) → x ∈ devs

theorem LinksOk.init {devs : List ℤ} {next : ℕ} {L : Links ℕ ℤ} (h : LinksOk devs next L) :
    LinksOk devs (next + 1) (L.init (.head next)) := by
  constructor
  · intro a ha
    unfold Links.init
    rw [Links.setPrev_prev]
    split_ifs with e
    · exact Option.some_ne_none _
    · refine h.head a ?_
      have : a ≠ next := fun h' => e (h' ▸ rfl)
      omega
  · intro y x hx
    unfold Links.init at hx
    rw [Links.setPrev_next, Links.setNext_next] at hx
    split_ifs at hx
    · cases hx
    · exact h.entry y x hx

theorem LinksOk.addTail {devs : List ℤ} {next a : ℕ} {L : Links ℕ ℤ} {d : ℤ}
    (h : LinksOk devs next L) (ha : a < next) (hd : d ∈ devs) :
    ∃ L', listAddTail L (.entry d) (.head a) = some L' ∧ LinksOk devs next L' := by
  obtain ⟨p, hp⟩ := Option.ne_none_iff_exists'.mp (h.head a ha)
  refine ⟨L.link (.entry d) p (.head a), by rw [listAddTail, hp]; rfl, ?_, ?_⟩
  · intro b hb
    rcases eq_or_ne b a with rfl | e
    · simp [Links.link]
    · simpa [Links.link, e] using h.head b hb
  · intro y x hx
    unfold Links.link at hx
    simp only [Links.setNext_next, Links.setPrev_next] at hx
    split_ifs at hx with h1 h2
    · cases hx
      exact hd
    · cases hx
    · exact h.entry y x hx

/-- The view after the members `ids` that are registered have got the object `a`. -/
def View.given (v : View) (a : ℕ) (ids : List ℤ) (R : ℤ → DbDevice) (o : Vote) (L : Links ℕ ℤ) :
    View :=
  { v with
    ref := fun x => if x ∈ ids ∧ x ∈ v.devs then some a else v.ref x
    choice := fun x => if x ∈ ids ∧ x ∈ v.devs then -1 else v.choice x
    row := R, objs := Function.update v.objs a (some o), links := L }

/-- The counters of the object are those of `o`. -/
def SameCounts (o' o : Vote) : Prop :=
  o'.type = o.type ∧ o'.cnOptions = o.cnOptions ∧ o'.results = o.results

/-- The state after a registered member has got the object `a`. -/
def memberStarted (s : State) (a : ℕ) (m : ℤ) (L : Links ℕ ℤ) : State :=
  (((({ s with links := L } : State).setDev m fun D => { D with v := some a, choice := -1 }).setRow
    m fun r => { r with voteChoice := -1 }).setVote a fun v =>
      { v with nMembers := v.nMembers + 1 })

/-- One round of the loop over the members. -/
theorem startMember_spec {s : State} {a : ℕ} {o : Vote} (m : ℤ)
    (hL : LinksOk s.devs s.next s.links) (ha : a < s.next) (ho : s.objs a = some o) :
    ∃ s' R o' L, startMember a s m = some s' ∧ view s' = (view s).given a [m] R o' L ∧
      (∀ x, (R x).enabled = (s.row x).enabled) ∧ SameCounts o' o ∧ LinksOk s.devs s.next L := by
  have hobjs : Function.update s.objs a ((s.objs a).map fun v =>
      { v with nMembers := v.nMembers + 1 }) =
      Function.update s.objs a (some { o with nMembers := o.nMembers + 1 }) := by
    rw [ho]
    rfl
  by_cases hm : m ∈ s.devs
  · obtain ⟨L, hadd, hL'⟩ := hL.addTail ha hm
    refine ⟨memberStarted s a m L, Function.update s.row m { s.row m with voteChoice := -1 },
      { o with nMembers := o.nMembers + 1 }, L, ?_, ?_, ?_, ⟨rfl, rfl, rfl⟩, hL'⟩
    · unfold startMember deviceVoteStart voteAddDevice
      rw [if_pos hm, hadd]
      rfl
    · ext1 <;> try rfl
      · funext x
        show (Function.update s.dev m { s.dev m with v := some a, choice := -1 } x).v =
          if x ∈ [m] ∧ x ∈ s.devs then some a else (s.dev x).v
        by_cases e : x = m
        · rw [e, Function.update_self, if_pos ⟨List.mem_singleton_self m, hm⟩]
        · rw [Function.update_of_ne e, if_neg fun h => e (List.mem_singleton.mp h.1)]
      · funext x
        show (Function.update s.dev m { s.dev m with v := some a, choice := -1 } x).choice =
          if x ∈ [m] ∧ x ∈ s.devs then -1 else (s.dev x).choice
        by_cases e : x = m
        · rw [e, Function.update_self, if_pos ⟨List.mem_singleton_self m, hm⟩]
        · rw [Function.update_of_ne e, if_neg fun h => e (List.mem_singleton.mp h.1)]
      · exact hobjs
    · intro x
      by_cases e : x = m
      · rw [e, Function.update_self]
      · rw [Function.update_of_ne e]
  · refine ⟨s.setVote a fun v => { v with nMembers := v.nMembers + 1 }, s.row,
      { o with nMembers := o.nMembers + 1 }, s.links, ?_, ?_, fun _ => rfl, ⟨rfl, rfl, rfl⟩, hL⟩
    · unfold startMember
      rw [if_neg hm]
      rfl
    · have hno : ∀ x, ¬ (x ∈ [m] ∧ x ∈ s.devs) := by
        rintro x ⟨h1, h2⟩
        exact hm (List.mem_singleton.mp h1 ▸ h2)
      ext1 <;> try rfl
      · funext x
        exact (if_neg (hno x)).symm
      · funext x
        exact (if_neg (hno x)).symm
      · exact hobjs

theorem given_given (v : View) (a : ℕ) (m : ℤ) (ids : List ℤ) (R R' : ℤ → DbDevice) (o o' : Vote)
    (L L' : Links ℕ ℤ) :
    (v.given a [m] R o L).given a ids R' o' L' = v.given a (m :: ids) R' o' L' := by
  have hiff : ∀ x, (x ∈ ids ∧ x ∈ v.devs) ∨ (x ∈ [m] ∧ x ∈ v.devs) ↔
      x ∈ m :: ids ∧ x ∈ v.devs := fun x => by
    simp only [List.mem_cons, List.not_mem_nil, or_false]
    rw [← or_and_right, or_comm]
  ext1 <;> try rfl
  · funext x
    exact (ite_or _ _ _ _).symm.trans (if_congr (hiff x) rfl rfl)
  · funext x
    exact (ite_or _ _ _ _).symm.trans (if_congr (hiff x) rfl rfl)
  · exact Function.update_idem ..

/-- The loop over the members gives the registered ones the object. -/
theorem startMembers_spec {s : State} {a : ℕ} {o : Vote} (ids : List ℤ)
    (hL : LinksOk s.devs s.next s.links) (ha : a < s.next) (ho : s.objs a = some o) :
    ∃ s' R o' L, ids.foldlM (startMember a) s = some s' ∧ view s' = (view s).given a ids R o' L ∧
      (∀ x, (R x).enabled = (s.row x).enabled) ∧ SameCounts o' o ∧ LinksOk s.devs s.next L := by
  induction ids generalizing s o with
  | nil =>
    have hobjs : Function.update s.objs a (some o) = s.objs := by
      rw [← ho, Function.update_eq_self]
    refine ⟨s, s.row, o, s.links, rfl, ?_, fun _ => rfl, ⟨rfl, rfl, rfl⟩, hL⟩
    simp [View.given, view, hobjs]
  | cons m ids ih =>
    obtain ⟨s₁, R₁, o₁, L₁, hstep, hv₁, hR₁, ho₁, hL₁⟩ := startMember_spec m hL ha ho
    have hdevs : s₁.devs = s.devs := congrArg View.devs hv₁
    have hnext : s₁.next = s.next := congrArg View.next hv₁
    have hlinks : s₁.links = L₁ := congrArg View.links hv₁
    have hobj : s₁.objs a = some o₁ :=
      (congrFun (congrArg View.objs hv₁) a).trans (Function.update_self ..)
    have hrow : s₁.row = R₁ := congrArg View.row hv₁
    obtain ⟨s', R, o', L, hs', hv, hR, ho', hL'⟩ :=
      ih (by rw [hdevs, hnext, hlinks]; exact hL₁) (hnext ▸ ha) hobj
    refine ⟨s', R, o', L, ?_, ?_, fun x => ?_, ?_, ?_⟩
    · rw [List.foldlM_cons, hstep]
      exact hs'
    · rw [hv, hv₁, given_given]
    · rw [hR x, hrow, hR₁ x]
    · exact ⟨ho'.1.trans ho₁.1, ho'.2.1.trans ho₁.2.1, ho'.2.2.trans ho₁.2.2⟩
    · rw [hdevs, hnext] at hL'
      exact hL'

/-- The zeroed object of a vote on the record `dv`. -/
def zeroVote (dv : DbVote) : Vote where
  type := dv.type
  cnOptions := dv.optionsCount
  nMembers := 0
  results := fun _ => 0

/-- `start` of an existing number has a result: the number is not negative, and the members fit. -/
def StartSafe (s : State) (args : List Str) : Prop :=
  s.grp.current = none → ∀ p l, args = p :: l → atoi p < s.db.length →
    0 ≤ atoi p ∧ ∀ dv, s.db[(atoi p).toNat]? = some dv → (memberList s dv).length ≤ memberMax

/-- The effect of `votectrl start` with the arguments `args`. -/
inductive StartEffect (s : State) (d : ℤ) (args : List Str) : Option (ℤ × View) → Prop
  | stuck (h : ¬ StartSafe s args) : StartEffect s d args none
  | refused {code : ℤ} (hsafe : StartSafe s args) (hcode : code ≠ 0) :
      StartEffect s d args (some (code, view s))
  | rejected {code : ℤ} {ids : List ℤ} (hsafe : StartSafe s args) (hcode : code ≠ 0)
      (hcur : s.grp.current = none) :
      StartEffect s d args (some (code, { view s with memberids := ids, nvoted := 0 }))
  | started {dv : DbVote} {R : ℤ → DbDevice} {o : Vote} {L : Links ℕ ℤ}
      (hsafe : StartSafe s args) (hcur : s.grp.current = none) (hdv : dv ∈ s.db)
      (hfit : (memberList s dv).length ≤ memberMax)
      (hR : ∀ x, (R x).enabled = (s.row x).enabled)
      (ho : SameCounts o (zeroVote dv))
      (hL : LinksOk s.devs (s.next + 1) L) :
      StartEffect s d args (some (0, (view s).started d dv (memberList s dv) R
        (if d = 0 then s.savedRow else Function.update s.savedRow d (R d)) o L))

theorem StartEffect.safe {s : State} {d : ℤ} {args : List Str} {r : ℤ × View}
    (h : StartEffect s d args (some r)) : StartSafe s args := by
  cases h with
  | refused hsafe => exact hsafe
  | rejected hsafe => exact hsafe
  | started hsafe => exact hsafe

/-- The group and the sender have the new object. -/
def newVote (s : State) (d : ℤ) (dv : DbVote) (num : ℤ) : State :=
  let s := s.setGrp fun g => { g with current := some dv, currNum := num, expect := dv.expect }
  let (a, s) := voteNew s dv.type dv.optionsCount
  (s.setGrp fun g => { g with v := some a }).setDev d fun D => { D with v := some a }

theorem beginVote_eq (s : State) (d : ℤ) (dv : DbVote) (num : ℤ) :
    beginVote s d dv num = s.grp.memberids.foldlM (startMember s.next) (newVote s d dv num) := rfl

theorem view_newVote (s : State) (d : ℤ) (dv : DbVote) (num : ℤ) :
    view (newVote s d dv num) = { view s with
      ref := fun x => if x = d then some s.next else (s.dev x).v
      current := some dv, expect := dv.expect, gv := some s.next
      objs := Function.update s.objs s.next (some (zeroVote dv)), next := s.next + 1
      links := s.links.init (.head s.next) } := by
  ext1 <;> try rfl
  · funext x
    show (Function.update s.dev d { s.dev d with v := some s.next } x).v =
      if x = d then some s.next else (s.dev x).v
    by_cases e : x = d
    · rw [e, Function.update_self, if_pos rfl]
    · rw [Function.update_of_ne e, if_neg e]
  · funext x
    show (Function.update s.dev d { s.dev d with v := some s.next } x).choice = (s.dev x).choice
    by_cases e : x = d
    · rw [e, Function.update_self]
    · rw [Function.update_of_ne e]

/-- A vote that begins gives its object to the sender and to the registered members. -/
theorem beginVote_spec {s : State} (d : ℤ) (dv : DbVote) (num : ℤ)
    (hL : LinksOk s.devs s.next s.links) :
    ∃ s' R o L, beginVote s d dv num = some s' ∧
      view s' = { view s with
        ref := fun x => if (x ∈ s.grp.memberids ∧ x ∈ s.devs) ∨ x = d then some s.next
          else (s.dev x).v
        choice := fun x => if x ∈ s.grp.memberids ∧ x ∈ s.devs then -1 else (s.dev x).choice
        row := R, current := some dv, expect := dv.expect, gv := some s.next
        objs := Function.update s.objs s.next (some o), next := s.next + 1, links := L } ∧
      (∀ x, (R x).enabled = (s.row x).enabled) ∧ SameCounts o (zeroVote dv) ∧
      LinksOk s.devs (s.next + 1) L := by
  have hv₁ := view_newVote s d dv num
  have hobj : (newVote s d dv num).objs s.next = some (zeroVote dv) := Function.update_self ..
  obtain ⟨s', R, o, L, hs', hv, hR, ho, hL'⟩ := startMembers_spec (s := newVote s d dv num)
    s.grp.memberids hL.init (Nat.lt_succ_self s.next) hobj
  refine ⟨s', R, o, L, (beginVote_eq s d dv num).trans hs', ?_, hR, ho, hL'⟩
  rw [hv, hv₁]
  ext1 <;> try rfl
  · funext x
    exact (ite_or _ _ _ _).symm
  · show Function.update (Function.update s.objs s.next _) s.next _ = _
    rw [Function.update_idem]

theorem prepareVote_eq (s : State) (dv : DbVote) :
    (memberMax < (memberList s dv).length ∧ prepareVote s dv = none) ∨
    ((memberList s dv).length ≤ memberMax ∧ ∃ names, prepareVote s dv = some (s.setGrp fun g =>
      { g with memberids := memberList s dv, membernames := names, nvoted := 0 })) := by
  unfold prepareVote
  by_cases h : memberMax < (memberList s dv).length
  · exact .inl ⟨h, if_pos h⟩
  · exact .inr ⟨by omega, _, if_neg h⟩

/-- What `start` writes at its end: the sender is the master, and the vote is saved. -/
theorem view_saveStarted (s : State) (d id : ℤ) :
    view (((s.setRow d fun r => { r with voteMaster := 1 }).deviceSave d).setGrp
        (fun g => { g with dbData := { g.dbData with voteId := id } })).groupSave =
      { view s with
        row := Function.update s.row d { s.row d with voteMaster := 1 }
        voteId := id, savedVoteId := id
        savedRow := if d = 0 then s.savedRow
          else Function.update s.savedRow d
            (Function.update s.row d { s.row d with voteMaster := 1 } d) } := by
  unfold State.deviceSave
  split <;> rfl

theorem start_effect {s : State} (cmd : Cmd) (d : ℤ) (args : List Str)
    (hL : LinksOk s.devs s.next s.links) :
    StartEffect s d args ((votectrlStart s cmd d args).map fun r => (r.1, view r.2.2)) := by
  unfold votectrlStart
  cases hcur : s.grp.current with
  | some dv =>
    have hsafe : StartSafe s args := fun h => by rw [hcur] at h; cases h
    exact .refused hsafe (show errOther ≠ 0 by decide)
  | none =>
  rw [if_neg (by simp)]
  cases args with
  | nil => exact .refused (fun _ p l h => by cases h) one_ne_zero
  | cons p args =>
  rw [nextArg_cons]
  by_cases hnum : (s.db.length : ℤ) ≤ atoi p
  · rw [if_pos hnum]
    refine .refused (fun _ p' l h hlt => ?_) one_ne_zero
    cases h
    omega
  rw [if_neg hnum]
  by_cases hneg : atoi p < 0
  · rw [if_pos hneg]
    refine .stuck fun hsafe => ?_
    have := (hsafe hcur p args rfl (by omega)).1
    omega
  rw [if_neg hneg]
  have hlt : (atoi p).toNat < s.db.length := by omega
  set dv := s.db[(atoi p).toNat] with hdv
  have hget : s.db[(atoi p).toNat]? = some dv := List.getElem?_eq_getElem hlt
  rw [hget, Option.bind_some]
  rcases prepareVote_eq s dv with ⟨hlong, hnone⟩ | ⟨hfit, names, hsome⟩
  · rw [hnone]
    refine .stuck fun hsafe => ?_
    have := (hsafe hcur p args rfl (by omega)).2 dv hget
    omega
  have hsafe : StartSafe s (p :: args) := by
    intro _ p' l h _
    cases h
    refine ⟨by omega, fun dv' hdv' => ?_⟩
    rw [hget] at hdv'
    cases hdv'
    exact hfit
  rw [hsome, Option.bind_some]
  simp only []
  split
  · rw [Option.map_some]
    exact .rejected hsafe (show errRejected ≠ 0 by decide) hcur
  · obtain ⟨s', R, o, L, hs', hv, hR, ho, hL'⟩ := beginVote_spec (s := s.setGrp fun g =>
      { g with memberids := memberList s dv, membernames := names, nvoted := 0 }) d dv (atoi p) hL
    rw [hs', Option.map_some, Option.map_some]
    set c := repEnd (repAdd (repAddNum (repAddNum (repAdd (repAddNum (repAdd cmd "OK".toList)
      dv.type) dv.name) dv.optionsCount) dv.maxSelect) dv.options)
    set s₂ := (s'.send (.brcastMulti s'.grp.memberids c.rep)).sendCmdToDevId 1 c with hs₂
    have hv₂ : view s₂ = view s' := by rw [hs₂, view_sendCmdToDevId, view_send]
    set R' := Function.update s₂.row d { s₂.row d with voteMaster := 1 } with hR'
    have hrow : s₂.row = R := (congrArg View.row hv₂).trans (congrArg View.row hv)
    have hR'' : ∀ x, (R' x).enabled = (s.row x).enabled := by
      intro x
      refine Eq.trans ?_ (hR x)
      rw [← hrow, hR']
      by_cases e : x = d
      · rw [e, Function.update_self]
      · rw [Function.update_of_ne e]
    have hsaved : s₂.savedRow = s.savedRow :=
      (congrArg View.savedRow hv₂).trans (congrArg View.savedRow hv)
    rw [view_saveStarted, ← hR', hv₂, hv, hsaved]
    exact .started hsafe hcur (List.getElem_mem hlt) hfit hR'' ho hL'

/-! ## `result` -/

theorem countOption_of_neg {v : Vote} {i : ℤ} (hi : i < 0) : countOption v i = none := by
  unfold countOption
  rw [dif_neg (by omega), if_pos hi]

/-- One option: its counter goes up, if it has one. -/
theorem countOption_spec {v : Vote} {i : ℤ} (hi : 0 ≤ i) :
    ∃ v', countOption v i = some v' ∧ v'.type = v.type ∧ v'.cnOptions = v.cnOptions ∧
      ∀ k, v'.results k = v.results k + if i = k.val then 1 else 0 := by
  unfold countOption
  by_cases hlt : 0 ≤ i ∧ i < 40
  · rw [dif_pos hlt]
    refine ⟨_, rfl, rfl, rfl, fun k => ?_⟩
    show Function.update v.results _ _ k = _
    by_cases e : k = ⟨i.toNat, by omega⟩
    · subst e
      rw [Function.update_self, if_pos (show i = ((i.toNat : ℕ) : ℤ) by omega)]
    · rw [Function.update_of_ne e, if_neg, add_zero]
      rintro rfl
      exact e (Fin.ext (by simp))
  · rw [dif_neg hlt, if_neg (by omega)]
    refine ⟨v, rfl, rfl, rfl, fun k => ?_⟩
    rw [if_neg (by omega), add_zero]

/-- The options of a ballot: a counter goes up as often as its option is named. -/
theorem countOptions_spec {v : Vote} {opts : List ℤ} (h : ∀ i ∈ opts, 0 ≤ i) :
    ∃ v', opts.foldlM countOption v = some v' ∧ v'.type = v.type ∧ v'.cnOptions = v.cnOptions ∧
      ∀ k, v'.results k = v.results k + (opts.count (k.val : ℤ) : ℤ) := by
  induction opts generalizing v with
  | nil => exact ⟨v, rfl, rfl, rfl, fun k => by rw [List.count_nil]; simp⟩
  | cons i opts ih =>
    obtain ⟨v₁, hv₁, ht₁, hc₁, hr₁⟩ := countOption_spec (v := v) (h i List.mem_cons_self)
    obtain ⟨v', hv', ht, hc, hr⟩ := ih (v := v₁) fun j hj => h j (List.mem_cons_of_mem i hj)
    refine ⟨v', ?_, ht.trans ht₁, hc.trans hc₁, fun k => ?_⟩
    · rw [List.foldlM_cons, hv₁]
      exact hv'
    · rw [hr k, hr₁ k, List.count_cons]
      by_cases e : i = k.val
      · subst e
        simp [add_comm, add_assoc]
      · simp [e]

theorem countOptions_none {v : Vote} {opts : List ℤ} (h : ∃ i ∈ opts, i < 0) :
    opts.foldlM countOption v = none := by
  induction opts generalizing v with
  | nil => obtain ⟨i, hi, -⟩ := h; cases hi
  | cons j opts ih =>
    rw [List.foldlM_cons]
    by_cases hj : j < 0
    · rw [countOption_of_neg hj]
      rfl
    · obtain ⟨v₁, hv₁, -⟩ := countOption_spec (v := v) (show 0 ≤ j by omega)
      rw [hv₁]
      obtain ⟨i, hi, hneg⟩ := h
      refine ih ⟨i, (List.mem_cons.mp hi).resolve_left ?_, hneg⟩
      rintro rfl
      exact hj hneg

/-- A ballot on the object `v` can be counted: no option is negative, and the counters that are
written out exist. -/
def Countable (v : Vote) (p : Str) : Prop :=
  v.type ≠ voteScore → (∀ i ∈ ballotOptions p, 0 ≤ i) ∧ v.cnOptions ≤ resultMax

/-- `result` has a result: the object the sender refers to is there and can count the ballot. -/
def ResultSafe (s : State) (d : ℤ) (args : List Str) : Prop :=
  s.grp.current ≠ none → ∀ q p l a, args = q :: p :: l → (s.dev d).v = some a →
    ∃ v, s.objs a = some v ∧ Countable v p

/-- The counters after a ballot. -/
structure Ballot (v v' : Vote) (p : Str) : Prop where
  type : v'.type = v.type
  cnOptions : v'.cnOptions = v.cnOptions
  results : ∀ k, v'.results k =
    v.results k + if v.type = voteScore then 0 else ((ballotOptions p).count (k.val : ℤ) : ℤ)

/-- The effect of `votectrl result` of the device `d` with the arguments `args`. -/
inductive ResultEffect (s : State) (d : ℤ) (args : List Str) : Option (ℤ × View) → Prop
  | stuck (h : ¬ ResultSafe s d args) : ResultEffect s d args none
  | refused {code : ℤ} (hcode : code ≠ 0)
      (hno : s.grp.current ≠ none → ∀ q p l, args = q :: p :: l → (s.dev d).v = none) :
      ResultEffect s d args (some (code, view s))
  | counted {q p : Str} {l : List Str} {a : ℕ} {v v' : Vote} {R : ℤ → DbDevice}
      (hargs : args = q :: p :: l) (hcur : s.grp.current ≠ none) (href : (s.dev d).v = some a)
      (hobj : s.objs a = some v) (hok : Countable v p) (hv : Ballot v v' p)
      (hR : ∀ x, (R x).enabled = (s.row x).enabled) :
      ResultEffect s d args (some (0, (view s).counted d a v'
        ((ballotOptions p).getLast?.getD (s.dev d).choice) R
        (if d = 0 then s.savedRow else Function.update s.savedRow d (R d))))

theorem ResultEffect.safe {s : State} {d : ℤ} {args : List Str} {r : ℤ × View}
    (h : ResultEffect s d args (some r)) : ResultSafe s d args := by
  cases h with
  | refused hcode hno =>
    intro hcur q p l a hargs href
    rw [hno hcur q p l hargs] at href
    cases href
  | counted hargs hcur href hobj hok hv hR =>
    intro _ q' p' l' a' hargs' href'
    rw [hargs] at hargs'
    rw [href] at href'
    cases hargs'
    cases href'
    exact ⟨_, hobj, hok⟩

theorem countBallot_cases (v : Vote) (p : Str) :
    (¬ Countable v p ∧ ∀ old (f : Vote → Str → Option (Reply State)),
      ((countBallot v (ballotOptions p)).bind fun v' => (resultsText v' old).bind (f v')) = none) ∨
    Countable v p ∧ ∃ v', countBallot v (ballotOptions p) = some v' ∧ Ballot v v' p ∧
      ∀ old, ∃ text, resultsText v' old = some text := by
  unfold countBallot
  by_cases hscore : v.type = voteScore
  · rw [if_pos hscore]
    refine .inr ⟨fun h => absurd hscore h, v, rfl, ⟨rfl, rfl, fun k => ?_⟩, fun old => ?_⟩
    · rw [if_pos hscore, add_zero]
    · exact ⟨old, if_pos hscore⟩
  rw [if_neg hscore]
  by_cases hneg : ∃ i ∈ ballotOptions p, i < 0
  · refine .inl ⟨fun h => ?_, fun old f => ?_⟩
    · obtain ⟨i, hi, hlt⟩ := hneg
      have := (h hscore).1 i hi
      omega
    · rw [countOptions_none hneg]
      rfl
  push Not at hneg
  obtain ⟨v', hv', ht, hc, hr⟩ := countOptions_spec (v := v) hneg
  have hscore' : v'.type ≠ voteScore := ht ▸ hscore
  rw [hv']
  by_cases hmax : v.cnOptions ≤ resultMax
  · refine .inr ⟨fun _ => ⟨hneg, hmax⟩, v', rfl, ⟨ht, hc, fun k => ?_⟩, fun old => ?_⟩
    · rw [if_neg hscore]
      exact hr k
    · unfold resultsText voteResultsToStr
      rw [if_neg hscore', if_neg (by omega)]
      exact ⟨_, rfl⟩
  · refine .inl ⟨fun h => hmax (h hscore).2, fun old f => ?_⟩
    have hnone : resultsText v' old = none := by
      unfold resultsText voteResultsToStr
      rw [if_neg hscore', if_pos (by omega)]
    rw [Option.bind_some, hnone, Option.bind_none]

theorem view_noteBallot (s : State) (d : ℤ) (a : ℕ) (v : Vote) (p text : Str) :
    view (noteBallot s d a v p text) = (view s).counted d a v
      ((ballotOptions p).getLast?.getD (s.dev d).choice)
      (Function.update s.row d { s.row d with
        voteChoice := (ballotOptions p).getLast?.getD (atoi p) })
      (if d = 0 then s.savedRow else Function.update s.savedRow d
        (Function.update s.row d { s.row d with
          voteChoice := (ballotOptions p).getLast?.getD (atoi p) } d)) := by
  set D : Device := { s.dev d with choice := (ballotOptions p).getLast?.getD (s.dev d).choice }
    with hD
  have href : (fun x => (Function.update s.dev d D x).v) = fun x => (s.dev x).v :=
    (Function.comp_update Device.v s.dev d D).trans (Function.update_eq_self d _)
  have hchoice : (fun x => (Function.update s.dev d D x).choice) =
      Function.update (fun x => (s.dev x).choice) d D.choice :=
    Function.comp_update Device.choice s.dev d D
  unfold noteBallot State.deviceSave
  by_cases h0 : d = 0
  · simp only [if_pos h0]
    ext1 <;> first | rfl | exact href | exact hchoice
  · simp only [if_neg h0]
    ext1 <;> first | rfl | exact href | exact hchoice

theorem result_effect (s : State) (cmd : Cmd) (d : ℤ) (args : List Str) :
    ResultEffect s d args ((votectrlResult s cmd d args).map fun r => (r.1, view r.2.2)) := by
  unfold votectrlResult
  by_cases hcur : s.grp.current = none
  · rw [if_pos (by rw [hcur]; rfl)]
    exact .refused (show errOther ≠ 0 by decide) fun h => absurd hcur h
  rw [if_neg (by rwa [Option.isNone_iff_eq_none])]
  rcases args with - | ⟨q, - | ⟨p, l⟩⟩
  · exact .refused one_ne_zero fun _ q p l h => by cases h
  · exact .refused one_ne_zero fun _ q p l h => by cases h
  rw [nextArg_cons, nextArg_cons]
  cases href : (s.dev d).v with
  | none => exact .refused one_ne_zero fun _ _ _ _ _ => href
  | some a =>
  simp only [Option.bind_eq_bind]
  cases hobj : s.objs a with
  | none =>
    refine .stuck fun h => ?_
    obtain ⟨v, hv, -⟩ := h hcur q p l a rfl href
    rw [hobj] at hv
    cases hv
  | some v =>
  rw [Option.bind_some]
  rcases countBallot_cases v p with ⟨hno, hnone⟩ | ⟨hok, v', hcount, hballot, htext⟩
  · rw [hnone]
    refine .stuck fun h => hno ?_
    obtain ⟨v₁, hv₁, hok⟩ := h hcur q p l a rfl href
    rw [hobj] at hv₁
    cases hv₁
    exact hok
  · obtain ⟨text, ht⟩ := htext s.grp.dbData.voteResults
    rw [hcount, Option.bind_some, ht, Option.bind_some, Option.map_some, view_noteBallot]
    exact .counted rfl hcur href hobj hok hballot fun x => enabled_update (by rfl) x

/-! ## `showresult` -/

theorem voteDevices_iff {s : State} {a : ℕ} {ms : List ℤ} :
    s.voteDevices a = some ms ↔
      Leads s.links a (s.links.next (.head a)) ms ∧ ms.length ≤ s.devs.length := by
  unfold State.voteDevices
  constructor
  · intro h
    split at h
    · rename_i l hl
      cases h
      obtain ⟨l', rfl, hlen, hlead⟩ := forEach_collect_iff.mp hl
      exact ⟨hlead, hlen⟩
    · cases h
  · rintro ⟨hlead, hlen⟩
    rw [forEach_collect_iff.mpr ⟨ms, (List.nil_append ms).symm, hlen, hlead⟩]

/-- A way through registered devices is short enough. -/
theorem voteDevices_of_leads {s : State} {a : ℕ} {ms : List ℤ}
    (hL : LinksOk s.devs s.next s.links) (h : Leads s.links a (s.links.next (.head a)) ms) :
    s.voteDevices a = some ms := by
  refine voteDevices_iff.mpr ⟨h, ?_⟩
  have hsub : ms ⊆ s.devs :=
    h.mem (fun x hx => hL.entry _ x hx) (fun y x hx => hL.entry y x hx)
  exact (List.subperm_of_subset h.nodup hsub).length_le

/-- `showresult` has a result: the object the sender refers to is there, its list leads back to its
head, and the counters that are written out exist. -/
def ShowSafe (s : State) (d : ℤ) (args : List Str) : Prop :=
  s.grp.current ≠ none → ∀ q l a, args = q :: l → (s.dev d).v = some a →
    ∃ v ms, s.objs a = some v ∧ Leads s.links a (s.links.next (.head a)) ms ∧
      (v.type ≠ voteScore → v.cnOptions ≤ resultMax)

/-- The effect of `votectrl showresult` of the device `d` with the arguments `args`. -/
inductive ShowEffect (s : State) (d : ℤ) (args : List Str) : Option (ℤ × View) → Prop
  | stuck (h : ¬ ShowSafe s d args) : ShowEffect s d args none
  | refused {code : ℤ} (hcode : code ≠ 0)
      (hno : s.grp.current ≠ none → ∀ q l, args = q :: l → (s.dev d).v = none) :
      ShowEffect s d args (some (code, view s))
  | shown {q : Str} {l : List Str} {a : ℕ} {v : Vote} {ms : List ℤ} {R : ℤ → DbDevice}
      (hargs : args = q :: l) (hcur : s.grp.current ≠ none) (href : (s.dev d).v = some a)
      (hobj : s.objs a = some v) (hlead : Leads s.links a (s.links.next (.head a)) ms)
      (hmax : v.type ≠ voteScore → v.cnOptions ≤ resultMax)
      (hR : ∀ x, (R x).enabled = (s.row x).enabled) :
      ShowEffect s d args (some (0, (view s).shown d a ms R
        (if d = 0 then s.savedRow else Function.update s.savedRow d (R d))))

theorem dropFold (s : State) (ms : List ℤ) :
    ms.foldl (fun s m => s.setDev m fun D => { D with v := none }) s =
      { s with dev := fun x => if x ∈ ms then { s.dev x with v := none } else s.dev x } := by
  induction ms generalizing s with
  | nil => simp
  | cons m ms ih =>
    rw [List.foldl_cons, ih]
    show ({ s with dev := fun x => if x ∈ ms then
      { Function.update s.dev m { s.dev m with v := none } x with v := none }
      else Function.update s.dev m { s.dev m with v := none } x } : State) = _
    congr 1
    funext x
    by_cases e : x = m
    · subst e
      simp
    · simp [e]

theorem view_noteShown (s : State) (a : ℕ) (ms : List ℤ) (d : ℤ) :
    view (noteShown s a ms d) = (view s).shown d a ms
      (Function.update s.row d { s.row d with voteMaster := 0 })
      (if d = 0 then s.savedRow else Function.update s.savedRow d
        (Function.update s.row d { s.row d with voteMaster := 0 } d)) := by
  set f : ℤ → Device := fun x => if x ∈ ms then { s.dev x with v := none } else s.dev x with hf
  have hstate : dropVote s a ms d = { s with
      dev := Function.update f d { f d with v := none }
      grp := { s.grp with v := none }
      objs := Function.update s.objs a none } := by
    unfold dropVote
    rw [dropFold]
    rfl
  have href : (fun x => (Function.update f d { f d with v := none } x).v) =
      fun x => if x ∈ ms ∨ x = d then none else (s.dev x).v := by
    funext x
    by_cases e : x = d
    · rw [e, Function.update_self, if_pos (.inr rfl)]
    · rw [Function.update_of_ne e, hf]
      by_cases hx : x ∈ ms
      · simp only [if_pos hx, if_pos (Or.inl hx)]
      · simp only [if_neg hx, if_neg (not_or.mpr ⟨hx, e⟩)]
  have hchoice : (fun x => (Function.update f d { f d with v := none } x).choice) =
      fun x => (s.dev x).choice := by
    have hfx : ∀ x, (f x).choice = (s.dev x).choice := by
      intro x
      rw [hf]
      by_cases hx : x ∈ ms
      · simp only [if_pos hx]
      · simp only [if_neg hx]
    funext x
    by_cases e : x = d
    · rw [e, Function.update_self]
      exact hfx d
    · rw [Function.update_of_ne e]
      exact hfx x
  unfold noteShown State.deviceSave
  rw [hstate]
  by_cases h0 : d = 0
  · simp only [if_pos h0]
    ext1 <;> first | rfl | exact href | exact hchoice
  · simp only [if_neg h0]
    ext1 <;> first | rfl | exact href | exact hchoice

theorem resultReply_cases (s : State) (v : Vote) (ms : List ℤ) :
    (¬ (v.type ≠ voteScore → v.cnOptions ≤ resultMax) ∧ resultReply s v ms = none) ∨
    ((v.type ≠ voteScore → v.cnOptions ≤ resultMax) ∧ ∃ t, resultReply s v ms = some t) := by
  unfold resultReply voteResultsToStr
  by_cases hscore : v.type = voteScore
  · rw [if_pos hscore]
    exact .inr ⟨fun h => absurd hscore h, _, rfl⟩
  rw [if_neg hscore]
  by_cases hmax : resultMax < v.cnOptions
  · rw [if_pos hmax]
    refine .inl ⟨fun h => ?_, rfl⟩
    have := h hscore
    omega
  · rw [if_neg hmax]
    exact .inr ⟨fun _ => by omega, _, rfl⟩

theorem show_effect {s : State} (cmd : Cmd) (d : ℤ) (args : List Str)
    (hL : LinksOk s.devs s.next s.links) :
    ShowEffect s d args ((votectrlShowresult s cmd d args).map fun r => (r.1, view r.2.2)) := by
  unfold votectrlShowresult
  by_cases hcur : s.grp.current = none
  · rw [if_pos (by rw [hcur]; rfl)]
    exact .refused (show errOther ≠ 0 by decide) fun h => absurd hcur h
  rw [if_neg (by rwa [Option.isNone_iff_eq_none])]
  cases args with
  | nil => exact .refused one_ne_zero fun _ q l h => by cases h
  | cons q l =>
  rw [nextArg_cons]
  cases href : (s.dev d).v with
  | none => exact .refused one_ne_zero fun _ _ _ _ => href
  | some a =>
  simp only [Option.bind_eq_bind]
  have hstuck : (∀ v ms, s.objs a = some v → Leads s.links a (s.links.next (.head a)) ms →
      ¬ (v.type ≠ voteScore → v.cnOptions ≤ resultMax)) → ¬ ShowSafe s d (q :: l) := by
    intro hno h
    obtain ⟨v, ms, hv, hlead, hmax⟩ := h hcur q l a rfl href
    exact hno v ms hv hlead hmax
  cases hobj : s.objs a with
  | none =>
    refine .stuck (hstuck fun v ms hv => ?_)
    rw [hobj] at hv
    cases hv
  | some v =>
  rw [Option.bind_some]
  cases hms : s.voteDevices a with
  | none =>
    refine .stuck (hstuck fun v' ms _ hlead => ?_)
    rw [voteDevices_of_leads hL hlead] at hms
    cases hms
  | some ms =>
  have hlead := (voteDevices_iff.mp hms).1
  rw [Option.bind_some]
  rcases resultReply_cases s v ms with ⟨hno, hnone⟩ | ⟨hmax, t, ht⟩
  · rw [hnone]
    refine .stuck (hstuck fun v' ms' hv' _ => ?_)
    rw [hobj] at hv'
    cases hv'
    exact hno
  · rw [ht, Option.bind_some, Option.map_some, view_noteShown]
    set s₁ := State.sendCmdToDevId (s.send _) 1 _ with hs₁
    have hv₁ : view s₁ = view s := by rw [hs₁, view_sendCmdToDevId, view_send]
    have hrow : s₁.row = s.row := congrArg View.row hv₁
    have hsaved : s₁.savedRow = s.savedRow := congrArg View.savedRow hv₁
    rw [hv₁, hrow, hsaved]
    exact .shown rfl hcur href hobj hlead hmax fun x => enabled_update (by rfl) x

/-! ## The other events -/

theorem view_stop (s : State) (cmd : Cmd) :
    (votectrlStop s cmd).map (fun r => (r.1, view r.2.2)) = some (0, (view s).stopped) := rfl

theorem view_query (s : State) (cmd : Cmd) :
    (votectrlQuery s cmd).map (fun r => (r.1, view r.2.2)) =
      some (0, { view s with db := s.voteTable.records }) := rfl

theorem view_select {s : State} {cmd : Cmd} {args : List Str} {r : Reply State}
    (h : votectrlSelect s cmd args = some r) : view r.2.2 = view s := by
  unfold votectrlSelect at h
  cases args with
  | nil => cases h; rfl
  | cons p args =>
    rw [nextArg_cons] at h
    simp only [] at h
    split at h
    · cases h; rfl
    split at h
    · cases h
    · obtain ⟨dv, -, rfl⟩ := Option.map_eq_some_iff.mp h
      rfl

theorem view_status {s : State} {cmd : Cmd} {d : ℤ} {args : List Str} {r : Reply State}
    (h : votectrlStatus s cmd d args = some r) : view r.2.2 = view s := by
  unfold votectrlStatus at h
  cases args with
  | nil => cases h; rfl
  | cons p args =>
    rw [nextArg_cons] at h
    split at h
    · split at h
      · obtain ⟨v, -, h⟩ := Option.bind_eq_some_iff.mp h
        obtain ⟨ms, -, h⟩ := Option.bind_eq_some_iff.mp h
        cases h
        rfl
      · cases h; rfl
    · cases h; rfl

theorem view_remind (s : State) (cmd : Cmd) (args : List Str) :
    ∃ r, votectrlRemind s cmd args = some r ∧ view r.2.2 = view s := by
  unfold votectrlRemind
  cases args with
  | nil => exact ⟨_, rfl, rfl⟩
  | cons p args =>
    rw [nextArg_cons]
    split
    · exact ⟨_, rfl, view_deviceCmd ..⟩
    · exact ⟨_, rfl, rfl⟩

theorem view_forbid (s : State) (cmd : Cmd) (args : List Str) :
    ∃ r, votectrlForbid s cmd args = some r ∧ view r.2.2 = view s := by
  unfold votectrlForbid
  cases args with
  | nil => exact ⟨_, rfl, rfl⟩
  | cons p args =>
    rw [nextArg_cons]
    split
    · cases args with
      | nil => exact ⟨_, rfl, rfl⟩
      | cons q args =>
        refine ⟨_, rfl, (view_deviceCmd ..).trans ?_⟩
        rw [view_setDev]
        ext1 <;> try rfl
        · exact Function.update_eq_self _ _
        · exact Function.update_eq_self _ _
    · exact ⟨_, rfl, rfl⟩

/-- The record of a device that registers: it is there and perhaps saved, or it is new. -/
structure Recorded (v : View) (d : ℤ) (T : List ℤ) (R S : ℤ → DbDevice) : Prop where
  nonzero : d ≠ 0
  cases : d ∈ v.table ∧ (v.row d).enabled ≠ 0 ∧ T = v.table ∧ R = v.row ∧
      (S = v.savedRow ∨ S = Function.update v.savedRow d (v.row d)) ∨
    d ∉ v.table ∧ T = v.table ++ [d] ∧ R = Function.update v.row d newRow ∧
      S = Function.update v.savedRow d newRow

/-- What the registration of a device does to the view. -/
inductive RegEffect (v : View) (d : ℤ) : View → Prop
  | ignored : RegEffect v d v
  | known {T : List ℤ} {R S : ℤ → DbDevice} (h : Recorded v d T R S) (hd : d ∈ v.devs) :
      RegEffect v d { v with table := T, row := R, savedRow := S }
  | joined {T : List ℤ} {R S : ℤ → DbDevice} (h : Recorded v d T R S) (hd : d ∉ v.devs) :
      RegEffect v d { v with
        table := T, row := R, savedRow := S, devs := v.devs ++ [d]
        ref := Function.update v.ref d none, choice := Function.update v.choice d 0 }

theorem view_devRegister (s : State) (d : ℤ) :
    view (devRegister s d) = { view s with
      devs := s.devs ++ [d], ref := Function.update (fun x => (s.dev x).v) d none
      choice := Function.update (fun x => (s.dev x).choice) d 0 } := by
  ext1 <;> try rfl
  · exact Function.comp_update Device.v s.dev d newDev
  · exact Function.comp_update Device.choice s.dev d newDev

theorem reg_effect (s : State) (d : ℤ) (moved : Bool) :
    RegEffect (view s) d (view (reg s d moved)) := by
  unfold reg
  by_cases hno : d = 0 ∨ (d ∈ s.table ∧ (s.row d).enabled = 0)
  · rw [if_pos hno]
    exact .ignored
  rw [if_neg hno]
  push Not at hno
  obtain ⟨h0, hen⟩ := hno
  set s₁ : State := if h : d ∈ s.table then (if moved then s.deviceSave d else s)
    else mdAddDevice s d h with hs₁
  obtain ⟨T, R, S, hrec, hv₁⟩ : ∃ T R S, Recorded (view s) d T R S ∧
      view s₁ = { view s with table := T, row := R, savedRow := S } := by
    by_cases ht : d ∈ s.table
    · have hs₁' : s₁ = if moved then s.deviceSave d else s := by rw [hs₁, dif_pos ht]
      rw [hs₁']
      by_cases hm : moved = true
      · rw [if_pos hm, view_deviceSave, if_neg h0]
        exact ⟨s.table, s.row, _, ⟨h0, .inl ⟨ht, hen ht, rfl, rfl, .inr rfl⟩⟩, rfl⟩
      · rw [if_neg hm]
        exact ⟨s.table, s.row, _, ⟨h0, .inl ⟨ht, hen ht, rfl, rfl, .inl rfl⟩⟩, rfl⟩
    · have hs₁' : s₁ = mdAddDevice s d ht := by rw [hs₁, dif_neg ht]
      rw [hs₁']
      exact ⟨_, _, _, ⟨h0, .inr ⟨ht, rfl, rfl, rfl⟩⟩, rfl⟩
  have hdevs : s₁.devs = s.devs := congrArg View.devs hv₁
  simp only []
  by_cases hd : d ∈ s₁.devs
  · rw [if_pos hd, hv₁]
    exact .known hrec (show d ∈ s.devs from hdevs ▸ hd)
  · rw [if_neg hd, view_devRegister]
    have href : (fun x => (s₁.dev x).v) = fun x => (s.dev x).v := congrArg View.ref hv₁
    have hchoice : (fun x => (s₁.dev x).choice) = fun x => (s.dev x).choice :=
      congrArg View.choice hv₁
    rw [hv₁, href, hchoice, hdevs]
    exact .joined hrec (show d ∉ s.devs from hdevs ▸ hd)

/-- The ways through `cmd_votectrl`. -/
theorem votectrl_cases (s : State) (cmd : Cmd) :
    (∃ code c, code ≠ 0 ∧ cmdVotectrl s cmd = some (code, c, s)) ∨
    cmd.deviceId ∈ s.devs ∧ ∃ scmd l, cmd.args = scmd :: l ∧
      (scmd = "query".toList ∧ cmdVotectrl s cmd = votectrlQuery s cmd ∨
       scmd = "select".toList ∧ cmdVotectrl s cmd = votectrlSelect s cmd l ∨
       scmd = "start".toList ∧ cmdVotectrl s cmd = votectrlStart s cmd cmd.deviceId l ∨
       scmd = "result".toList ∧ cmdVotectrl s cmd = votectrlResult s cmd cmd.deviceId l ∨
       scmd = "status".toList ∧ cmdVotectrl s cmd = votectrlStatus s cmd cmd.deviceId l ∨
       scmd = "showresult".toList ∧
         cmdVotectrl s cmd = votectrlShowresult s cmd cmd.deviceId l ∨
       scmd = "stop".toList ∧ cmdVotectrl s cmd = votectrlStop s cmd ∨
       scmd = "remind".toList ∧ cmdVotectrl s cmd = votectrlRemind s cmd l ∨
       scmd = "forbid".toList ∧ cmdVotectrl s cmd = votectrlForbid s cmd l) := by
  unfold cmdVotectrl
  by_cases hd : cmd.deviceId ∈ s.devs
  swap
  · rw [if_pos hd]
    exact .inl ⟨errNotReg, cmd, by decide, rfl⟩
  rw [if_neg (not_not.mpr hd)]
  rcases hargs : cmd.args with - | ⟨scmd, l⟩
  · exact .inl ⟨1, cmd, one_ne_zero, rfl⟩
  rw [nextArg_cons]
  by_cases hknown : scmd ∈ ["query", "select", "start", "result", "status", "showresult", "stop",
      "remind", "forbid"].map String.toList
  · refine .inr ⟨hd, scmd, l, rfl, ?_⟩
    simp only [List.map_cons, List.map_nil, List.mem_cons, List.not_mem_nil, or_false] at hknown
    rcases hknown with rfl | rfl | rfl | rfl | rfl | rfl | rfl | rfl | rfl <;> simp
  · refine .inl ⟨2, cmd, two_ne_zero, ?_⟩
    simp only [List.map_cons, List.map_nil, List.mem_cons, List.not_mem_nil, or_false,
      not_or] at hknown
    obtain ⟨h1, h2, h3, h4, h5, h6, h7, h8, h9⟩ := hknown
    rw [if_neg h1, if_neg h2, if_neg h3, if_neg h4, if_neg h5, if_neg h6, if_neg h7, if_neg h8,
      if_neg h9]

end GSConferencing.Serv.VoteEffect
