import GSConferencing.Serv.Subscribe

/-!
# Subscriptions along runs

A subscription is kept three times: as the pointer of the device, as its place in the list of a tag,
and as the number `sub1` of its record, which the reply to `reg` repeats.  Recovery restores it from
the record; `dev_register` only has a default for records without one.

* `Links`: the pointers and the lists agree, whatever the commands do.
* `Saved`: the pointer and the record agree.
* `agree_iff`: the three agree along a run exactly when no device registers whose record, known
  beforehand, has a subscription.
-/

namespace GSConferencing.Serv.SubRuns

open GSConferencing.Lib.Run
open GSConferencing.Serv.Strutil GSConferencing.Serv.CmdHandler GSConferencing.Serv.Dev
open GSConferencing.Serv.Tag GSConferencing.Serv.Devctl GSConferencing.Serv.Discuss
open GSConferencing.Serv.Ptc GSConferencing.Serv.Server
open GSConferencing.Serv.SubView GSConferencing.Serv.Subscribe

/-! ## The machine -/

/-- The server, with the device that the last event registered and the numbers it was told. -/
structure State where
  serv : Server
  told : Option (ℤ × ℤ × ℤ)

/-- `sub` and `reg` commands, and what the manager does to the records of devices. -/
inductive Event where
  | sub (cmd : Cmd)
  | reg (cmd : Cmd) (moved : Bool) (allow : ℤ)
  | addRecord (d : ℤ) (r : DbDevice)
  | enable (d a : ℤ)

/-- The manager adds a record; the ids of the table are distinct. -/
def addRecord (s : Server) (d : ℤ) (r : DbDevice) : Server :=
  if d ∈ s.table then s else { s with table := s.table ++ [d] }.setRow d fun _ => r

/-- The manager enables or disables the device of a record. -/
def enable (s : Server) (d a : ℤ) : Server :=
  if d ∈ s.table then s.setRow d fun r => { r with enabled := a } else s

variable (cksum : BitVec 32 → Str) (info : Server → ℤ → ℤ × ℤ → Str)
variable (notice : Server → ℤ → ℤ → Bool → Str)

/-- One event.  A record with the id of the manager device would be a second one for this id. -/
def step (s : State) : Event → Option State
  | .sub cmd => (cmdSub notice s.serv cmd).map fun r => ⟨r.2.2, none⟩
  | .reg cmd moved allow => (cmdReg cksum info s.serv cmd moved allow).map fun r =>
      ⟨r.2.2, if r.1 = 0 then some (cmd.deviceId, infoSub r.2.2 cmd.deviceId) else none⟩
  | .addRecord d r => if d = 0 then none else some ⟨addRecord s.serv d r, none⟩
  | .enable d a => some ⟨enable s.serv d a, none⟩

/-- The subscription that a number stands for. -/
def saved (n : ℤ) : Option ℤ := if n = 0 then none else some n

/-- **The three copies agree** for every client device, and so does what a client is told. -/
structure Agree (s : State) : Prop where
  saved : ∀ d ∈ s.serv.devs, d ≠ 0 → (s.serv.dev d).subscription = saved (s.serv.row d).sub1
  made : ∀ d ∈ s.serv.devs, d ≠ 0 → ∀ t, (s.serv.dev d).subscription = some t → t ∈ s.serv.tags
  linked : ∀ d ∈ s.serv.devs, d ≠ 0 → ∀ t ∈ s.serv.tags,
    (s.serv.tag t).subscribeHead.count d = if (s.serv.dev d).subscription = some t then 1 else 0
  told : ∀ d n m, s.told = some (d, n, m) → d ≠ 0 → SubRuns.saved n = (s.serv.dev d).subscription

/-- No device registers whose record, known beforehand, has a subscription. -/
def NoSavedSub (s : State) : Event → Prop
  | .reg cmd _ _ => regType cksum s.serv cmd ≠ none → cmd.deviceId ∈ s.serv.devs ∨
      cmd.deviceId ∉ s.serv.table ∨ (s.serv.row cmd.deviceId).sub1 = 0
  | _ => True

/-! ## Pointers and lists -/

/-- The pointers and the lists agree. -/
structure Links (v : View) : Prop where
  rows : ∀ d ∈ v.devs, d ≠ 0 → d ∈ v.table
  fresh : ∀ d, d ∉ v.devs → v.subscription d = none
  made : ∀ d t, v.subscription d = some t → t ∈ v.tags
  linked : ∀ d t, (v.head t).count d = if v.subscription d = some t then 1 else 0

/-- The pointer of the device and its record agree. -/
def Saved (v : View) (d : ℤ) : Prop := v.subscription d = saved (v.sub1 d)

/-- The pointers agree with the records, too. -/
structure Good (v : View) : Prop extends Links v where
  manager : 0 ∈ v.devs
  saved : ∀ d ∈ v.devs, d ≠ 0 → Saved v d

variable {v : View} {d t : ℤ}

theorem Links.request (h : Links v) (t : ℤ) : Links (request v t) where
  rows d hd h0 := by
    rw [request_devs] at hd
    rw [request_table]
    exact h.rows d hd h0
  fresh d hd := by
    rw [request_devs] at hd
    rw [request_subscription]
    exact h.fresh d hd
  made d x hx := by
    rw [request_subscription] at hx
    exact request_tags_subset v t (h.made d x hx)
  linked d x := by
    rw [request_subscription, ← h.linked d x]
    unfold Subscribe.request
    by_cases ht : t ∈ v.tags
    · rw [if_pos ht]
    · rw [if_neg ht]
      by_cases hx : x = t
      · -- the new tag is nobody's subscription
        have hnone : v.subscription d ≠ some x := fun hs => ht (hx ▸ h.made d x hs)
        rw [h.linked d x, if_neg hnone, hx]
        simp
      · simp only [Function.update_of_ne hx]

/-- A device leaves the list it is in. -/
theorem Links.unlink_count (h : Links v) (d x y : ℤ) :
    ((unlink v d).head x).count y = if y ≠ d ∧ v.subscription y = some x then 1 else 0 := by
  unfold unlink
  cases hs : v.subscription d with
  | none =>
    simp only
    rw [h.linked y x]
    by_cases hy : y = d
    · simp [hy, hs]
    · simp [hy]
  | some t' =>
    simp only
    by_cases hx : x = t'
    · subst hx
      rw [Function.update_self]
      by_cases hy : y = d
      · subst hy
        rw [List.count_erase_self, h.linked y x, if_pos hs]
        simp
      · rw [List.count_erase_of_ne hy, h.linked y x]
        simp [hy]
    · rw [Function.update_of_ne hx, h.linked y x]
      by_cases hy : y = d
      · subst hy
        rw [hs]
        simp [Ne.symm hx]
      · simp [hy]

/-- What a tag replicates does not concern the subscriptions. -/
theorem Links.setRep (h : Links v) (t : ℤ) (r : Option ℤ) : Links (setRep v t r) :=
  ⟨h.rows, h.fresh, h.made, h.linked⟩

theorem Links.dup (h : Links v) (d t : ℤ) : Links (dup v d t) := by
  unfold Subscribe.dup
  split
  · exact h.setRep ..
  · exact h

theorem Links.link (h : Links v) (hd : d ∈ v.devs) (ht : t ∈ v.tags) :
    Links (link (unlink v d) d t) where
  rows e he h0 := by
    show e ∈ (unlink v d).table
    rw [unlink_table]
    exact h.rows e ((unlink_devs v d) ▸ he) h0
  fresh e he := by
    have hne : e ≠ d := fun heq => he ((unlink_devs v d).symm ▸ heq ▸ hd)
    show Function.update (unlink v d).subscription d (some t) e = none
    rw [Function.update_of_ne hne, unlink_subscription]
    exact h.fresh e fun he' => he ((unlink_devs v d).symm ▸ he')
  made e x hx := by
    show x ∈ (unlink v d).tags
    rw [unlink_tags]
    have hx : Function.update (unlink v d).subscription d (some t) e = some x := hx
    by_cases he : e = d
    · rw [he, Function.update_self, Option.some.injEq] at hx
      exact hx ▸ ht
    · rw [Function.update_of_ne he, unlink_subscription] at hx
      exact h.made e x hx
  linked e x := by
    show (Function.update (unlink v d).head t (d :: (unlink v d).head t) x).count e =
      if Function.update (unlink v d).subscription d (some t) e = some x then 1 else 0
    rw [unlink_subscription]
    by_cases he : e = d
    · subst he
      rw [Function.update_self]
      by_cases hx : x = t
      · subst hx
        rw [Function.update_self, List.count_cons_self, h.unlink_count]
        simp
      · rw [Function.update_of_ne hx, h.unlink_count]
        simp [Ne.symm hx]
    · rw [Function.update_of_ne he]
      by_cases hx : x = t
      · subst hx
        rw [Function.update_self, List.count_cons_of_ne (Ne.symm he), h.unlink_count]
        simp [he]
      · rw [Function.update_of_ne hx, h.unlink_count]
        simp [he]

theorem Links.subscribe (h : Links v) (hd : d ∈ v.devs) (ht : t ∈ v.tags) :
    Links (subscribe v d t) := by
  unfold Subscribe.subscribe
  split
  · exact h
  · exact (h.link hd ht).dup d t

theorem Links.unsubscribe (h : Links v) (hd : d ∈ v.devs) : Links (unsubscribe v d t) := by
  by_cases hs : v.subscription d = some t
  swap
  · rw [Subscribe.unsubscribe, if_neg hs]
    exact h
  rw [Subscribe.unsubscribe, if_pos hs]
  refine ⟨?_, ?_, ?_, ?_⟩
  · intro e he h0
    rw [unlink_table]
    exact h.rows e ((unlink_devs v d) ▸ he) h0
  · intro e he
    have hne : e ≠ d := fun heq => he ((unlink_devs v d).symm ▸ heq ▸ hd)
    show Function.update v.subscription d none e = none
    rw [Function.update_of_ne hne]
    exact h.fresh e fun he' => he ((unlink_devs v d).symm ▸ he')
  · intro e x hx
    rw [unlink_tags]
    by_cases he : e = d
    · simp [he] at hx
    · exact h.made e x ((Function.update_of_ne he none v.subscription) ▸ hx)
  · intro e x
    show ((unlink v d).head x).count e =
      if Function.update v.subscription d none e = some x then 1 else 0
    rw [h.unlink_count]
    by_cases he : e = d
    · simp [he]
    · rw [Function.update_of_ne he]
      simp [he]

/-! ## Pointers and records -/

theorem saved_of_ne {n : ℤ} (h : n ≠ 0) : saved n = some n := if_neg h

theorem Saved.request {e : ℤ} (h : Saved v e) (t : ℤ) : Saved (request v t) e := by
  unfold Saved
  rw [request_subscription, request_sub1]
  exact h

theorem dup_saved (v : View) (d t e : ℤ) : Saved (dup v d t) e ↔ Saved v e := by
  unfold dup
  split <;> exact Iff.rfl

theorem link_saved_self (v : View) (d : ℤ) (ht : t ≠ 0) : Saved (link v d t) d := by
  unfold Saved link
  simp [saved_of_ne ht]

theorem subscribe_saved_self (h : Saved v d ∨ v.subscription d ≠ some t) (ht : t ≠ 0) :
    Saved (subscribe v d t) d := by
  unfold subscribe
  split
  · next hs => exact h.resolve_right fun hne => hne hs
  · exact (dup_saved ..).mpr (link_saved_self _ d ht)

theorem subscribe_saved_other {e : ℤ} (he : e ≠ d) (h : Saved v e) :
    Saved (subscribe v d t) e := by
  unfold subscribe
  split
  · exact h
  · refine (dup_saved ..).mpr ?_
    simpa [Saved, link, he] using h

theorem unsubscribe_saved {e : ℤ} (h : Saved v e) : Saved (unsubscribe v d t) e := by
  unfold unsubscribe
  split
  · by_cases he : e = d
    · simp [Saved, he, saved]
    · simpa [Saved, he] using h
  · exact h

/-! ## What the commands keep -/

theorem Good.request (h : Good v) (t : ℤ) : Good (request v t) :=
  ⟨h.toLinks.request t, by rw [request_devs]; exact h.manager, by
    intro e he h0
    rw [request_devs] at he
    exact (h.saved e he h0).request t⟩

theorem Good.setRep (h : Good v) (t : ℤ) (r : Option ℤ) : Good (setRep v t r) :=
  ⟨h.toLinks.setRep t r, h.manager, h.saved⟩

theorem Good.subscribe (h : Good v) (hd : d ∈ v.devs) (ht : t ∈ v.tags) (h0 : t ≠ 0) :
    Good (subscribe v d t) := by
  refine ⟨h.toLinks.subscribe hd ht, by rw [subscribe_eq]; exact h.manager, ?_⟩
  intro e he he0
  rw [subscribe_eq] at he
  by_cases hed : e = d
  · subst hed
    exact subscribe_saved_self (.inl (h.saved e he he0)) h0
  · exact subscribe_saved_other hed (h.saved e he he0)

theorem Good.unsubscribe (h : Good v) (hd : d ∈ v.devs) : Good (unsubscribe v d t) := by
  refine ⟨h.toLinks.unsubscribe hd, by rw [unsubscribe_eq]; exact h.manager, ?_⟩
  intro e he he0
  rw [unsubscribe_eq] at he
  exact unsubscribe_saved (h.saved e he he0)

theorem Good.change (h : Good v) (hd : d ∈ v.devs) {n : ℤ} (hn : n ≠ 0) :
    Good (change v d n) := by
  have hd' : d ∈ (Subscribe.request v |n|).devs := by rwa [request_devs]
  unfold Subscribe.change
  split
  · exact (h.request |n|).unsubscribe hd'
  · exact (h.request |n|).subscribe hd' (mem_request v |n|) (abs_ne_zero.mpr hn)

theorem Good.endSub (h : Good v) (d : ℤ) (unsub : Bool) : Good (endSub v d unsub) := by
  unfold Subscribe.endSub
  split
  · exact h.setRep ..
  · exact h

theorem Good.updateData (h : Good v) (d : ℤ) : Good (updateData v d) := by
  unfold Subscribe.updateData
  split
  · exact h
  · next hd =>
    refine ⟨⟨fun e he h0 => List.mem_append_left _ (h.rows e he h0), h.fresh, h.made, h.linked⟩,
      h.manager, ?_⟩
    intro e he h0
    have hne : e ≠ d := fun heq => hd (heq ▸ h.rows e he h0)
    unfold Saved
    simp only [Function.update_of_ne hne]
    exact h.saved e he h0

theorem Good.setType (h : Good v) (d type : ℤ) : Good (setType v d type) := by
  unfold Subscribe.setType
  split
  · exact ⟨⟨h.rows, h.fresh, h.made, h.linked⟩, h.manager, h.saved⟩
  · exact h

theorem Links.enroll (h : Links v) (hd : d ∉ v.devs) (ht : d ≠ 0 → d ∈ v.table) (type tid : ℤ) :
    Links (enroll v d type tid) := by
  refine Links.request ⟨?_, ?_, ?_, ?_⟩ tid
  · intro e he h0
    rcases List.mem_append.mp he with he | he
    · exact h.rows e he h0
    · exact List.mem_singleton.mp he ▸ ht (List.mem_singleton.mp he ▸ h0)
  all_goals have hsub : Function.update v.subscription d none = v.subscription :=
    Function.update_eq_self_iff.mpr (h.fresh d hd).symm
  · intro e he
    show Function.update v.subscription d none e = none
    rw [hsub]
    exact h.fresh e fun hmem => he (List.mem_append_left _ hmem)
  · intro e x hx
    exact h.made e x (hsub ▸ hx)
  · intro e x
    show (v.head x).count e = if Function.update v.subscription d none e = some x then 1 else 0
    rw [hsub]
    exact h.linked e x

/-- Registration may leave the device itself without its subscription. -/
structure GoodBut (v : View) (d : ℤ) : Prop extends Links v where
  saved : ∀ e ∈ v.devs, e ≠ 0 → e ≠ d → Saved v e

theorem GoodBut.good (h : GoodBut v d) (hm : 0 ∈ v.devs) (hd : d = 0 ∨ Saved v d) : Good v := by
  refine ⟨h.toLinks, hm, fun e he h0 => ?_⟩
  by_cases hed : e = d
  · subst hed
    exact hd.resolve_left h0
  · exact h.saved e he h0 hed

theorem Good.but (h : Good v) (d : ℤ) : GoodBut v d :=
  ⟨h.toLinks, fun e he h0 _ => h.saved e he h0⟩

theorem GoodBut.enroll (h : GoodBut v d) (hd : d ∉ v.devs) (ht : d ≠ 0 → d ∈ v.table)
    (type tid : ℤ) : GoodBut (enroll v d type tid) d := by
  refine ⟨h.toLinks.enroll hd ht type tid, fun e he h0 hne => ?_⟩
  rw [enroll_devs] at he
  have he : e ∈ v.devs := (List.mem_append.mp he).resolve_right fun hmem =>
    hne (List.mem_singleton.mp hmem)
  refine Saved.request ?_ tid
  unfold Saved
  simp only [Function.update_of_ne hne]
  exact h.saved e he h0 hne

theorem GoodBut.register (h : GoodBut v d) (ht : d ≠ 0 → d ∈ v.table) (type tid : ℤ) :
    GoodBut (register v d type tid) d := by
  unfold Subscribe.register
  by_cases hd : d ∈ v.devs
  · rw [if_pos hd]
    exact h
  rw [if_neg hd]
  have henroll := h.enroll hd ht type tid
  simp only
  split
  · refine ⟨(henroll.toLinks.request 1).subscribe ?_ (mem_request _ 1), fun e he h0 hne => ?_⟩
    · rw [request_devs, enroll_devs]
      exact List.mem_append_right _ List.mem_cons_self
    · rw [subscribe_eq, request_devs] at he
      exact subscribe_saved_other hne ((henroll.saved e he h0 hne).request 1)
  · exact henroll

/-- A new device is not subscribed, unless it gets the default subscription. -/
theorem enroll_saved_iff (v : View) (d type tid : ℤ) :
    Saved (enroll v d type tid) d ↔ v.sub1 d = 0 := by
  unfold Saved enroll
  rw [request_subscription, request_sub1]
  simp only [Function.update_self]
  unfold saved
  split <;> simp [*]

theorem register_saved_iff (hd : d ∉ v.devs) (type tid : ℤ) :
    Saved (register v d type tid) d ↔ v.sub1 d = 0 := by
  unfold register
  rw [if_neg hd]
  simp only
  split
  · next h =>
    refine ⟨fun _ => h.2.2.1, fun _ => subscribe_saved_self (.inl ?_) (by decide)⟩
    exact ((enroll_saved_iff v d type tid).mpr h.2.2.1).request 1
  · exact enroll_saved_iff v d type tid

theorem Good.register (h : Good v) (ht : d ≠ 0 → d ∈ v.table)
    (hs : d ∈ v.devs ∨ v.sub1 d = 0) (type tid : ℤ) : Good (register v d type tid) := by
  by_cases hd : d ∈ v.devs
  · rw [Subscribe.register, if_pos hd]
    exact h
  · exact ((h.but d).register ht type tid).good (register_devs_subset v d type tid (.inl h.manager))
      (.inr ((register_saved_iff hd type tid).mpr (hs.resolve_left hd)))

/-! ## Steps -/

/-- The invariant of the machine. -/
structure Inv (s : State) : Prop where
  good : Good (view s.serv)
  told : ∀ d n m, s.told = some (d, n, m) → d ≠ 0 → saved n = (s.serv.dev d).subscription

theorem Inv.agree {s : State} (h : Inv s) : Agree s where
  saved := h.good.saved
  made d _ _ t hs := h.good.made d t hs
  linked d _ _ t _ := h.good.linked d t
  told := h.told

theorem inv_of_view {s s' : Server} (h : Good (view s)) (hv : view s' = view s) :
    Inv ⟨s', none⟩ := ⟨hv ▸ h, fun _ _ _ hn => nomatch hn⟩

theorem view_addRecord {s : Server} {d : ℤ} (hd : d ∉ s.table) (r : DbDevice) :
    view (addRecord s d r) = { view s with
      table := s.table ++ [d]
      enabled := Function.update (view s).enabled d r.enabled
      sub1 := Function.update (view s).sub1 d r.sub1
      sub2 := Function.update (view s).sub2 d r.sub2 } := by
  rw [addRecord, if_neg hd, view_setRow]
  rfl

theorem Good.addRecord {s : Server} (h : Good (view s)) (d : ℤ) (r : DbDevice) :
    Good (view (addRecord s d r)) := by
  by_cases hd : d ∈ s.table
  · rw [SubRuns.addRecord, if_pos hd]
    exact h
  rw [view_addRecord hd]
  refine ⟨⟨fun e he h0 => List.mem_append_left _ (h.rows e he h0), h.fresh, h.made, h.linked⟩,
    h.manager, fun e he h0 => ?_⟩
  have hne : e ≠ d := fun heq => hd (heq ▸ h.rows e he h0)
  unfold Saved
  simp only [Function.update_of_ne hne]
  exact h.saved e he h0

theorem Good.enable {s : Server} (h : Good (view s)) (d a : ℤ) : Good (view (enable s d a)) := by
  unfold SubRuns.enable
  split
  · have hsub1 : Function.update (view s).sub1 d (s.row d).sub1 = (view s).sub1 :=
      Function.update_eq_self d _
    rw [view_setRow]
    refine ⟨⟨h.rows, h.fresh, h.made, h.linked⟩, h.manager, fun e he h0 => ?_⟩
    show (view s).subscription e = SubRuns.saved (Function.update (view s).sub1 d (s.row d).sub1 e)
    rw [hsub1]
    exact h.saved e he h0
  · exact h

/-- The state in which `cmd_reg` calls `dev_register`. -/
def prepared (v : View) (d type : ℤ) : View := updateData (setType v d type) d

theorem prepared_devs (v : View) (d type : ℤ) : (prepared v d type).devs = v.devs := by
  unfold prepared updateData setType
  split <;> split <;> rfl

theorem mem_prepared_table (v : View) (d type : ℤ) : d ∈ (prepared v d type).table := by
  unfold prepared updateData
  split
  · assumption
  · exact List.mem_append_right _ List.mem_cons_self

theorem prepared_sub1 (v : View) (d type : ℤ) :
    (prepared v d type).sub1 d = if d ∈ v.table then v.sub1 d else 0 := by
  have hkeep : (setType v d type).table = v.table ∧ (setType v d type).sub1 = v.sub1 := by
    unfold setType
    split <;> exact ⟨rfl, rfl⟩
  unfold prepared updateData
  rw [hkeep.1]
  by_cases hd : d ∈ v.table
  · simp only [if_pos hd, hkeep.2]
  · simp only [if_neg hd, Function.update_self]

theorem Good.registered (h : Good v) (type tid : ℤ)
    (hg : d ∈ v.devs ∨ d ∉ v.table ∨ v.sub1 d = 0) :
    Good (Subscribe.register (prepared v d type) d type tid) := by
  have hprep : Good (prepared v d type) := (h.setType d type).updateData d
  refine hprep.register (fun _ => mem_prepared_table v d type) ?_ type tid
  rw [prepared_devs, prepared_sub1]
  rcases hg with hd | hd | hd
  · exact .inl hd
  · exact .inr (if_neg hd)
  · exact .inr (by simp [hd])

/-- A record known beforehand, with a subscription, is not restored. -/
theorem not_saved_registered (hd : d ∉ v.devs) (hrow : d ∈ v.table) (hs : v.sub1 d ≠ 0)
    (type tid : ℤ) : ¬ Saved (Subscribe.register (prepared v d type) d type tid) d := by
  have hd' : d ∉ (prepared v d type).devs := by rwa [prepared_devs]
  rw [register_saved_iff hd', prepared_sub1, if_pos hrow]
  exact hs

variable {cksum info notice} in
theorem Inv.step {s s' : State} {e : Event} (h : Inv s) (hg : NoSavedSub cksum s e)
    (hs : step cksum info notice s e = some s') : Inv s' := by
  cases e with
  | sub cmd =>
    obtain ⟨r, hr, rfl⟩ := Option.map_eq_some_iff.mp hs
    rcases cmdSub_cases notice s.serv cmd with ⟨-, code, c, hc⟩ | ⟨-, -, hc⟩ |
      ⟨n, c, s₁, hd, -, hn, -, hc, hv⟩
    · rw [hc] at hr
      cases hr
      exact inv_of_view h.good rfl
    · rw [hc] at hr
      cases hr
    · rw [hc] at hr
      cases hr
      exact ⟨hv ▸ (h.good.change hd hn).endSub _ _, fun _ _ _ hn => nomatch hn⟩
  | reg cmd moved allow =>
    obtain ⟨r, hr, rfl⟩ := Option.map_eq_some_iff.mp hs
    rcases cmdReg_cases cksum info s.serv cmd moved allow with ⟨-, code, c, s₁, hc, hcode, hv⟩ |
      ⟨type, c, s₁, htype, hc, hv⟩
    · rw [hc] at hr
      cases hr
      simp only [if_neg hcode]
      exact inv_of_view h.good hv
    · rw [hc] at hr
      cases hr
      have hgood : Good (view s₁) := by
        rw [hv]
        exact h.good.registered type _ (hg (htype ▸ Option.some_ne_none type))
      refine ⟨hgood, fun d n m hn h0 => ?_⟩
      simp only [if_true, Option.some.injEq, Prod.mk.injEq, infoSub] at hn
      obtain ⟨rfl, rfl, -⟩ := hn
      have hmem : cmd.deviceId ∈ (view s₁).devs := by
        rw [hv]
        exact register_devs_subset _ _ type _ (.inr rfl)
      exact (hgood.saved _ hmem h0).symm
  | addRecord d r =>
    rw [SubRuns.step] at hs
    split at hs
    · cases hs
    · cases hs
      exact ⟨h.good.addRecord d r, fun _ _ _ hn => nomatch hn⟩
  | enable d a =>
    cases hs
    exact ⟨h.good.enable d a, fun _ _ _ hn => nomatch hn⟩

/-- A step that misses the guard leaves a device without its subscription. -/
theorem step_bad {s : State} {e : Event} (h : Inv s) (hg : ¬ NoSavedSub cksum s e) :
    ∃ s', step cksum info notice s e = some s' ∧ ¬ Agree s' := by
  cases e with
  | reg cmd moved allow =>
    simp only [NoSavedSub, Classical.not_imp, not_or, not_not] at hg
    obtain ⟨htype, hd, hrow, hsub⟩ := hg
    rcases cmdReg_cases cksum info s.serv cmd moved allow with ⟨hnone, -⟩ |
      ⟨type, c, s₁, -, hc, hv⟩
    · exact absurd hnone htype
    · refine ⟨_, by rw [step, hc]; rfl, fun hagree => ?_⟩
      have h0 : cmd.deviceId ≠ 0 := fun heq => hd (heq ▸ h.good.manager)
      have hmem : cmd.deviceId ∈ (view s₁).devs := by
        rw [hv]
        exact register_devs_subset _ _ type _ (.inr rfl)
      have hsaved : Saved (view s₁) cmd.deviceId := hagree.saved _ hmem h0
      rw [hv] at hsaved
      exact not_saved_registered hd hrow hsub type _ hsaved
  | sub => exact absurd trivial hg
  | addRecord => exact absurd trivial hg
  | enable => exact absurd trivial hg

/-! ## Recovery -/

theorem GoodBut.restoreOne (h : GoodBut v d) (hm : 0 ∈ v.devs) (hd : d ∈ v.devs) {tid : ℤ}
    (ht : tid ≠ 0) (hs : v.subscription d = none) : Good (restoreOne v d tid) := by
  rw [Subscribe.restoreOne, if_neg ht]
  have hd' : d ∈ (Subscribe.request v tid).devs := by rwa [request_devs]
  have hbut : GoodBut (Subscribe.subscribe (Subscribe.request v tid) d tid) d := by
    refine ⟨(h.toLinks.request tid).subscribe hd' (mem_request v tid), fun e he h0 hne => ?_⟩
    rw [subscribe_eq, request_devs] at he
    exact subscribe_saved_other hne ((h.saved e he h0 hne).request tid)
  refine hbut.good ?_ (.inr (subscribe_saved_self (.inr ?_) ht))
  · rw [subscribe_eq, request_devs]
    exact hm
  · rw [request_subscription, hs]
    exact Option.some_ne_none tid ∘ Eq.symm

theorem Good.restoreOne (h : Good v) (hd : d ∈ v.devs) (tid : ℤ) : Good (restoreOne v d tid) := by
  unfold Subscribe.restoreOne
  split
  · exact h
  · next ht =>
    exact (h.request tid).subscribe (by rwa [request_devs]) (mem_request v tid) ht

/-- **Recovery restores the subscription,** the second one if there are two. -/
theorem recovered_good (h : GoodBut v d) (hm : 0 ∈ v.devs) (hd : d ∈ v.devs)
    (hs : Saved v d ∨ v.subscription d = none) : Good (recovered v d) := by
  refine Good.restoreOne ?_ (by rw [restoreOne_devs]; exact hd) _
  by_cases hsaved : Saved v d
  · exact (h.good hm (.inr hsaved)).restoreOne hd _
  · have hnone := hs.resolve_left hsaved
    refine h.restoreOne hm hd (fun h0 => hsaved ?_) hnone
    rw [Saved, hnone, h0]
    rfl

theorem register_saved_or_none (hd : d ∉ v.devs) (type tid : ℤ) :
    Saved (register v d type tid) d ∨ (register v d type tid).subscription d = none := by
  by_cases h0 : v.sub1 d = 0
  · exact .inl ((register_saved_iff hd type tid).mpr h0)
  · right
    unfold register enroll
    rw [if_neg hd, if_neg fun h => h0 h.2.2.1, request_subscription]
    simp only [Function.update_self]

theorem recoverDev_good {s s' : Server} (h : Good (view s)) (hd : d ∈ s.table)
    (hs : recoverDev s d = some s') : Good (view s') := by
  rcases recoverDev_view hs with hv | ⟨hreg, type, tid, opn, hv⟩
  · exact hv ▸ h
  · have hgood : Good (recovered (register (view s) d type tid) d) := by
      refine recovered_good ((h.but d).register (fun _ => hd) _ _) ?_ ?_ ?_
      · exact register_devs_subset _ _ _ _ (.inl h.manager)
      · exact register_devs_subset _ _ _ _ (.inr rfl)
      · exact register_saved_or_none hreg _ _
    rw [hv]
    exact ⟨⟨hgood.rows, hgood.fresh, hgood.made, hgood.linked⟩, hgood.manager, hgood.saved⟩

theorem foldlM_recoverDev_good {l : List ℤ} {s s' : Server} (h : Good (view s))
    (hl : ∀ d ∈ l, d ∈ s.table) (hs : l.foldlM recoverDev s = some s') : Good (view s') := by
  have hstep : ∀ t d t', Good (view t) ∧ t.table = s.table → d ∈ s.table →
      recoverDev t d = some t' → Good (view t') ∧ t'.table = s.table :=
    fun t d t' ⟨ht, htable⟩ hd hs =>
      ⟨recoverDev_good ht (htable ▸ hd) hs, (recoverDev_table hs).trans htable⟩
  exact (of_run_forall hstep ⟨h, rfl⟩ hl hs).1

theorem links_boot (db : Db) : Links (managerRow (view (boot db))) where
  rows _ hd := absurd hd List.not_mem_nil
  fresh _ _ := rfl
  made _ _ h := nomatch h
  linked _ _ := rfl

/-- **The recovered server** keeps the subscriptions of its records. -/
theorem recoverServer_good {db : Db} {s : Server} (hs : recoverServer db = some s) :
    Good (view s) := by
  obtain ⟨s₁, s₂, hv, hl, hs⟩ := recoverServer_view hs
  have hbut : GoodBut (managerRow (view (boot db))) 0 :=
    ⟨links_boot db, fun e he => absurd he List.not_mem_nil⟩
  have hgood : Good (view s₁) := by
    rw [hv]
    exact (hbut.register (absurd rfl) devtypeNone 1).good
      (register_devs_subset _ _ _ _ (.inr rfl)) (.inl rfl)
  have htable : s₁.table = db.table := by
    rw [← view_table, hv, register_table]
    rfl
  rw [hs]
  exact foldlM_recoverDev_good hgood (fun d hd => htable.symm ▸ hd) hl

/-! ## Runs -/

/-- **Subscriptions agree everywhere,** along every run from the recovered server, exactly when no
device registers whose record, known beforehand, has a subscription. -/
theorem agree_iff {db : Db} {s : Server} (hs : recoverServer db = some s) (es : List Event) :
    Along (step cksum info notice) Agree ⟨s, none⟩ es ↔
      Guarded (step cksum info notice) (NoSavedSub cksum) ⟨s, none⟩ es := by
  refine @along_iff_guarded _ _ _ _ Inv _ (fun _ => True) (fun _ h => h.agree)
    (fun _ _ _ hI _ hg hstep => hI.step hg hstep)
    (fun _ _ hI _ hg => step_bad cksum info notice hI hg) _ _
    (inv_of_view (recoverServer_good hs) rfl) fun _ _ => trivial

theorem disabledClient_nodup : ([101] : List ℤ).Nodup := by decide

/-- A database with the client 101, which is disabled and subscribes to the tag 2. -/
def disabledClient : Db where
  group := { discussMode := 0, discussMaxuser := 0, discussId := 0 }
  table := [101]
  nodup := disabledClient_nodup
  row := fun _ =>
    { type := 1, tagid := 1, userName := "?".toList, enabled := 0, online := 0, sub1 := 2,
      sub2 := 0, discussChair := 0, discussOpen := 0, ptcId := -1, ptcCmd := [] }
  discuss := []
  optMixer := .soft

/-- The `reg` command of the client. -/
def regCmd (cksum : BitVec 32 → Str) : Cmd where
  deviceId := 101
  args := ["1".toList, cksum (BitVec.ofInt 32 101 ^^^ BitVec.ofInt 32 1), "9000".toList,
    "none".toList]
  rep := []

theorem disabledClient_recovers : ∃ s, recoverServer disabledClient = some s ∧
    s.devs = [0] ∧ s.table = [101] ∧ (s.row 101).sub1 = 2 := by
  obtain ⟨s, hs, hv⟩ := Option.map_eq_some_iff.mp (show (recoverServer disabledClient).map
    (fun s => (s.devs, s.table, (s.row 101).sub1)) = some ([0], [101], 2) by decide)
  simp only [Prod.mk.injEq] at hv
  exact ⟨s, hs, hv⟩

/-- A client that is enabled after the start comes without its subscription. -/
theorem enabled_client_loses_subscription : ¬ ∃ (cksum : BitVec 32 → Str)
    (info : Server → ℤ → ℤ × ℤ → Str) (notice : Server → ℤ → ℤ → Bool → Str),
    ∀ db s es, recoverServer db = some s → Along (step cksum info notice) Agree ⟨s, none⟩ es := by
  rintro ⟨cksum, info, notice, h⟩
  obtain ⟨s, hs, hdevs, htable, hsub⟩ := disabledClient_recovers
  have hen : enable s 101 1 = s.setRow 101 fun r => { r with enabled := 1 } :=
    if_pos (htable ▸ List.mem_cons_self)
  have hinv : Inv ⟨enable s 101 1, none⟩ :=
    ⟨(recoverServer_good hs).enable 101 1, fun _ _ _ hn => nomatch hn⟩
  have hbad : ¬ NoSavedSub cksum ⟨enable s 101 1, none⟩ (.reg (regCmd cksum) false 0) := by
    have htype : regType cksum (enable s 101 1) (regCmd cksum) = some 1 := by
      refine if_pos ⟨rfl, by decide, fun hdis => ?_⟩
      rw [hen] at hdis
      simp [Server.setRow, regCmd] at hdis
    intro hg
    have hfound := hg (htype ▸ Option.some_ne_none 1)
    rw [hen] at hfound
    simp [regCmd, Server.setRow, hdevs, htable, hsub] at hfound
  obtain ⟨s', hs', hn⟩ := step_bad cksum info notice hinv hbad
  have hrun := h disabledClient s [.enable 101 1, .reg (regCmd cksum) false 0] hs
  exact hn ((hrun.2 _ rfl).2 s' hs')

/-- The client 102 registers, subscribes to the tag 2 and registers again, and the client 101 is
enabled. -/
def subscribing : List Event :=
  let reg : Event := .reg { regCmd (fun _ => []) with deviceId := 102 } false 0
  [reg, .sub { deviceId := 102, args := ["2".toList], rep := [] }, reg, .enable 101 1]

theorem agree_subscribing : ∃ s, recoverServer disabledClient = some s ∧
    (Along (step (fun _ => []) (fun _ _ _ => []) (fun _ _ _ _ => [])) Agree ⟨s, none⟩ subscribing ↔
      Guarded (step (fun _ => []) (fun _ _ _ => []) (fun _ _ _ _ => [])) (NoSavedSub fun _ => [])
        ⟨s, none⟩ subscribing) ∧
    ∃ t, run (step (fun _ => []) (fun _ _ _ => []) (fun _ _ _ _ => [])) ⟨s, none⟩ subscribing =
      some t ∧ t.serv.devs = [0, 102] ∧ (t.serv.dev 102).subscription = some 2 := by
  have hrun : ((recoverServer disabledClient).any fun s =>
      (run (step (fun _ => []) (fun _ _ _ => []) (fun _ _ _ _ => [])) ⟨s, none⟩ subscribing).any
        fun t => decide (t.serv.devs = [0, 102] ∧ (t.serv.dev 102).subscription = some 2)) =
      true := by
    decide +kernel
  obtain ⟨s, hs, ht⟩ := (Option.any_eq_true _ _).mp hrun
  obtain ⟨t, ht, hend⟩ := (Option.any_eq_true _ _).mp ht
  exact ⟨s, hs, agree_iff _ _ _ hs _, t, ht, of_decide_eq_true hend⟩

end GSConferencing.Serv.SubRuns
