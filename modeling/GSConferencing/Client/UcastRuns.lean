import GSConferencing.Client.Ucast

/-!
# The unicast caster along runs

What the caster will know of each device, once the messages in flight are handled in order, is kept
equal to what the server has.

* `handle_under`: a message does to the entries of a device what `act` says.
* `arrive_final`: a message that overtakes none about the same device changes nothing.
* `cast_follows`: the steps that keep the caster right, and what the others lead to.
-/

namespace GSConferencing.Client.UcastRuns

open GSConferencing.Lib.Run GSConferencing.Lib.ByKey GSConferencing.Serv.Strutil
open GSConferencing.Client.Ucast

variable {t : ℤ} {s s' : State} {i : ℤ}

/-! ## One device at the caster -/

/-- The entries of a device, the last one in front. -/
def entries (subs : List DevEnt) (i : ℤ) : List DevEnt := subs.filter fun e => e.id = i

/-- What a notice does to the entries of its device. -/
def mark (e : SubEnt) (b : Bool) : List DevEnt → List DevEnt
  | [] => if b then [e.entry] else []
  | x :: l => { x with sub := b } :: l

/-- What a message does to the entries of a device. -/
def act (t i : ℤ) (l : List DevEnt) : Type2 → List DevEnt
  | .subsList hdTag es =>
    if hdTag ≠ t then l else (es.filter fun e => e.id = i).foldl (fun l e => e.entry :: l) l
  | .sub e b => if e.id ≠ i then l else mark e b l

theorem entries_cons (e : DevEnt) (subs : List DevEnt) (i : ℤ) :
    entries (e :: subs) i = if e.id = i then e :: entries subs i else entries subs i := by
  unfold entries
  rw [List.filter_cons]
  by_cases h : e.id = i
  · rw [if_pos (decide_eq_true h), if_pos h]
  · rw [if_neg (by simpa using h), if_neg h]

theorem setSub_none {id : ℤ} {b : Bool} {subs : List DevEnt} (h : setSub id b subs = none) :
    entries subs id = [] := by
  induction subs with
  | nil => rfl
  | cons e subs ih =>
    rw [setSub] at h
    split at h
    · cases h
    · next hne =>
      rw [Option.map_eq_none_iff] at h
      rw [entries_cons, if_neg hne, ih h]

theorem setSub_some {id : ℤ} {b : Bool} {subs subs' : List DevEnt}
    (h : setSub id b subs = some subs') :
    (∃ x l, entries subs id = x :: l ∧ entries subs' id = { x with sub := b } :: l) ∧
      ∀ i ≠ id, entries subs' i = entries subs i := by
  induction subs generalizing subs' with
  | nil => cases h
  | cons e subs ih =>
    rw [setSub] at h
    split at h
    · next heq =>
      cases h
      refine ⟨⟨e, entries subs id, ?_, ?_⟩, fun i hi => ?_⟩
      · rw [entries_cons, if_pos heq]
      · rw [entries_cons, if_pos (show ({ e with sub := b } : DevEnt).id = id from heq)]
      · have hne : e.id ≠ i := fun h => hi (h ▸ heq)
        rw [entries_cons, entries_cons, if_neg hne, if_neg hne]
    · next hne =>
      obtain ⟨subs₁, hsubs, rfl⟩ := Option.map_eq_some_iff.mp h
      obtain ⟨⟨x, l, hx, hx'⟩, hother⟩ := ih hsubs
      refine ⟨⟨x, l, ?_, ?_⟩, fun i hi => ?_⟩
      · rw [entries_cons, if_neg hne, hx]
      · rw [entries_cons, if_neg hne, hx']
      · rw [entries_cons, entries_cons, hother i hi]

theorem addSub_entries {subs subs' : List DevEnt} {e : SubEnt} (h : addSub subs e = some subs')
    (i : ℤ) : entries subs' i = if e.id = i then e.entry :: entries subs i else entries subs i := by
  unfold addSub at h
  split at h
  · cases h
  · cases h
    exact entries_cons e.entry subs i

theorem foldlM_entries {es : List SubEnt} {subs subs' : List DevEnt}
    (h : es.foldlM addSub subs = some subs') (i : ℤ) :
    entries subs' i =
      (es.filter fun e => e.id = i).foldl (fun l e => e.entry :: l) (entries subs i) := by
  induction es generalizing subs with
  | nil => cases h; rfl
  | cons e es ih =>
    rw [List.foldlM_cons] at h
    obtain ⟨subs₁, hadd, h⟩ := Option.bind_eq_some_iff.mp h
    rw [ih h, addSub_entries hadd, List.filter_cons]
    by_cases he : e.id = i
    · rw [if_pos he, if_pos (decide_eq_true he), List.foldl_cons]
    · rw [if_neg he, if_neg (by simpa using he)]

/-- **A message** does to the entries of a device what `act` says. -/
theorem handle_entries {m : Type2} {subs subs' : List DevEnt}
    (h : handleType2 t subs m = some subs') (i : ℤ) :
    entries subs' i = act t i (entries subs i) m := by
  cases m with
  | subsList hdTag es =>
    rw [handleType2] at h
    rw [act]
    by_cases htag : hdTag ≠ t
    · rw [if_pos htag] at h ⊢
      cases h
      rfl
    · rw [if_neg htag] at h ⊢
      exact foldlM_entries h i
  | sub e b =>
    have hset : ∀ {b : Bool} {subs₁ : List DevEnt}, setSub e.id b subs = some subs₁ →
        entries subs₁ i = act t i (entries subs i) (.sub e b) := by
      intro b subs₁ hset
      obtain ⟨⟨x, l, hx, hx'⟩, hother⟩ := setSub_some hset
      rw [act]
      by_cases hi : e.id ≠ i
      · rw [if_pos hi, hother i (Ne.symm hi)]
      · obtain rfl := not_not.mp hi
        rw [if_neg hi, hx, hx']
        rfl
    cases b with
    | true =>
      rw [handleType2] at h
      split at h
      · next subs₁ hs =>
        cases h
        exact hset hs
      · next hs =>
        rw [addSub_entries h, act]
        by_cases hi : e.id = i
        · rw [if_pos hi, if_neg (not_not.mpr hi), ← hi, setSub_none hs]
          rfl
        · rw [if_neg hi, if_pos hi]
    | false =>
      rw [handleType2] at h
      cases hs : setSub e.id false subs with
      | some subs₁ =>
        rw [hs] at h
        cases h
        exact hset hs
      | none =>
        rw [hs] at h
        cases h
        rw [Option.getD_none, act]
        by_cases hi : e.id = i
        · rw [if_neg (not_not.mpr hi), ← hi, setSub_none hs]
          rfl
        · rw [if_pos hi]

/-- The devices that a message is about. -/
def about : Type2 → List ℤ
  | .subsList _ es => es.map SubEnt.id
  | .sub e _ => [e.id]

/-- A message leaves the entries of other devices alone. -/
theorem act_other {m : Type2} (h : i ∉ about m) (l : List DevEnt) : act t i l m = l := by
  cases m with
  | subsList hdTag es =>
    have hnone : (es.filter fun e => e.id = i) = [] := List.filter_eq_nil_iff.mpr fun e he hid =>
      h (List.mem_map.mpr ⟨e, he, of_decide_eq_true hid⟩)
    rw [act, hnone, List.foldl_nil, ite_self]
  | sub e b => exact if_pos fun hid => h (List.mem_singleton.mpr hid.symm)

/-- The entries of a device once the messages in flight are handled in order. -/
def final (t : ℤ) (s : State) (i : ℤ) : List DevEnt := s.flight.foldl (act t i) (entries s.subs i)

theorem foldl_act_other {ms : List Type2} (h : ∀ m ∈ ms, i ∉ about m) (l : List DevEnt) :
    ms.foldl (act t i) l = l := by
  induction ms generalizing l with
  | nil => rfl
  | cons m ms ih =>
    rw [List.foldl_cons, act_other (h m List.mem_cons_self),
      ih fun m' hm' => h m' (List.mem_cons_of_mem m hm')]

/-- A message that overtakes none about the same device. -/
def InTurn (s : State) (k : ℕ) : Prop :=
  ∀ m, s.flight[k]? = some m → ∀ m' ∈ s.flight.take k, ∀ i ∈ about m, i ∉ about m'

/-- **A message that overtakes none** about the same device: what the caster will know stays. -/
theorem arrive_final {k : ℕ} (hph : s.phase = .asked) (hturn : InTurn s k)
    (h : arrive t s k = some s') : s'.devs = s.devs ∧ s'.phase = s.phase ∧ s'.up = s.up ∧
      ∀ i, final t s' i = final t s i := by
  unfold arrive at h
  split at h
  · cases h
    exact ⟨rfl, rfl, rfl, fun _ => rfl⟩
  · next m hm =>
    rw [if_neg (by rw [hph]; simp)] at h
    obtain ⟨subs, hsubs, rfl⟩ := Option.map_eq_some_iff.mp h
    refine ⟨rfl, rfl, rfl, fun i => ?_⟩
    have hk : k < s.flight.length := (List.getElem?_eq_some_iff.mp hm).1
    have hget : s.flight[k] = m := (List.getElem?_eq_some_iff.mp hm).2
    have hflight : s.flight = s.flight.take k ++ m :: s.flight.drop (k + 1) := by
      rw [← hget, List.getElem_cons_drop, List.take_append_drop]
    unfold final
    simp only []
    rw [List.eraseIdx_eq_take_drop_succ, handle_entries hsubs]
    conv_rhs => rw [hflight]
    rw [List.foldl_append, List.foldl_append, List.foldl_cons]
    by_cases hi : i ∈ about m
    · have hpre : ∀ m' ∈ s.flight.take k, i ∉ about m' := fun m' hm' => hturn m hm m' hm' i hi
      rw [foldl_act_other hpre, foldl_act_other hpre]
    · rw [act_other hi, act_other hi]

/-! ## One device on the server -/

/-- The addresses at which the caster would serve a device. -/
def live (l : List DevEnt) : List Addr := (l.filter DevEnt.Live).map DevEnt.addr

/-- The addresses at which a device is to be served: its own, or none. -/
def wanted (t : ℤ) (devs : List Device) (i : ℤ) : List Addr :=
  under Device.id Device.addr i (devs.filter (Device.Wants t))

/-- What a device is to be served at by itself. -/
def servedAt (t : ℤ) (d : Device) : List Addr := if d.Wants t then [d.addr] else []

theorem live_entries (subs : List DevEnt) (i : ℤ) :
    live (entries subs i) = under DevEnt.id DevEnt.addr i (subs.filter DevEnt.Live) :=
  (under_filter DevEnt.Live i subs).symm

theorem live_cons (e : DevEnt) (l : List DevEnt) :
    live (e :: l) = (if e.Live then [e.addr] else []) ++ live l := by
  unfold live
  rw [List.filter_cons]
  split <;> rfl

theorem getDevice_some {devs : List Device} {d : Device} (h : getDevice devs i = some d) :
    d ∈ devs ∧ d.id = i :=
  ⟨List.mem_of_find?_eq_some h,
    of_decide_eq_true (@List.find?_some _ (fun d : Device => d.id = i) _ _ h)⟩

theorem getDevice_none {devs : List Device} (h : getDevice devs i = none) : ∀ d ∈ devs, d.id ≠ i :=
  fun d hd hid => List.find?_eq_none.mp h d hd (decide_eq_true hid)

theorem wanted_cons (d : Device) (devs : List Device) (i : ℤ) :
    wanted t (d :: devs) i = (if d.id = i then servedAt t d else []) ++ wanted t devs i := by
  unfold wanted servedAt
  rw [List.filter_cons]
  by_cases hw : d.Wants t
  · rw [if_pos hw, under_cons, if_pos hw]
    split <;> rfl
  · rw [if_neg hw, if_neg hw, ite_self]
    rfl

theorem wanted_absent {devs : List Device} (h : ∀ d ∈ devs, d.id ≠ i) : wanted t devs i = [] :=
  under_eq_nil.mpr fun d hd => h d (List.mem_filter.mp hd).1

theorem wanted_append (devs : List Device) (d : Device) (i : ℤ) :
    wanted t (devs ++ [d]) i = wanted t devs i ++ if d.id = i then servedAt t d else [] := by
  have hlast := wanted_cons (t := t) d [] i
  unfold wanted at hlast ⊢
  rw [List.filter_append, under_append, hlast]
  exact congrArg _ (List.append_nil _)

/-- **Where a device is served** depends on its own record alone. -/
theorem wanted_eq {devs : List Device} (hnd : (devs.map Device.id).Nodup) (i : ℤ) :
    wanted t devs i = ((getDevice devs i).map (servedAt t)).getD [] := by
  induction devs with
  | nil => rfl
  | cons d devs ih =>
    rw [List.map_cons, List.nodup_cons] at hnd
    rw [wanted_cons, getDevice, List.find?_cons]
    by_cases hid : d.id = i
    · have habsent : wanted t devs i = [] := wanted_absent fun d' hd' hid' =>
        hnd.1 (List.mem_map.mpr ⟨d', hd', hid'.trans hid.symm⟩)
      rw [if_pos hid, habsent, List.append_nil]
      simp [hid]
    · rw [if_neg hid, List.nil_append, ih hnd.2]
      simp [hid, getDevice]

theorem setDevice_ids (devs : List Device) (id : ℤ) {f : Device → Device}
    (hf : ∀ d, (f d).id = d.id) : (setDevice devs id f).map Device.id = devs.map Device.id := by
  unfold setDevice
  rw [List.map_map]
  refine List.map_congr_left fun d _ => ?_
  rw [Function.comp_apply]
  split
  · exact hf d
  · rfl

theorem getDevice_set (devs : List Device) (id : ℤ) {f : Device → Device}
    (hf : ∀ d, (f d).id = d.id) (i : ℤ) :
    getDevice (setDevice devs id f) i =
      (getDevice devs i).map fun d => if d.id = id then f d else d := by
  induction devs with
  | nil => rfl
  | cons d devs ih =>
    unfold getDevice setDevice at ih ⊢
    rw [List.map_cons, List.find?_cons, List.find?_cons, ih]
    have hid : (if d.id = id then f d else d).id = d.id := by
      split
      · exact hf d
      · rfl
    rw [hid]
    by_cases h : d.id = i
    · simp [h]
    · simp [h]

/-! ## Safe steps -/

/-- Devices are to be served as before. -/
def Unchanged (t : ℤ) (devs devs' : List Device) : Prop := ∀ i, wanted t devs' i = wanted t devs i

/-- The caster's entry of the device, if it will have one, has its activity and its address; the
address of an inactive device does not matter. -/
def EntryFits (t : ℤ) (s : State) (d : Device) : Prop :=
  ∀ e, (final t s d.id).head? = some e → e.active = d.active ∧ (d.active = true → e.addr = d.addr)

/-- A command `sub` is safe when it is for the tag, the caster is told and its entry fits; else it must
not matter to the tag. -/
def SubSafe (t : ℤ) (s : State) (id arg : ℤ) : Prop :=
  ∀ d, getDevice s.devs id = some d → arg ≠ 0 →
    if |arg| = t ∧ s.up = true then 0 < arg → EntryFits t s d
    else Unchanged t s.devs (subDevs s.devs id arg)

/-- The steps that keep the caster right.  Before it asks for the list nothing matters, but when it
does, notices must not have made it serve a device already. -/
def Safe (t : ℤ) (s : State) : Event → Prop
  | .reg id addr client => s.phase = .asked → Unchanged t s.devs (regDevs s.devs id addr client)
  | .activate id active => s.phase = .asked →
      Unchanged t s.devs (setDevice s.devs id fun d => { d with active := active })
  | .sub id arg => s.phase = .asked → SubSafe t s id arg
  | .getSubs => s.phase = .reged → 0 < t → t < 2 ^ 16 ∧ ∀ i, live (final t s i) = []
  | .arrive k => s.phase = .asked → InTurn s k
  | .attach => True
  | .reged => True
  | .casterActive _ => True

/-- The caster will serve each device as it is to be served, by its last entry. -/
structure Follows (t : ℤ) (s : State) (i : ℤ) : Prop where
  live : live (final t s i) = wanted t s.devs i
  old : UcastRuns.live (final t s i).tail = []

structure Inv (t : ℤ) (s : State) : Prop where
  nodup : (s.devs.map Device.id).Nodup
  follows : s.phase = .asked → ∀ i, Follows t s i

theorem Follows.congr (h : Follows t s i) (hfinal : final t s' i = final t s i)
    (hwanted : wanted t s'.devs i = wanted t s.devs i) : Follows t s' i :=
  ⟨by rw [hfinal, hwanted, h.live], by rw [hfinal, h.old]⟩

theorem change_id (d : Device) (tid : ℤ) (unsub : Bool) : (d.change tid unsub).id = d.id := by
  unfold Device.change
  split
  · split <;> rfl
  · rfl

theorem change_addr (d : Device) (tid : ℤ) (unsub : Bool) : (d.change tid unsub).addr = d.addr := by
  unfold Device.change
  split
  · split <;> rfl
  · rfl

theorem regDevs_nodup {devs : List Device} (hnd : (devs.map Device.id).Nodup) (id : ℤ) (addr : Addr)
    (client : Bool) : ((regDevs devs id addr client).map Device.id).Nodup := by
  unfold regDevs
  split
  · have hids := @setDevice_ids devs id (fun d => { d with addr := addr, active := true })
      fun _ => rfl
    rw [hids]
    exact hnd
  · next hnone =>
    rw [List.map_append, List.nodup_append]
    refine ⟨hnd, List.nodup_singleton _, ?_⟩
    rintro a ha b hb rfl
    obtain ⟨d, hd, rfl⟩ := List.mem_map.mp ha
    exact getDevice_none hnone d hd (List.mem_singleton.mp hb)

/-! ## One step -/

/-- A change that the caster is not told of. -/
theorem silent_step (h : Inv t s) {devs : List Device} (hnd : (devs.map Device.id).Nodup)
    (hg : s.phase = .asked → Unchanged t s.devs devs) : Inv t { s with devs := devs } :=
  ⟨hnd, fun hph i => (h.follows hph i).congr rfl (hg hph i)⟩

/-- One more message in flight. -/
theorem final_append (m : Type2) (devs : List Device) (phase : Phase) (i : ℤ) :
    final t { s with devs := devs, phase := phase, flight := s.flight ++ [m] } i =
      act t i (final t s i) m := by
  unfold final
  rw [List.foldl_append]
  rfl

theorem servedAt_change (d : Device) (t : ℤ) (unsub : Bool) :
    servedAt t (d.change t unsub) = if d.active && !unsub then [d.addr] else [] := by
  unfold servedAt Device.Wants
  rw [change_addr]
  unfold Device.change
  cases unsub with
  | true =>
    by_cases hsub : d.subscription = some t
    · simp [hsub]
    · simp [hsub]
  | false => simp

/-- What the notice of a command `sub` makes of the entries of the device. -/
theorem live_mark (d : Device) (b : Bool) {l : List DevEnt} (hold : live l.tail = [])
    (hfit : b = true → ∀ e, l.head? = some e →
      e.active = d.active ∧ (d.active = true → e.addr = d.addr)) :
    live (mark ⟨d.id, d.addr, d.active⟩ b l) = (if d.active && b then [d.addr] else []) ∧
      live (mark ⟨d.id, d.addr, d.active⟩ b l).tail = [] := by
  cases l with
  | nil =>
    cases b with
    | true =>
      refine ⟨?_, rfl⟩
      rw [mark, if_pos rfl, live_cons]
      simp [SubEnt.entry, DevEnt.Live, live]
    | false => exact ⟨by simp [mark, live], rfl⟩
  | cons e l =>
    refine ⟨?_, hold⟩
    rw [mark, live_cons, show live l = [] from hold, List.append_nil]
    cases b with
    | true =>
      obtain ⟨hactive, haddr⟩ := hfit rfl e rfl
      by_cases hd : d.active = true
      · simp [DevEnt.Live, hactive, haddr hd, hd]
      · simp [DevEnt.Live, hactive, hd]
    | false => simp [DevEnt.Live]

/-- A command `sub` that the caster is told of. -/
theorem told_step (h : Inv t s) {d : Device} {arg : ℤ} (hget : getDevice s.devs d.id = some d)
    (harg : |arg| = t) (hne : arg ≠ 0) (hph : s.phase = .asked)
    (hfit : 0 < arg → EntryFits t s d) :
    Inv t { s with
      devs := subDevs s.devs d.id arg
      flight := s.flight ++ [.sub ⟨d.id, d.addr, d.active⟩ (0 < arg)] } := by
  have hnd : ((subDevs s.devs d.id arg).map Device.id).Nodup :=
    (setDevice_ids s.devs d.id fun d => change_id d |arg| (arg < 0)) ▸ h.nodup
  refine ⟨hnd, fun _ i => ?_⟩
  have hfollows := h.follows hph
  have hfinal := @final_append t s (.sub ⟨d.id, d.addr, d.active⟩ (0 < arg))
    (subDevs s.devs d.id arg) s.phase i
  have hwanted : wanted t (subDevs s.devs d.id arg) i =
      if d.id = i then servedAt t (d.change t (arg < 0)) else wanted t s.devs i := by
    rw [wanted_eq hnd, wanted_eq h.nodup, subDevs,
      getDevice_set s.devs d.id fun d => change_id d |arg| (arg < 0), harg]
    by_cases hi : d.id = i
    · rw [if_pos hi, ← hi, hget, Option.map_some, if_pos rfl]
      rfl
    · rw [if_neg hi]
      cases hgi : getDevice s.devs i with
      | none => rfl
      | some d' =>
        have hid' := (getDevice_some hgi).2
        rw [Option.map_some, if_neg fun hd => hi (hd.symm.trans hid')]
  by_cases hi : d.id = i
  · subst hi
    have hmark := live_mark d (0 < arg) (hfollows d.id).old fun hpos => hfit (of_decide_eq_true hpos)
    have hsign : decide (0 < arg) = !decide (arg < 0) := by
      rw [← decide_not, decide_eq_decide]
      omega
    refine ⟨?_, ?_⟩
    · rw [hfinal, hwanted, if_pos rfl, act, if_neg (not_not.mpr rfl), hmark.1, servedAt_change, hsign]
    · rw [hfinal, act, if_neg (not_not.mpr rfl), hmark.2]
  · refine (hfollows i).congr ?_ (hwanted.trans (if_neg hi))
    rw [hfinal, act, if_pos hi]

/-- What the list says of a device. -/
theorem subsOf_filter {devs : List Device} (hnd : (devs.map Device.id).Nodup) (i : ℤ) :
    ((subsOf t devs).filter fun e => e.id = i) = ((getDevice devs i).map fun d =>
      if d.subscription = some t then [SubEnt.mk d.id d.addr d.active] else []).getD [] := by
  induction devs with
  | nil => rfl
  | cons d devs ih =>
    rw [List.map_cons, List.nodup_cons] at hnd
    have hrest := ih hnd.2
    have hcons : (subsOf t (d :: devs)).filter (fun e => e.id = i) =
        (if d.id = i then if d.subscription = some t then [SubEnt.mk d.id d.addr d.active] else []
          else []) ++ (subsOf t devs).filter fun e => e.id = i := by
      unfold subsOf
      by_cases hsub : d.subscription = some t
      · by_cases hid : d.id = i
        · simp [hsub, hid]
        · simp [hsub, hid]
      · simp [hsub]
    rw [hcons]
    by_cases hid : d.id = i
    · have habsent : ((subsOf t devs).filter fun e => e.id = i) = [] := by
        refine List.filter_eq_nil_iff.mpr fun e he hei => ?_
        obtain ⟨d', hd', rfl⟩ := List.mem_map.mp he
        refine hnd.1 (List.mem_map.mpr ⟨d', (List.mem_filter.mp hd').1, ?_⟩)
        exact (of_decide_eq_true hei).trans hid.symm
      have hget : getDevice (d :: devs) i = some d := by simp [getDevice, hid]
      rw [if_pos hid, habsent, List.append_nil, hget]
      rfl
    · have hget : getDevice (d :: devs) i = getDevice devs i := by simp [getDevice, hid]
      rw [if_neg hid, List.nil_append, hrest, hget]

/-- The list puts the current record of a subscriber before what the caster had. -/
theorem live_list {devs : List Device} (hnd : (devs.map Device.id).Nodup) (i : ℤ)
    (l : List DevEnt) :
    live (act t i l (.subsList t (subsOf t devs))) = wanted t devs i ++ live l ∧
      (live l = [] → live (act t i l (.subsList t (subsOf t devs))).tail = []) := by
  have htail : live l = [] → live l.tail = [] := by
    intro hl
    cases l with
    | nil => rfl
    | cons e l =>
      rw [live_cons] at hl
      exact (List.append_eq_nil_iff.mp hl).2
  rw [act, if_neg (not_not.mpr rfl), subsOf_filter hnd, wanted_eq hnd]
  cases getDevice devs i with
  | none => exact ⟨rfl, htail⟩
  | some d =>
    rw [Option.map_some, Option.map_some, Option.getD_some, Option.getD_some]
    by_cases hsub : d.subscription = some t
    · rw [if_pos hsub, List.foldl_cons, List.foldl_nil, live_cons]
      refine ⟨?_, id⟩
      simp [SubEnt.entry, DevEnt.Live, servedAt, Device.Wants, hsub]
    · rw [if_neg hsub, List.foldl_nil]
      refine ⟨?_, htail⟩
      simp [servedAt, Device.Wants, hsub]

theorem ofInt_tag (h0 : 0 < t) (h : t < 2 ^ 16) : ((BitVec.ofInt 16 t).toNat : ℤ) = t := by
  rw [BitVec.toNat_ofInt]
  omega

theorem getSubs_cases (h : cmdGetSubs t s = some s') :
    (s' = s ∧ ¬ (s.phase = .reged ∧ 0 < t)) ∨ (s.phase = .reged ∧ 0 < t ∧ s' = { s with
      phase := .asked
      flight := s.flight ++ [.subsList (BitVec.ofInt 16 t).toNat (subsOf t s.devs)] }) := by
  unfold cmdGetSubs at h
  split at h
  · next hph =>
    cases h
    exact .inl ⟨rfl, fun h => hph.elim (fun hne => hne h.1) fun hle => not_lt.mpr hle h.2⟩
  · next hph =>
    split at h
    · cases h
    · cases h
      rw [not_or, not_not, not_le] at hph
      exact .inr ⟨hph.1, hph.2, rfl⟩

theorem sub_cases {id arg : ℤ} (h : cmdSub t s id arg = some s') :
    (s' = s ∧ ∀ d, getDevice s.devs id = some d → arg = 0) ∨
    ∃ d, getDevice s.devs id = some d ∧ arg ≠ 0 ∧
      ((|arg| = t ∧ s.phase ≠ .off ∧ s.up = true ∧ s' = { s with
          devs := subDevs s.devs id arg
          flight := s.flight ++ [.sub ⟨id, d.addr, d.active⟩ (0 < arg)] }) ∨
        (¬ (|arg| = t ∧ s.phase ≠ .off ∧ s.up = true) ∧
          s' = { s with devs := subDevs s.devs id arg })) := by
  unfold cmdSub at h
  split at h
  · next hnone =>
    cases h
    exact .inl ⟨rfl, fun d hd => absurd (hnone.symm.trans hd) (by simp)⟩
  · next d hd =>
    split at h
    · next hzero =>
      cases h
      exact .inl ⟨rfl, fun _ _ => hzero⟩
    · next hne =>
      split at h
      · cases h
      · simp only [] at h
        split at h
        · next htold =>
          cases h
          exact .inr ⟨d, hd, hne, .inl ⟨htold.1, htold.2.1, htold.2.2, rfl⟩⟩
        · next htold =>
          cases h
          exact .inr ⟨d, hd, hne, .inr ⟨htold, rfl⟩⟩

theorem arrive_frame {k : ℕ} (h : arrive t s k = some s') :
    s'.devs = s.devs ∧ s'.phase = s.phase := by
  unfold arrive at h
  split at h
  · cases h
    exact ⟨rfl, rfl⟩
  · simp only [] at h
    split at h
    · cases h
      exact ⟨rfl, rfl⟩
    · obtain ⟨subs, -, rfl⟩ := Option.map_eq_some_iff.mp h
      exact ⟨rfl, rfl⟩

theorem subDevs_ids (devs : List Device) (id arg : ℤ) :
    (subDevs devs id arg).map Device.id = devs.map Device.id :=
  setDevice_ids devs id fun d => change_id d |arg| (arg < 0)

/-- **One step** that is safe keeps the caster right. -/
theorem step_inv {e : Event} (h : Inv t s) (hg : Safe t s e) (hs : step t s e = some s') :
    Inv t s' := by
  cases e with
  | reg id addr client =>
    cases hs
    exact silent_step h (regDevs_nodup h.nodup id addr client) hg
  | activate id active =>
    cases hs
    have hids := @setDevice_ids s.devs id (fun d => { d with active := active }) fun _ => rfl
    exact silent_step h (by rw [hids]; exact h.nodup) hg
  | sub id arg =>
    have hnd : ((subDevs s.devs id arg).map Device.id).Nodup :=
      subDevs_ids s.devs id arg ▸ h.nodup
    obtain ⟨rfl, -⟩ | ⟨d, hd, hne, ⟨harg, -, hup, rfl⟩ | ⟨htold, rfl⟩⟩ := sub_cases hs
    · exact h
    · by_cases hph : s.phase = .asked
      · have hsafe := hg hph d hd hne
        rw [if_pos ⟨harg, hup⟩] at hsafe
        obtain rfl := (getDevice_some hd).2
        exact told_step h hd harg hne hph hsafe
      · exact ⟨hnd, fun h' => absurd h' hph⟩
    · refine silent_step h hnd fun hph => ?_
      have hsafe := hg hph d hd hne
      rw [if_neg fun hc => htold ⟨hc.1, by rw [hph]; simp, hc.2⟩] at hsafe
      exact hsafe
  | attach =>
    cases hs
    split
    · exact ⟨h.nodup, fun h' => absurd h' (by simp)⟩
    · exact h
  | reged =>
    cases hs
    split
    · exact ⟨h.nodup, fun h' => absurd h' (by simp)⟩
    · exact h
  | casterActive active =>
    cases hs
    exact ⟨h.nodup, fun hph i => (h.follows hph i).congr rfl rfl⟩
  | getSubs =>
    obtain ⟨rfl, -⟩ | ⟨hph, ht, rfl⟩ := getSubs_cases hs
    · exact h
    · obtain ⟨hmax, hlive⟩ := hg hph ht
      refine ⟨h.nodup, fun _ i => ?_⟩
      have hlist := live_list (t := t) h.nodup i (final t s i)
      refine ⟨?_, ?_⟩
      · rw [final_append, ofInt_tag ht hmax, hlist.1, hlive i, List.append_nil]
      · rw [final_append, ofInt_tag ht hmax, hlist.2 (hlive i)]
  | arrive k =>
    obtain ⟨hdevs, hphase⟩ := arrive_frame hs
    refine ⟨hdevs ▸ h.nodup, fun hph i => ?_⟩
    rw [hphase] at hph
    obtain ⟨-, -, -, hfinal⟩ := arrive_final hph (hg hph) hs
    exact (h.follows hph i).congr (hfinal i) (by rw [hdevs])

/-! ## When everything has arrived -/

theorem final_empty (h : s.flight = []) (i : ℤ) : final t s i = entries s.subs i := by
  rw [final, h]
  rfl

theorem dests_perm (subs : List DevEnt) :
    (dests subs).Perm ((subs.filter DevEnt.Live).map DevEnt.addr) :=
  ((List.reverse_perm subs).filter _).map _

/-- The messages in flight arrive in order. -/
theorem settle {n : ℕ} (hph : s.phase = .asked)
    (h : run (step t) s (List.replicate n (.arrive 0)) = some s') :
    s'.devs = s.devs ∧ s'.phase = .asked ∧ ∀ i, final t s' i = final t s i := by
  induction n generalizing s with
  | zero =>
    cases h
    exact ⟨rfl, hph, fun _ => rfl⟩
  | succ n ih =>
    rw [List.replicate_succ, run_cons] at h
    obtain ⟨s₁, hs₁, h⟩ := Option.bind_eq_some_iff.mp h
    have hturn : InTurn s 0 := fun m _ m' hm' => absurd hm' (by simp)
    obtain ⟨hdevs, hphase, -, hfinal⟩ := arrive_final hph hturn hs₁
    obtain ⟨hdevs', hphase', hfinal'⟩ := ih (hphase.trans hph) h
    exact ⟨hdevs'.trans hdevs, hphase', fun i => (hfinal' i).trans (hfinal i)⟩

/-- The messages in flight arrive in order, and then a packet goes elsewhere. -/
def Strays (t : ℤ) (s : State) : Prop :=
  s.phase = .asked ∧ ∀ n s', run (step t) s (List.replicate n (.arrive 0)) = some s' →
    s'.flight = [] → ¬ CastOk t s'

theorem settled_perm {n : ℕ} (hph : s.phase = .asked)
    (h : run (step t) s (List.replicate n (.arrive 0)) = some s') (hflight : s'.flight = [])
    (hok : CastOk t s') :
    ((s'.subs.filter DevEnt.Live).map DevEnt.addr).Perm (subscribers t s.devs) ∧
      ∀ i, under DevEnt.id DevEnt.addr i (s'.subs.filter DevEnt.Live) = live (final t s i) := by
  obtain ⟨hdevs, hphase, hfinal⟩ := settle hph h
  have hperm := hok hphase hflight
  rw [hdevs] at hperm
  refine ⟨(dests_perm s'.subs).symm.trans hperm, fun i => ?_⟩
  rw [← live_entries, ← final_empty hflight, hfinal i]

/-- The caster is wrong about one device. -/
theorem strays_of_one (hph : s.phase = .asked) (i₀ : ℤ)
    (hother : ∀ i ≠ i₀, live (final t s i) = wanted t s.devs i)
    (hne : ¬ (live (final t s i₀)).Perm (wanted t s.devs i₀)) : Strays t s := by
  refine ⟨hph, fun n s' h hflight hok => hne ?_⟩
  obtain ⟨hperm, hunder⟩ := settled_perm hph h hflight hok
  have hiff := @perm_iff_at _ _ _ _ _ DevEnt.id DevEnt.addr Device.id Device.addr
    (s'.subs.filter DevEnt.Live) (s.devs.filter (Device.Wants t)) i₀
    fun i hi => (hunder i).trans (hother i hi)
  rw [← hunder i₀]
  exact hiff.mp hperm

/-- The caster serves more than it should. -/
theorem strays_of_extra (hph : s.phase = .asked) {extra : ℤ → List Addr}
    (h : ∀ i, live (final t s i) = wanted t s.devs i ++ extra i) {i₀ : ℤ} (hne : extra i₀ ≠ []) :
    Strays t s := by
  refine ⟨hph, fun n s' hrun hflight hok => hne ?_⟩
  obtain ⟨hperm, hunder⟩ := settled_perm hph hrun hflight hok
  exact @extra_eq_nil _ _ _ _ _ DevEnt.id DevEnt.addr Device.id Device.addr
    (s'.subs.filter DevEnt.Live) (s.devs.filter (Device.Wants t)) extra
    (fun i => (hunder i).trans (h i)) hperm i₀

theorem wanted_short {devs : List Device} (hnd : (devs.map Device.id).Nodup) (i : ℤ) :
    (wanted t devs i).length ≤ 1 := by
  rw [wanted_eq hnd]
  cases getDevice devs i with
  | none => exact Nat.zero_le 1
  | some d =>
    rw [Option.map_some, Option.getD_some, servedAt]
    split <;> simp

theorem eq_of_perm_short {α : Type*} {l l' : List α} (hlen : l.length ≤ 1) (h : l.Perm l') :
    l = l' := by
  match l, hlen with
  | [], _ => exact (List.nil_perm.mp h).symm
  | [a], _ => exact List.singleton_perm.mp h

/-- A change of one device that matters and that the caster is not told of. -/
theorem strays_of_silent (h : Inv t s) (hph : s.phase = .asked) {devs : List Device} (id : ℤ)
    (hother : ∀ i ≠ id, wanted t devs i = wanted t s.devs i)
    (hg : ¬ Unchanged t s.devs devs) : Strays t { s with devs := devs } := by
  have hlive : ∀ i, live (final t { s with devs := devs } i) = wanted t s.devs i :=
    fun i => (h.follows hph i).live
  refine strays_of_one hph id (fun i hi => (hlive i).trans (hother i hi).symm) fun hperm => hg ?_
  rw [hlive id] at hperm
  intro i
  by_cases hi : i = id
  · exact hi ▸ (eq_of_perm_short (wanted_short h.nodup id) hperm).symm
  · exact hother i hi

theorem wanted_set_other {devs : List Device} (hnd : (devs.map Device.id).Nodup) {id : ℤ}
    {f : Device → Device} (hf : ∀ d, (f d).id = d.id) (hi : i ≠ id) :
    wanted t (setDevice devs id f) i = wanted t devs i := by
  have hnd' : ((setDevice devs id f).map Device.id).Nodup := setDevice_ids devs id hf ▸ hnd
  rw [wanted_eq hnd', wanted_eq hnd, getDevice_set devs id hf]
  cases hget : getDevice devs i with
  | none => rfl
  | some d =>
    have hid := (getDevice_some hget).2
    rw [Option.map_some, if_neg fun hd => hi (hid.symm.trans hd)]

theorem wanted_reg_other {devs : List Device} (hnd : (devs.map Device.id).Nodup) {id : ℤ}
    (addr : Addr) (client : Bool) (hi : i ≠ id) :
    wanted t (regDevs devs id addr client) i = wanted t devs i := by
  unfold regDevs
  split
  · exact wanted_set_other hnd (fun _ => rfl) hi
  · rw [wanted_append, if_neg (Ne.symm hi), List.append_nil]

/-- A notice that does not fit the entry the caster has. -/
theorem strays_of_told (h : Inv t s) {d : Device} {arg : ℤ}
    (hget : getDevice s.devs d.id = some d) (harg : |arg| = t) (hph : s.phase = .asked)
    (hpos : 0 < arg) (hfit : ¬ EntryFits t s d) :
    Strays t { s with
      devs := subDevs s.devs d.id arg
      flight := s.flight ++ [.sub ⟨d.id, d.addr, d.active⟩ (0 < arg)] } := by
  have hnd : ((subDevs s.devs d.id arg).map Device.id).Nodup :=
    subDevs_ids s.devs d.id arg ▸ h.nodup
  have hfinal := @final_append t s (.sub ⟨d.id, d.addr, d.active⟩ (0 < arg))
    (subDevs s.devs d.id arg) s.phase
  refine strays_of_one hph d.id (fun i hi => ?_) ?_
  · rw [hfinal, act, if_pos (Ne.symm hi), (h.follows hph i).live]
    exact (wanted_set_other h.nodup (fun d => change_id d |arg| (arg < 0)) hi).symm
  · unfold EntryFits at hfit
    push Not at hfit
    obtain ⟨e, hhead, hfit⟩ := hfit
    have hold := (h.follows hph d.id).old
    obtain ⟨l, hl⟩ := List.head?_eq_some_iff.mp hhead
    rw [hl, List.tail_cons] at hold
    have hwanted : wanted t (subDevs s.devs d.id arg) d.id =
        if d.active then [d.addr] else [] := by
      rw [wanted_eq hnd, subDevs, getDevice_set s.devs d.id fun d => change_id d |arg| (arg < 0),
        hget, Option.map_some, if_pos rfl, Option.map_some, Option.getD_some, harg,
        servedAt_change, decide_eq_false (by omega : ¬ arg < 0)]
      simp
    rw [hfinal, act, if_neg (not_not.mpr rfl), hl, mark, live_cons, hold, hwanted]
    intro hperm
    have hlen := hperm.length_eq
    cases hd : d.active with
    | false =>
      rw [hd] at hlen hfit
      cases he : e.active with
      | false => exact absurd (hfit he) (by simp)
      | true => simp [DevEnt.Live, he, hpos] at hlen
    | true =>
      rw [hd] at hlen hfit hperm
      cases he : e.active with
      | false => simp [DevEnt.Live, he] at hlen
      | true =>
        simp only [DevEnt.Live, he, hpos, decide_true, Bool.and_self, if_true, List.append_nil,
          List.singleton_perm] at hperm
        exact (hfit he).2 (List.cons.inj hperm).1

/-- **A step that is not safe,** other than an arrival, leads the caster astray. -/
theorem step_bad {e : Event} (h : Inv t s) (htag : t < 2 ^ 16) (hg : ¬ Safe t s e)
    (he : ∀ k, e ≠ .arrive k) (hs : step t s e = some s') : Strays t s' := by
  cases e with
  | reg id addr client =>
    cases hs
    obtain ⟨hph, hg⟩ := Classical.not_imp.mp hg
    exact strays_of_silent h hph id (fun i hi => wanted_reg_other h.nodup addr client hi) hg
  | activate id active =>
    cases hs
    obtain ⟨hph, hg⟩ := Classical.not_imp.mp hg
    exact strays_of_silent h hph id (fun i hi => wanted_set_other h.nodup (fun _ => rfl) hi) hg
  | sub id arg =>
    obtain ⟨hph, hg⟩ := Classical.not_imp.mp hg
    unfold SubSafe at hg
    push Not at hg
    obtain ⟨d, hd, hne, hg⟩ := hg
    obtain ⟨-, hzero⟩ | ⟨d', hd', -, ⟨harg, -, hup, rfl⟩ | ⟨htold, rfl⟩⟩ := sub_cases hs
    · exact absurd (hzero d hd) hne
    · obtain rfl : d = d' := Option.some.inj (hd.symm.trans hd')
      rw [if_pos ⟨harg, hup⟩] at hg
      obtain ⟨hpos, hfit⟩ := Classical.not_imp.mp hg
      obtain rfl := (getDevice_some hd).2
      exact strays_of_told h hd harg hph hpos hfit
    · rw [if_neg fun hc => htold ⟨hc.1, by rw [hph]; simp, hc.2⟩] at hg
      exact strays_of_silent h hph id
        (fun i hi => wanted_set_other h.nodup (fun d => change_id d |arg| (arg < 0)) hi) hg
  | attach => exact absurd trivial hg
  | reged => exact absurd trivial hg
  | casterActive => exact absurd trivial hg
  | getSubs =>
    obtain ⟨hph, hg⟩ := Classical.not_imp.mp hg
    obtain ⟨ht, hg⟩ := Classical.not_imp.mp hg
    push Not at hg
    obtain ⟨i₀, hi₀⟩ := hg htag
    obtain ⟨-, hno⟩ | ⟨-, -, rfl⟩ := getSubs_cases hs
    · exact absurd ⟨hph, ht⟩ hno
    · refine @strays_of_extra _ _ rfl (fun i => live (final t s i)) (fun i => ?_) _ hi₀
      rw [final_append, ofInt_tag ht htag]
      exact (live_list h.nodup i (final t s i)).1
  | arrive k => exact absurd rfl (he k)

/-! ## Runs -/

theorem boot_inv (r : Registered) : Inv t (boot r) :=
  ⟨r.nodup, fun h => absurd h (by simp [boot])⟩

/-- A client of the tag 1 that has been registered and is active. -/
def oneClient : Registered where
  devs := [⟨101, ⟨0xA, 5⟩, true, some 1⟩]
  nodup := List.nodup_singleton _

/-- The client registers again, from another address, after the caster has got the list. -/
def moved : List Event :=
  [.attach, .reged, .getSubs, .arrive 0, .reg 101 ⟨0xB, 5⟩ true]

end GSConferencing.Client.UcastRuns
