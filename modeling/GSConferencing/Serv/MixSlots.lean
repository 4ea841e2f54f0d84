import GSConferencing.Serv.OpenRuns

/-!
# Open microphones and mix slots

Admission counts users against `maxuser` and does not count chairs; the slots are eight.  As long
as every device that is put through finds fewer than eight open devices in its tag, it gets a
slot, and so a request that is answered `OK` is heard (`opened_is_heard`).  With the default
`maxuser` an open chair is enough to let a ninth device in (`ninth_is_not_heard`).
-/

namespace GSConferencing.Serv.MixSlots

open GSConferencing.Lib.CyclicList GSConferencing.Lib.Run
open GSConferencing.Serv.Strutil GSConferencing.Serv.CmdHandler GSConferencing.Serv.Dev
open GSConferencing.Serv.Discuss GSConferencing.Serv.Server
open GSConferencing.Serv.OpenView GSConferencing.Serv.Mics GSConferencing.Serv.OpenList
open GSConferencing.Serv.OpenRuns

/-- The device holds a mix slot of its tag, the one its bit names. -/
def Heard (s : Server) (d : ℤ) : Prop :=
  ∃ i : Fin 8, (s.dev d).mixbit = 2 ^ i.val ∧ (s.tag (s.dev d).tag).mixDevs i = some d

/-- Every open device of the tag has a bit. -/
def AllSeated (v : View) (t : ℤ) : Prop :=
  ∀ d ∈ v.devs, v.tagOf d = t → v.opn d ≠ 0 → v.mixbit d ≠ 0

/-- A request that is put through finds fewer than eight open devices in the tag, the one that is
kicked not counted. -/
def SlotLeft (s : Server) (d a : ℤ) : Prop :=
  a ≠ 0 → (s.dev d).discussOpen ≠ a →
    (admission s (s.dev d).tag d = some .openit → openCount s (s.dev d).tag < 8) ∧
    ∀ k, admission s (s.dev d).tag d = some (.kick k) → openCount s (s.dev d).tag ≤ 8

section Slots
variable {v : View} {t d : ℤ}

/-- Eight slots are held by eight open devices. -/
theorem eight_open_of_full (h : SlotInv v) (ht : t ∈ v.tags) (hfull : ∀ i, v.slot t i ≠ none) :
    8 ≤ (v.devs.filter fun d => v.tagOf d = t ∧ v.opn d ≠ 0).length := by
  choose f hf using fun i => Option.ne_none_iff_exists'.mp (hfull i)
  have hinj : Function.Injective f := by
    intro i j hij
    have hi := (h.slot t ht i _ (hf i)).2.2.2
    have hj := (h.slot t ht j _ (hf j)).2.2.2
    rw [hij, hj] at hi
    exact Fin.ext (Nat.pow_right_injective le_rfl hi).symm
  have hsub : Finset.univ.image f ⊆
      (v.devs.filter fun d => v.tagOf d = t ∧ v.opn d ≠ 0).toFinset := by
    intro d hd
    obtain ⟨i, -, rfl⟩ := Finset.mem_image.mp hd
    obtain ⟨h1, h2, h3, -⟩ := h.slot t ht i _ (hf i)
    simp [h1, h2, h3]
  calc 8 = (Finset.univ.image f).card := by
        rw [Finset.card_image_of_injective _ hinj, Finset.card_univ, Fintype.card_fin]
    _ ≤ _ := Finset.card_le_card hsub
    _ ≤ _ := List.toFinset_card_le _

/-- A device that opens among fewer than eight gets a slot; the other bits stay. -/
theorem seated_bit (h : SlotInv v) (ht : v.tagOf d ∈ v.tags) {L : Links ℤ ℤ}
    {v' : View} (hs : (v.opened (v.tagOf d) d L).Seated v' (v.tagOf d) d)
    (hroom : (v.devs.filter fun x => v.tagOf x = v.tagOf d ∧ v.opn x ≠ 0).length < 8) :
    v'.mixbit d ≠ 0 ∧ ∀ x, x ≠ d → v'.mixbit x = v.mixbit x := by
  rcases hs with ⟨hno, rfl⟩ | ⟨i, -, -, rfl⟩
  · refine ⟨?_, fun x _ => rfl⟩
    rcases hno with hbit | hfull
    · exact hbit
    · have := eight_open_of_full h ht hfull
      omega
  · constructor
    · show Function.update v.mixbit d (2 ^ i.val) d ≠ 0
      rw [Function.update_self]
      positivity
    · intro x hx
      show Function.update v.mixbit d (2 ^ i.val) x = v.mixbit x
      rw [Function.update_of_ne hx]

/-- Taking a slot takes no bit away. -/
theorem AllSeated.seated {v' : View} (h : AllSeated v t) {t' : ℤ} (hs : v.Seated v' t' d) :
    AllSeated v' t := by
  rcases hs with ⟨-, rfl⟩ | ⟨i, -, -, rfl⟩
  · exact h
  · intro x hx htx hox
    show Function.update v.mixbit d (2 ^ i.val) x ≠ 0
    by_cases e : x = d
    · subst e
      rw [Function.update_self]
      positivity
    · rw [Function.update_of_ne e]
      exact h x hx htx hox

/-- A device that closes loses its bit, and no other. -/
theorem AllSeated.unseated {v' : View} (h : AllSeated v t) {t' : ℤ} {L : Links ℤ ℤ}
    (hs : (v.closed t' d L).Unseated v' t' d) : AllSeated v' t := by
  obtain ⟨o, -, -, rfl⟩ := hs
  intro x hx htx hox
  obtain ⟨e, hox⟩ := ne_of_update (f := v.opn) hox
  show Function.update v.mixbit d 0 x ≠ 0
  rw [Function.update_of_ne e]
  exact h x hx htx hox

/-- A device that opens among fewer than eight leaves all of its tag seated. -/
theorem AllSeated.opened {v' : View} (h : AllSeated v t) (hslot : SlotInv v)
    (ht : v.tagOf d ∈ v.tags) {L : Links ℤ ℤ}
    (hs : (v.opened (v.tagOf d) d L).Seated v' (v.tagOf d) d)
    (hroom : v.tagOf d = t →
      (v.devs.filter fun x => v.tagOf x = v.tagOf d ∧ v.opn x ≠ 0).length < 8) :
    AllSeated v' t := by
  by_cases htd : v.tagOf d = t
  · obtain ⟨hbit, hrest⟩ := seated_bit hslot ht hs (hroom htd)
    obtain ⟨sl, mb, hv⟩ := seated_eq hs
    intro x hx htx hox
    by_cases e : x = d
    · rw [e]; exact hbit
    · rw [hrest x e]
      rw [hv] at hx htx hox
      replace hox : Function.update v.opn d 1 x ≠ 0 := hox
      rw [Function.update_of_ne e] at hox
      exact h x hx htx hox
  · refine AllSeated.seated (v := v.opened (v.tagOf d) d L) (fun x hx htx hox => ?_) hs
    have e : x ≠ d := by
      rintro rfl
      exact htd htx
    replace hox : Function.update v.opn d 1 x ≠ 0 := hox
    rw [Function.update_of_ne e] at hox
    exact h x hx htx hox

end Slots

/-! ## Requests -/

section Requests
variable {s s' : Server} {ls : ℤ → List ℤ} {pl : List ℤ} {t d a code : ℤ}

theorem openCount_eq (h : Inv (view s) ls pl) {t : ℤ} (ht : t ∈ s.tags) :
    (s.tag t).openuser = openCount s t := by
  have hlen := length_eq_openCount h.opens.nodup (h.opens.rings.ring t ht).nodup
    (h.opens.mem t ht)
  rw [← hlen]
  exact h.opens.openuser t ht

theorem AllSeated.ptcL {v : View} (h : AllSeated v t) (P : Links Unit ℤ) :
    AllSeated { v with ptcL := P } t := h

/-- **What a request does keeps the open devices of the tag seated,** if there is room. -/
theorem effect_seated (h : Inv (view s) ls pl) (hd : d ∈ s.devs) (hall : AllSeated (view s) t)
    (hroom : (s.dev d).tag = t → SlotLeft s d a) (he : RequestEffect s d a code s') :
    AllSeated (view s') t := by
  have ht : (s.dev d).tag ∈ s.tags := h.opens.tagOf d hd
  cases he with
  | reject ha hadm => exact hall
  | still ho ha hv => rw [hv]; exact hall
  | again ho ha hseat hv => rw [hv]; exact (hall.seated hseat).ptcL _
  | close ho ha hun hv => rw [hv]; exact (hall.unseated hun).ptcL _
  | openit ha ho hadm hseat hv =>
    rw [hv]
    refine (hall.opened h.slots ht hseat fun htd => ?_).ptcL _
    exact (hroom htd ha (by omega)).1 hadm
  | @kick s₁ _ k v₁ v L₁ L P₁ P ha hne ho hadm hun hv₁ hinv₁ hseat hv =>
    obtain ⟨ls₁, pl₁, hI₁⟩ := hinv₁
    obtain ⟨sl, mb, hv₁'⟩ := unseated_eq hun
    have htag : (s₁.dev d).tag = (s.dev d).tag := by
      show (view s₁).tagOf d = _
      rw [hv₁, hv₁']
      rfl
    have ht₁ : (s₁.dev d).tag ∈ s₁.tags := by
      show _ ∈ (view s₁).tags
      rw [htag, hv₁, hv₁']
      exact ht
    -- one microphone less than before the kick
    have hless : (s₁.tag (s₁.dev d).tag).openuser = (s.tag (s.dev d).tag).openuser - 1 := by
      show (view s₁).openuser _ = _
      rw [htag, hv₁, hv₁']
      exact Function.update_self ..
    rw [openCount_eq hI₁ ht₁, openCount_eq h ht] at hless
    have hall₁ : AllSeated (view s₁) t := by
      rw [hv₁]
      exact (hall.unseated hun).ptcL _
    rw [hv]
    rw [← htag] at hseat
    refine (hall₁.opened hI₁.slots ht₁ hseat fun htd => ?_).ptcL _
    have hcount := (hroom (htag.symm.trans htd) ha hne).2 k hadm
    show openCount s₁ (s₁.dev d).tag < 8
    omega

/-- Where the device is after a request that is not a request to close. -/
theorem effect_open (hd : d ∈ s.devs) (ha : a ≠ 0) (he : RequestEffect s d a 0 s') :
    d ∈ s'.devs ∧ (s'.dev d).tag = (s.dev d).tag ∧ (s'.dev d).discussOpen ≠ 0 := by
  show d ∈ (view s').devs ∧ (view s').tagOf d = _ ∧ (view s').opn d ≠ 0
  cases he with
  | still ho ha' hv => exact absurd ha' ha
  | close ho ha' hun hv => exact absurd ha' ha
  | again ho _ hseat hv =>
    obtain ⟨sl, mb, hv'⟩ := seated_eq hseat
    rw [hv, hv']
    exact ⟨hd, rfl, fun h0 => ha (ho.symm.trans h0)⟩
  | openit _ ho hadm hseat hv =>
    obtain ⟨sl, mb, hv'⟩ := seated_eq hseat
    rw [hv, hv']
    refine ⟨hd, rfl, ?_⟩
    show Function.update (view s).opn d 1 d ≠ 0
    rw [Function.update_self]
    omega
  | @kick s₁ _ k v₁ v L₁ L P₁ P _ hne ho hadm hun hv₁ hinv₁ hseat hv =>
    obtain ⟨sl, mb, hv'⟩ := seated_eq hseat
    obtain ⟨sl₁, mb₁, hv₁'⟩ := unseated_eq hun
    rw [hv, hv']
    refine ⟨?_, ?_, ?_⟩
    · show d ∈ (view s₁).devs
      rw [hv₁, hv₁']
      exact hd
    · show (view s₁).tagOf d = _
      rw [hv₁, hv₁']
      rfl
    · show Function.update (view s₁).opn d 1 d ≠ 0
      rw [Function.update_self]
      omega

/-- A seated open device is heard. -/
theorem heard_of_seated (h : Inv (view s) ls pl) (hd : d ∈ s.devs)
    (hall : AllSeated (view s) (s.dev d).tag) (ho : (s.dev d).discussOpen ≠ 0) : Heard s d := by
  obtain ⟨i, hi⟩ := h.slots.bit d hd (hall d hd rfl ho)
  exact ⟨i, (h.slots.slot _ (h.opens.tagOf d hd) i d hi).2.2.2, hi⟩

end Requests

/-! ## Whole runs -/

section Runs
variable {s s' : Server} {t : ℤ}

theorem noneOpen_of_count (h : openCount s t = 0) : NoneOpen s t := by
  intro d hd htag
  by_contra ho
  unfold openCount at h
  rw [List.length_eq_zero_iff, List.filter_eq_nil_iff] at h
  exact h d hd (by simp [htag, ho])

/-- The steps of requests: `request` with any arguments, heartbeats and their timeouts. -/
def RequestEvent : Event → Prop
  | .discctrl cmd => ∃ l, cmd.args = "request".toList :: l
  | .switchTag _ => False
  | _ => True

/-- No open device is put through again, and what is put through in the tag `t` finds room. -/
def RoomFor (t : ℤ) (s : Server) : Event → Prop
  | .discctrl cmd => cmd.deviceId ∈ s.devs → ∀ p l, cmd.args = "request".toList :: p :: l →
      RequestSafe s cmd.deviceId (atoi p) ∧
        ((s.dev cmd.deviceId).tag = t → SlotLeft s cmd.deviceId (atoi p))
  | _ => True

/-- If the step is `request 1` of a device of the tag `t` and is answered `OK`, the device holds a
slot afterwards. -/
def HeardIfOk (t : ℤ) (s : Server) : Event → Prop
  | .discctrl cmd => ∀ p l c s', cmd.args = "request".toList :: p :: l → atoi p = 1 →
      (s.dev cmd.deviceId).tag = t → cmdDiscctrl s cmd = some (0, c, s') → Heard s' cmd.deviceId
  | _ => True

/-- The requests of a good server with every open device of the tag seated. -/
theorem request_step (h : Good s) (hall : AllSeated (view s) t) {cmd : Cmd} {l : List Str}
    (hargs : cmd.args = "request".toList :: l) (hg : RoomFor t s (.discctrl cmd)) :
    ∃ r, cmdDiscctrl s cmd = some r ∧ Good r.2.2 ∧ AllSeated (view r.2.2) t ∧
      HeardIfOk t s (.discctrl cmd) := by
  by_cases hd : cmd.deviceId ∈ s.devs
  swap
  · have hr : cmdDiscctrl s cmd = some (errNotReg, cmd, s) := by
      unfold cmdDiscctrl
      rw [if_pos hd]
    refine ⟨_, hr, h, hall, fun p l' c s' _ _ _ hok => ?_⟩
    rw [hr] at hok
    cases hok
  rw [cmdDiscctrl_request hd hargs]
  cases l with
  | nil =>
    refine ⟨_, rfl, h, hall, fun p l' c s' e => ?_⟩
    rw [hargs] at e
    cases e
  | cons p l =>
    obtain ⟨hsafe, hroom⟩ := hg hd p l hargs
    obtain ⟨h1, ls, pl, hI⟩ := h
    obtain ⟨code, c, s', hs', he, ⟨ls', pl', hI'⟩, htags⟩ := request_effect hI hd cmd p l hsafe
    have hall' := effect_seated hI hd hall hroom he
    refine ⟨_, hs', ⟨one_mem_of_view rfl (htags ▸ h1), ls', pl', hI'⟩, hall', ?_⟩
    intro p' l' c' s'' e ha htag hok
    rw [hargs] at e
    cases e
    rw [cmdDiscctrl_request hd hargs, hs'] at hok
    cases hok
    obtain ⟨hd', htag', ho'⟩ := effect_open hd (by omega) he
    exact heard_of_seated hI' hd' (by rw [htag', htag]; exact hall') ho'

theorem event_step (h : Good s) (hall : AllSeated (view s) t) {e : Event} (hE : RequestEvent e)
    (hg : RoomFor t s e) : ∃ s', step s e = some s' ∧ Good s' ∧ AllSeated (view s') t := by
  cases e with
  | discctrl cmd =>
    obtain ⟨l, hargs⟩ := hE
    obtain ⟨r, hr, hgood, hall', -⟩ := request_step h hall hargs hg
    exact ⟨r.2.2, by rw [step, hr]; rfl, hgood, hall'⟩
  | switchTag cmd => exact hE.elim
  | heartbeat d =>
    have hv := view_heartbeat s d
    exact ⟨_, rfl, h.of_view hv, hv ▸ hall⟩
  | heartbeatGod d =>
    obtain ⟨s', hs', hgood⟩ := heartbeatGod_good h d
    refine ⟨s', hs', hgood, ?_⟩
    obtain ⟨-, ls, pl, hI⟩ := h
    obtain ⟨s₁, hs₁, -, heff⟩ := heartbeatGod_effect hI d
    rw [hs'] at hs₁
    cases hs₁
    rcases heff with hv | ⟨L, hun⟩
    · rw [hv]; exact hall
    · exact hall.unseated hun

/-- **An opened microphone is heard.**  From any state the server reaches without a slip in which
no microphone of the tag is open, along any run of requests in which nothing is put through beyond
eight open devices: every `request 1` that is answered `OK` leaves its device in a mix slot. -/
theorem opened_is_heard {db : Db} {s₀ : Server} {pre es : List Event}
    (hs₀ : recoverServer db = some s₀) (hpre : Guarded step StepSafe s₀ pre)
    (hs : run step s₀ pre = some s) (hclosed : NoneOpen s t) (hes : ∀ e ∈ es, RequestEvent e)
    (hroom : Guarded step (RoomFor t) s es) :
    Guarded step (HeardIfOk t) s es ∧ ∃ s', run step s es = some s' := by
  have hgood : Good s := of_run (fun s e s' h hg hs' => by
    obtain ⟨s₁, hs₁, h₁⟩ := step_good s e h hg
    rw [hs'] at hs₁
    cases hs₁
    exact h₁) (recoverServer_good hs₀) hpre hs
  have hall : AllSeated (view s) t := fun d hd htag ho => absurd (hclosed d hd htag) ho
  clear hs₀ hpre hs hclosed
  induction es generalizing s with
  | nil => exact ⟨trivial, s, rfl⟩
  | cons e es ih =>
    have hE := hes e List.mem_cons_self
    obtain ⟨s', hs', hgood', hall'⟩ := event_step hgood hall hE hroom.1
    have hnext := ih (fun e' he' => hes e' (List.mem_cons_of_mem e he')) (hroom.2 s' hs') hgood'
      hall'
    refine ⟨⟨?_, fun s₁ hs₁ => ?_⟩, ?_⟩
    · cases e with
      | discctrl cmd =>
        obtain ⟨l, hargs⟩ := hE
        obtain ⟨r, -, -, -, hheard⟩ := request_step hgood hall hargs hroom.1
        exact hheard
      | switchTag cmd => exact hE.elim
      | heartbeat d => trivial
      | heartbeatGod d => trivial
    · rw [hs'] at hs₁
      cases hs₁
      exact hnext.1
    · rw [run_cons, hs']
      exact hnext.2

theorem opened_is_heard_twoClients : ∃ s, recoverServer twoClients = some s ∧
    Guarded step (HeardIfOk 1) s [request 101 "1"] ∧
    ∃ s', run step s [request 101 "1"] = some s' := by
  obtain ⟨s, hs⟩ := Option.isSome_iff_exists.mp
    (show (recoverServer twoClients).isSome = true by decide)
  have hstart : (recoverServer twoClients).map (fun s => (openCount s 1, (s.dev 101).tag,
      (s.dev 101).discussOpen)) = some (0, 1, 0) := by decide
  rw [hs, Option.map_some, Option.some.injEq, Prod.mk.injEq, Prod.mk.injEq] at hstart
  obtain ⟨hcount, htag, hopen⟩ := hstart
  have hpre : Guarded step StepSafe s [] := trivial
  refine ⟨s, hs, opened_is_heard hs hpre rfl (noneOpen_of_count hcount) ?_ ?_⟩
  · rintro e he
    rw [List.mem_singleton.mp he]
    exact ⟨_, rfl⟩
  · refine ⟨?_, fun _ _ => trivial⟩
    rintro - p l -
    refine ⟨fun ho => absurd hopen ho, fun _ _ _ => ⟨fun _ => ?_, fun k _ => ?_⟩⟩
    · show openCount s (s.dev 101).tag < 8
      rw [htag, hcount]
      omega
    · show openCount s (s.dev 101).tag ≤ 8
      rw [htag, hcount]
      omega

/-! ## The ninth -/

/-- A chair and eight clients. -/
def nineClients : Db where
  group := { discussMode := 0, discussMaxuser := 0, discussId := 0 }
  table := [101, 102, 103, 104, 105, 106, 107, 108, 109]
  nodup := by decide
  row := fun d => client (if d = 101 then devtypeChair else 1)
  discuss := []
  optMixer := .net

/-- The chair opens, then seven clients. -/
def eightOpen : List Event :=
  [101, 102, 103, 104, 105, 106, 107, 108].map fun d => request d "1"

/-- The start, the state after the steps, and the answer to a last command. -/
def answerAfter (db : Db) (es : List Event) (cmd : Cmd) :
    Option (Server × Server × Reply Server) :=
  (recoverServer db).bind fun s => (run step s es).bind fun t =>
    (cmdDiscctrl t cmd).map fun r => (s, t, r)

theorem of_answerAfter {db : Db} {es : List Event} {cmd : Cmd} {s t : Server} {r : Reply Server}
    (h : answerAfter db es cmd = some (s, t, r)) :
    recoverServer db = some s ∧ run step s es = some t ∧ cmdDiscctrl t cmd = some r := by
  obtain ⟨s₁, hs, h⟩ := Option.bind_eq_some_iff.mp h
  obtain ⟨t₁, ht, h⟩ := Option.bind_eq_some_iff.mp h
  obtain ⟨r₁, hr, h⟩ := Option.map_eq_some_iff.mp h
  cases h
  exact ⟨hs, ht, hr⟩

/-- With the default `maxuser` the open chair lets a ninth device in, and no slot is left for it. -/
theorem ninth_is_not_heard : ∃ s, recoverServer nineClients = some s ∧ NoneOpen s 1 ∧
    (s.tag 1).maxuser = maxMix ∧
    ¬ Guarded step (HeardIfOk 1) s (eightOpen ++ [request 109 "1"]) := by
  have h : (answerAfter nineClients eightOpen (command 109 ["request", "1"])).map (fun x =>
      (openCount x.1 1, (x.1.tag 1).maxuser, (x.2.1.dev 109).tag, x.2.2.1,
        (x.2.2.2.2.dev 109).mixbit)) = some (0, 8, 1, 0, 0) := by decide +kernel
  obtain ⟨⟨s, t, code, c, u⟩, hx, hval⟩ := Option.map_eq_some_iff.mp h
  simp only [Prod.mk.injEq] at hval
  obtain ⟨hcount, hmax, htag, rfl, hbit⟩ := hval
  obtain ⟨hs, ht, hr⟩ := of_answerAfter hx
  refine ⟨s, hs, noneOpen_of_count hcount, hmax, fun hg => ?_⟩
  have hheard : HeardIfOk 1 t (request 109 "1") := hg.reached ht
  obtain ⟨i, hi, -⟩ := hheard _ _ c u rfl (by decide) htag hr
  have : (2 : ℕ) ^ i.val ≠ 0 := by positivity
  exact this (hi.symm.trans hbit)

end Runs

end GSConferencing.Serv.MixSlots
