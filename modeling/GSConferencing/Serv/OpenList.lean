import GSConferencing.Serv.Mics

/-!
# The open lists over whole runs

`discuss.open_list` should hold exactly the open devices of its tag, each once, with their number
in `openuser`.  Two slips break this: a `request` with an argument other than 0 and 1 links an open
device a second time, and `select` and `close` empty the list while devices are open.  A third
breaks the tie between a device and its tag: `switch_tag` moves a device whose microphone is open.

* `request_effect`: what a request does, once for all its uses.
* `step_good`: every step that avoids the slips has a result and keeps the invariant.
* `open_list_exact`: the lists are right along a run exactly when no step is a slip.
* `tag_state_exact`: devices stay with their tag along a run exactly when none switches while open.
-/

namespace GSConferencing.Serv.OpenList

open GSConferencing.Lib.CyclicList GSConferencing.Lib.Run GSConferencing.Include.ListHead
open GSConferencing.Serv.Strutil GSConferencing.Serv.CmdHandler GSConferencing.Serv.Dev
open GSConferencing.Serv.Tag GSConferencing.Serv.Interp GSConferencing.Serv.Devctl
open GSConferencing.Serv.Ptc GSConferencing.Serv.Discuss GSConferencing.Serv.Server
open GSConferencing.Serv.OpenView GSConferencing.Serv.Mics

/-! ## Requests -/

section Request
variable {s : Server} {ls : ℤ → List ℤ} {pl : List ℤ} {d t a : ℤ}

/-- An open device is not put through again: its request asks for the state it is in or closes it,
or is rejected, or the device itself is kicked. -/
def RequestSafe (s : Server) (d a : ℤ) : Prop :=
  (s.dev d).discussOpen ≠ 0 → a ≠ 0 → (s.dev d).discussOpen ≠ a →
    admission s (s.dev d).tag d = some .reject ∨ admission s (s.dev d).tag d = some (.kick d)

/-- What a request of the device `d` with the argument `a` does. -/
inductive RequestEffect (s : Server) (d a : ℤ) : ℤ → Server → Prop
  | reject (ha : a ≠ 0) (hadm : admission s (s.dev d).tag d = some .reject) :
      RequestEffect s d a errRejected s
  | still {s' : Server} (ho : (s.dev d).discussOpen = a) (ha : a = 0) (hv : view s' = view s) :
      RequestEffect s d a 0 s'
  | again {s' : Server} {v : View} {P : Links Unit ℤ} (ho : (s.dev d).discussOpen = a)
      (ha : a ≠ 0) (hseat : (view s).Seated v (s.dev d).tag d)
      (hv : view s' = { v with ptcL := P }) : RequestEffect s d a 0 s'
  | close {s' : Server} {v : View} {L : Links ℤ ℤ} {P : Links Unit ℤ}
      (ho : (s.dev d).discussOpen ≠ 0) (ha : a = 0)
      (hun : ((view s).closed (s.dev d).tag d L).Unseated v (s.dev d).tag d)
      (hv : view s' = { v with ptcL := P }) : RequestEffect s d a 0 s'
  | openit {s' : Server} {v : View} {L : Links ℤ ℤ} {P : Links Unit ℤ} (ha : a ≠ 0)
      (ho : (s.dev d).discussOpen = 0) (hadm : admission s (s.dev d).tag d = some .openit)
      (hseat : ((view s).opened (s.dev d).tag d L).Seated v (s.dev d).tag d)
      (hv : view s' = { v with ptcL := P }) : RequestEffect s d a 0 s'
  | kick {s₁ s' : Server} {k : ℤ} {v₁ v : View} {L₁ L : Links ℤ ℤ} {P₁ P : Links Unit ℤ}
      (ha : a ≠ 0) (hne : (s.dev d).discussOpen ≠ a) (ho : (s.dev d).discussOpen = 0 ∨ k = d)
      (hadm : admission s (s.dev d).tag d = some (.kick k))
      (hun : ((view s).closed (s.dev d).tag k L₁).Unseated v₁ (s.dev d).tag k)
      (hv₁ : view s₁ = { v₁ with ptcL := P₁ })
      (hinv₁ : ∃ ls pl, Inv (view s₁) ls pl)
      (hseat : ((view s₁).opened (s.dev d).tag d L).Seated v (s.dev d).tag d)
      (hv : view s' = { v with ptcL := P }) : RequestEffect s d a 0 s'

/-- Nothing is replicated, so `post:` only makes the reply. -/
theorem requestPost_inv (h : Inv (view s) ls pl) (ht : t ∈ (view s).tags) (cmd : Cmd) (d a : ℤ) :
    ∃ c, requestPost s cmd t d a = some (0, c, s) := by
  have hmode : (s.tag t).interpMode = 0 := h.opens.interp t ht
  unfold requestPost
  rw [if_neg (by rw [hmode]; omega)]
  exact ⟨_, rfl⟩

/-- An open device takes a slot again, if it has none, and the camera turns to it. -/
theorem again_inv (h : Inv (view s) ls pl) (hd : d ∈ s.devs) (ho : (s.dev d).discussOpen ≠ 0) :
    ∃ s' v P, ptcPush (tagAddOutstanding s (s.dev d).tag d) d = some s' ∧
      (view s).Seated v (s.dev d).tag d ∧ view s' = { v with ptcL := P } ∧
      Inv (view s') ls (d :: pl.erase d) := by
  have hseat := tagAddOutstanding_view s (s.dev d).tag d
  have hslots := h.slots.seated hd (h.opens.tagOf d hd) ho hseat
  obtain ⟨sl, mb, hv₁⟩ := seated_eq hseat
  have hinv : Inv (view (tagAddOutstanding s (s.dev d).tag d)) ls pl := by
    rw [hv₁] at hslots ⊢
    exact ⟨h.opens.slots_bits sl mb, hslots, h.ptc⟩
  obtain ⟨s', P, hs', hv, hptc⟩ := ptcPush_inv hinv.ptc d
  exact ⟨s', _, P, hs', hseat, hv, hv ▸ hinv.ptcL hptc⟩

/-- **A kick:** the open device `k` of the tag is closed, and then `d` is put through. -/
theorem kick_inv (h : Inv (view s) ls pl) (hd : d ∈ s.devs) {k : ℤ} (hk : k ∈ ls (s.dev d).tag)
    (ho : (s.dev d).discussOpen = 0 ∨ k = d) :
    ∃ s₁ s' v₁ v L₁ L P₁ P, closeit s (s.dev d).tag k = some s₁ ∧
      openit (kickUser s₁ d k) (s.dev d).tag d = some s' ∧
      ((view s).closed (s.dev d).tag k L₁).Unseated v₁ (s.dev d).tag k ∧
      view (kickUser s₁ d k) = { v₁ with ptcL := P₁ } ∧
      (∃ ls pl, Inv (view (kickUser s₁ d k)) ls pl) ∧
      ((view (kickUser s₁ d k)).opened (s.dev d).tag d L).Seated v (s.dev d).tag d ∧
      view s' = { v with ptcL := P } ∧ ∃ ls pl, Inv (view s') ls pl := by
  obtain ⟨hkd, hkt, hko⟩ := (h.opens.mem _ (h.opens.tagOf d hd) k).mp hk
  replace hkt : (s.dev k).tag = (s.dev d).tag := hkt
  have hclose := closeit_inv h hkd hko
  rw [hkt] at hclose
  obtain ⟨s₁, v₁, L₁, P₁, hs₁, hun, hv₁, hinv₁⟩ := hclose
  obtain ⟨sl, mb, hv₁'⟩ := unseated_eq hun
  -- the state the kick leaves: the device is closed and still in its tag
  have hview : view (kickUser s₁ d k) = view s₁ := view_kickUser ..
  have hdevs : d ∈ (kickUser s₁ d k).devs := by
    show d ∈ (view _).devs
    rw [hview, hv₁, hv₁']
    exact hd
  have htag : ((kickUser s₁ d k).dev d).tag = (s.dev d).tag := by
    show (view _).tagOf d = _
    rw [hview, hv₁, hv₁']
    rfl
  have hopn : ((kickUser s₁ d k).dev d).discussOpen = 0 := by
    show (view _).opn d = 0
    rw [hview, hv₁, hv₁']
    show Function.update (view s).opn k 0 d = 0
    by_cases e : d = k
    · subst e
      rw [Function.update_self]
    · rw [Function.update_of_ne e]
      exact ho.resolve_right fun h' => e h'.symm
  rw [← hview] at hinv₁ hv₁
  have hopen := openit_inv hinv₁ hdevs hopn
  rw [htag] at hopen
  obtain ⟨s', v, L, P, hs', hseat, hv, hinv'⟩ := hopen
  exact ⟨s₁, s', v₁, v, L₁, L, P₁, P, hs₁, hs', hun, hv₁, ⟨_, _, hinv₁⟩, hseat, hv, _, _, hinv'⟩

/-- **A request that does not put an open device through again has a result.** -/
theorem request_effect (h : Inv (view s) ls pl) (hd : d ∈ s.devs) (cmd : Cmd) (p : Str)
    (args : List Str) (hsafe : RequestSafe s d (atoi p)) :
    ∃ code c s', discctrlRequest s cmd d (p :: args) = some (code, c, s') ∧
      RequestEffect s d (atoi p) code s' ∧ (∃ ls' pl', Inv (view s') ls' pl') ∧
      (view s').tags = s.tags := by
  have ht : (s.dev d).tag ∈ (view s).tags := h.opens.tagOf d hd
  -- what follows once the microphones are as they should be
  have hpost : ∀ {s' : Server}, (∃ ls' pl', Inv (view s') ls' pl') → (view s').tags = s.tags →
      ∃ c, requestPost s' (repAdd cmd "OK".toList) (s.dev d).tag d (atoi p) = some (0, c, s') :=
    fun hinv htags => requestPost_inv hinv.choose_spec.choose_spec (htags ▸ ht) _ _ _
  unfold discctrlRequest
  rw [nextArg_cons]
  simp only []
  by_cases heq : (s.dev d).discussOpen = atoi p
  · rw [if_pos heq]
    by_cases ha : atoi p = 0
    · rw [if_neg (not_not.mpr ha)]
      obtain ⟨c, hc⟩ := hpost ⟨ls, pl, h⟩ rfl
      exact ⟨0, c, s, hc, .still heq ha rfl, ⟨ls, pl, h⟩, rfl⟩
    · rw [if_pos ha]
      obtain ⟨s', v, P, hs', hseat, hv, hinv'⟩ := again_inv h hd (heq ▸ ha)
      have htags : (view s').tags = s.tags := by
        rw [hv]
        exact seated_tags hseat
      obtain ⟨c, hc⟩ := hpost ⟨_, _, hinv'⟩ htags
      exact ⟨0, c, s', by rw [hs']; exact hc, .again heq ha hseat hv, ⟨_, _, hinv'⟩, htags⟩
  · rw [if_neg heq]
    by_cases ha : atoi p = 0
    · rw [if_neg (not_not.mpr ha)]
      have ho : (s.dev d).discussOpen ≠ 0 := fun h0 => heq (h0.trans ha.symm)
      obtain ⟨s', v, L, P, hs', hun, hv, hinv'⟩ := closeit_inv h hd ho
      have htags : (view s').tags = s.tags := by
        rw [hv]
        exact unseated_tags hun
      obtain ⟨c, hc⟩ := hpost ⟨_, _, hinv'⟩ htags
      exact ⟨0, c, s', by rw [hs']; exact hc, .close ho ha hun hv, ⟨_, _, hinv'⟩, htags⟩
    · rw [if_pos ha]
      obtain ⟨r, hr, hkick⟩ := admission_total h ht d
      have hopen : (s.dev d).discussOpen = 0 ∨ r = .reject ∨ r = .kick d := by
        by_contra hn
        rw [not_or] at hn
        rcases hsafe hn.1 ha heq with h' | h' <;> rw [hr] at h' <;> cases h' <;>
          exact hn.2 (by simp)
      rw [hr]
      cases r with
      | reject => exact ⟨_, _, s, rfl, .reject ha hr, ⟨ls, pl, h⟩, rfl⟩
      | openit =>
        have ho : (s.dev d).discussOpen = 0 := by simpa using hopen
        obtain ⟨s', v, L, P, hs', hseat, hv, hinv'⟩ := openit_inv h hd ho
        have htags : (view s').tags = s.tags := by
          rw [hv]
          exact seated_tags hseat
        obtain ⟨c, hc⟩ := hpost ⟨_, _, hinv'⟩ htags
        refine ⟨0, c, s', ?_, .openit ha ho hr hseat hv, ⟨_, _, hinv'⟩, htags⟩
        simp only [Option.bind_eq_bind, Option.bind_some, hs', hc]
      | kick k =>
        have ho : (s.dev d).discussOpen = 0 ∨ k = d := by simpa using hopen
        obtain ⟨s₁, s', v₁, v, L₁, L, P₁, P, hs₁, hs', hun, hv₁, hinv₁, hseat, hv, hinv'⟩ :=
          kick_inv h hd (hkick k rfl) ho
        have htags : (view s').tags = s.tags := by
          have h₁ : (view (kickUser s₁ d k)).tags = s.tags := by
            rw [hv₁]
            exact unseated_tags hun
          rw [hv]
          exact (seated_tags hseat).trans h₁
        obtain ⟨c, hc⟩ := hpost hinv' htags
        refine ⟨0, c, s', ?_, .kick ha heq ho hr hun hv₁ hinv₁ hseat hv, hinv', htags⟩
        simp only [Option.bind_eq_bind, Option.bind_some, hs₁, hs', hc]

end Request

/-! ## The other commands -/

section Commands
variable {s : Server} {d t : ℤ}

/-- No microphone of the tag is open. -/
def NoneOpen (s : Server) (t : ℤ) : Prop :=
  ∀ d ∈ s.devs, (s.dev d).tag = t → (s.dev d).discussOpen = 0

/-- Emptying a list that is empty changes nothing. -/
theorem resetOpenList_good (h : Good s) (ht : t ∈ s.tags) (hn : NoneOpen s t) :
    Good (resetOpenList s t) := by
  obtain ⟨h1, ls, pl, hI⟩ := h
  have hls : ls t = [] := by
    rw [List.eq_nil_iff_forall_not_mem]
    intro d hd
    obtain ⟨h2, h3, h4⟩ := (hI.opens.mem t ht d).mp hd
    exact h4 (hn d h2 h3)
  have hv := view_resetOpenList s t
  refine ⟨one_mem_of_view hv h1, ls, pl, ?_⟩
  rw [hv]
  have hr := hI.opens.rings.init t fun t' (h' : t' ∈ s.tags) _ => h'
  rw [← hls, Function.update_eq_self] at hr
  refine ⟨⟨hI.opens.nodup, hI.opens.tagOf, hI.opens.flag, hr, fun t' ht' => ?_, hI.opens.mem,
    hI.opens.interp⟩, ⟨hI.slots.slot, hI.slots.bit⟩, hI.ptc⟩
  show Function.update (view s).openuser t 0 t' = _
  by_cases e : t' = t
  · subst e; rw [Function.update_self, hls]; rfl
  · rw [Function.update_of_ne e]
    exact hI.opens.openuser t' ht'

/-- `select` with the number `num`: it reads within the snapshot, the members fit, and no
microphone of the sender's tag is open. -/
def SelectSafe (s : Server) (d num : ℤ) : Prop :=
  s.grp.current = none → num < s.db.length →
    0 ≤ num ∧ (∀ r ∈ s.db[num.toNat]?, (forEachId r.members).length ≤ memberMax) ∧
      NoneOpen s (s.dev d).tag

theorem select_good (h : Good s) (hd : d ∈ s.devs) (cmd : Cmd) (args : List Str)
    (hsafe : ∀ p l, args = p :: l → SelectSafe s d (atoi p)) :
    ∃ r, discctrlSelect s cmd d args = some r ∧ Good r.2.2 := by
  unfold discctrlSelect
  split
  · exact ⟨_, rfl, h⟩
  rename_i hcur
  cases args with
  | nil => exact ⟨_, rfl, h⟩
  | cons p l =>
    simp only [nextArg_cons]
    split
    · exact ⟨_, rfl, h⟩
    rename_i hlen
    obtain ⟨hnum, hmem, hnone⟩ := hsafe p l rfl (by simpa using hcur) (by omega)
    rw [if_neg (by omega)]
    have hlt : (atoi p).toNat < s.db.length := by omega
    have hget : s.db[(atoi p).toNat]? = some s.db[(atoi p).toNat] := List.getElem?_eq_getElem hlt
    have hfit := hmem _ hget
    rw [hget, Option.bind_eq_bind, Option.bind_some]
    unfold groupSetupDiscuss
    simp only [List.length_map]
    rw [if_neg (by omega), Option.bind_eq_bind, Option.bind_some]
    refine ⟨_, rfl, (resetOpenList_good h (h.tag_mem hd) hnone).of_view ?_⟩
    simp only [view_send, view_setGrp, view_deviceSave, view_setRow, view_sendCmdToDevId,
      view_allowMembers, view_resetOpenList]
    rfl

theorem close_good (h : Good s) (hd : d ∈ s.devs) (cmd : Cmd)
    (hsafe : s.grp.current.isSome → NoneOpen s (s.dev d).tag) :
    ∃ r, discctrlClose s cmd d = some r ∧ Good r.2.2 := by
  unfold discctrlClose
  split
  · exact ⟨_, rfl, h⟩
  rename_i hcur
  have hsome : s.grp.current.isSome := by
    cases hc : s.grp.current with
    | none => rw [hc] at hcur; exact absurd rfl hcur
    | some r => rfl
  refine ⟨_, rfl, (resetOpenList_good h (h.tag_mem hd) (hsafe hsome)).of_view ?_⟩
  simp only [view_send, view_setGrp, view_deviceSave, view_setRow, view_resetOpenList]
  rfl

theorem setmode_good (h : Good s) (cmd : Cmd) (args : List Str) :
    ∃ r, discctrlSetmode s cmd d args = some r ∧ Good r.2.2 := by
  unfold discctrlSetmode
  cases args with
  | nil => exact ⟨_, rfl, h⟩
  | cons p l =>
    refine ⟨_, rfl, h.of_view ?_⟩
    simp only [view_send, view_setGrp]
    exact view_setTag_other _ _ _ rfl rfl rfl

theorem setMaxuser_good (h : Good s) (cmd : Cmd) (args : List Str) :
    ∃ r, discctrlSetMaxuser s cmd args = some r ∧ Good r.2.2 := by
  unfold discctrlSetMaxuser
  cases args with
  | nil => exact ⟨_, rfl, h⟩
  | cons p l =>
    rw [nextArg_cons, if_pos h.1]
    refine ⟨_, rfl, h.of_view ?_⟩
    simp only [view_send, view_setGrp]
    exact view_setTag_other _ _ _ rfl rfl rfl

theorem status_good (h : Good s) (hd : d ∈ s.devs) (cmd : Cmd) :
    ∃ r, discctrlStatus s cmd d = some r ∧ Good r.2.2 := by
  unfold discctrlStatus
  split
  · exact ⟨_, rfl, h⟩
  have ht := h.tag_mem hd
  obtain ⟨-, ls, pl, hI⟩ := id h
  have heach := (hI.opens.rings.ring _ ht).forEach_eq
    (fun l id => (.inl (listAddNum l id) : Str ⊕ Empty)) s.devs.length (hI.opens.length_le ht) []
  rw [show (view s).openL = s.openL from rfl] at heach
  simp only [heach, Option.bind_eq_bind, Option.bind_some]
  split
  exact ⟨_, rfl, h⟩

theorem forbid_good (h : Good s) (cmd : Cmd) (args : List Str) :
    ∃ r, discctrlForbid s cmd args = some r ∧ Good r.2.2 := by
  unfold discctrlForbid
  cases args with
  | nil => exact ⟨_, rfl, h⟩
  | cons p l =>
    simp only [nextArg_cons]
    split
    · refine ⟨_, rfl, h.of_view ?_⟩
      exact (view_deviceCmd ..).trans (view_setDev_other _ _ _ rfl rfl rfl)
    · exact ⟨_, rfl, h⟩

theorem demand_good (h : Good s) (cmd : Cmd) (args : List Str) :
    ∃ r, discctrlDemand s cmd d args = some r ∧ Good r.2.2 := by
  unfold discctrlDemand
  match args with
  | [] => exact ⟨_, rfl, h⟩
  | [_] => exact ⟨_, rfl, h⟩
  | p :: _ :: _ =>
    simp only [nextArg_cons]
    split
    · exact ⟨_, rfl, h⟩
    · exact ⟨_, rfl, h.of_view (view_sendCmdToDevId ..)⟩

theorem disableall_good (h : Good s) (cmd : Cmd) (args : List Str) :
    ∃ r, discctrlDisableall s cmd d args = some r ∧ Good r.2.2 := by
  unfold discctrlDisableall
  cases args with
  | nil => exact ⟨_, rfl, h⟩
  | cons p l => exact ⟨_, rfl, h.of_view (view_send ..)⟩

theorem request_good (h : Good s) (hd : d ∈ s.devs) (cmd : Cmd) (args : List Str)
    (hsafe : ∀ p l, args = p :: l → RequestSafe s d (atoi p)) :
    ∃ r, discctrlRequest s cmd d args = some r ∧ Good r.2.2 := by
  cases args with
  | nil => exact ⟨_, rfl, h⟩
  | cons p l =>
    obtain ⟨h1, ls, pl, hI⟩ := h
    obtain ⟨code, c, s', hs', -, hI', htags⟩ := request_effect hI hd cmd p l (hsafe p l rfl)
    exact ⟨_, hs', one_mem_of_view rfl (htags ▸ h1), hI'⟩

/-- The `discctrl` commands that are no slip. -/
def DiscctrlSafe (s : Server) (cmd : Cmd) : Prop :=
  cmd.deviceId ∈ s.devs →
    (∀ p l, cmd.args = "request".toList :: p :: l → RequestSafe s cmd.deviceId (atoi p)) ∧
    (∀ p l, cmd.args = "select".toList :: p :: l → SelectSafe s cmd.deviceId (atoi p)) ∧
    (∀ l, cmd.args = "close".toList :: l → s.grp.current.isSome →
      NoneOpen s (s.dev cmd.deviceId).tag)

/-- **Every `discctrl` command that is no slip keeps the invariant.** -/
theorem discctrl_good (h : Good s) (cmd : Cmd) (hsafe : DiscctrlSafe s cmd) :
    ∃ r, cmdDiscctrl s cmd = some r ∧ Good r.2.2 := by
  unfold cmdDiscctrl
  by_cases hd : cmd.deviceId ∈ s.devs
  swap
  · rw [if_pos hd]
    exact ⟨_, rfl, h⟩
  rw [if_neg (not_not.mpr hd)]
  obtain ⟨hreq, hsel, hclose⟩ := hsafe hd
  cases hargs : cmd.args with
  | nil => exact ⟨_, rfl, h⟩
  | cons subcmd args =>
    rw [hargs] at hreq hsel hclose
    rw [nextArg_cons]
    refine exists_ite (fun _ => setmode_good h cmd args) fun _ => ?_
    refine exists_ite (fun _ => setMaxuser_good h cmd args) fun _ => ?_
    refine exists_ite (fun _ => ⟨_, rfl, h⟩) fun _ => ?_
    refine exists_ite (fun e => select_good h hd cmd args fun p l e' =>
      hsel p l (by rw [e, e'])) fun _ => ?_
    refine exists_ite (fun e => request_good h hd cmd args fun p l e' =>
      hreq p l (by rw [e, e'])) fun _ => ?_
    refine exists_ite (fun _ => status_good h hd cmd) fun _ => ?_
    refine exists_ite (fun e => close_good h hd cmd fun hc => hclose args (by rw [e]) hc)
      fun _ => ?_
    refine exists_ite (fun _ => forbid_good h cmd args) fun _ => ?_
    refine exists_ite (fun _ => ⟨_, rfl, h⟩) fun _ => ?_
    refine exists_ite (fun _ => disableall_good h cmd args) fun _ => ?_
    exact exists_ite (fun _ => demand_good h cmd args) fun _ => ⟨_, rfl, h⟩

end Commands

/-! ## Moves and timeouts -/

section Moves
variable {s : Server} {ls : ℤ → List ℤ} {pl : List ℤ} {d : ℤ}

/-- Nothing is replicated: applying the mode only says so. -/
theorem applyInterpMode_no {t : ℤ} (h : (s.tag t).interpMode = interpNo) (d : ℤ) :
    applyInterpMode s t d = some (interpDelRep s t) := by
  unfold applyInterpMode
  rw [if_pos h]

theorem quitInterp_inv (h : Inv (view s) ls pl) (hd : d ∈ s.devs) :
    ∃ s', quitInterp s (s.dev d).tag d = some s' ∧ view s' = view s := by
  have hmode := h.opens.interp _ (h.opens.tagOf d hd)
  have hsame : view (s.setTag (s.dev d).tag fun T => { T with interpMode := interpNo }) =
      view s := view_setTag_other _ _ _ rfl rfl hmode.symm
  unfold quitInterp
  split
  · refine ⟨_, applyInterpMode_no ?_ d, (view_interpDelRep ..).trans hsame⟩
    show (view _).interpMode _ = _
    rw [hsame]
    exact hmode
  · exact ⟨s, rfl, rfl⟩

theorem enterInterp_inv {t : ℤ} (h : (s.tag t).interpMode = interpNo) (d : ℤ) :
    ∃ s', enterInterp s t d = some s' ∧ view s' = view s := by
  unfold enterInterp
  split
  · exact ⟨_, applyInterpMode_no h d, view_interpDelRep ..⟩
  · exact ⟨s, rfl, rfl⟩

theorem view_moveDev (s : Server) (d tid : ℤ) :
    view (moveDev s d tid) = ((view s).request tid).move d tid := by
  unfold moveDev
  rw [view_tagCheckUcast, view_setTagOf, view_tagAddDevice, view_tagDelDevice, view_requestTag]

/-- **`switch_tag`** moves the device, whether its microphone is open or not. -/
theorem switch_effect (h : Inv (view s) ls pl) {cmd : Cmd} (hd : cmd.deviceId ∈ s.devs) {p : Str}
    {l : List Str} (hargs : cmd.args = p :: l) (hpos : 0 < atoi p)
    (hne : atoi p ≠ (s.dev cmd.deviceId).tag) :
    ∃ c s', cmdSwitchTag s cmd = some (0, c, s') ∧
      view s' = ((view s).request (atoi p)).move cmd.deviceId (atoi p) := by
  obtain ⟨s₁, hs₁, hv₁⟩ := quitInterp_inv h hd
  have hv₂ : view (moveDev s₁ cmd.deviceId (atoi p)) =
      ((view s).request (atoi p)).move cmd.deviceId (atoi p) := by
    rw [view_moveDev, hv₁]
  have hmode : ((moveDev s₁ cmd.deviceId (atoi p)).tag (atoi p)).interpMode = interpNo := by
    obtain ⟨ls', hI⟩ := h.request (atoi p)
    show (view _).interpMode _ = _
    rw [hv₂]
    exact hI.opens.interp _ (request_tags_mem _ _)
  obtain ⟨s₂, hs₂, hv₃⟩ := enterInterp_inv hmode cmd.deviceId
  refine ⟨repOk cmd, deviceSave (s₂.setRow cmd.deviceId fun r => { r with tagid := atoi p })
    cmd.deviceId, ?_, ?_⟩
  · unfold cmdSwitchTag
    rw [if_neg (not_not.mpr hd), hargs, nextArg_cons]
    simp only []
    rw [if_neg (by omega), if_neg hne, hs₁, Option.bind_eq_bind, Option.bind_some, hs₂]
    rfl
  · rw [view_deviceSave, view_setRow, hv₃, hv₂]

/-- The device switches only while its microphone is closed. -/
def SwitchSafe (s : Server) (cmd : Cmd) : Prop :=
  cmd.deviceId ∈ s.devs → ∀ p l, cmd.args = p :: l → 0 < atoi p →
    atoi p ≠ (s.dev cmd.deviceId).tag → (s.dev cmd.deviceId).discussOpen = 0

theorem switch_good (h : Good s) (cmd : Cmd) (hsafe : SwitchSafe s cmd) :
    ∃ r, cmdSwitchTag s cmd = some r ∧ Good r.2.2 := by
  by_cases hd : cmd.deviceId ∈ s.devs
  swap
  · exact ⟨(errNotReg, cmd, s), by unfold cmdSwitchTag; rw [if_pos hd], h⟩
  cases hargs : cmd.args with
  | nil =>
    exact ⟨(1, cmd, s), by unfold cmdSwitchTag; rw [if_neg (not_not.mpr hd), hargs]; rfl, h⟩
  | cons p l =>
    by_cases hmove : 0 < atoi p ∧ atoi p ≠ (s.dev cmd.deviceId).tag
    · obtain ⟨hpos, hne⟩ := hmove
      obtain ⟨h1, ls, pl, hI⟩ := h
      obtain ⟨c, s', hs', hv⟩ := switch_effect hI hd hargs hpos hne
      obtain ⟨ls', hI'⟩ := hI.request (atoi p)
      have hgo := hI'.move (d := cmd.deviceId) (by rw [request_devs]; exact hd)
        (by rw [request_opn]; exact hsafe hd p l hargs hpos hne) (request_tags_mem _ _)
      exact ⟨_, hs', one_mem_of_view hv (request_tags_mono _ _ h1), ls', pl, hv ▸ hgo⟩
    · unfold cmdSwitchTag
      rw [if_neg (not_not.mpr hd), hargs, nextArg_cons]
      refine exists_ite (fun _ => ⟨_, rfl, h⟩) fun h1 => ?_
      refine exists_ite (fun _ => ⟨_, rfl, h⟩) fun h2 => ?_
      exact absurd ⟨by omega, h2⟩ hmove

/-- **A visit of the heartbeat thread** changes nothing, or closes the microphone of a dead
device. -/
theorem heartbeatGod_effect (h : Inv (view s) ls pl) (d : ℤ) :
    ∃ s', heartbeatGod s d = some s' ∧ (∃ ls', Inv (view s') ls' pl) ∧
      (view s' = view s ∨
        ∃ L, ((view s).closed (s.dev d).tag d L).Unseated (view s') (s.dev d).tag d) := by
  unfold heartbeatGod
  split
  swap
  · exact ⟨s, rfl, ⟨ls, h⟩, Or.inl rfl⟩
  rename_i hd
  have hv : view (s.setDev d fun D => { D with hbeat := D.hbeat + 1 }) = view s :=
    view_setDev_other _ _ _ rfl rfl rfl
  generalize s.setDev d (fun D => { D with hbeat := D.hbeat + 1 }) = s₁ at hv
  simp only []
  split
  swap
  · exact ⟨s₁, rfl, ⟨ls, hv ▸ h⟩, Or.inl hv⟩
  have hv₂ : view (doDevActivate s₁ d false) = view s := (view_doDevActivate ..).trans hv
  generalize doDevActivate s₁ d false = s₂ at hv₂
  split
  swap
  · exact ⟨s₂, rfl, ⟨ls, hv₂ ▸ h⟩, Or.inl hv₂⟩
  rename_i ho
  have htag : (s₂.dev d).tag = (s.dev d).tag := congrFun (congrArg View.tagOf hv₂) d
  have hd₂ : d ∈ s₂.devs := by
    show d ∈ (view s₂).devs
    rw [hv₂]
    exact hd
  rw [← hv₂] at h
  obtain ⟨s', L, hs', hun, hI'⟩ := delOpen_inv h hd₂ ho
  rw [hv₂, htag] at hun
  exact ⟨s', hs', ⟨_, hI'⟩, Or.inr ⟨L, hun⟩⟩

theorem heartbeatGod_good (h : Good s) (d : ℤ) : ∃ s', heartbeatGod s d = some s' ∧ Good s' := by
  obtain ⟨h1, ls, pl, hI⟩ := h
  obtain ⟨s', hs', ⟨ls', hI'⟩, heff⟩ := heartbeatGod_effect hI d
  refine ⟨s', hs', ?_, ls', pl, hI'⟩
  rcases heff with hv | ⟨L, hun⟩
  · exact one_mem_of_view hv h1
  · obtain ⟨sl, mb, hv⟩ := unseated_eq hun
    exact one_mem_of_view hv h1

end Moves

/-! ## Steps -/

/-- The steps that are no slip. -/
def StepSafe (s : Server) : Event → Prop
  | .discctrl cmd => DiscctrlSafe s cmd
  | .switchTag cmd => SwitchSafe s cmd
  | .heartbeat _ => True
  | .heartbeatGod _ => True

/-- **Every step that is no slip has a result and keeps the invariant.** -/
theorem step_good (s : Server) (e : Event) (h : Good s) (hsafe : StepSafe s e) :
    ∃ s', step s e = some s' ∧ Good s' := by
  cases e with
  | discctrl cmd =>
    obtain ⟨r, hr, hgood⟩ := discctrl_good h cmd hsafe
    exact ⟨r.2.2, by rw [step, hr]; rfl, hgood⟩
  | switchTag cmd =>
    obtain ⟨r, hr, hgood⟩ := switch_good h cmd hsafe
    exact ⟨r.2.2, by rw [step, hr]; rfl, hgood⟩
  | heartbeat d => exact ⟨_, rfl, h.of_view (view_heartbeat s d)⟩
  | heartbeatGod d => exact heartbeatGod_good h d

end GSConferencing.Serv.OpenList
