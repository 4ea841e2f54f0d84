import GSConferencing.Serv.OpenList

/-!
# Open lists and tags along runs

`OpenListOk`: every open list holds exactly the open devices of its tag, each once, and the counter
is its length.  `TagStateOk`: slots and open lists hold devices of their tag, and the counter is
the number of open devices of the tag.

* `reopen_bad`, `reset_bad`, `switch_bad`: the slips leave these properties.
* `open_list_exact`, `tag_state_exact`: along a run they hold exactly when no step is a slip.
-/

namespace GSConferencing.Serv.OpenRuns

open GSConferencing.Lib.CyclicList GSConferencing.Lib.Run GSConferencing.Include.ListHead
open GSConferencing.Serv.Strutil GSConferencing.Serv.CmdHandler GSConferencing.Serv.Dev
open GSConferencing.Serv.Tag GSConferencing.Serv.Interp GSConferencing.Serv.Devctl
open GSConferencing.Serv.Ptc GSConferencing.Serv.Discuss GSConferencing.Serv.Server
open GSConferencing.Serv.OpenView GSConferencing.Serv.Mics GSConferencing.Serv.OpenList

/-- The open list of every tag holds its open devices, each once, and `openuser` is its length. -/
def OpenListOk (s : Server) : Prop :=
  ∀ t ∈ s.tags, ∃ l, Ring s.openL t l ∧
    (∀ d, d ∈ l ↔ d ∈ s.devs ∧ (s.dev d).tag = t ∧ (s.dev d).discussOpen ≠ 0) ∧
    (s.tag t).openuser = l.length

/-- The number of open devices of a tag. -/
def openCount (s : Server) (t : ℤ) : ℕ :=
  (s.devs.filter fun d => (s.dev d).tag = t ∧ (s.dev d).discussOpen ≠ 0).length

/-- What holds a slot or is in an open list has the tag, and `openuser` counts its open devices. -/
def TagStateOk (s : Server) : Prop :=
  ∀ t ∈ s.tags, (∀ i d, (s.tag t).mixDevs i = some d → (s.dev d).tag = t) ∧
    (∃ l, Ring s.openL t l ∧ ∀ d ∈ l, (s.dev d).tag = t) ∧ (s.tag t).openuser = openCount s t

section Properties
variable {s : Server}

theorem openListOk_of_good (h : Good s) : OpenListOk s := by
  obtain ⟨-, ls, pl, hI⟩ := h
  exact fun t ht => ⟨ls t, hI.opens.rings.ring t ht, hI.opens.mem t ht, hI.opens.openuser t ht⟩

/-- A list of the open devices, each once, has their number. -/
theorem length_eq_openCount (hn : s.devs.Nodup) {t : ℤ} {l : List ℤ} (hl : l.Nodup)
    (hm : ∀ d, d ∈ l ↔ d ∈ s.devs ∧ (s.dev d).tag = t ∧ (s.dev d).discussOpen ≠ 0) :
    l.length = openCount s t := by
  refine (List.perm_of_nodup_nodup_toFinset_eq hl (hn.filter _) ?_).length_eq
  ext d
  simp only [List.mem_toFinset, List.mem_filter, decide_eq_true_eq]
  exact hm d

theorem OpenListOk.count (h : OpenListOk s) (hn : s.devs.Nodup) {t : ℤ} (ht : t ∈ s.tags) :
    (s.tag t).openuser = openCount s t := by
  obtain ⟨l, hring, hm, hlen⟩ := h t ht
  rw [hlen, length_eq_openCount hn hring.nodup hm]

theorem tagStateOk_of_good (h : Good s) : TagStateOk s := by
  obtain ⟨-, ls, pl, hI⟩ := id h
  refine fun t ht => ⟨fun i d hd => (hI.slots.slot t ht i d hd).2.1,
    ⟨ls t, hI.opens.rings.ring t ht, fun d hd => ((hI.opens.mem t ht d).mp hd).2.1⟩, ?_⟩
  exact (openListOk_of_good h).count hI.opens.nodup ht

end Properties

/-! ## The slips -/

section Slips
variable {s s' : Server} {ls : ℤ → List ℤ} {pl : List ℤ} {d t : ℤ}

theorem view_requestPost {cmd : Cmd} {a : ℤ} {r : Reply Server}
    (h : requestPost s cmd t d a = some r) : view r.2.2 = view s := by
  unfold requestPost at h
  split at h
  · split at h
    · cases h; exact view_interpDelRep ..
    · obtain ⟨s₁, hs₁, h⟩ := Option.bind_eq_some_iff.mp h
      cases h
      exact view_applyInterpMode hs₁
  · cases h; rfl

/-- What `openit` does to the view, whatever the lists look like. -/
theorem openit_view (h : openit s t d = some s') :
    ∃ L sl mb P, view s' =
      { (view s).opened t d L with slot := sl, mixbit := mb, ptcL := P } := by
  unfold openit at h
  obtain ⟨s₁, hs₁, h⟩ := Option.bind_eq_some_iff.mp h
  rcases addOpen_view s t d with ⟨-, hnone⟩ | ⟨L, s₂, -, hs₂, hseat⟩
  · rw [hnone] at hs₁; cases hs₁
  rw [hs₂] at hs₁
  cases hs₁
  obtain ⟨sl, mb, hv⟩ := seated_eq hseat
  unfold ptcPush ptcPut at h
  simp only [Option.map_eq_some_iff] at h
  obtain ⟨s₃, ⟨P, -, rfl⟩, rfl⟩ := h
  refine ⟨L, sl, mb, P, ?_⟩
  rw [view_ptcSend, view_setCurr, view_setLinks, hv]

/-- **An open device that is put through again** is counted twice. -/
theorem reopen_bad (h : Inv (view s) ls pl) (hd : d ∈ s.devs) (ho : (s.dev d).discussOpen ≠ 0)
    (hs' : openit s (s.dev d).tag d = some s') {s'' : Server} (hv'' : view s'' = view s') :
    ¬ OpenListOk s'' := by
  intro hok
  have ht : (s.dev d).tag ∈ (view s).tags := h.opens.tagOf d hd
  obtain ⟨L, sl, mb, P, hv⟩ := openit_view hs'
  rw [← hv''] at hv
  have hone : (view s).opn d = 1 := (h.opens.flag d hd).resolve_left ho
  have hopn : (view s'').opn = (view s).opn := by
    rw [hv]
    show Function.update (view s).opn d 1 = (view s).opn
    exact update_eq hone.symm
  have hdevs : (view s'').devs = (view s).devs := by rw [hv]; rfl
  have htagOf : (view s'').tagOf = (view s).tagOf := by rw [hv]; rfl
  have hcnt : (view s'').openuser (s.dev d).tag = (ls (s.dev d).tag).length + 1 := by
    rw [hv, ← h.opens.openuser _ ht]
    show Function.update (view s).openuser (s.dev d).tag _ (s.dev d).tag = _
    rw [Function.update_self]
  obtain ⟨l, hring, hm, hlen⟩ := hok (s.dev d).tag (by
    show _ ∈ (view s'').tags
    rw [hv]
    exact ht)
  have hperm : l.length = (ls (s.dev d).tag).length := by
    have hnodup := (h.opens.rings.ring _ ht).nodup
    refine (List.perm_of_nodup_nodup_toFinset_eq hring.nodup hnodup ?_).length_eq
    ext x
    rw [List.mem_toFinset, List.mem_toFinset, h.opens.mem _ ht x, hm x]
    show x ∈ (view s'').devs ∧ (view s'').tagOf x = _ ∧ (view s'').opn x ≠ 0 ↔ _
    rw [hdevs, htagOf, hopn]
  have : (s''.tag (s.dev d).tag).openuser = (ls (s.dev d).tag).length + 1 := hcnt
  rw [hlen, hperm] at this
  omega

/-- **A list that is emptied under an open device** misses it. -/
theorem reset_bad (ht : t ∈ s.tags) (hn : ¬ NoneOpen s t)
    (hv : view s' = view (resetOpenList s t)) : ¬ OpenListOk s' := by
  intro hok
  rw [view_resetOpenList] at hv
  obtain ⟨d, hd, htag, ho⟩ : ∃ d ∈ s.devs, (s.dev d).tag = t ∧ (s.dev d).discussOpen ≠ 0 := by
    by_contra hc
    exact hn fun d h1 h2 => by_contra fun h3 => hc ⟨d, h1, h2, h3⟩
  obtain ⟨l, -, hm, hlen⟩ := hok t (by
    show t ∈ (view s').tags
    rw [hv]
    exact ht)
  have hzero : (view s').openuser t = 0 := by
    rw [hv]
    exact Function.update_self ..
  have hnil : l = [] := by
    have : (s'.tag t).openuser = 0 := hzero
    rw [hlen] at this
    exact List.length_eq_zero_iff.mp (by omega)
  have hmem : d ∈ l := (hm d).mpr (by
    show d ∈ (view s').devs ∧ (view s').tagOf d = t ∧ (view s').opn d ≠ 0
    rw [hv]
    exact ⟨hd, htag, ho⟩)
  rw [hnil] at hmem
  cases hmem

/-- **An open device that changes its tag** stays in the old list. -/
theorem switch_bad (h : Inv (view s) ls pl) {cmd : Cmd} (hn : ¬ SwitchSafe s cmd)
    (hs' : step s (.switchTag cmd) = some s') : ¬ TagStateOk s' := by
  unfold SwitchSafe at hn
  push Not at hn
  obtain ⟨hd, p, l, hargs, hpos, hne, ho⟩ := hn
  obtain ⟨c, s₁, hs₁, hv⟩ := switch_effect h hd hargs hpos hne
  have : s' = s₁ := by
    rw [step, hs₁] at hs'
    exact (Option.some.inj hs').symm
  subst this
  intro hok
  obtain ⟨ls', hI⟩ := h.request (atoi p)
  have ht : (s.dev cmd.deviceId).tag ∈ ((view s).request (atoi p)).tags :=
    request_tags_mono _ _ (h.opens.tagOf _ hd)
  have htag : ((view s).request (atoi p)).tagOf cmd.deviceId = (s.dev cmd.deviceId).tag := by
    unfold View.request
    split <;> rfl
  obtain ⟨-, ⟨l', hring, hm⟩, -⟩ := hok (s.dev cmd.deviceId).tag (by
    show _ ∈ (view s').tags
    rw [hv]
    exact ht)
  have hring' : Ring s'.openL (s.dev cmd.deviceId).tag (ls' (s.dev cmd.deviceId).tag) := by
    show Ring (view s').openL _ _
    rw [hv]
    exact hI.opens.rings.ring _ ht
  rw [hring.unique hring'] at hm
  have hmem : cmd.deviceId ∈ ls' (s.dev cmd.deviceId).tag :=
    (hI.opens.mem _ ht _).mpr ⟨by rw [request_devs]; exact hd, htag, by rw [request_opn]; exact ho⟩
  have hnew : (view s').tagOf cmd.deviceId = atoi p := by
    rw [hv]
    exact Function.update_self ..
  exact hne (hnew.symm.trans (hm _ hmem))

end Slips

/-! ## Two clients -/

/-- A client with the default settings. -/
def client (type : ℤ) : DbDevice where
  type := type
  tagid := 1
  userName := "?".toList
  enabled := 1
  online := 0
  sub1 := 0
  sub2 := 0
  discussChair := 0
  discussOpen := 0
  ptcId := -1
  ptcCmd := []

theorem twoClients_nodup : ([101, 102] : List ℤ).Nodup := by decide

def twoClients : Db where
  group := { discussMode := 0, discussMaxuser := 0, discussId := 0 }
  table := [101, 102]
  nodup := twoClients_nodup
  row := fun _ => client 1
  discuss := [{ id := 1, name := "talk".toList, members := "101,102".toList }]
  optMixer := .net

def command (d : ℤ) (args : List String) : Cmd :=
  { deviceId := d, args := args.map String.toList, rep := [] }

def request (d : ℤ) (a : String) : Event := .discctrl (command d ["request", a])

/-- What a run from the start leaves of the tag 1: the counter, the open devices, the devices. -/
def tagOneAfter (db : Db) (es : List Event) : Option (ℤ × ℕ × List ℤ × List ℤ) :=
  ((recoverServer db).bind fun s => run step s es).map fun s =>
    ((s.tag 1).openuser, openCount s 1, s.devs, s.tags)

theorem reached_of_tagOneAfter {db : Db} {es : List Event} {x : ℤ × ℕ × List ℤ × List ℤ}
    (h : tagOneAfter db es = some x) : ∃ s t, recoverServer db = some s ∧ run step s es = some t ∧
      (t.tag 1).openuser = x.1 ∧ openCount t 1 = x.2.1 ∧ t.devs = x.2.2.1 ∧ t.tags = x.2.2.2 := by
  obtain ⟨t, ht, rfl⟩ := Option.map_eq_some_iff.mp h
  obtain ⟨s, hs, ht⟩ := Option.bind_eq_some_iff.mp ht
  exact ⟨s, t, hs, ht, rfl, rfl, rfl, rfl⟩

/-! ## Whole runs -/

section Exact
variable {s s' : Server} {ls : ℤ → List ℤ} {pl : List ℤ}

theorem request_bad (h : Inv (view s) ls pl) {d : ℤ} (hd : d ∈ s.devs) {cmd : Cmd} {p : Str}
    {l : List Str} (hn : ¬ RequestSafe s d (atoi p)) {r : Reply Server}
    (hr : discctrlRequest s cmd d (p :: l) = some r) : ¬ OpenListOk r.2.2 := by
  unfold RequestSafe at hn
  push Not at hn
  obtain ⟨ho, ha, hne, hrej, hself⟩ := hn
  obtain ⟨adm, hadm, hkick⟩ := admission_total h (h.opens.tagOf d hd) d
  unfold discctrlRequest at hr
  rw [nextArg_cons] at hr
  simp only [] at hr
  rw [if_neg hne, if_pos ha, show admission s (s.dev d).tag d = some adm from hadm] at hr
  simp only [Option.bind_eq_bind, Option.bind_some] at hr
  cases adm with
  | reject => exact absurd hadm hrej
  | openit =>
    obtain ⟨s₁, hs₁, hr⟩ := Option.bind_eq_some_iff.mp hr
    exact reopen_bad h hd ho hs₁ (view_requestPost hr)
  | kick k =>
    have hkd : k ≠ d := by
      rintro rfl
      exact hself hadm
    obtain ⟨hk, hkt, hko⟩ := (h.opens.mem _ (h.opens.tagOf d hd) k).mp (hkick k rfl)
    replace hkt : (s.dev k).tag = (s.dev d).tag := hkt
    obtain ⟨s₁, hs₁, hr⟩ := Option.bind_eq_some_iff.mp hr
    obtain ⟨s₂, hs₂, hr⟩ := Option.bind_eq_some_iff.mp hr
    obtain ⟨s₁', v, L, P, hs₁', hun, hv, hinv⟩ := closeit_inv h hk hko
    rw [hkt, hs₁] at hs₁'
    cases hs₁'
    obtain ⟨sl, mb, hv'⟩ := unseated_eq hun
    have hview : view (kickUser s₁ d k) = view s₁ := view_kickUser ..
    have htag : ((kickUser s₁ d k).dev d).tag = (s.dev d).tag := by
      show (view _).tagOf d = _
      rw [hview, hv, hv']
      rfl
    rw [← hview] at hinv
    refine reopen_bad (d := d) hinv ?_ ?_ (htag.symm ▸ hs₂) (view_requestPost hr)
    · show d ∈ (view _).devs
      rw [hview, hv, hv']
      exact hd
    · show (view _).opn d ≠ 0
      rw [hview, hv, hv']
      show Function.update (view s).opn k 0 d ≠ 0
      rw [Function.update_of_ne hkd.symm]
      exact ho

theorem select_bad {d : ℤ} (ht : (s.dev d).tag ∈ s.tags) {cmd : Cmd} {p : Str} {l : List Str}
    (hn : ¬ SelectSafe s d (atoi p)) {r : Reply Server}
    (hr : discctrlSelect s cmd d (p :: l) = some r) : ¬ OpenListOk r.2.2 := by
  unfold SelectSafe at hn
  push Not at hn
  obtain ⟨hcur, hlen, hn⟩ := hn
  unfold discctrlSelect at hr
  rw [if_neg (by rw [hcur]; exact Bool.false_ne_true), nextArg_cons] at hr
  simp only [] at hr
  rw [if_neg (by omega)] at hr
  split at hr
  · cases hr
  rename_i hnum
  obtain ⟨rec, hrec, hr⟩ := Option.bind_eq_some_iff.mp hr
  obtain ⟨s₁, hs₁, hr⟩ := Option.bind_eq_some_iff.mp hr
  have hfit : ∀ r ∈ s.db[(atoi p).toNat]?, (forEachId r.members).length ≤ memberMax := by
    intro r hr'
    rw [hrec] at hr'
    cases hr'
    unfold groupSetupDiscuss at hs₁
    simp only [List.length_map] at hs₁
    split at hs₁
    · cases hs₁
    · omega
  have hsame := view_groupSetupDiscuss hs₁
  cases hr
  refine reset_bad ht (hn (by omega) hfit) ?_
  have htag : (s₁.dev d).tag = (s.dev d).tag := by
    show (view s₁).tagOf d = _
    rw [hsame]
    rfl
  have hopenL : s₁.openL = s.openL := congrArg View.openL hsame
  simp only [view_send, view_setGrp, view_deviceSave, view_setRow, view_sendCmdToDevId,
    view_allowMembers, view_resetOpenList]
  show View.mk _ _ _ _ _ _ _ _ _ _ = View.mk _ _ _ _ _ _ _ _ _ _
  simp only [Server.send, Server.setGrp, htag, hopenL, hsame]

theorem close_bad {d : ℤ} (ht : (s.dev d).tag ∈ s.tags) {cmd : Cmd}
    (hcur : s.grp.current.isSome) (hn : ¬ NoneOpen s (s.dev d).tag) {r : Reply Server}
    (hr : discctrlClose s cmd d = some r) : ¬ OpenListOk r.2.2 := by
  unfold discctrlClose at hr
  have hsome : ¬ s.grp.current.isNone := by
    rw [Option.isNone_iff_eq_none, ← ne_eq, ← Option.isSome_iff_ne_none]
    exact hcur
  rw [if_neg hsome] at hr
  cases hr
  refine reset_bad ht hn ?_
  simp only [view_send, view_setGrp, view_deviceSave, view_setRow, view_resetOpenList]
  rfl

/-- A step that does not change a device's tag. -/
def NoSwitch : Event → Prop
  | .switchTag _ => False
  | _ => True

theorem step_bad (h : Good s) {e : Event} (hE : NoSwitch e) (hn : ¬ StepSafe s e)
    (hs' : step s e = some s') : ¬ OpenListOk s' := by
  cases e with
  | switchTag cmd => exact hE.elim
  | heartbeat d => exact absurd trivial hn
  | heartbeatGod d => exact absurd trivial hn
  | discctrl cmd =>
    obtain ⟨r, hr, rfl⟩ := Option.map_eq_some_iff.mp hs'
    obtain ⟨-, ls, pl, hI⟩ := id h
    by_cases hd : cmd.deviceId ∈ s.devs
    swap
    · exact absurd (fun h' => absurd h' hd) hn
    intro hok
    refine hn fun _ => ⟨fun p l e => ?_, fun p l e => ?_, fun l e hcur => ?_⟩
    · by_contra hbad
      rw [cmdDiscctrl_request hd e] at hr
      exact request_bad hI hd hbad hr hok
    · by_contra hbad
      rw [cmdDiscctrl_select hd e] at hr
      exact select_bad (h.tag_mem hd) hbad hr hok
    · by_contra hbad
      rw [cmdDiscctrl_close hd e] at hr
      exact close_bad (h.tag_mem hd) hcur hbad hr hok

/-- **The open lists are right along a run exactly when no step of it is a slip:** no open device is
put through again, and `select` and `close` find no open microphone in the sender's tag. -/
theorem open_list_exact {db : Db} (hs : recoverServer db = some s) {es : List Event}
    (hes : ∀ e ∈ es, NoSwitch e) :
    Always step OpenListOk s es ↔ Guarded step StepSafe s es :=
  always_iff_guarded (fun _ h => openListOk_of_good h) (fun s e h _ hg => step_good s e h hg)
    (fun _ _ _ h hE hn hs' => step_bad h hE hn hs') (recoverServer_good hs) hes

/-- A second request, with the argument 2, links the open device a second time. -/
theorem request_two_counts_twice : ∃ s, recoverServer twoClients = some s ∧
    ¬ Always step OpenListOk s [request 101 "1", request 101 "2"] := by
  obtain ⟨s, t, hs, ht, hcnt, hopen, hdevs, htags⟩ := reached_of_tagOneAfter
    (show tagOneAfter twoClients [request 101 "1", request 101 "2"] =
      some (2, 1, [0, 101, 102], [1]) by decide)
  refine ⟨s, hs, fun h => ?_⟩
  have hok := h.final ht
  have := hok.count (t := 1) (by rw [hdevs]; decide) (by rw [htags]; decide)
  rw [hcnt, hopen] at this
  exact absurd this (by decide)

theorem open_list_exact_twoClients : ∃ s, recoverServer twoClients = some s ∧
    (Always step OpenListOk s [request 101 "1", request 102 "1", request 101 "0"] ↔
      Guarded step StepSafe s [request 101 "1", request 102 "1", request 101 "0"]) := by
  obtain ⟨s, hs⟩ := Option.isSome_iff_exists.mp
    (show (recoverServer twoClients).isSome = true by decide)
  exact ⟨s, hs, open_list_exact hs (by simp [request, NoSwitch])⟩

/-- The steps of microphones that open, close and move: `request` with 0 or 1, `switch_tag`,
heartbeats and their timeouts. -/
def MicEvent : Event → Prop
  | .discctrl cmd => ∃ p l, cmd.args = "request".toList :: p :: l ∧ (atoi p = 0 ∨ atoi p = 1)
  | _ => True

/-- No device switches while its microphone is open. -/
def SwitchClosed (s : Server) : Event → Prop
  | .switchTag cmd => SwitchSafe s cmd
  | _ => True

theorem stepSafe_of_micEvent (h : Good s) {e : Event} (hE : MicEvent e) (hg : SwitchClosed s e) :
    StepSafe s e := by
  obtain ⟨-, ls, pl, hI⟩ := h
  cases e with
  | switchTag cmd => exact hg
  | heartbeat d => trivial
  | heartbeatGod d => trivial
  | discctrl cmd =>
    obtain ⟨p, l, hargs, ha⟩ := hE
    intro hd
    refine ⟨fun p' l' e ho ha' hne => ?_, fun p' l' e => ?_, fun l' e => ?_⟩
    · rw [hargs] at e
      cases e
      have hone := (hI.opens.flag _ hd).resolve_left ho
      rcases ha with h0 | h1
      · exact absurd h0 ha'
      · exact absurd (hone.trans h1.symm) hne
    · rw [hargs] at e
      exact absurd (List.cons.inj e).1 (by decide)
    · rw [hargs] at e
      exact absurd (List.cons.inj e).1 (by decide)

/-- **Slots, lists and counters stay with their tag along a run exactly when no device switches
while its microphone is open.** -/
theorem tag_state_exact {db : Db} (hs : recoverServer db = some s) {es : List Event}
    (hes : ∀ e ∈ es, MicEvent e) :
    Always step TagStateOk s es ↔ Guarded step SwitchClosed s es := by
  refine always_iff_guarded (I := Good) (fun _ h => tagStateOk_of_good h)
    (fun s e h hE hg => step_good s e h (stepSafe_of_micEvent h hE hg)) ?_
    (recoverServer_good hs) hes
  rintro s e s' ⟨-, ls, pl, hI⟩ - hn hs'
  cases e with
  | switchTag cmd => exact switch_bad hI hn hs'
  | discctrl cmd => exact absurd trivial hn
  | heartbeat d => exact absurd trivial hn
  | heartbeatGod d => exact absurd trivial hn

/-- A device that switches while open is in no count. -/
theorem switch_open_miscounts : ∃ s, recoverServer twoClients = some s ∧
    ¬ Always step TagStateOk s [request 101 "1", .switchTag (command 101 ["2"])] := by
  obtain ⟨s, t, hs, ht, hcnt, hopen, hdevs, htags⟩ := reached_of_tagOneAfter
    (show tagOneAfter twoClients [request 101 "1", .switchTag (command 101 ["2"])] =
      some (1, 0, [0, 101, 102], [1, 2]) by decide)
  refine ⟨s, hs, fun h => ?_⟩
  have hok := h.final ht
  have := (hok 1 (by rw [htags]; decide)).2.2
  rw [hcnt, hopen] at this
  exact absurd this (by decide)

theorem tag_state_exact_twoClients : ∃ s, recoverServer twoClients = some s ∧
    (Always step TagStateOk s [request 101 "1", .switchTag (command 102 ["2"])] ↔
      Guarded step SwitchClosed s [request 101 "1", .switchTag (command 102 ["2"])]) := by
  obtain ⟨s, hs⟩ := Option.isSome_iff_exists.mp
    (show (recoverServer twoClients).isSome = true by decide)
  refine ⟨s, hs, tag_state_exact hs fun e he => ?_⟩
  rcases List.mem_cons.mp he with rfl | he
  · exact ⟨_, _, rfl, Or.inr (by decide)⟩
  · rw [List.mem_singleton.mp he]
    trivial

end Exact

end GSConferencing.Serv.OpenRuns
