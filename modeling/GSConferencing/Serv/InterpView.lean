import GSConferencing.Serv.Subscribe

/-!
# Commands that switch the replication of a tag

`cmd_interp.c`, and the effects on the view of the other commands that start or end a replication:
`discctrl request` and `switch_tag`.

* `cmdInterp_cases`: a tag takes a mode.
* `discctrlRequest_cases`: microphones open and close.
* `cmdSwitchTag_cases`: a device moves.
-/

namespace GSConferencing.Serv.InterpView

open GSConferencing.Serv.Strutil GSConferencing.Serv.CmdHandler GSConferencing.Serv.Dev
open GSConferencing.Serv.Tag GSConferencing.Serv.Interp GSConferencing.Serv.Devctl
open GSConferencing.Serv.Ptc GSConferencing.Serv.Discuss GSConferencing.Serv.Server
open GSConferencing.Serv.SubView GSConferencing.Serv.Subscribe

/-- `cmd_interp`. -/
def cmdInterp (s : Server) (cmd : Cmd) : Option (Reply Server) :=
  let d := cmd.deviceId
  if d ∉ s.devs then some (errNotReg, cmd, s)
  else nextArg cmd.args cmd s fun subcmd args =>
    if subcmd = "set_mode".toList then
      nextArg args cmd s fun p _ => do
        let t := (s.dev d).tag
        let s ← applyInterpMode (s.setTag t fun T => { T with interpMode := atoi p }) t d
        some (0, repOk cmd, s)
    else some (2, cmd, s)

/-! ## `interp` -/

/-- A tag takes a mode. -/
def setMode (v : View) (t m : ℤ) : View := { v with mode := Function.update v.mode t m }

/-- The mode in an `interp set_mode` command. -/
def interpArg (cmd : Cmd) : Option ℤ :=
  match cmd.args with
  | subcmd :: p :: _ => if subcmd = "set_mode".toList then some (atoi p) else none
  | _ => none

/-- **`cmd_interp`:** it changes nothing, or the tag of the device takes the mode. -/
theorem cmdInterp_cases (s : Server) (cmd : Cmd) :
    ((cmd.deviceId ∉ s.devs ∨ interpArg cmd = none) ∧
      ∃ code c, cmdInterp s cmd = some (code, c, s)) ∨
    ∃ m, cmd.deviceId ∈ s.devs ∧ interpArg cmd = some m ∧
      (cmdInterp s cmd).map (fun r => view r.2.2) =
        applyMode (setMode (view s) (s.dev cmd.deviceId).tag m) (s.dev cmd.deviceId).tag
          cmd.deviceId := by
  unfold cmdInterp interpArg
  simp only
  by_cases hd : cmd.deviceId ∈ s.devs
  swap
  · exact .inl ⟨.inl hd, errNotReg, cmd, if_pos hd⟩
  rw [if_neg (not_not.mpr hd)]
  match cmd.args with
  | [] => exact .inl ⟨.inr rfl, 1, cmd, rfl⟩
  | subcmd :: args =>
    simp only [nextArg_cons]
    match args with
    | [] =>
      by_cases hsub : subcmd = "set_mode".toList
      · exact .inl ⟨.inr rfl, 1, cmd, if_pos hsub⟩
      · exact .inl ⟨.inr rfl, 2, cmd, if_neg hsub⟩
    | p :: _ =>
      by_cases hsub : subcmd = "set_mode".toList
      swap
      · exact .inl ⟨.inr (if_neg hsub), 2, cmd, if_neg hsub⟩
      rw [if_pos hsub]
      refine .inr ⟨atoi p, hd, if_pos hsub, ?_⟩
      have hmode : view (s.setTag (s.dev cmd.deviceId).tag fun T => { T with interpMode := atoi p }) =
          setMode (view s) (s.dev cmd.deviceId).tag (atoi p) :=
        view_setTag_mode _ _ _ rfl rfl
      rw [← hmode, ← view_applyInterpMode, nextArg_cons]
      cases applyInterpMode _ _ _ <;> rfl

/-! ## `discctrl request` -/

/-- The end of a request: an open interpreter ends the replication, a closed one starts it. -/
def post (v : View) (t d a : ℤ) : Option View :=
  if v.type d = devtypeInterp ∧ 0 < v.mode t then
    if a ≠ 0 then some (setRep v t none) else applyMode v t d
  else some v

theorem view_requestPost (s : Server) (cmd : Cmd) (t d a : ℤ) :
    (requestPost s cmd t d a).map (fun r => view r.2.2) = post (view s) t d a := by
  unfold requestPost post
  by_cases h : (s.dev d).type = devtypeInterp ∧ 0 < (s.tag t).interpMode
  · rw [if_pos h, if_pos (show (view s).type d = devtypeInterp ∧ 0 < (view s).mode t from h)]
    by_cases ha : a = 0
    · rw [if_neg (not_not.mpr ha), if_neg (not_not.mpr ha), ← view_applyInterpMode]
      cases applyInterpMode s t d <;> rfl
    · rw [if_pos ha, if_pos ha, ← view_interpDelRep]
      rfl
  · rw [if_neg h, if_neg (show ¬((view s).type d = devtypeInterp ∧ 0 < (view s).mode t) from h)]
    rfl

/-- The microphones when the request reaches its end: the device is open or closed as it asked, and
others have been closed at most. -/
def Moved (v : View) (d a : ℤ) (opn : ℤ → ℤ) : Prop :=
  (a = 0 → opn = Function.update v.opn d 0) ∧
  (a ≠ 0 → opn d ≠ 0 ∧ ∀ e, e ≠ d → opn e = v.opn e ∨ opn e = 0)

/-- **`discctrl request`:** it is refused, or the microphone opens or closes. -/
theorem discctrlRequest_cases {s : Server} {cmd : Cmd} {d : ℤ} {args : List Str}
    {r : Reply Server} (hr : discctrlRequest s cmd d args = some r) :
    (r.2.2 = s ∧ args.head?.map atoi ≠ some 0) ∨ ∃ a opn, args.head?.map atoi = some a ∧ Moved (view s) d a opn ∧
      post { view s with opn := opn } (s.dev d).tag d a = some (view r.2.2) := by
  unfold discctrlRequest at hr
  cases args with
  | nil =>
    cases hr
    exact .inl ⟨rfl, Option.some_ne_none 0 ∘ Eq.symm⟩
  | cons p l =>
    rw [nextArg_cons] at hr
    simp only [] at hr
    have hpost : ∀ (s' : Server) (c : Cmd) (opn : ℤ → ℤ), view s' = { view s with opn := opn } →
        requestPost s' c (s.dev d).tag d (atoi p) = some r →
        post { view s with opn := opn } (s.dev d).tag d (atoi p) = some (view r.2.2) := by
      intro s' c opn hv hp
      rw [← hv, ← view_requestPost s' c, hp]
      rfl
    by_cases hsame : (s.dev d).discussOpen = atoi p
    · rw [if_pos hsame] at hr
      by_cases ha : atoi p = 0
      · -- closed already
        rw [if_neg (not_not.mpr ha)] at hr
        have hopn : Function.update (view s).opn d 0 = (view s).opn :=
          Function.update_eq_self_iff.mpr (hsame.trans ha).symm
        exact .inr ⟨atoi p, (view s).opn, rfl, ⟨fun _ => hopn.symm, fun hn => absurd ha hn⟩,
          hpost s _ _ rfl hr⟩
      · rw [if_pos ha] at hr
        obtain ⟨s₁, hs₁, hr⟩ := Option.bind_eq_some_iff.mp hr
        refine .inr ⟨atoi p, (view s).opn, rfl, ⟨fun h => absurd h ha, fun _ =>
          ⟨fun h0 => ha (hsame ▸ h0), fun _ _ => .inl rfl⟩⟩, hpost s₁ _ _ ?_ hr⟩
        rw [view_ptcPush hs₁, view_tagAddOutstanding]
    · rw [if_neg hsame] at hr
      by_cases ha : atoi p = 0
      · rw [if_neg (not_not.mpr ha)] at hr
        obtain ⟨s₁, hs₁, hr⟩ := Option.bind_eq_some_iff.mp hr
        exact .inr ⟨atoi p, _, rfl, ⟨fun _ => rfl, fun hn => absurd ha hn⟩,
          hpost s₁ _ _ (closeit_view hs₁) hr⟩
      · rw [if_pos ha] at hr
        obtain ⟨adm, hadm, hr⟩ := Option.bind_eq_some_iff.mp hr
        cases adm with
        | reject =>
          cases hr
          exact .inl ⟨rfl, fun h => ha (Option.some.inj h)⟩
        | openit =>
          obtain ⟨s₁, hs₁, hr⟩ := Option.bind_eq_some_iff.mp hr
          refine .inr ⟨atoi p, _, rfl, ⟨fun h => absurd h ha, fun _ => ⟨?_, fun e he => ?_⟩⟩,
            hpost s₁ _ _ (openit_view hs₁) hr⟩
          · rw [Function.update_self]
            exact one_ne_zero
          · rw [Function.update_of_ne he]
            exact .inl rfl
        | kick k =>
          obtain ⟨s₁, hs₁, hr⟩ := Option.bind_eq_some_iff.mp hr
          obtain ⟨s₂, hs₂, hr⟩ := Option.bind_eq_some_iff.mp hr
          have hkick : view (kickUser s₁ d k) = view s₁ := view_deviceCmd ..
          have hv : view s₂ = ((view s).mic k 0).mic d 1 := by
            rw [openit_view hs₂, hkick, closeit_view hs₁]
          refine .inr ⟨atoi p, _, rfl, ⟨fun h => absurd h ha, fun _ => ⟨?_, fun e he => ?_⟩⟩,
            hpost s₂ _ _ hv hr⟩
          · rw [Function.update_self]
            exact one_ne_zero
          · rw [Function.update_of_ne he]
            by_cases hek : e = k
            · refine .inr ?_
              show Function.update (view s).opn k 0 e = 0
              rw [hek, Function.update_self]
            · refine .inl ?_
              show Function.update (view s).opn k 0 e = (view s).opn e
              rw [Function.update_of_ne hek]

/-- A `discctrl` command with the subcommand `request`. -/
theorem cmdDiscctrl_request_cases {s : Server} {cmd : Cmd} {r : Reply Server}
    (hsub : cmd.args.head? = some "request".toList) (hr : cmdDiscctrl s cmd = some r) :
    (r.2.2 = s ∧ (cmd.deviceId ∉ s.devs ∨ cmd.args.tail.head?.map atoi ≠ some 0)) ∨
    ∃ a opn, cmd.deviceId ∈ s.devs ∧ cmd.args.tail.head?.map atoi = some a ∧
      Moved (view s) cmd.deviceId a opn ∧
      post { view s with opn := opn } (s.dev cmd.deviceId).tag cmd.deviceId a =
        some (view r.2.2) := by
  obtain ⟨args, hargs⟩ := List.head?_eq_some_iff.mp hsub
  by_cases hd : cmd.deviceId ∈ s.devs
  · unfold cmdDiscctrl at hr
    simp only [] at hr
    rw [if_neg (not_not.mpr hd), hargs, nextArg_cons, if_neg (by decide), if_neg (by decide),
      if_neg (by decide), if_neg (by decide), if_pos rfl] at hr
    rcases discctrlRequest_cases hr with ⟨h, ha⟩ | ⟨a, opn, ha, hmoved, hpost⟩
    · exact .inl ⟨h, .inr (by rw [hargs]; exact ha)⟩
    · exact .inr ⟨a, opn, hd, by rw [hargs]; exact ha, hmoved, hpost⟩
  · unfold cmdDiscctrl at hr
    simp only [] at hr
    rw [if_pos hd, Option.some.injEq] at hr
    exact .inl ⟨hr ▸ rfl, .inl hd⟩

/-! ## `switch_tag` -/

/-- An interpreter ends the replication of the tag it quits. -/
def quit (v : View) (d : ℤ) : View :=
  if v.type d = devtypeInterp then setRep (setMode v (v.tagOf d) interpNo) (v.tagOf d) none else v

/-- The device is in the tag. -/
def move (v : View) (d tid : ℤ) : View :=
  { request v tid with tagOf := Function.update v.tagOf d tid }

/-- An interpreter starts the replication of the tag it enters. -/
def enter (v : View) (d tid : ℤ) : Option View :=
  if v.type d = devtypeInterp then applyMode v tid d else some v

theorem view_quitInterp (s : Server) (d : ℤ) :
    (quitInterp s (s.dev d).tag d).map view = some (quit (view s) d) := by
  unfold quitInterp quit
  by_cases h : (s.dev d).type = devtypeInterp
  · rw [if_pos h, if_pos (show (view s).type d = devtypeInterp from h), view_applyInterpMode,
      view_setTag_mode _ _ _ rfl rfl]
    unfold applyMode
    rw [if_pos (by simp)]
    rfl
  · rw [if_neg h, if_neg (show (view s).type d ≠ devtypeInterp from h)]
    rfl

theorem view_moveDev (s : Server) (d tid : ℤ) :
    view (moveDev s d tid) = move (view s) d tid := by
  unfold moveDev move
  rw [view_tagCheckUcast, view_setDev_tag _ _ _ rfl rfl rfl, view_tagAddDevice, view_tagDelDevice,
    view_requestTag, request_tagOf]

theorem view_enterInterp (s : Server) (d tid : ℤ) :
    (enterInterp s tid d).map view = enter (view s) d tid := by
  unfold enterInterp enter
  by_cases h : (s.dev d).type = devtypeInterp
  · rw [if_pos h, if_pos (show (view s).type d = devtypeInterp from h), view_applyInterpMode]
  · rw [if_neg h, if_neg (show (view s).type d ≠ devtypeInterp from h)]
    rfl

/-- The tag that a `switch_tag` command moves the device to. -/
def switchArg (s : Server) (cmd : Cmd) : Option ℤ :=
  if cmd.deviceId ∈ s.devs then
    (cmd.args.head?.map atoi).filter fun tid => 0 < tid ∧ tid ≠ (s.dev cmd.deviceId).tag
  else none

theorem switchArg_some {s : Server} {cmd : Cmd} {tid : ℤ} (h : switchArg s cmd = some tid) :
    cmd.deviceId ∈ s.devs ∧ tid ≠ (s.dev cmd.deviceId).tag := by
  unfold switchArg at h
  split at h
  · next hd =>
    have hfilter := (Option.filter_eq_some_iff.mp h).2
    exact ⟨hd, (of_decide_eq_true hfilter).2⟩
  · cases h

/-- **`cmd_switch_tag`:** it changes nothing, or the device quits its tag and enters another. -/
theorem cmdSwitchTag_cases {s : Server} {cmd : Cmd} {r : Reply Server}
    (hr : cmdSwitchTag s cmd = some r) :
    (r.2.2 = s ∧ switchArg s cmd = none) ∨ ∃ tid, switchArg s cmd = some tid ∧
      enter (move (quit (view s) cmd.deviceId) cmd.deviceId tid) cmd.deviceId tid =
        some (view r.2.2) := by
  unfold cmdSwitchTag at hr
  simp only [] at hr
  unfold switchArg
  by_cases hd : cmd.deviceId ∈ s.devs
  swap
  · rw [if_pos hd, Option.some.injEq] at hr
    exact .inl ⟨hr ▸ rfl, if_neg hd⟩
  rw [if_neg (not_not.mpr hd)] at hr
  rw [if_pos hd]
  cases hargs : cmd.args with
  | nil =>
    rw [hargs, nextArg_nil, Option.some.injEq] at hr
    exact .inl ⟨hr ▸ rfl, rfl⟩
  | cons p l =>
    rw [hargs, nextArg_cons] at hr
    rw [List.head?_cons, Option.map_some]
    by_cases hpos : atoi p ≤ 0
    · rw [if_pos hpos, Option.some.injEq] at hr
      exact .inl ⟨hr ▸ rfl, by simp [hpos]⟩
    rw [if_neg hpos] at hr
    by_cases hsame : atoi p = (s.dev cmd.deviceId).tag
    · rw [if_pos hsame, Option.some.injEq] at hr
      exact .inl ⟨hr ▸ rfl, by simp [hsame]⟩
    rw [if_neg hsame] at hr
    obtain ⟨s₁, hs₁, hr⟩ := Option.bind_eq_some_iff.mp hr
    obtain ⟨s₂, hs₂, hr⟩ := Option.bind_eq_some_iff.mp hr
    have hquit := view_quitInterp s cmd.deviceId
    rw [hs₁, Option.map_some, Option.some.injEq] at hquit
    have henter := view_enterInterp (moveDev s₁ cmd.deviceId (atoi p)) cmd.deviceId (atoi p)
    rw [hs₂, view_moveDev, hquit] at henter
    refine .inr ⟨atoi p, by simp [not_le.mp hpos, hsame], ?_⟩
    rw [← henter, ← Option.some.inj hr, Option.map_some, view_deviceSave,
      view_setRow_other _ _ _ rfl rfl rfl]

end GSConferencing.Serv.InterpView
