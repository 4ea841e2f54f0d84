import GSConferencing.Serv.SubView

/-!
# Subscription and registration commands

`cmd_sub.c`, and `cmd_reg.c` with `dev_update_data` of `devctl.c`.  The state has no addresses, so the
messages that carry them, and the digest of `cksum.h`, are parameters.

* `view_devSubscribe`, `view_devUnsubscribe`: a device changes its subscription.
* `cmdSub_cases`, `cmdReg_cases`: what the commands do to the view.
* `recoverServer_view`: what the start does to it.
-/

namespace GSConferencing.Serv.Subscribe

open GSConferencing.Serv.Strutil GSConferencing.Serv.CmdHandler GSConferencing.Serv.Dev
open GSConferencing.Serv.Tag GSConferencing.Serv.Interp GSConferencing.Serv.Devctl
open GSConferencing.Serv.Ptc GSConferencing.Serv.Discuss GSConferencing.Serv.Server
open GSConferencing.Serv.SubView
open GSConferencing.Serv.OpenView (comp_update update_eq)

/-! ## The commands -/

/-- `dev_unsubscribe`. -/
def devUnsubscribe (s : Server) (d t : ℤ) : Server :=
  if (s.dev d).subscription = some t then
    let s := s.setDev d fun D => { D with subscription := none }
    let s := s.setTag t fun T => { T with subscribeHead := T.subscribeHead.erase d }
    deviceSave (s.setRow d fun r => { r with sub1 := 0 }) d
  else s

/-- The end of `cmd_sub` for an interpreter whose microphone is closed. -/
def subInterp (s : Server) (d : ℤ) (unsub : Bool) : Option Server :=
  let t := (s.dev d).tag
  if (s.dev d).type = devtypeInterp ∧ (s.tag t).interpMode = interpRe ∧ (s.dev d).discussOpen = 0
  then if unsub then some (interpDelRep s t) else applyInterpMode s t d
  else some s

/-- `cmd_sub`; `notice` is the type 2 command for the unicast device of the tag.  The smallest
`int` has no negative. -/
def cmdSub (notice : Server → ℤ → ℤ → Bool → Str) (s : Server) (cmd : Cmd) :
    Option (Reply Server) :=
  let d := cmd.deviceId
  match cmd.args with
  | [] => some (1, cmd, s)
  | p :: _ =>
    if d ∉ s.devs then some (errNotReg, cmd, s)
    else if atoi p = 0 then some (errOther, cmd, s)
    else if atoi p = intMin then none
    else do
      let unsub : Bool := atoi p < 0
      let t := |atoi p|
      let s := requestTag s t
      let s := if unsub then devUnsubscribe s d t else devSubscribe s d t
      let repid := if unsub then 0 else ((s.tag t).interpRep).getD 0
      let s := match (s.tag t).ucast with
        | some u => deviceCmd s u (notice s d t (!unsub))
        | none => s
      let s ← subInterp s d unsub
      some (0, repEnd (repAddNum (repAdd cmd "OK".toList) repid), deviceSave s d)

/-- `ERR_DEV_DISABLED`. -/
def errDevDisabled : ℤ := 0x201

/-- The record `dev_update_data` makes for a device that has none. -/
def newRow (type : ℤ) : DbDevice where
  type := type
  tagid := 1
  userName := ['?']
  enabled := 1
  online := 1
  sub1 := 0
  sub2 := 0
  discussChair := 0
  discussOpen := 0
  ptcId := -1
  ptcCmd := []

/-- `dev_update_data`; `moved` says that the address is not the recorded one. -/
def devUpdateData (s : Server) (d type : ℤ) (moved : Bool) : Server :=
  if d ∈ s.table then
    let s := s.setRow d fun r => { r with online := 1 }
    if moved then s.send (.saveDevice d) else s
  else ({ s with table := s.table ++ [d] }.setRow d fun _ => newRow type).send (.saveDevice d)

/-- `manage_notify_chair`; `allow` says whether chairs are allowed. -/
def manageNotifyChair (s : Server) (d allow : ℤ) : Server :=
  deviceCmd s d ("0 allow_chair_ctl ".toList ++ fmtInt d ++ ' ' :: fmtInt allow ++ ['\n'])

/-- `cmd_reg` once the device may register. -/
def regDev (s : Server) (d type : ℤ) (moved : Bool) (allow : ℤ) : Server :=
  let s := if d ∈ s.devs then s.setDev d fun D => { D with type := type } else s
  let s := devRegister (devUpdateData s d type moved) d type
  let s := doDevActivate s d true
  let s := if isPtc s d then ptcGoCurrent s else s
  if type = devtypeChair then manageNotifyChair s d allow else s

/-- A device is marked online, also a disabled one, for the manager. -/
def markOnline (s : Server) (d : ℤ) : Server :=
  if d ∈ s.table then s.setRow d fun r => { r with online := 1 } else s

/-- The two numbers of the field `sub` of `get_client_info`. -/
def infoSub (s : Server) (d : ℤ) : ℤ × ℤ := ((s.row d).sub1, (s.row d).sub2)

/-- `cmd_reg`; `cksum` is the digest, and `info` writes the text of `get_client_info` with the
numbers of its field `sub`. -/
def cmdReg (cksum : BitVec 32 → Str) (info : Server → ℤ → ℤ × ℤ → Str) (s : Server) (cmd : Cmd)
    (moved : Bool) (allow : ℤ) : Option (Reply Server) :=
  let d := cmd.deviceId
  nextArg cmd.args cmd s fun p args =>
    nextArg args cmd s fun pass args =>
      nextArg args cmd s fun port args =>
        nextArg args cmd s fun _ _ =>
          let type := atoi p
          if pass ≠ cksum (BitVec.ofInt 32 d ^^^ BitVec.ofInt 32 type) then some (1, cmd, s)
          else if atoi port ≤ 0 then some (1, cmd, s)
          else
            let s := markOnline s d
            if d ∈ s.table ∧ (s.row d).enabled = 0 then some (errDevDisabled, cmd, s)
            else
              let s := regDev s d type moved allow
              some (0, repEnd (repAdd (repAdd cmd "OK".toList) (info s d (infoSub s d))), s)

/-! ## Effects on the view -/

/-- The tag exists or is created. -/
def request (v : View) (t : ℤ) : View :=
  if t ∈ v.tags then v
  else { v with
    tags := v.tags ++ [t]
    head := Function.update v.head t []
    mode := Function.update v.mode t interpNo
    rep := Function.update v.rep t none }

/-- The device leaves the list of its subscription. -/
def unlink (v : View) (d : ℤ) : View :=
  match v.subscription d with
  | some t => { v with head := Function.update v.head t ((v.head t).erase d) }
  | none => v

/-- The device enters the list of a tag. -/
def link (v : View) (d t : ℤ) : View :=
  { v with
    head := Function.update v.head t (d :: v.head t)
    subscription := Function.update v.subscription d (some t)
    sub1 := Function.update v.sub1 d t }

/-- The tag replicates `r`. -/
def setRep (v : View) (t : ℤ) (r : Option ℤ) : View := { v with rep := Function.update v.rep t r }

/-- The tag of the device replicates `t`, if it follows subscriptions. -/
def dup (v : View) (d t : ℤ) : View :=
  if v.mode (v.tagOf d) = interpRe then setRep v (v.tagOf d) (some t) else v

/-- The device subscribes to a tag. -/
def subscribe (v : View) (d t : ℤ) : View :=
  if v.subscription d = some t then v else dup (link (unlink v d) d t) d t

/-- The device ends its subscription to a tag. -/
def unsubscribe (v : View) (d t : ℤ) : View :=
  if v.subscription d = some t then
    { unlink v d with
      subscription := Function.update v.subscription d none
      sub1 := Function.update v.sub1 d 0 }
  else v

theorem view_requestTag (s : Server) (t : ℤ) : view (requestTag s t) = request (view s) t := by
  unfold requestTag request
  show view (if t ∈ s.tags then s else tagCreate s t) = if t ∈ s.tags then _ else _
  split
  · rfl
  · simp only [view, tagCreate]
    rw [comp_update Tag.subscribeHead, comp_update Tag.interpMode, comp_update Tag.interpRep]
    rfl

theorem view_interpSetRepTag (s : Server) (t : ℤ) (r : Option ℤ) :
    view (interpSetRepTag s t r) = setRep (view s) t r := by
  unfold interpSetRepTag notifyInterpRep
  rw [view_send, view_setTag_rep _ _ _ rfl rfl]
  rfl

theorem view_interpDelRep (s : Server) (t : ℤ) :
    view (interpDelRep s t) = setRep (view s) t none :=
  view_interpSetRepTag ..

theorem view_subscribeMove (s : Server) (d t : ℤ) :
    view (subscribeMove s d t) = { unlink (view s) d with
      head := Function.update (unlink (view s) d).head t (d :: (unlink (view s) d).head t) } := by
  have hunlink : view (match (s.dev d).subscription with
      | some t' => s.setTag t' fun T => { T with subscribeHead := T.subscribeHead.erase d }
      | none => s) = unlink (view s) d := by
    unfold unlink
    show _ = match (s.dev d).subscription with | some t' => _ | none => _
    cases (s.dev d).subscription with
    | none => rfl
    | some t' =>
      simp only
      rw [view_setTag_head _ _ _ rfl rfl]
      rfl
  unfold subscribeMove
  simp only
  rw [view_setTag_head _ _ _ rfl rfl, ← hunlink]
  rfl

theorem view_updateInterpDup (s : Server) (d t : ℤ) :
    view (updateInterpDup s d t) = dup (view s) d t := by
  unfold updateInterpDup dup
  show _ = if (s.tag (s.dev d).tag).interpMode = interpRe then _ else _
  split
  · exact view_interpSetRepTag ..
  · rfl

/-- **`dev_subscribe`.** -/
theorem view_devSubscribe (s : Server) (d t : ℤ) :
    view (devSubscribe s d t) = subscribe (view s) d t := by
  unfold devSubscribe subscribe
  show _ = if (s.dev d).subscription = some t then _ else _
  split
  · rfl
  · simp only
    rw [view_updateInterpDup, view_setRow_sub1 _ _ _ rfl rfl,
      view_setDev_subscription _ _ _ rfl rfl rfl, view_subscribeMove]
    unfold link unlink
    cases (view s).subscription d <;> rfl

/-- **`dev_unsubscribe`.** -/
theorem view_devUnsubscribe (s : Server) (d t : ℤ) :
    view (devUnsubscribe s d t) = unsubscribe (view s) d t := by
  unfold devUnsubscribe unsubscribe
  show _ = if (s.dev d).subscription = some t then _ else _
  split
  · next h =>
    simp only
    rw [view_deviceSave, view_setRow_sub1 _ _ _ rfl rfl, view_setTag_head _ _ _ rfl rfl,
      view_setDev_subscription _ _ _ rfl rfl rfl, unlink, show (view s).subscription d = some t from h]
    rfl
  · rfl

/-! ### `sub` -/

/-- `cmd_sub` with the number `n`: a negative number ends the subscription. -/
def change (v : View) (d n : ℤ) : View :=
  if n < 0 then unsubscribe (request v |n|) d |n| else subscribe (request v |n|) d |n|

/-- What the tag of an interpreter replicates at the end of `cmd_sub`. -/
def endSub (v : View) (d : ℤ) (unsub : Bool) : View :=
  if v.type d = devtypeInterp ∧ v.mode (v.tagOf d) = interpRe ∧ v.opn d = 0 then
    setRep v (v.tagOf d) (if unsub then none else v.subscription d)
  else v

/-- `apply_interp_mode`. -/
def applyMode (v : View) (t d : ℤ) : Option View :=
  if v.mode t = interpNo then some (setRep v t none)
  else if v.mode t = interpOr then some (setRep v t (if (1 : ℤ) ∈ v.tags then some 1 else none))
  else if v.mode t = interpRe then (v.subscription d).map fun r => setRep v t (some r)
  else some v

theorem view_applyInterpMode (s : Server) (t d : ℤ) :
    (applyInterpMode s t d).map view = applyMode (view s) t d := by
  unfold applyInterpMode applyMode
  by_cases h0 : (s.tag t).interpMode = interpNo
  · rw [if_pos h0, if_pos (show (view s).mode t = interpNo from h0)]
    exact congrArg some (view_interpDelRep s t)
  rw [if_neg h0, if_neg (show (view s).mode t ≠ interpNo from h0)]
  by_cases h1 : (s.tag t).interpMode = interpOr
  · rw [if_pos h1, if_pos (show (view s).mode t = interpOr from h1)]
    exact congrArg some (view_interpSetRepTag ..)
  rw [if_neg h1, if_neg (show (view s).mode t ≠ interpOr from h1)]
  by_cases h2 : (s.tag t).interpMode = interpRe
  · rw [if_pos h2, if_pos (show (view s).mode t = interpRe from h2), view_subscription]
    cases (s.dev d).subscription with
    | none => rfl
    | some r => exact congrArg some (view_interpSetRepTag ..)
  · rw [if_neg h2, if_neg (show (view s).mode t ≠ interpRe from h2)]
    rfl

theorem applyMode_re {v : View} {t d r : ℤ} (h : v.mode t = interpRe)
    (hr : v.subscription d = some r) : applyMode v t d = some (setRep v t (some r)) := by
  unfold applyMode
  rw [h, if_neg (by decide), if_neg (by decide), if_pos rfl, hr]
  rfl

theorem view_subInterp {s : Server} {d : ℤ} {unsub : Bool}
    (hsub : unsub = false → (s.dev d).subscription ≠ none) :
    ∃ s', subInterp s d unsub = some s' ∧ view s' = endSub (view s) d unsub := by
  unfold subInterp endSub
  by_cases h : (s.dev d).type = devtypeInterp ∧ (s.tag (s.dev d).tag).interpMode = interpRe ∧
    (s.dev d).discussOpen = 0
  · have hv : (view s).type d = devtypeInterp ∧ (view s).mode ((view s).tagOf d) = interpRe ∧
      (view s).opn d = 0 := h
    simp only [if_pos h, if_pos hv]
    cases unsub with
    | true => exact ⟨_, rfl, view_interpDelRep ..⟩
    | false =>
      obtain ⟨r, hr⟩ := Option.ne_none_iff_exists'.mp (hsub rfl)
      have hvr : (view s).subscription d = some r := hr
      have happly := view_applyInterpMode s (s.dev d).tag d
      rw [applyMode_re h.2.1 hr] at happly
      obtain ⟨s', hs', hs⟩ := Option.map_eq_some_iff.mp happly
      refine ⟨s', hs', hs.trans ?_⟩
      rw [hvr]
      rfl
  · have hv : ¬((view s).type d = devtypeInterp ∧ (view s).mode ((view s).tagOf d) = interpRe ∧
      (view s).opn d = 0) := h
    simp only [if_neg h, if_neg hv]
    exact ⟨s, rfl, rfl⟩

theorem subscription_subscribe (v : View) (d t : ℤ) :
    (subscribe v d t).subscription d = some t := by
  unfold subscribe
  split
  · assumption
  · unfold dup setRep link
    split <;> simp

/-- **`cmd_sub`:** it is refused, it has no result, or the subscription changes. -/
theorem cmdSub_cases (notice : Server → ℤ → ℤ → Bool → Str) (s : Server) (cmd : Cmd) :
    ((cmd.deviceId ∈ s.devs → ∀ n, cmd.args.head?.map atoi = some n → n = 0) ∧
      ∃ code c, cmdSub notice s cmd = some (code, c, s)) ∨
    (cmd.deviceId ∈ s.devs ∧ cmd.args.head?.map atoi = some intMin ∧ cmdSub notice s cmd = none) ∨
    ∃ n c s', cmd.deviceId ∈ s.devs ∧ cmd.args.head?.map atoi = some n ∧ n ≠ 0 ∧ n ≠ intMin ∧
      cmdSub notice s cmd = some (0, c, s') ∧
      view s' = endSub (change (view s) cmd.deviceId n) cmd.deviceId (n < 0) := by
  unfold cmdSub
  simp only
  cases cmd.args with
  | nil => exact .inl ⟨fun _ n hn => absurd hn.symm (Option.some_ne_none n), 1, cmd, rfl⟩
  | cons p l =>
    by_cases hd : cmd.deviceId ∉ s.devs
    · exact .inl ⟨fun hmem => absurd hmem hd, errNotReg, cmd, if_pos hd⟩
    · simp only [if_neg hd]
      by_cases h0 : atoi p = 0
      · exact .inl ⟨fun _ n hn => (Option.some.inj hn).symm.trans h0, errOther, cmd, if_pos h0⟩
      · rw [if_neg h0]
        by_cases hmin : atoi p = intMin
        · exact .inr (.inl ⟨not_not.mp hd, congrArg some hmin, if_pos hmin⟩)
        · rw [if_neg hmin]
          refine .inr (.inr ⟨atoi p, ?_⟩)
          have hd' := not_not.mp hd
          generalize hu : decide (atoi p < 0) = u
          -- the subscription changes, and the unicast device is told
          have hchange : view (if u = true then
              devUnsubscribe (requestTag s |atoi p|) cmd.deviceId |atoi p|
              else devSubscribe (requestTag s |atoi p|) cmd.deviceId |atoi p|) =
              change (view s) cmd.deviceId (atoi p) := by
            unfold change
            rw [← hu]
            by_cases hneg : atoi p < 0
            · simp only [hneg, decide_true, if_true]
              rw [view_devUnsubscribe, view_requestTag]
            · simp only [hneg, decide_false, if_false, Bool.false_eq_true]
              rw [view_devSubscribe, view_requestTag]
          generalize (if u = true then
              devUnsubscribe (requestTag s |atoi p|) cmd.deviceId |atoi p|
              else devSubscribe (requestTag s |atoi p|) cmd.deviceId |atoi p|) = s₁ at hchange
          have htold : view (match (s₁.tag |atoi p|).ucast with
              | some w => deviceCmd s₁ w (notice s₁ cmd.deviceId |atoi p| (!u))
              | none => s₁) = view s₁ := by
            split
            · exact view_deviceCmd ..
            · rfl
          generalize (match (s₁.tag |atoi p|).ucast with
              | some w => deviceCmd s₁ w (notice s₁ cmd.deviceId |atoi p| (!u))
              | none => s₁) = s₂ at htold
          have hsub : u = false → (s₂.dev cmd.deviceId).subscription ≠ none := by
            intro hf
            rw [← view_subscription, htold, hchange, change,
              if_neg (by simpa [hf] using hu), subscription_subscribe]
            exact Option.some_ne_none _
          obtain ⟨s₃, hs₃, hv⟩ := view_subInterp hsub
          refine ⟨repEnd (repAddNum (repAdd cmd "OK".toList)
            (if u = true then 0 else ((s₁.tag |atoi p|).interpRep).getD 0)),
            deviceSave s₃ cmd.deviceId, hd', rfl, h0, hmin, ?_, ?_⟩
          · rw [hs₃]
            rfl
          · rw [view_deviceSave, hv, htold, hchange]

/-! ### `reg` -/

/-- A new device, in the tag `tid`. -/
def enroll (v : View) (d type tid : ℤ) : View :=
  let w : View := { v with
    devs := v.devs ++ [d]
    type := Function.update v.type d type
    tagOf := Function.update v.tagOf d tid
    subscription := Function.update v.subscription d none
    opn := Function.update v.opn d 0 }
  request w tid

/-- `dev_register`. -/
def register (v : View) (d type tid : ℤ) : View :=
  if d ∈ v.devs then v
  else
    let w := enroll v d type tid
    if devtypeNone < type ∧ type < devtypeOther ∧ v.sub1 d = 0 ∧ v.sub2 d = 0 then
      subscribe (request w 1) d 1
    else w

/-- The record `dev_update_data` makes. -/
def updateData (v : View) (d : ℤ) : View :=
  if d ∈ v.table then v
  else { v with
    table := v.table ++ [d]
    enabled := Function.update v.enabled d 1
    sub1 := Function.update v.sub1 d 0
    sub2 := Function.update v.sub2 d 0 }

/-- A registered device takes the type of its `reg` command. -/
def setType (v : View) (d type : ℤ) : View :=
  if d ∈ v.devs then { v with type := Function.update v.type d type } else v

theorem view_enroll (s : Server) (d type tid : ℤ) :
    view (tagCheckUcast ((tagAddDevice (requestTag
      ({ s with devs := s.devs ++ [d] }.setDev d fun _ => newDev type) tid) tid d).setDev d
        fun D => { D with tag := tid }) tid d) = enroll (view s) d type tid := by
  have hnew : view ({ s with devs := s.devs ++ [d] }.setDev d fun _ => newDev type) =
      { view s with
        devs := s.devs ++ [d]
        type := Function.update (view s).type d type
        tagOf := Function.update (view s).tagOf d 0
        subscription := Function.update (view s).subscription d none
        opn := Function.update (view s).opn d 0 } := by
    rw [view_setDev]
    rfl
  rw [view_tagCheckUcast, view_setDev_tag _ _ _ rfl rfl rfl, view_tagAddDevice, view_requestTag,
    hnew]
  unfold enroll request
  split
  · next h =>
    rw [if_pos (show tid ∈ (view s).tags from h)]
    simp only [Function.update_idem]
    rfl
  · next h =>
    rw [if_neg (show tid ∉ (view s).tags from h)]
    simp only [Function.update_idem]
    rfl

theorem mem_request (v : View) (t : ℤ) : t ∈ (request v t).tags := by
  unfold request
  split
  · assumption
  · exact List.mem_append_right _ List.mem_cons_self

theorem request_tags_subset (v : View) (t : ℤ) {x : ℤ} (hx : x ∈ v.tags) :
    x ∈ (request v t).tags := by
  unfold request
  split
  · exact hx
  · exact List.mem_append_left _ hx

section Fields
variable (v : View) (t : ℤ)

@[simp] theorem request_devs : (request v t).devs = v.devs := by unfold request; split <;> rfl
@[simp] theorem request_table : (request v t).table = v.table := by unfold request; split <;> rfl
@[simp] theorem request_type : (request v t).type = v.type := by unfold request; split <;> rfl
@[simp] theorem request_tagOf : (request v t).tagOf = v.tagOf := by unfold request; split <;> rfl
@[simp] theorem request_subscription : (request v t).subscription = v.subscription := by
  unfold request; split <;> rfl
@[simp] theorem request_opn : (request v t).opn = v.opn := by unfold request; split <;> rfl
@[simp] theorem request_enabled : (request v t).enabled = v.enabled := by
  unfold request; split <;> rfl
@[simp] theorem request_sub1 : (request v t).sub1 = v.sub1 := by unfold request; split <;> rfl
@[simp] theorem request_sub2 : (request v t).sub2 = v.sub2 := by unfold request; split <;> rfl

variable (d : ℤ)

theorem unlink_eq : unlink v d = { v with head := (unlink v d).head } := by
  unfold unlink; split <;> rfl

@[simp] theorem unlink_devs : (unlink v d).devs = v.devs := by rw [unlink_eq]
@[simp] theorem unlink_table : (unlink v d).table = v.table := by rw [unlink_eq]
@[simp] theorem unlink_tags : (unlink v d).tags = v.tags := by rw [unlink_eq]
@[simp] theorem unlink_subscription : (unlink v d).subscription = v.subscription := by
  rw [unlink_eq]
@[simp] theorem unlink_sub1 : (unlink v d).sub1 = v.sub1 := by rw [unlink_eq]

theorem dup_eq : dup v d t = { v with rep := (dup v d t).rep } := by
  unfold dup; split <;> rfl

/-- A subscription leaves the devices, the tags and the tables alone. -/
theorem subscribe_eq : subscribe v d t = { v with
    head := (subscribe v d t).head
    subscription := (subscribe v d t).subscription
    sub1 := (subscribe v d t).sub1
    rep := (subscribe v d t).rep } := by
  unfold subscribe
  split
  · rfl
  · rw [dup_eq, link, unlink_eq]

theorem unsubscribe_eq : unsubscribe v d t = { v with
    head := (unsubscribe v d t).head
    subscription := (unsubscribe v d t).subscription
    sub1 := (unsubscribe v d t).sub1 } := by
  unfold unsubscribe
  split
  · rw [unlink_eq]
  · rfl

end Fields

/-- **`dev_register`.** -/
theorem view_devRegister (s : Server) (d type : ℤ) :
    view (devRegister s d type) = register (view s) d type (s.row d).tagid := by
  unfold devRegister register
  by_cases hd : d ∈ s.devs
  · rw [if_pos hd, if_pos (show d ∈ (view s).devs from hd)]
  rw [if_neg hd, if_neg (show d ∉ (view s).devs from hd)]
  have hview := view_enroll s d type (s.row d).tagid
  simp only
  generalize tagCheckUcast _ _ _ = s₁ at hview ⊢
  have h1 : (s₁.row d).sub1 = (view s).sub1 d := by
    rw [← view_sub1, hview, enroll, request_sub1]
  have h2 : (s₁.row d).sub2 = (view s).sub2 d := by
    rw [← view_sub2, hview, enroll, request_sub2]
  rw [h1, h2]
  split
  · rw [view_devSubscribe, view_requestTag, hview]
  · exact hview

theorem enroll_devs (v : View) (d type tid : ℤ) : (enroll v d type tid).devs = v.devs ++ [d] := by
  rw [enroll, request_devs]

theorem register_devs_subset (v : View) (d type tid : ℤ) {e : ℤ} (he : e ∈ v.devs ∨ e = d) :
    e ∈ (register v d type tid).devs := by
  unfold register
  by_cases hd : d ∈ v.devs
  · rw [if_pos hd]
    exact he.elim id fun heq => heq ▸ hd
  rw [if_neg hd]
  have hmem : e ∈ (enroll v d type tid).devs := by
    rw [enroll_devs, List.mem_append, List.mem_singleton]
    exact he
  simp only
  split
  · rw [subscribe_eq, request_devs]
    exact hmem
  · exact hmem

theorem mem_register (v : View) (d type tid : ℤ) : d ∈ (register v d type tid).devs :=
  register_devs_subset v d type tid (.inr rfl)

theorem register_tags_subset (v : View) (d type tid : ℤ) {x : ℤ}
    (hx : x ∈ v.tags ∨ d ∉ v.devs ∧ x = tid) : x ∈ (register v d type tid).tags := by
  unfold register
  by_cases hd : d ∈ v.devs
  · rw [if_pos hd]
    exact hx.resolve_right fun h => h.1 hd
  rw [if_neg hd]
  have henroll : x ∈ (enroll v d type tid).tags := by
    rcases hx with hx | ⟨-, rfl⟩
    · exact request_tags_subset _ tid hx
    · exact mem_request _ x
  simp only
  split
  · rw [subscribe_eq]
    exact request_tags_subset _ 1 henroll
  · exact henroll

theorem view_devUpdateData (s : Server) (d type : ℤ) (moved : Bool) :
    view (devUpdateData s d type moved) = updateData (view s) d := by
  unfold devUpdateData updateData
  by_cases hd : d ∈ s.table
  · rw [if_pos hd, if_pos (show d ∈ (view s).table from hd)]
    have honline := view_setRow_other s d (fun r => { r with online := 1 }) rfl rfl rfl
    cases moved
    · exact honline
    · exact honline
  · rw [if_neg hd, if_neg (show d ∉ (view s).table from hd), view_send, view_setRow]
    rfl

@[simp] theorem view_manageNotifyChair (s : Server) (d allow : ℤ) :
    view (manageNotifyChair s d allow) = view s :=
  view_deviceCmd ..

/-- The tag in the record of the device when it registers. -/
def regTag (s : Server) (d : ℤ) : ℤ := if d ∈ s.table then (s.row d).tagid else 1

/-- **`cmd_reg`** once the device may register. -/
theorem view_regDev (s : Server) (d type : ℤ) (moved : Bool) (allow : ℤ) :
    view (regDev s d type moved allow) =
      register (updateData (setType (view s) d type) d) d type (regTag s d) := by
  have htype : view (if d ∈ s.devs then s.setDev d fun D => { D with type := type } else s) =
      setType (view s) d type := by
    unfold setType
    by_cases hd : d ∈ s.devs
    · rw [if_pos hd, if_pos (show d ∈ (view s).devs from hd),
        view_setDev_type _ _ _ rfl rfl rfl]
    · rw [if_neg hd, if_neg (show d ∉ (view s).devs from hd)]
  have htagid : ∀ s' : Server, s'.table = s.table → s'.row = s.row →
      ((devUpdateData s' d type moved).row d).tagid = regTag s d := by
    intro s' ht hr
    unfold devUpdateData regTag
    rw [ht]
    by_cases hd : d ∈ s.table
    · simp only [if_pos hd]
      cases moved <;> simp [Server.setRow, Server.send, hr]
    · simp only [if_neg hd]
      simp [Server.setRow, Server.send, newRow]
  have hreg : view (devRegister (devUpdateData (if d ∈ s.devs then
      s.setDev d fun D => { D with type := type } else s) d type moved) d type) =
      register (updateData (setType (view s) d type) d) d type (regTag s d) := by
    rw [view_devRegister, view_devUpdateData, htype, htagid]
    · split <;> rfl
    · split <;> rfl
  unfold regDev
  simp only
  generalize devRegister _ _ _ = s₁ at hreg ⊢
  have hptc : view (if isPtc (doDevActivate s₁ d true) d = true then
      ptcGoCurrent (doDevActivate s₁ d true) else doDevActivate s₁ d true) = view s₁ := by
    split
    · rw [view_ptcGoCurrent, view_doDevActivate]
    · exact view_doDevActivate ..
  split
  · rw [view_manageNotifyChair, hptc, hreg]
  · rw [hptc, hreg]

/-- The type in a `reg` command that the server accepts. -/
def regType (cksum : BitVec 32 → Str) (s : Server) (cmd : Cmd) : Option ℤ :=
  match cmd.args with
  | p :: pass :: port :: _ :: _ =>
    if pass = cksum (BitVec.ofInt 32 cmd.deviceId ^^^ BitVec.ofInt 32 (atoi p)) ∧
        0 < atoi port ∧ ¬ (cmd.deviceId ∈ s.table ∧ (s.row cmd.deviceId).enabled = 0) then
      some (atoi p)
    else none
  | _ => none

@[simp] theorem view_markOnline (s : Server) (d : ℤ) : view (markOnline s d) = view s := by
  unfold markOnline
  split
  · exact view_setRow_other _ _ _ rfl rfl rfl
  · rfl

theorem markOnline_table (s : Server) (d : ℤ) : (markOnline s d).table = s.table := by
  unfold markOnline
  split <;> rfl

theorem regTag_markOnline (s : Server) (d : ℤ) : regTag (markOnline s d) d = regTag s d := by
  unfold regTag
  rw [markOnline_table]
  unfold markOnline
  split
  · simp [Server.setRow]
  · rfl

/-- **`cmd_reg`:** it is refused, or the device registers. -/
theorem cmdReg_cases (cksum : BitVec 32 → Str) (info : Server → ℤ → ℤ × ℤ → Str) (s : Server)
    (cmd : Cmd) (moved : Bool) (allow : ℤ) :
    (regType cksum s cmd = none ∧ ∃ code c s', cmdReg cksum info s cmd moved allow =
      some (code, c, s') ∧ code ≠ 0 ∧ view s' = view s) ∨
    ∃ type c s', regType cksum s cmd = some type ∧
      cmdReg cksum info s cmd moved allow = some (0, c, s') ∧
      view s' = register (updateData (setType (view s) cmd.deviceId type) cmd.deviceId)
        cmd.deviceId type (regTag s cmd.deviceId) := by
  unfold cmdReg regType
  match cmd.args with
  | [] => exact .inl ⟨rfl, 1, cmd, s, rfl, by decide, rfl⟩
  | [_] => exact .inl ⟨rfl, 1, cmd, s, rfl, by decide, rfl⟩
  | [_, _] => exact .inl ⟨rfl, 1, cmd, s, rfl, by decide, rfl⟩
  | [_, _, _] => exact .inl ⟨rfl, 1, cmd, s, rfl, by decide, rfl⟩
  | p :: pass :: port :: _ :: _ =>
    simp only [nextArg]
    by_cases hpass : pass = cksum (BitVec.ofInt 32 cmd.deviceId ^^^ BitVec.ofInt 32 (atoi p))
    · rw [if_neg (not_not.mpr hpass)]
      by_cases hport : atoi port ≤ 0
      · exact .inl ⟨if_neg fun h => (not_lt.mpr hport) h.2.1, 1, cmd, s, if_pos hport,
          by decide, rfl⟩
      · rw [if_neg hport, markOnline_table]
        have hrow : ((markOnline s cmd.deviceId).row cmd.deviceId).enabled =
            (s.row cmd.deviceId).enabled := by
          rw [← view_enabled, view_markOnline]
          rfl
        rw [hrow]
        by_cases hen : cmd.deviceId ∈ s.table ∧ (s.row cmd.deviceId).enabled = 0
        · exact .inl ⟨if_neg fun h => h.2.2 hen, errDevDisabled, cmd, markOnline s cmd.deviceId,
            if_pos hen, by decide, view_markOnline ..⟩
        · refine .inr ⟨atoi p, _, _, if_pos ⟨hpass, not_le.mp hport, hen⟩, if_neg hen, ?_⟩
          rw [view_regDev, view_markOnline, regTag_markOnline]
    · exact .inl ⟨if_neg fun h => hpass h.1, 1, cmd, s, if_pos hpass, by decide, rfl⟩

/-! ### Recovery -/

/-- The step of the loop of `restore_sub`. -/
def restoreOne (v : View) (d tid : ℤ) : View :=
  if tid = 0 then v else subscribe (request v tid) d tid

/-- `restore_sub`. -/
def recovered (v : View) (d : ℤ) : View := restoreOne (restoreOne v d (v.sub1 d)) d (v.sub2 d)

theorem view_restoreSub (s : Server) (d : ℤ) :
    view (restoreSub s d) = recovered (view s) d := by
  have hone : ∀ (s : Server) (tid : ℤ),
      view (if tid = 0 then s else devSubscribe (requestTag s tid) d tid) =
      restoreOne (view s) d tid := by
    intro s tid
    unfold restoreOne
    split
    · rfl
    · rw [view_devSubscribe, view_requestTag]
  rw [restoreSub, List.foldl_cons, List.foldl_cons, List.foldl_nil, hone, hone]
  rfl

theorem restoreOne_devs (v : View) (d tid : ℤ) : (restoreOne v d tid).devs = v.devs := by
  unfold restoreOne
  split
  · rfl
  · rw [subscribe_eq, request_devs]

theorem restoreOne_table (v : View) (d tid : ℤ) : (restoreOne v d tid).table = v.table := by
  unfold restoreOne
  split
  · rfl
  · rw [subscribe_eq, request_table]

theorem register_table (v : View) (d type tid : ℤ) : (register v d type tid).table = v.table := by
  have henroll : (enroll v d type tid).table = v.table := by rw [enroll, request_table]
  unfold register
  split
  · rfl
  · simp only
    split
    · rw [subscribe_eq, request_table, henroll]
    · exact henroll

/-- `restore_discuss` may open the microphone. -/
theorem view_restoreDiscuss {s s' : Server} {d : ℤ} (hs : restoreDiscuss s d = some s') :
    ∃ opn, view s' = { view s with opn := opn } := by
  unfold restoreDiscuss at hs
  simp only [] at hs
  have hptc : view (if isPtc s d then addPtc s d else s) = view s := by
    split
    · exact view_addPtc ..
    · rfl
  generalize (if isPtc s d then addPtc s d else s) = s₁ at hs hptc
  split at hs
  · obtain ⟨s₂, hs₂, hput⟩ := Option.bind_eq_some_iff.mp hs
    refine ⟨Function.update (view s).opn d 1, ?_⟩
    rw [view_ptcPut hput, addOpen_view hs₂, hptc]
    rfl
  · cases hs
    exact ⟨(view s).opn, hptc⟩

/-- **The recovery of a device.** -/
theorem recoverDev_view {s s' : Server} {d : ℤ} (hs : recoverDev s d = some s') :
    view s' = view s ∨ d ∉ s.devs ∧ ∃ type tid opn,
      view s' = { recovered (register (view s) d type tid) d with opn := opn } := by
  unfold recoverDev at hs
  split at hs
  · cases hs
    exact .inl rfl
  split at hs
  · cases hs
  next hreg =>
  simp only [] at hs
  have hrow : view (s.setRow d fun r => { r with online := 0 }) = view s :=
    view_setRow_other _ _ _ rfl rfl rfl
  generalize (s.setRow d fun r => { r with online := 0 }) = s₁ at hs hrow
  obtain ⟨opn, hv⟩ := view_restoreDiscuss hs
  refine .inr ⟨hreg, (s₁.row d).type, (s₁.row d).tagid, opn, ?_⟩
  rw [hv, view_restoreSub, view_devRegister, hrow]

theorem recoverDev_table {s s' : Server} {d : ℤ} (hs : recoverDev s d = some s') :
    s'.table = s.table := by
  rw [← view_table, ← view_table]
  rcases recoverDev_view hs with hv | ⟨-, type, tid, opn, hv⟩
  · rw [hv]
  · rw [hv]
    show (recovered (register (view s) d type tid) d).table = _
    rw [recovered, restoreOne_table, restoreOne_table, register_table]

/-- The record of the manager device. -/
def managerRow (v : View) : View :=
  { v with
    enabled := Function.update v.enabled 0 0
    sub1 := Function.update v.sub1 0 0
    sub2 := Function.update v.sub2 0 0 }

theorem view_addManagerDev (s : Server) :
    view (addManagerDev s) = register (managerRow (view s)) 0 devtypeNone 1 := by
  unfold addManagerDev
  simp only
  rw [view_devRegister, view_setRow]
  simp only [Server.setRow, Function.update_self]
  rfl

/-- **The start:** the manager device, then the devices of the table. -/
theorem recoverServer_view {db : Db} {s : Server} (hs : recoverServer db = some s) :
    ∃ s₁ s₂, view s₁ = register (managerRow (view (boot db))) 0 devtypeNone 1 ∧
      db.table.foldlM recoverDev s₁ = some s₂ ∧ view s = view s₂ := by
  obtain ⟨b, s₂, hb, hs₂, rfl⟩ := recoverServer_some hs
  refine ⟨addManagerDev b, s₂, ?_, hs₂, view_ptcGoCurrent s₂⟩
  rw [view_addManagerDev, view_groupCreate hb]

end GSConferencing.Serv.Subscribe
