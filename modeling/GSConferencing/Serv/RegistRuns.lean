import GSConferencing.Serv.RegistEffect
import GSConferencing.Lib.Run

/-!
# The count of arrivals along runs

`Accounted`: while a registration is open, `arrive` is the number of the devices with `regist.reg`
and of the ids in `arrive_idstr`, and a device that has succeeded is counted once.

* `step_inv`, `step_bad`: an event that is no slip keeps this, a slip ends it.
* `account_exact`: along a run the property holds exactly when no `auth` succeeds while a
  registration is open and each start clears every device that has arrived.
-/

namespace GSConferencing.Serv.RegistRuns

open GSConferencing.Lib.Run
open GSConferencing.Serv.Strutil GSConferencing.Serv.CmdHandler GSConferencing.Serv.Regist
open GSConferencing.Serv.RegistEffect

/-! ## What has happened since the start -/

/-- The state, the devices whose `reg` or `auth` has succeeded since the start, and the devices
`arrive` has been raised for since, each as often as it was. -/
structure Session where
  state : State
  succeeded : List ℤ
  counted : List ℤ

def sender : Event → ℤ
  | .regist cmd => cmd.deviceId
  | .auth cmd => cmd.deviceId
  | .reg d => d

def isStart : Event → Bool
  | .regist cmd => cmd.args.head? = some "start".toList
  | _ => false

def isArrival : Event → Bool
  | .regist cmd => cmd.args.head? = some "reg".toList
  | .auth _ => true
  | .reg _ => false

/-- What is noted of an event that is answered with `code`. -/
def observe (x : Session) (e : Event) (code : ℤ) (s' : State) : Session :=
  if isStart e ∧ code = 0 then ⟨s', [], []⟩
  else if isArrival e ∧ code = 0 then
    ⟨s', sender e :: x.succeeded,
      List.replicate (s'.grp.arrive - x.state.grp.arrive).toNat (sender e) ++ x.counted⟩
  else { x with state := s' }

def step (x : Session) (e : Event) : Option Session :=
  (handle x.state e).map fun r => observe x e r.1 r.2

/-- The arrivals are counted right. -/
structure AccountOk (x : Session) : Prop where
  regs : x.state.grp.arrive = (x.state.devs.filter fun d => x.state.reg d = 1).card
  ids : ∃ str, x.state.grp.arriveIdstr = some str ∧ x.state.grp.arrive = (strtok str).length
  once : ∀ d ∈ x.succeeded, x.counted.count d = 1

/-- Whenever a registration is open, the arrivals are counted right. -/
def Accounted (x : Session) : Prop := x.state.grp.dbData.registStart ≠ 0 → AccountOk x

/-! ## The invariant -/

/-- An open registration: who has arrived has been counted, and has an id in the text. -/
structure Open (v : View) (succeeded counted : List ℤ) : Prop where
  arrive : v.arrive = v.arrived.card
  ids : ∃ str, v.idstr = some str ∧ v.len = str.length ∧ v.arrive = (strtok str).length
  counted : ∀ d, counted.count d = if d ∈ v.arrived then 1 else 0
  succeeded : ∀ d ∈ succeeded, d ∈ v.arrived

/-- The flags are bits, and an open registration is in order. -/
structure Inv (v : View) (succeeded counted : List ℤ) : Prop where
  bit : ∀ d ∈ v.devs, v.reg d = 0 ∨ v.reg d = 1
  isOpen : v.start ≠ 0 → Open v succeeded counted

section Invariant
variable {v : View} {succeeded counted : List ℤ} {d : ℤ}

theorem mem_arrived_reset (ids : List ℤ) {x : ℤ} :
    x ∈ (v.reset ids).arrived ↔ x ∈ v.arrived ∧ x ∉ ids := by
  rw [View.mem_arrived, View.mem_arrived]
  show x ∈ v.devs ∧ (if x ∈ v.devs ∧ x ∈ ids then (0 : ℤ) else v.reg x) = 1 ↔ _
  by_cases hx : x ∈ v.devs <;> by_cases hi : x ∈ ids <;> simp [hx, hi]

theorem bit_reset (h : ∀ x ∈ v.devs, v.reg x = 0 ∨ v.reg x = 1) (ids : List ℤ) :
    ∀ x ∈ v.devs, (v.reset ids).reg x = 0 ∨ (v.reset ids).reg x = 1 := by
  intro x hx
  unfold View.reset
  simp only []
  split_ifs
  · exact .inl rfl
  · exact h x hx

theorem bit_update (h : ∀ x ∈ v.devs, v.reg x = 0 ∨ v.reg x = 1) :
    ∀ x ∈ v.devs, Function.update v.reg d 1 x = 0 ∨ Function.update v.reg d 1 x = 1 := by
  intro x hx
  by_cases e : x = d
  · rw [e, Function.update_self]
    exact .inr rfl
  · rw [Function.update_of_ne e]
    exact h x hx

theorem arrived_registered (hd : d ∈ v.devs) (str : Str) :
    (v.registered d str).arrived = insert d v.arrived := by
  ext x
  rw [Finset.mem_insert, View.mem_arrived, View.mem_arrived]
  show x ∈ v.devs ∧ Function.update v.reg d 1 x = 1 ↔ _
  by_cases e : x = d
  · subst e
    rw [Function.update_self]
    exact ⟨fun _ => .inl rfl, fun _ => ⟨hd, rfl⟩⟩
  · rw [Function.update_of_ne e]
    exact ⟨.inr, fun h => h.resolve_left e⟩

theorem arrived_joined (hd : d ∉ v.devs) : (v.joined d).arrived = v.arrived := by
  ext x
  rw [View.mem_arrived, View.mem_arrived]
  show x ∈ insert d v.devs ∧ Function.update v.reg d 0 x = 1 ↔ _
  by_cases e : x = d
  · subst e
    rw [Function.update_self]
    exact ⟨fun h => absurd h.2 (by decide), fun h => absurd h.1 hd⟩
  · rw [Function.update_of_ne e, Finset.mem_insert]
    exact ⟨fun h => ⟨h.1.resolve_left e, h.2⟩, fun h => ⟨.inr h.1, h.2⟩⟩

/-- The text that `LIST_ADD_NUM` leaves. -/
theorem addArriveId_eq {str : Str} {len : ℕ} (hlen : len = str.length) (d : ℤ) :
    (if len = 0 then fmtInt d else str.take len ++ ',' :: fmtInt d) = listAddNum str d := by
  unfold listAddNum listAdd
  subst hlen
  rw [List.take_length]
  simp only [List.length_eq_zero_iff]

/-- **A device that registers for the first time** is counted, with its id. -/
theorem Open.registered (h : Open v succeeded counted) (hd : d ∈ v.devs) (hreg : v.reg d = 0)
    {str : Str} (hstr : v.idstr = some str) :
    Open (v.registered d (if v.len = 0 then fmtInt d else str.take v.len ++ ',' :: fmtInt d))
      (d :: succeeded) (d :: counted) := by
  obtain ⟨str', hstr', hlen, hids⟩ := h.ids
  rw [hstr] at hstr'
  cases hstr'
  rw [addArriveId_eq hlen]
  have hnew : d ∉ v.arrived := by
    rw [View.mem_arrived, hreg]
    exact fun h' => absurd h'.2 (by decide)
  constructor
  · show v.arrive + 1 = _
    rw [arrived_registered hd, Finset.card_insert_of_notMem hnew, h.arrive]
    rfl
  · refine ⟨_, rfl, rfl, ?_⟩
    show v.arrive + 1 = _
    rw [strtok_listAddNum, List.length_append, hids]
    rfl
  · intro x
    rw [arrived_registered hd, List.count_cons, h.counted x]
    by_cases e : x = d
    · subst e
      simp [hnew]
    · have e' : d ≠ x := fun h => e h.symm
      simp [e, e']
  · intro x hx
    rw [arrived_registered hd, Finset.mem_insert]
    exact (List.mem_cons.mp hx).imp_right (h.succeeded x)

/-- A registration that starts with every flag cleared is in order. -/
theorem Open.opened {ids : List ℤ} (h : ∀ x ∈ v.arrived, x ∈ ids) :
    Open (v.reset ids).opened [] [] := by
  have hnone : (v.reset ids).opened.arrived = ∅ := by
    rw [Finset.eq_empty_iff_forall_notMem]
    intro x hx
    obtain ⟨h1, h2⟩ := (mem_arrived_reset ids).mp hx
    exact h2 (h x h1)
  constructor
  · rw [hnone]
    rfl
  · exact ⟨[], rfl, rfl, by rw [strtok_nil]; rfl⟩
  · intro x
    rw [hnone]
    simp
  · intro x hx
    cases hx

/-- A server that starts with no registration open and no device with its flag. -/
theorem recoverServer_inv {db : Db} {s : State} (hs : recoverServer db = some s)
    (hstart : db.group.registStart = 0) (hreg : ∀ d ∈ db.table, (db.row d).registReg = 0) :
    Inv (view s) [] [] := by
  unfold recoverServer at hs
  simp only [] at hs
  split at hs
  · cases hs
  · cases hs
    refine ⟨fun d _ => .inl ?_, fun h1 => absurd hstart h1⟩
    show (if _ then _ else (0 : ℤ)) = 0
    split_ifs with hd
    · exact hreg d (List.mem_filter.mp hd).1
    · rfl

theorem accounted_of_inv {x : Session} (h : Inv (view x.state) x.succeeded x.counted) :
    Accounted x := by
  intro hstart
  have ho := h.isOpen hstart
  obtain ⟨str, hstr, -, hids⟩ := ho.ids
  refine ⟨ho.arrive, ⟨str, hstr, hids⟩, fun d hd => ?_⟩
  rw [ho.counted d, if_pos (ho.succeeded d hd)]

end Invariant

/-! ## Steps -/

/-- A registration that starts clears every device that has arrived: all of them are members. -/
def StartSafe (s : State) (args : List Str) : Prop :=
  s.grp.dbData.registStart = 0 → ∀ dr l, s.registTable = dr :: l →
    (memberIds dr).length ≤ memberMax ∧
      (args ≠ [] → ∀ d ∈ s.devs, s.reg d = 1 → d ∈ memberIds dr)

/-- An event that is no slip: `start` clears what is left of the session before, `reg` finds room
in `arrive_ids`, and no `auth` succeeds while a registration is open. -/
def StepSafe (x : Session) : Event → Prop
  | .regist cmd => cmd.deviceId ∈ x.state.devs →
      (∀ l, cmd.args = "start".toList :: l → StartSafe x.state l) ∧
      (∀ p q l, cmd.args = "reg".toList :: p :: q :: l → Accepted x.state cmd.deviceId p q →
        x.state.reg cmd.deviceId = 0 → x.state.grp.arrive < memberMax)
  | .auth cmd => cmd.deviceId ∈ x.state.devs → ∀ cardId cardInfo l,
      cmd.args = cardId :: cardInfo :: l → CardAccepted x.state cmd.deviceId cardId cardInfo →
        x.state.grp.dbData.registStart = 0
  | .reg _ => True

/-- The events other than `regist status`. -/
def NoStatus : Event → Prop
  | .regist cmd => cmd.args.head? ≠ some "status".toList
  | _ => True

instance : DecidablePred NoStatus
  | .regist cmd => inferInstanceAs (Decidable (cmd.args.head? ≠ some "status".toList))
  | .auth _ => isTrue trivial
  | .reg _ => isTrue trivial

section Steps
variable {x x' : Session} {e : Event} {code : ℤ} {v : View}

/-- What a step does, from what the event does to the view. -/
theorem step_of_view (h : (handle x.state e).map (fun r => (r.1, view r.2)) = some (code, v)) :
    ∃ s', step x e = some (observe x e code s') ∧ view s' = v := by
  obtain ⟨⟨code', s'⟩, hr, heq⟩ := Option.map_eq_some_iff.mp h
  cases heq
  exact ⟨s', by rw [step, hr]; rfl, rfl⟩

theorem observe_start {s' : State} (he : isStart e = true) : observe x e 0 s' = ⟨s', [], []⟩ := by
  unfold observe
  rw [if_pos ⟨he, rfl⟩]

theorem observe_arrival {s' : State} (he : isArrival e = true) (hs : isStart e = false) :
    observe x e 0 s' = ⟨s', sender e :: x.succeeded,
      List.replicate (s'.grp.arrive - x.state.grp.arrive).toNat (sender e) ++ x.counted⟩ := by
  unfold observe
  rw [if_neg (by simp [hs]), if_pos ⟨he, rfl⟩]

theorem observe_other {s' : State}
    (h : code ≠ 0 ∨ (isStart e = false ∧ isArrival e = false)) :
    observe x e code s' = { x with state := s' } := by
  unfold observe
  rcases h with h | ⟨h1, h2⟩
  · rw [if_neg fun h' => h h'.2, if_neg fun h' => h h'.2]
  · rw [if_neg (by simp [h1]), if_neg (by simp [h2])]

/-- An event that leaves the view as it is and is not noted. -/
theorem step_same (hI : Inv (view x.state) x.succeeded x.counted)
    (h : (handle x.state e).map (fun r => (r.1, view r.2)) = some (code, view x.state))
    (hcode : code ≠ 0 ∨ (isStart e = false ∧ isArrival e = false)) :
    ∃ x', step x e = some x' ∧ Inv (view x'.state) x'.succeeded x'.counted := by
  obtain ⟨s', hs', hv⟩ := step_of_view h
  refine ⟨_, hs', ?_⟩
  rw [observe_other hcode]
  show Inv (view s') _ _
  rw [hv]
  exact hI

/-- The ways through `cmd_regist`. -/
theorem regist_cases (s : State) (cmd : Cmd) :
    (∃ code c, code ≠ 0 ∧ cmdRegist s cmd = some (code, c, s)) ∨
    cmd.deviceId ∈ s.devs ∧ ∃ sub l, cmd.args = sub :: l ∧
      (sub = "start".toList ∧ cmdRegist s cmd = registStart s cmd cmd.deviceId l ∨
       sub = "stop".toList ∧ cmdRegist s cmd = registStop s cmd cmd.deviceId ∨
       sub = "status".toList ∧ cmdRegist s cmd = registStatus s cmd cmd.deviceId ∨
       sub = "reg".toList ∧ cmdRegist s cmd = registReg s cmd cmd.deviceId l) := by
  by_cases hd : cmd.deviceId ∈ s.devs
  swap
  · refine .inl ⟨errNotReg, cmd, by decide, ?_⟩
    unfold cmdRegist
    rw [if_pos hd]
  unfold cmdRegist
  rw [if_neg (not_not.mpr hd)]
  rcases hargs : cmd.args with - | ⟨sub, l⟩
  · exact .inl ⟨1, cmd, one_ne_zero, rfl⟩
  rw [nextArg_cons]
  by_cases h1 : sub = "start".toList
  · exact .inr ⟨hd, sub, l, rfl, .inl ⟨h1, if_pos h1⟩⟩
  rw [if_neg h1]
  by_cases h2 : sub = "stop".toList
  · exact .inr ⟨hd, sub, l, rfl, .inr (.inl ⟨h2, if_pos h2⟩)⟩
  rw [if_neg h2]
  by_cases h3 : sub = "status".toList
  · exact .inr ⟨hd, sub, l, rfl, .inr (.inr (.inl ⟨h3, if_pos h3⟩))⟩
  rw [if_neg h3]
  by_cases h4 : sub = "reg".toList
  · exact .inr ⟨hd, sub, l, rfl, .inr (.inr (.inr ⟨h4, if_pos h4⟩))⟩
  rw [if_neg h4]
  exact .inl ⟨2, cmd, two_ne_zero, rfl⟩

theorem cmdRegist_start {s : State} {cmd : Cmd} (hd : cmd.deviceId ∈ s.devs) {l : List Str}
    (hargs : cmd.args = "start".toList :: l) :
    cmdRegist s cmd = registStart s cmd cmd.deviceId l := by
  unfold cmdRegist
  rw [if_neg (not_not.mpr hd), hargs, nextArg_cons, if_pos rfl]

theorem cmdRegist_reg {s : State} {cmd : Cmd} (hd : cmd.deviceId ∈ s.devs) {l : List Str}
    (hargs : cmd.args = "reg".toList :: l) :
    cmdRegist s cmd = registReg s cmd cmd.deviceId l := by
  unfold cmdRegist
  rw [if_neg (not_not.mpr hd), hargs, nextArg_cons, if_neg (by decide), if_neg (by decide),
    if_neg (by decide), if_pos rfl]

theorem handle_regist {s : State} {cmd : Cmd} {r : Option (Reply State)}
    (h : cmdRegist s cmd = r) :
    (handle s (.regist cmd)).map (fun r => (r.1, view r.2)) =
      r.map fun r => (r.1, view r.2.2) := by
  subst h
  unfold handle
  rw [Option.map_map]
  rfl

theorem handle_auth (s : State) (cmd : Cmd) :
    (handle s (.auth cmd)).map (fun r => (r.1, view r.2)) =
      (cmdAuth s cmd).map fun r => (r.1, view r.2.2) := by
  unfold handle
  rw [Option.map_map]
  rfl

/-- **`regist start`** keeps the invariant if it clears every device that has arrived. -/
theorem start_step (hI : Inv (view x.state) x.succeeded x.counted) {cmd : Cmd} {l : List Str}
    (hargs : cmd.args = "start".toList :: l)
    (hs : cmdRegist x.state cmd = registStart x.state cmd cmd.deviceId l)
    (hsafe : StartSafe x.state l) :
    ∃ x', step x (.regist cmd) = some x' ∧ Inv (view x'.state) x'.succeeded x'.counted := by
  have he := start_effect x.state cmd cmd.deviceId l
  rw [← handle_regist hs] at he
  generalize hr : (handle x.state (.regist cmd)).map (fun r => (r.1, view r.2)) = r at he
  cases he with
  | refused hcode hno => exact step_same hI hr (.inl hcode)
  | overflow h0 hdr hlong =>
    have := (hsafe h0 _ _ hdr).1
    omega
  | noMode hcode h0 hdr hfit hnil =>
    obtain ⟨s', hs', hv⟩ := step_of_view hr
    refine ⟨_, hs', ?_⟩
    rw [observe_other (.inl hcode)]
    show Inv (view s') _ _
    rw [hv]
    exact ⟨bit_reset hI.bit _, fun h1 => absurd h0 h1⟩
  | opened h0 hdr hfit hne =>
    obtain ⟨s', hs', hv⟩ := step_of_view hr
    refine ⟨_, hs', ?_⟩
    rw [observe_start (by simp [isStart, hargs])]
    show Inv (view s') _ _
    rw [hv]
    refine ⟨bit_reset hI.bit _, fun _ => Open.opened fun d hd => ?_⟩
    obtain ⟨h1, h2⟩ := (View.mem_arrived _ _).mp hd
    exact (hsafe h0 _ _ hdr).2 hne d h1 h2

theorem stop_step (hI : Inv (view x.state) x.succeeded x.counted) {cmd : Cmd} {l : List Str}
    (hargs : cmd.args = "stop".toList :: l)
    (hs : cmdRegist x.state cmd = registStop x.state cmd cmd.deviceId) :
    ∃ x', step x (.regist cmd) = some x' ∧ Inv (view x'.state) x'.succeeded x'.counted := by
  have he := stop_effect x.state cmd cmd.deviceId
  rw [← handle_regist hs] at he
  generalize hr : (handle x.state (.regist cmd)).map (fun r => (r.1, view r.2)) = r at he
  cases he with
  | refused hcode => exact step_same hI hr (.inl hcode)
  | noText h1 hnull =>
    obtain ⟨str, hstr, -⟩ := (hI.isOpen h1).ids
    have hstr' : x.state.grp.arriveIdstr = some str := hstr
    rw [hnull] at hstr'
    cases hstr'
  | closed hstart hdevs hreg =>
    obtain ⟨s', hs', hv⟩ := step_of_view hr
    refine ⟨_, hs', ?_⟩
    rw [observe_other (.inr (by simp [isStart, isArrival, hargs]))]
    show Inv (view s') _ _
    rw [hv]
    refine ⟨?_, fun h1 => absurd hstart h1⟩
    rw [hdevs, hreg]
    exact bit_reset hI.bit _

/-- **`regist reg`** counts a device once. -/
theorem reg_step (hI : Inv (view x.state) x.succeeded x.counted) {cmd : Cmd} {l : List Str}
    (hd : cmd.deviceId ∈ x.state.devs) (hargs : cmd.args = "reg".toList :: l)
    (hs : cmdRegist x.state cmd = registReg x.state cmd cmd.deviceId l)
    (hsafe : ∀ p q l', l = p :: q :: l' → Accepted x.state cmd.deviceId p q →
      x.state.reg cmd.deviceId = 0 → x.state.grp.arrive < memberMax) :
    ∃ x', step x (.regist cmd) = some x' ∧ Inv (view x'.state) x'.succeeded x'.counted := by
  have he := reg_effect x.state cmd cmd.deviceId l
  rw [← handle_regist hs] at he
  generalize hr : (handle x.state (.regist cmd)).map (fun r => (r.1, view r.2)) = r at he
  have harr : isArrival (.regist cmd) = true := by simp [isArrival, hargs]
  have hst : isStart (.regist cmd) = false := by simp [isStart, hargs]
  cases he with
  | refused hcode _ => exact step_same hI hr (.inl hcode)
  | again hl hacc hreg =>
    obtain ⟨s', hs', hv⟩ := step_of_view hr
    refine ⟨_, hs', ?_⟩
    rw [observe_arrival harr hst]
    have hsame : s'.grp.arrive = x.state.grp.arrive := congrArg View.arrive hv
    rw [hsame, sub_self]
    show Inv (view s') (cmd.deviceId :: x.succeeded) x.counted
    rw [hv]
    refine ⟨hI.bit, fun h1 => ?_⟩
    have ho := hI.isOpen h1
    refine { ho with succeeded := fun d hd' => ?_ }
    rcases List.mem_cons.mp hd' with rfl | hd'
    · exact (View.mem_arrived _ _).mpr ⟨hd, (hI.bit _ hd).resolve_left hreg⟩
    · exact ho.succeeded d hd'
  | stuck hl hacc hreg hbad =>
    have ho := hI.isOpen hacc.1
    obtain ⟨str, hstr, -⟩ := ho.ids
    rcases hbad with hneg | hlong | hnull
    · have harrive : x.state.grp.arrive = _ := ho.arrive
      omega
    · have := hsafe _ _ _ hl hacc hreg
      omega
    · have hstr' : x.state.grp.arriveIdstr = some str := hstr
      rw [hnull] at hstr'
      cases hstr'
  | arrives hl hacc hreg hlt hstr =>
    obtain ⟨s', hs', hv⟩ := step_of_view hr
    refine ⟨_, hs', ?_⟩
    rw [observe_arrival harr hst]
    have hone : s'.grp.arrive = x.state.grp.arrive + 1 := congrArg View.arrive hv
    rw [hone, add_sub_cancel_left]
    show Inv (view s') (cmd.deviceId :: x.succeeded) (cmd.deviceId :: x.counted)
    rw [hv]
    exact ⟨bit_update hI.bit, fun h1 => (hI.isOpen h1).registered hd hreg hstr⟩

theorem auth_step (hI : Inv (view x.state) x.succeeded x.counted) {cmd : Cmd}
    (hsafe : StepSafe x (.auth cmd)) :
    ∃ x', step x (.auth cmd) = some x' ∧ Inv (view x'.state) x'.succeeded x'.counted := by
  by_cases hd : cmd.deviceId ∈ x.state.devs
  swap
  · refine step_same hI (?_ : _ = some (errNotReg, _)) (.inl (by decide))
    rw [handle_auth]
    unfold cmdAuth
    rw [if_pos hd]
    rfl
  have he := auth_effect hd
  rw [← handle_auth] at he
  generalize hr : (handle x.state (.auth cmd)).map (fun r => (r.1, view r.2)) = r at he
  cases he with
  | refused hcode _ => exact step_same hI hr (.inl hcode)
  | arrives hargs hacc =>
    have h0 := hsafe hd _ _ _ hargs hacc
    obtain ⟨s', hs', hv⟩ := step_of_view hr
    refine ⟨_, hs', ?_⟩
    rw [observe_arrival rfl rfl]
    show Inv (view s') _ _
    rw [hv]
    exact ⟨bit_update hI.bit, fun h1 => absurd h0 h1⟩

theorem join_step (hI : Inv (view x.state) x.succeeded x.counted) (d : ℤ) :
    ∃ x', step x (.reg d) = some x' ∧ Inv (view x'.state) x'.succeeded x'.counted := by
  refine ⟨{ x with state := reg x.state d }, by rw [step, handle]; rfl, ?_⟩
  show Inv (view (reg x.state d)) _ _
  rcases view_reg x.state d with hv | ⟨hd, hv⟩
  · rw [hv]
    exact hI
  · rw [hv]
    constructor
    · intro y hy
      show Function.update (view x.state).reg d 0 y = 0 ∨ Function.update _ d 0 y = 1
      by_cases e : y = d
      · rw [e, Function.update_self]
        exact .inl rfl
      · rw [Function.update_of_ne e]
        exact hI.bit y ((Finset.mem_insert.mp hy).resolve_left e)
    · intro h1
      have ho := hI.isOpen h1
      have harr := arrived_joined (v := view x.state) hd
      exact ⟨harr ▸ ho.arrive, ho.ids, harr ▸ ho.counted, harr ▸ ho.succeeded⟩

/-- **Every event that is no slip has a reply and keeps the invariant.** -/
theorem step_inv (hI : Inv (view x.state) x.succeeded x.counted) (hE : NoStatus e)
    (hsafe : StepSafe x e) :
    ∃ x', step x e = some x' ∧ Inv (view x'.state) x'.succeeded x'.counted := by
  cases e with
  | auth cmd => exact auth_step hI hsafe
  | reg d => exact join_step hI d
  | regist cmd =>
    obtain ⟨code, c, hcode, hr⟩ | ⟨hd, sub, l, hargs, h⟩ := regist_cases x.state cmd
    · exact step_same hI (handle_regist hr) (.inl hcode)
    obtain ⟨hstart, hreg⟩ := hsafe hd
    rcases h with ⟨rfl, hr⟩ | ⟨rfl, hr⟩ | ⟨rfl, -⟩ | ⟨rfl, hr⟩
    · exact start_step hI hargs hr (hstart l hargs)
    · exact stop_step hI hargs hr
    · exact absurd (by rw [hargs]; rfl) hE
    · exact reg_step hI hd hargs hr fun p q l' hl => hreg p q l' (by rw [hargs, hl])

/-- **A start that leaves a device with its flag** counts fewer than have one. -/
theorem start_bad {cmd : Cmd} {l : List Str} (hargs : cmd.args = "start".toList :: l)
    (hs : cmdRegist x.state cmd = registStart x.state cmd cmd.deviceId l)
    (hbad : ¬ StartSafe x.state l) (hx' : step x (.regist cmd) = some x') : ¬ Accounted x' := by
  have he := start_effect x.state cmd cmd.deviceId l
  rw [← handle_regist hs] at he
  generalize hr : (handle x.state (.regist cmd)).map (fun r => (r.1, view r.2)) = r at he
  cases he with
  | refused hcode hno =>
    refine absurd (fun h0 dr l' hdr => ?_) hbad
    rcases hno with h1 | hnil
    · exact absurd h0 h1
    · rw [hnil] at hdr
      cases hdr
  | overflow h0 hdr hlong =>
    have hnone : handle x.state (.regist cmd) = none := Option.map_eq_none_iff.mp hr
    rw [step, hnone] at hx'
    cases hx'
  | noMode hcode h0 hdr hfit hnil =>
    refine absurd (fun _ dr l' hdr' => ?_) hbad
    rw [hdr] at hdr'
    cases hdr'
    exact ⟨hfit, fun h => absurd hnil h⟩
  | @opened dr l' h0 hdr hfit hne =>
    obtain ⟨s', hs', hv⟩ := step_of_view hr
    rw [hs', observe_start (by simp [isStart, hargs])] at hx'
    cases hx'
    intro hacc
    have hok := (hacc (by
      show (view s').start ≠ 0
      rw [hv]
      exact one_ne_zero)).regs
    have hzero : (view s').arrive = 0 := by rw [hv]; rfl
    have hcard : (view s').arrived.card = 0 := by
      have : (view s').arrive = (view s').arrived.card := hok
      omega
    refine hbad fun _ dr' l'' hdr' => ?_
    rw [hdr] at hdr'
    cases hdr'
    refine ⟨hfit, fun _ d hd hreg => ?_⟩
    by_contra hout
    have hmem : d ∈ (view s').arrived := by
      rw [hv]
      exact (mem_arrived_reset _).mpr ⟨(View.mem_arrived _ _).mpr ⟨hd, hreg⟩, hout⟩
    rw [Finset.card_eq_zero.mp hcard] at hmem
    exact absurd hmem (Finset.notMem_empty d)

/-- **An `auth` during a registration** is counted without an id. -/
theorem auth_bad (hI : Inv (view x.state) x.succeeded x.counted) {cmd : Cmd}
    (hbad : ¬ StepSafe x (.auth cmd)) (hx' : step x (.auth cmd) = some x') : ¬ Accounted x' := by
  unfold StepSafe at hbad
  push Not at hbad
  obtain ⟨hd, cardId, cardInfo, l, hargs, hcard, h1⟩ := hbad
  have he := auth_effect hd
  rw [← handle_auth] at he
  generalize hr : (handle x.state (.auth cmd)).map (fun r => (r.1, view r.2)) = r at he
  cases he with
  | refused hcode hno => exact absurd hcard (hno _ _ _ hargs)
  | arrives hargs' hacc =>
    obtain ⟨s', hs', hv⟩ := step_of_view hr
    rw [hs', observe_arrival rfl rfl] at hx'
    cases hx'
    obtain ⟨str, hstr, -, hids⟩ := (hI.isOpen h1).ids
    intro hacc'
    obtain ⟨str', hstr', hids'⟩ := (hacc' (by
      show (view s').start ≠ 0
      rw [hv]
      exact h1)).ids
    have htext : (view s').idstr = some str := by rw [hv]; exact hstr
    have hsame : str' = str := Option.some.inj (hstr'.symm.trans htext)
    have hone : (view s').arrive = (view x.state).arrive + 1 := by rw [hv]; rfl
    have hids'' : (view s').arrive = (strtok str').length := hids'
    rw [hsame] at hids''
    omega

/-- An arrival that finds `arrive_ids` full has no result. -/
theorem reg_bad {cmd : Cmd} {p q : Str} {l : List Str}
    (hs : cmdRegist x.state cmd = registReg x.state cmd cmd.deviceId (p :: q :: l))
    (hacc : Accepted x.state cmd.deviceId p q) (hreg : x.state.reg cmd.deviceId = 0)
    (hlong : memberMax ≤ x.state.grp.arrive) : step x (.regist cmd) = none := by
  have he := reg_effect x.state cmd cmd.deviceId (p :: q :: l)
  rw [← handle_regist hs] at he
  generalize hr : (handle x.state (.regist cmd)).map (fun r => (r.1, view r.2)) = r at he
  cases he with
  | refused hcode hno => exact absurd hacc (hno p q l rfl)
  | again _ _ hreg' => exact absurd hreg hreg'
  | stuck =>
    have hnone : handle x.state (.regist cmd) = none := Option.map_eq_none_iff.mp hr
    rw [step, hnone]
    rfl
  | arrives _ _ _ hlt => omega

/-- **A slip leaves the property.** -/
theorem step_bad (hI : Inv (view x.state) x.succeeded x.counted) (hbad : ¬ StepSafe x e)
    (hx' : step x e = some x') : ¬ Accounted x' := by
  cases e with
  | auth cmd => exact auth_bad hI hbad hx'
  | reg d => exact absurd trivial hbad
  | regist cmd =>
    by_cases hd : cmd.deviceId ∈ x.state.devs
    swap
    · exact absurd (fun h => absurd h hd) hbad
    intro hacc
    refine hbad fun _ => ⟨fun l hargs => ?_, fun p q l hargs hok hreg => ?_⟩
    · by_contra hno
      exact start_bad hargs (cmdRegist_start hd hargs) hno hx' hacc
    · by_contra hlong
      rw [reg_bad (cmdRegist_reg hd hargs) hok hreg (by omega)] at hx'
      cases hx'

end Steps

/-! ## Whole runs -/

/-- **Arrivals are counted right along a run exactly when no event of it is a slip:** every start
clears all devices that have arrived, and no `auth` succeeds while a registration is open. The size
of `rep`, which bounds the ids of a reply, is not part of it. -/
theorem account_exact {db : Db} {s : State} (hs : recoverServer db = some s)
    (hstart : db.group.registStart = 0) (hreg : ∀ d ∈ db.table, (db.row d).registReg = 0)
    {es : List Event} (hes : ∀ e ∈ es, NoStatus e) :
    Always step Accounted ⟨s, [], []⟩ es ↔ Guarded step StepSafe ⟨s, [], []⟩ es :=
  always_iff_guarded (I := fun x => Inv (view x.state) x.succeeded x.counted)
    (fun _ h => accounted_of_inv h) (fun _ _ h hE hg => step_inv h hE hg)
    (fun _ _ _ h _ hn hx' => step_bad h hn hx') (recoverServer_inv hs hstart hreg) hes

/-- Two devices; the first is a member, the second has a card. -/
def memberAndCard : Db where
  group := { registStart := 0, registMode := 0, registExpect := 0, registArrive := 0 }
  table := [101, 102]
  nodup := by decide
  row := fun _ => newRow
  registTable := [{ members := "101".toList, expect := 2 }]
  authCards :=
    [{ cardId := "c2".toList, cardInfo := "x".toList, extra := "y".toList, devId := 102 }]

def command (d : ℤ) (args : List String) : Cmd :=
  { deviceId := d, args := args.map String.toList, rep := [] }

/-- The registration opens, both devices register. -/
def session : List Event :=
  [.regist (command 101 ["start", "0"]), .regist (command 102 ["reg", "0", "0"]),
    .regist (command 101 ["reg", "0", "0"])]

theorem account_exact_memberAndCard : ∃ s, recoverServer memberAndCard = some s ∧
    (Always step Accounted ⟨s, [], []⟩ session ↔ Guarded step StepSafe ⟨s, [], []⟩ session) := by
  obtain ⟨s, hs⟩ := Option.isSome_iff_exists.mp
    (show (recoverServer memberAndCard).isSome = true by decide)
  exact ⟨s, hs, account_exact hs rfl (fun _ _ => rfl) (by decide)⟩

/-- What a run leaves: whether a registration is open, the counter and the text. -/
def textAfter (db : Db) (es : List Event) : Option (ℤ × ℤ × Option Str) :=
  ((recoverServer db).bind fun s => run step ⟨s, [], []⟩ es).map fun x =>
    (x.state.grp.dbData.registStart, x.state.grp.arrive, x.state.grp.arriveIdstr)

theorem reached_of_textAfter {db : Db} {es : List Event} {y : ℤ × ℤ × Option Str}
    (h : textAfter db es = some y) : ∃ s x, recoverServer db = some s ∧
      run step ⟨s, [], []⟩ es = some x ∧ x.state.grp.dbData.registStart = y.1 ∧
      x.state.grp.arrive = y.2.1 ∧ x.state.grp.arriveIdstr = y.2.2 := by
  obtain ⟨x, hx, rfl⟩ := Option.map_eq_some_iff.mp h
  obtain ⟨s, hs, hx⟩ := Option.bind_eq_some_iff.mp hx
  exact ⟨s, x, hs, hx, rfl, rfl, rfl⟩

/-- An `auth` while the registration is open raises the counter and leaves no id. -/
theorem auth_leaves_no_id : ∃ s, recoverServer memberAndCard = some s ∧
    ¬ Always step Accounted ⟨s, [], []⟩
      [.regist (command 101 ["start", "0"]), .auth (command 102 ["c2", "x"])] := by
  obtain ⟨s, x, hs, hx, hstart, harrive, htext⟩ := reached_of_textAfter
    (show textAfter memberAndCard
      [.regist (command 101 ["start", "0"]), .auth (command 102 ["c2", "x"])] =
      some (1, 1, some []) by decide)
  refine ⟨s, hs, fun h => ?_⟩
  have hacc := h.final hx
  obtain ⟨str, hstr, hids⟩ := (hacc (by rw [hstart]; exact one_ne_zero)).ids
  rw [htext] at hstr
  cases hstr
  rw [harrive, strtok_nil] at hids
  exact absurd hids (by decide)

end GSConferencing.Serv.RegistRuns
