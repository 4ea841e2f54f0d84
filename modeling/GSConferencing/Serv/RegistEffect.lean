import GSConferencing.Serv.Regist

/-!
# What the registration commands do

The part of the state that counts arrivals is a `View`.  `start_effect`, `stop_effect`,
`reg_effect`, `auth_effect` and `view_reg` say what each command can do to it, with the condition
for each case, so that nothing below unfolds a handler again.
-/

namespace GSConferencing.Serv.RegistEffect

open GSConferencing.Serv.Strutil GSConferencing.Serv.CmdHandler GSConferencing.Serv.Regist

/-! ## The part of the state that counts -/

/-- The devices with their `regist.reg`, and the counters of the group. -/
@[ext] structure View where
  devs : Finset ℤ
  reg : ℤ → ℤ
  start : ℤ
  arrive : ℤ
  idstr : Option Str
  len : ℕ

def view (s : State) : View where
  devs := s.devs
  reg := s.reg
  start := s.grp.dbData.registStart
  arrive := s.grp.arrive
  idstr := s.grp.arriveIdstr
  len := s.grp.arriveIdstrLen

namespace View

variable (v : View) (d : ℤ)

/-- The devices that have arrived. -/
def arrived : Finset ℤ := v.devs.filter fun d => v.reg d = 1

/-- The members have their flag cleared. -/
def reset (ids : List ℤ) : View :=
  { v with reg := fun d => if d ∈ v.devs ∧ d ∈ ids then 0 else v.reg d }

/-- A registration starts. -/
def opened : View := { v with start := 1, arrive := 0, idstr := some [], len := 0 }

/-- A device arrives by `regist reg`. -/
def registered (str : Str) : View :=
  { v with
    reg := Function.update v.reg d 1, arrive := v.arrive + 1, idstr := some str, len := str.length }

/-- A device arrives by `auth`. -/
def authed : View := { v with reg := Function.update v.reg d 1, arrive := v.arrive + 1 }

/-- A device registers with the server. -/
def joined : View := { v with devs := insert d v.devs, reg := Function.update v.reg d 0 }

theorem mem_arrived : d ∈ v.arrived ↔ d ∈ v.devs ∧ v.reg d = 1 := by
  unfold arrived
  rw [Finset.mem_filter]

end View

theorem errOther_ne : errOther ≠ 0 := by decide

theorem errRejected_ne : errRejected ≠ 0 := by decide

section Frames
variable (s : State)

@[simp] theorem view_send (o : Dev.Out) : view (s.send o) = view s := rfl

@[simp] theorem view_setRow (d : ℤ) (f : DbDevice → DbDevice) : view (s.setRow d f) = view s := rfl

@[simp] theorem view_deviceSave (d : ℤ) : view (s.deviceSave d) = view s := by
  unfold State.deviceSave
  split <;> rfl

@[simp] theorem view_sendCmdToDevId (d : ℤ) (cmd : Cmd) :
    view (s.sendCmdToDevId d cmd) = view s := by
  unfold State.sendCmdToDevId
  split <;> rfl

/-- One more member of the list `m :: l` is cleared. -/
theorem clear_cons {β : Type*} (devs : Finset ℤ) (m : ℤ) (l : List ℤ) (f : ℤ → β) (z : β → β)
    (hz : ∀ b, z (z b) = z b) (hm : m ∈ devs) :
    (fun d => if d ∈ devs ∧ d ∈ l then z (Function.update f m (z (f m)) d)
      else Function.update f m (z (f m)) d) =
      fun d => if d ∈ devs ∧ d ∈ m :: l then z (f d) else f d := by
  funext d
  by_cases hdm : d = m
  · subst hdm
    rw [Function.update_self, hz, ite_self, if_pos ⟨hm, List.mem_cons_self⟩]
  · rw [Function.update_of_ne hdm]
    simp only [List.mem_cons, hdm, false_or]

/-- A member that is not registered is passed over. -/
theorem clear_cons_of_notMem {β : Type*} (devs : Finset ℤ) (m : ℤ) (l : List ℤ) (f : ℤ → β)
    (z : β → β) (hm : m ∉ devs) :
    (fun d => if d ∈ devs ∧ d ∈ l then z (f d) else f d) =
      fun d => if d ∈ devs ∧ d ∈ m :: l then z (f d) else f d := by
  funext d
  by_cases hdm : d = m
  · subst hdm
    rw [if_neg fun h => hm h.1, if_neg fun h => hm h.1]
  · simp only [List.mem_cons, hdm, false_or]

/-- The members of the list that are registered have their flags cleared. -/
theorem resetFold (ids : List ℤ) : ids.foldl (fun s m =>
    if m ∈ s.devs then (s.setReg m 0).setRow m fun r => { r with registReg := 0 } else s) s =
    { s with
      reg := fun d => if d ∈ s.devs ∧ d ∈ ids then 0 else s.reg d
      row := fun d => if d ∈ s.devs ∧ d ∈ ids then { s.row d with registReg := 0 } else s.row d } := by
  induction ids generalizing s with
  | nil => simp
  | cons m l ih =>
    rw [List.foldl_cons, ih]
    by_cases hm : m ∈ s.devs
    · rw [if_pos hm, ← clear_cons s.devs m l s.reg (fun _ => 0) (fun _ => rfl) hm,
        ← clear_cons s.devs m l s.row (fun r => { r with registReg := 0 }) (fun _ => rfl) hm]
      rfl
    · rw [if_neg hm, clear_cons_of_notMem s.devs m l s.reg (fun _ => 0) hm,
        clear_cons_of_notMem s.devs m l s.row (fun r => { r with registReg := 0 }) hm]

theorem view_registResetAll : view (registResetAll s) = (view s).reset s.grp.memberids :=
  congrArg view (resetFold s s.grp.memberids)

end Frames

/-! ## What an event does -/

/-- The ids of a record. -/
def memberIds (dr : DbRegist) : List ℤ := (forEachId dr.members).map atoi

/-- A `regist reg` with the right mode, and the right card where one is asked for. -/
def Accepted (s : State) (d : ℤ) (p q : Str) : Prop :=
  s.grp.dbData.registStart ≠ 0 ∧ s.grp.dbData.registMode = atoi p ∧
    (atoi p = registCardId → atoi q = (s.row d).userCard)

/-- An `auth` with a good card, of the device itself where that is asked for. -/
def CardAccepted (s : State) (d : ℤ) (cardId cardInfo : Str) : Prop :=
  ∃ card, authenticate s cardId cardInfo = some card ∧
    (s.grp.mode = registCardId → card.devId = d)

/-- The effect of `regist start` with the arguments `args`. -/
inductive StartEffect (s : State) (args : List Str) : Option (ℤ × View) → Prop
  | refused {code : ℤ} (hcode : code ≠ 0)
      (hno : s.grp.dbData.registStart ≠ 0 ∨ s.registTable = []) :
      StartEffect s args (some (code, view s))
  | overflow {dr : DbRegist} {l : List DbRegist} (h0 : s.grp.dbData.registStart = 0)
      (hdr : s.registTable = dr :: l) (hlong : memberMax < (memberIds dr).length) :
      StartEffect s args none
  | noMode {dr : DbRegist} {l : List DbRegist} {code : ℤ} (hcode : code ≠ 0)
      (h0 : s.grp.dbData.registStart = 0) (hdr : s.registTable = dr :: l)
      (hfit : (memberIds dr).length ≤ memberMax) (hargs : args = []) :
      StartEffect s args (some (code, (view s).reset (memberIds dr)))
  | opened {dr : DbRegist} {l : List DbRegist} (h0 : s.grp.dbData.registStart = 0)
      (hdr : s.registTable = dr :: l) (hfit : (memberIds dr).length ≤ memberMax)
      (hargs : args ≠ []) :
      StartEffect s args (some (0, ((view s).reset (memberIds dr)).opened))

theorem registSetup_eq (s : State) (dr : DbRegist) :
    registSetup s dr = if memberMax < (memberIds dr).length then none
      else some (s.setGrp fun g => { g with memberids := memberIds dr }) := rfl

theorem start_effect (s : State) (cmd : Cmd) (d : ℤ) (args : List Str) :
    StartEffect s args ((registStart s cmd d args).map fun r => (r.1, view r.2.2)) := by
  unfold registStart
  by_cases h0 : s.grp.dbData.registStart = 0
  swap
  · rw [if_pos h0]
    exact .refused errOther_ne (.inl h0)
  rw [if_neg (not_not.mpr h0)]
  cases hdr : s.registTable with
  | nil => exact .refused errOther_ne (.inr hdr)
  | cons dr l =>
    simp only []
    rw [registSetup_eq]
    by_cases hlong : memberMax < (memberIds dr).length
    · rw [if_pos hlong]
      exact .overflow h0 hdr hlong
    rw [if_neg hlong]
    simp only [Option.bind_eq_bind, Option.bind_some]
    set s₁ := registResetAll (s.setGrp fun g => { g with memberids := memberIds dr }) with hs₁
    have hv : view s₁ = (view s).reset (memberIds dr) := view_registResetAll _
    cases args with
    | nil =>
      rw [nextArg_nil, Option.map_some, hv]
      exact .noMode one_ne_zero h0 hdr (by omega) rfl
    | cons p args =>
      rw [nextArg_cons, Option.map_some]
      simp only [view_send, view_sendCmdToDevId, view_deviceSave, view_setRow]
      have hopen : view (s₁.setGrp (openRegist dr (atoi p))) = (view s₁).opened := rfl
      rw [hopen, hv]
      exact .opened h0 hdr (by omega) (List.cons_ne_nil _ _)

/-- The effect of `regist stop`. -/
inductive StopEffect (s : State) : Option (ℤ × View) → Prop
  | refused {code : ℤ} (hcode : code ≠ 0) : StopEffect s (some (code, view s))
  | noText (h1 : s.grp.dbData.registStart ≠ 0) (hnull : s.grp.arriveIdstr = none) :
      StopEffect s none
  | closed {code : ℤ} {v : View} {ids : List ℤ} (hstart : v.start = 0) (hdevs : v.devs = s.devs)
      (hreg : v.reg = ((view s).reset ids).reg) : StopEffect s (some (code, v))

theorem stop_effect (s : State) (cmd : Cmd) (d : ℤ) :
    StopEffect s ((registStop s cmd d).map fun r => (r.1, view r.2.2)) := by
  unfold registStop
  by_cases h0 : s.grp.dbData.registStart = 0
  · rw [if_pos h0]
    exact .refused errOther_ne
  rw [if_neg h0]
  cases hstr : s.grp.arriveIdstr with
  | none =>
    simp only [State.send, hstr, Option.bind_eq_bind, Option.bind_none]
    exact .noText h0 hstr
  | some idstr =>
    simp only [Option.bind_eq_bind]
    set c := repEnd (repAddNum (repAddNum (repAdd cmd "OK".toList) s.grp.expect) s.grp.arrive)
    have hbind : (s.send (.brcastAll c.rep)).grp.arriveIdstr = some idstr := hstr
    rw [hbind, Option.bind_some, Option.map_some]
    simp only [view_deviceSave, view_setRow, view_send]
    set s₁ := (s.send (.brcastAll c.rep)).sendCmdToDevId 1 (repEnd (repAdd (repCancelEnd c) idstr))
    have hv : view (registResetAll s₁) = (view s).reset s₁.grp.memberids := by
      rw [view_registResetAll, view_sendCmdToDevId, view_send]
    refine @StopEffect.closed s _ _ s₁.grp.memberids rfl ?_ ?_
    · show (view (registResetAll s₁)).devs = _
      rw [hv]
      rfl
    · show (view (registResetAll s₁)).reg = _
      rw [hv]

/-- The effect of `regist reg` with the arguments `args`. -/
inductive RegEffect (s : State) (d : ℤ) (args : List Str) : Option (ℤ × View) → Prop
  | refused {code : ℤ} (hcode : code ≠ 0)
      (hno : ∀ p q l, args = p :: q :: l → ¬ Accepted s d p q) :
      RegEffect s d args (some (code, view s))
  | again {p q : Str} {l : List Str} (hargs : args = p :: q :: l) (hacc : Accepted s d p q)
      (hreg : s.reg d ≠ 0) : RegEffect s d args (some (0, view s))
  | stuck {p q : Str} {l : List Str} (hargs : args = p :: q :: l) (hacc : Accepted s d p q)
      (hreg : s.reg d = 0)
      (hbad : s.grp.arrive < 0 ∨ memberMax ≤ s.grp.arrive ∨ s.grp.arriveIdstr = none) :
      RegEffect s d args none
  | arrives {p q : Str} {l : List Str} {idstr : Str} (hargs : args = p :: q :: l)
      (hacc : Accepted s d p q) (hreg : s.reg d = 0) (hlt : s.grp.arrive < memberMax)
      (hstr : s.grp.arriveIdstr = some idstr) :
      RegEffect s d args (some (0, (view s).registered d
        (if s.grp.arriveIdstrLen = 0 then fmtInt d
          else idstr.take s.grp.arriveIdstrLen ++ ',' :: fmtInt d)))

theorem reg_effect (s : State) (cmd : Cmd) (d : ℤ) (args : List Str) :
    RegEffect s d args ((registReg s cmd d args).map fun r => (r.1, view r.2.2)) := by
  unfold registReg
  cases args with
  | nil => exact .refused one_ne_zero fun p q l h => absurd h (List.cons_ne_nil _ _).symm
  | cons p args =>
  cases args with
  | nil => exact .refused one_ne_zero fun p q l h => absurd (List.cons.inj h).2 (by simp)
  | cons q args =>
    rw [nextArg_cons, nextArg_cons]
    simp only []
    by_cases hmode : s.grp.dbData.registStart = 0 ∨ s.grp.dbData.registMode ≠ atoi p
    · rw [if_pos hmode]
      refine .refused errOther_ne fun p' q' l h hacc => ?_
      cases h
      exact hmode.elim hacc.1 fun hne => hne hacc.2.1
    rw [if_neg hmode]
    by_cases hcard : atoi p = registCardId ∧ atoi q ≠ (s.row d).userCard
    · rw [if_pos hcard]
      refine .refused errOther_ne fun p' q' l h hacc => ?_
      cases h
      exact hcard.2 (hacc.2.2 hcard.1)
    rw [if_neg hcard]
    push Not at hmode hcard
    have hacc : Accepted s d p q := ⟨hmode.1, hmode.2, hcard⟩
    by_cases hreg : s.reg d = 0
    swap
    · rw [if_pos hreg]
      exact .again rfl hacc hreg
    rw [if_neg (not_not.mpr hreg)]
    unfold arriveDev
    by_cases hlt : s.grp.arrive < 0 ∨ memberMax ≤ s.grp.arrive
    · rw [if_pos hlt]
      exact .stuck rfl hacc hreg (hlt.imp_right .inl)
    rw [if_neg hlt]
    cases hstr : s.grp.arriveIdstr with
    | none => exact .stuck rfl hacc hreg (.inr (.inr hstr))
    | some idstr => exact .arrives rfl hacc hreg (by omega) hstr

/-- The effect of `auth` with the arguments `args`. -/
inductive AuthEffect (s : State) (d : ℤ) (args : List Str) : Option (ℤ × View) → Prop
  | refused {code : ℤ} (hcode : code ≠ 0)
      (hno : ∀ cardId cardInfo l, args = cardId :: cardInfo :: l →
        ¬ CardAccepted s d cardId cardInfo) :
      AuthEffect s d args (some (code, view s))
  | arrives {cardId cardInfo : Str} {l : List Str} (hargs : args = cardId :: cardInfo :: l)
      (hacc : CardAccepted s d cardId cardInfo) :
      AuthEffect s d args (some (0, (view s).authed d))

theorem auth_effect {s : State} {cmd : Cmd} (hd : cmd.deviceId ∈ s.devs) :
    AuthEffect s cmd.deviceId cmd.args ((cmdAuth s cmd).map fun r => (r.1, view r.2.2)) := by
  unfold cmdAuth
  rw [if_neg (not_not.mpr hd)]
  rcases hargs : cmd.args with - | ⟨cardId, - | ⟨cardInfo, l⟩⟩
  · exact .refused one_ne_zero fun _ _ _ h => absurd h (by simp)
  · exact .refused one_ne_zero fun _ _ _ h => absurd h (by simp)
  · rw [nextArg_cons, nextArg_cons]
    cases hcard : authenticate s cardId cardInfo with
    | none =>
      refine .refused errRejected_ne fun _ _ _ h hacc => ?_
      cases h
      obtain ⟨card, hcard', -⟩ := hacc
      rw [hcard] at hcard'
      cases hcard'
    | some card =>
      simp only []
      by_cases hdev : s.grp.mode = registCardId ∧ card.devId ≠ cmd.deviceId
      · rw [if_pos hdev]
        refine .refused errRejected_ne fun _ _ _ h hacc => ?_
        cases h
        obtain ⟨card', hcard', hown⟩ := hacc
        rw [hcard] at hcard'
        cases hcard'
        exact hdev.2 (hown hdev.1)
      · rw [if_neg hdev]
        push Not at hdev
        have hview : view (authArrive s cmd.deviceId) = (view s).authed cmd.deviceId := by
          unfold authArrive
          rw [view_deviceSave, view_setRow]
          rfl
        rw [Option.map_some, hview]
        exact .arrives rfl ⟨card, hcard, hdev⟩

/-- A device that registers with the server is new, or nothing happens. -/
theorem view_reg (s : State) (d : ℤ) :
    view (reg s d) = view s ∨ d ∉ s.devs ∧ view (reg s d) = (view s).joined d := by
  unfold reg
  split
  · exact .inl rfl
  · rename_i hd
    refine .inr ⟨fun h => hd (.inl h), ?_⟩
    simp only []
    split <;> rfl

end GSConferencing.Serv.RegistEffect
