import GSConferencing.Serv.Roster
import GSConferencing.Lib.Run

/-!
# Online statistics

`stats.active_count` against the devices that are online, over the runs of `reg` commands, heartbeats
and the visits of the heartbeat thread.

* `counted_turned`, `counted_enrolled`: the functions that keep the numbers.
* `counted_setType_iff`: a new type of an active device is the one change that is not counted.
* `counted_iff`: the runs along which the numbers are right and no index is out of bounds.
-/

namespace GSConferencing.Serv.OnlineStats

open GSConferencing.Lib.Run GSConferencing.Lib.Items
open GSConferencing.Serv.Strutil GSConferencing.Serv.CmdHandler GSConferencing.Serv.Roster

inductive Event where
  | reg (cmd : Cmd)
  | heartbeat (d : ℤ)
  | heartbeatGod (d : ℤ)

variable (cksum : BitVec 32 → Str) (info : Group → ℤ → Str)

def step (s : Group) : Event → Option Group
  | .reg cmd => (cmdReg cksum info s cmd).map fun r => r.2.2
  | .heartbeat d => heartbeat s d
  | .heartbeatGod d => heartbeatGod s d

/-- A device of type `k` that is online. -/
def isOnline (k : Fin ntypes) (D : Device) : Bool := decide (D.type = k) && D.active

/-- The number of registered devices of type `k` that are online. -/
def online (s : Group) (k : Fin ntypes) : ℕ := s.devs.countP fun d => isOnline k (s.dev d)

/-- **The property:** the statistics are the numbers of devices that are online. -/
def Counted (s : Group) : Prop := ∀ k, s.activeCount k = online s k

/-- The types that are not counted. -/
def Outside (type : ℤ) : Prop := type < 0 ∨ (ntypes : ℤ) ≤ type

instance (type : ℤ) : Decidable (Outside type) := inferInstanceAs (Decidable (_ ∨ _))

/-- **The guard:** an active device keeps its type when it registers again, or goes from a type that
is not counted to another one; and a device that is turned on or off has no negative type. -/
def Kept (s : Group) : Event → Prop
  | .reg cmd => ∀ type ∈ regType cksum s cmd,
      if cmd.deviceId ∈ s.devs ∧ (s.dev cmd.deviceId).active = true then
        type = (s.dev cmd.deviceId).type ∨ (Outside type ∧ Outside (s.dev cmd.deviceId).type)
      else 0 ≤ type
  | .heartbeat d => d ∈ s.devs → (s.dev d).active = false → 0 ≤ (s.dev d).type
  | .heartbeatGod d => d ∈ s.devs → (s.dev d).active = true → 3 ≤ (s.dev d).hbeat →
      0 ≤ (s.dev d).type

instance (s : Group) : ∀ e, Decidable (Kept cksum s e)
  | .reg cmd => inferInstanceAs (Decidable (∀ type ∈ regType cksum s cmd,
      if cmd.deviceId ∈ s.devs ∧ (s.dev cmd.deviceId).active = true then
        type = (s.dev cmd.deviceId).type ∨ (Outside type ∧ Outside (s.dev cmd.deviceId).type)
      else 0 ≤ type))
  | .heartbeat _ => inferInstanceAs (Decidable (_ → _ → _))
  | .heartbeatGod _ => inferInstanceAs (Decidable (_ → _ → _ → _))

/-- Ids are distinct, and the statistics are right. -/
structure Inv (s : Group) : Prop where
  nodup : s.devs.Nodup
  counted : Counted s

/-! ## What keeps the numbers -/

variable {cksum info} {s s' : Group} {d : ℤ}

/-- The numbers with one device changed. -/
theorem online_update (t : Group) (hnd : s.devs.Nodup) (hd : d ∈ s.devs) (hdevs : t.devs = s.devs)
    {D : Device} (hdev : t.dev = Function.update s.dev d D) (k : Fin ntypes) :
    online t k + (if isOnline k (s.dev d) = true then 1 else 0) =
      online s k + (if isOnline k D = true then 1 else 0) := by
  unfold online
  rw [hdevs, hdev]
  exact countP_update s.dev D (isOnline k) hnd hd

theorem isOnline_iff {k : Fin ntypes} {D : Device} :
    isOnline k D = true ↔ (k : ℤ) = D.type ∧ D.active = true := by
  unfold isOnline
  rw [Bool.and_eq_true, decide_eq_true_eq, eq_comm]

/-- **A device is turned on or off.** -/
theorem counted_turned (hs : Inv s) (hd : d ∈ s.devs) {a : Bool} (ha : (s.dev d).active ≠ a) :
    Inv (turned s d a) := by
  refine ⟨hs.nodup, fun k => ?_⟩
  have hone := online_update (turned s d a) hs.nodup hd rfl rfl k
  have hk := hs.counted k
  show (if (k : ℤ) = (s.dev d).type then s.activeCount k + (if a then 1 else -1)
    else s.activeCount k) = _
  simp only [isOnline_iff] at hone
  by_cases htype : (k : ℤ) = (s.dev d).type
  · rw [if_pos htype]
    cases a with
    | true =>
      rw [if_neg fun h => ha h.2, if_pos ⟨htype, rfl⟩] at hone
      rw [if_pos rfl]
      omega
    | false =>
      rw [if_pos ⟨htype, Bool.not_eq_false _ ▸ ha⟩, if_neg fun h => Bool.false_ne_true h.2] at hone
      rw [if_neg Bool.false_ne_true]
      omega
  · rw [if_neg fun h => htype h.1, if_neg fun h => htype h.1] at hone
    rw [if_neg htype]
    omega

/-- **A new device** is not online. -/
theorem counted_enrolled (hs : Inv s) (hd : d ∉ s.devs) (type : ℤ) : Inv (enrolled s d type) := by
  have hnd : (s.devs ++ [d]).Nodup := by
    rw [← List.concat_eq_append]
    exact hs.nodup.concat hd
  refine ⟨hnd, fun k => ?_⟩
  show s.activeCount k = ((s.devs ++ [d]).countP fun a =>
    isOnline k (Function.update s.dev d ⟨type, false, 0⟩ a) : ℕ)
  have hnew : ¬ isOnline k ⟨type, false, 0⟩ = true := fun h =>
    Bool.false_ne_true (isOnline_iff.mp h).2
  rw [List.countP_append, countP_update_of_notMem s.dev _ _ hd, List.countP_singleton,
    Function.update_self, if_neg hnew]
  exact hs.counted k

/-- The record of a device does not count. -/
theorem Inv.of_eq (hs : Inv s) (hdevs : s'.devs = s.devs) (hdev : s'.dev = s.dev)
    (hcount : s'.activeCount = s.activeCount) : Inv s' := by
  refine ⟨hdevs ▸ hs.nodup, fun k => ?_⟩
  unfold online
  rw [hcount, hdevs, hdev]
  exact hs.counted k

/-- **A device takes another type:** nothing is counted then. -/
theorem counted_setType_iff (hs : Inv s) (hd : d ∈ s.devs) (type : ℤ) :
    Counted (setType s d type) ↔ (s.dev d).active = true →
      type = (s.dev d).type ∨ (Outside type ∧ Outside (s.dev d).type) := by
  have hone := online_update (setType s d type) hs.nodup hd (setType_devs s d type)
    (setType_dev hd type)
  simp only [isOnline_iff] at hone
  have hcount : Counted (setType s d type) ↔ ∀ k, online (setType s d type) k = online s k := by
    refine forall_congr' fun k => ?_
    rw [setType_activeCount, hs.counted k]
    omega
  rw [hcount]
  cases hact : (s.dev d).active with
  | false =>
    refine ⟨fun _ h => absurd h Bool.false_ne_true, fun _ k => ?_⟩
    have hk := hone k
    rw [hact, if_neg fun h => Bool.false_ne_true h.2, if_neg fun h => Bool.false_ne_true h.2] at hk
    omega
  | true =>
    simp only [hact, and_true, forall_const] at hone ⊢
    constructor
    · intro h
      by_contra hbad
      rw [not_or, not_and_or] at hbad
      obtain ⟨hne, hin⟩ := hbad
      have hat : ∀ n : ℤ, ¬ Outside n → ∃ k : Fin ntypes, (k : ℤ) = n := by
        intro n hn
        unfold Outside ntypes at hn
        exact ⟨⟨n.toNat, by unfold ntypes; omega⟩, by simp only []; omega⟩
      rcases hin with hin | hin
      · obtain ⟨k, hk⟩ := hat _ hin
        have hk' := hone k
        rw [h k, if_pos hk, if_neg fun he => hne (hk.symm.trans he)] at hk'
        omega
      · obtain ⟨k, hk⟩ := hat _ hin
        have hk' := hone k
        rw [h k, if_pos hk, if_neg fun he => hne (he.symm.trans hk)] at hk'
        omega
    · rintro h k
      have hk := hone k
      rcases h with rfl | ⟨hout, hout'⟩
      · omega
      · have hlt := k.isLt
        unfold Outside ntypes at hout hout'
        unfold ntypes at hlt
        rw [if_neg (by omega), if_neg (by omega)] at hk
        omega

/-! ## Steps -/

/-- **`do_dev_activate`** is within bounds for a type that is not negative. -/
theorem doDevActivate_inv (hs : Inv s) (hd : d ∈ s.devs) {a : Bool} (ha : (s.dev d).active ≠ a) :
    (0 ≤ (s.dev d).type → ∃ s', doDevActivate s d a = some s' ∧ Inv s') ∧
      ((s.dev d).type < 0 → doDevActivate s d a = none) := by
  rw [doDevActivate_eq, if_neg ha]
  refine ⟨fun h0 => ⟨turned s d a, if_neg (not_lt.mpr h0), counted_turned hs hd ha⟩, fun hneg => ?_⟩
  exact if_pos hneg

/-- The record that `reg` finds or makes does not count. -/
theorem Inv.devUpdateData (hs : Inv s) (d type : ℤ) : Inv (devUpdateData s d type) :=
  hs.of_eq (devUpdateData_devs ..) (devUpdateData_dev ..) (devUpdateData_activeCount ..)

/-- **`reg` of an active device** only gives it the type. -/
theorem regDev_active (hs : Inv s) (hd : d ∈ s.devs) (hact : (s.dev d).active = true) (type : ℤ) :
    ∃ s', regDev s d type = some s' ∧ s'.devs = s.devs ∧
      (Counted s' ↔ type = (s.dev d).type ∨ (Outside type ∧ Outside (s.dev d).type)) := by
  have hiff := (counted_setType_iff hs hd type).trans
    ⟨fun h => h hact, fun h _ => h⟩
  have hdev : (devUpdateData (setType s d type) d type).dev d = { s.dev d with type := type } := by
    rw [devUpdateData_dev, setType_dev hd, Function.update_self]
  have hdevs : (devUpdateData (setType s d type) d type).devs = s.devs := by
    rw [devUpdateData_devs, setType_devs]
  refine ⟨devUpdateData (setType s d type) d type, ?_, hdevs, ?_⟩
  · rw [regDev_of_mem hd, doDevActivate_eq, hdev, if_pos hact]
  · rw [← hiff]
    unfold Counted online
    rw [devUpdateData_activeCount, devUpdateData_dev, devUpdateData_devs]

/-- **`reg` of a device that is new or not active** turns it on. -/
theorem regDev_turns (hs : Inv s) (hoff : ¬ (d ∈ s.devs ∧ (s.dev d).active = true)) (type : ℤ) :
    (0 ≤ type → ∃ s', regDev s d type = some s' ∧ Inv s') ∧
      (type < 0 → regDev s d type = none) := by
  by_cases hd : d ∈ s.devs
  · have hact : (s.dev d).active ≠ true := fun h => hoff ⟨hd, h⟩
    have hset : Inv (setType s d type) :=
      ⟨by rw [setType_devs]; exact hs.nodup,
        (counted_setType_iff hs hd type).mpr fun h => absurd h hact⟩
    have hdev : (devUpdateData (setType s d type) d type).dev d =
        { s.dev d with type := type } := by
      rw [devUpdateData_dev, setType_dev hd, Function.update_self]
    have hmem : d ∈ (devUpdateData (setType s d type) d type).devs := by
      rw [devUpdateData_devs, setType_devs]
      exact hd
    have hturn := doDevActivate_inv (hset.devUpdateData d type) hmem (a := true)
      (by rw [hdev]; exact hact)
    rw [hdev] at hturn
    rwa [regDev_of_mem hd]
  · rw [regDev_of_notMem hd]
    refine ⟨fun h0 => ⟨_, if_neg (not_lt.mpr h0), ?_⟩, fun hneg => if_pos hneg⟩
    have hnew : d ∉ (devUpdateData s d type).devs := by
      rw [devUpdateData_devs]
      exact hd
    refine counted_turned (counted_enrolled (hs.devUpdateData d type) hnew type) ?_ ?_
    · exact List.mem_append_right _ (List.mem_singleton_self d)
    · have hnew' : (enrolled (devUpdateData s d type) d type).dev d = ⟨type, false, 0⟩ :=
        Function.update_self ..
      rw [hnew']
      exact Bool.false_ne_true

/-- A heartbeat of a device does not count. -/
theorem Inv.setHbeat (hs : Inv s) (hd : d ∈ s.devs) (f : ℤ → ℤ) :
    Inv (s.setDev d fun D => { D with hbeat := f D.hbeat }) := by
  refine ⟨hs.nodup, fun k => ?_⟩
  have hone := online_update (s.setDev d fun D => { D with hbeat := f D.hbeat }) hs.nodup hd
    rfl rfl k
  have hk := hs.counted k
  simp only [isOnline_iff] at hone
  show s.activeCount k = _
  omega

theorem setDev_self (s : Group) (d : ℤ) (f : Device → Device) :
    (s.setDev d f).dev d = f (s.dev d) :=
  Function.update_self ..

/-- **A step that meets the guard** keeps the numbers. -/
theorem step_kept (hs : Inv s) {e : Event} (hk : Kept cksum s e) :
    ∃ s', step cksum info s e = some s' ∧ Inv s' := by
  cases e with
  | reg cmd =>
    show ∃ s', (cmdReg cksum info s cmd).map (fun r => r.2.2) = some s' ∧ _
    rw [cmdReg_state]
    unfold Kept at hk
    cases htype : regType cksum s cmd with
    | none => exact ⟨s, rfl, hs⟩
    | some type =>
      replace hk := hk type htype
      by_cases hon : cmd.deviceId ∈ s.devs ∧ (s.dev cmd.deviceId).active = true
      · rw [if_pos hon] at hk
        obtain ⟨s', hs', hdevs, hiff⟩ := regDev_active hs hon.1 hon.2 type
        exact ⟨s', hs', hdevs ▸ hs.nodup, hiff.mpr hk⟩
      · rw [if_neg hon] at hk
        exact (regDev_turns hs hon type).1 hk
  | heartbeat d =>
    unfold Kept at hk
    show ∃ s', heartbeat s d = some s' ∧ _
    unfold heartbeat
    by_cases hd : d ∈ s.devs
    · rw [if_pos hd]
      cases hact : (s.dev d).active with
      | true =>
        rw [doDevActivate_eq, setDev_self, if_pos hact]
        exact ⟨_, rfl, hs.setHbeat hd fun _ => 0⟩
      | false =>
        have hturn := (doDevActivate_inv (hs.setHbeat hd fun _ => 0) hd (a := true)
          (by rw [setDev_self]; exact hact ▸ Bool.false_ne_true)).1
        rw [setDev_self] at hturn
        exact hturn (hk hd hact)
    · rw [if_neg hd]
      exact ⟨s, rfl, hs⟩
  | heartbeatGod d =>
    unfold Kept at hk
    show ∃ s', heartbeatGod s d = some s' ∧ _
    unfold heartbeatGod
    by_cases hd : d ∈ s.devs
    · simp only [if_pos hd, setDev_self]
      have hbeat := hs.setHbeat hd (· + 1)
      by_cases hout : 3 < (s.dev d).hbeat + 1 ∧ (s.dev d).active = true
      · rw [if_pos hout]
        have hturn := (doDevActivate_inv hbeat hd (a := false)
          (by rw [setDev_self]; exact hout.2 ▸ Bool.false_ne_true.symm)).1
        rw [setDev_self] at hturn
        exact hturn (hk hd hout.2 (by omega))
      · rw [if_neg hout]
        exact ⟨_, rfl, hbeat⟩
    · rw [if_neg hd]
      exact ⟨s, rfl, hs⟩

/-- **A step that misses the guard** has no result, or the numbers are wrong after it. -/
theorem step_missed (hs : Inv s) {e : Event} (hk : ¬ Kept cksum s e)
    (hs' : step cksum info s e = some s') : ¬ Counted s' := by
  cases e with
  | reg cmd =>
    replace hs' : (cmdReg cksum info s cmd).map (fun r => r.2.2) = some s' := hs'
    rw [cmdReg_state] at hs'
    unfold Kept at hk
    push Not at hk
    obtain ⟨type, htype, hk⟩ := hk
    rw [Option.mem_def] at htype
    rw [htype] at hs'
    by_cases hon : cmd.deviceId ∈ s.devs ∧ (s.dev cmd.deviceId).active = true
    · rw [if_pos hon] at hk
      obtain ⟨s₁, hs₁, -, hiff⟩ := regDev_active hs hon.1 hon.2 type
      have heq : s₁ = s' := Option.some.inj (hs₁.symm.trans hs')
      exact fun hc => hk (hiff.mp (heq ▸ hc))
    · rw [if_neg hon] at hk
      have hnone := (regDev_turns hs hon type).2 (not_le.mp hk)
      cases hnone.symm.trans hs'
  | heartbeat d =>
    unfold Kept at hk
    push Not at hk
    obtain ⟨hd, hact, hneg⟩ := hk
    replace hs' : heartbeat s d = some s' := hs'
    have hnone := (doDevActivate_inv (hs.setHbeat hd fun _ => 0) hd (a := true)
      (by rw [setDev_self]; exact hact ▸ Bool.false_ne_true)).2 (by rw [setDev_self]; exact hneg)
    unfold heartbeat at hs'
    rw [if_pos hd, hnone] at hs'
    cases hs'
  | heartbeatGod d =>
    unfold Kept at hk
    push Not at hk
    obtain ⟨hd, hact, h3, hneg⟩ := hk
    replace hs' : heartbeatGod s d = some s' := hs'
    have hnone := (doDevActivate_inv (hs.setHbeat hd (· + 1)) hd (a := false)
      (by rw [setDev_self]; exact hact ▸ Bool.false_ne_true.symm)).2
      (by rw [setDev_self]; exact hneg)
    unfold heartbeatGod at hs'
    simp only [if_pos hd, setDev_self] at hs'
    rw [if_pos ⟨by omega, hact⟩, hnone] at hs'
    cases hs'

/-! ## Runs -/

/-- What holds while `recover_server` registers the devices: nobody is online yet. -/
structure Fresh (s : Group) : Prop where
  nodup : s.devs.Nodup
  off : ∀ d, (s.dev d).active = false
  none : ∀ k, s.activeCount k = 0

theorem Fresh.inv (hs : Fresh s) : Inv s := by
  refine ⟨hs.nodup, fun k => ?_⟩
  have hnobody : online s k = 0 := List.countP_eq_zero.mpr fun d _ h =>
    Bool.false_ne_true ((hs.off d).symm.trans (isOnline_iff.mp h).2)
  rw [hs.none k, hnobody]
  rfl

theorem Fresh.devRegister (hs : Fresh s) {type : ℤ} (h : devRegister s d type = some s') :
    Fresh s' := by
  rw [devRegister_eq] at h
  split at h
  · cases h
    exact hs
  · next hd =>
    split at h
    · cases h
    · cases h
      refine ⟨?_, fun a => ?_, hs.none⟩
      · show (s.devs ++ [d]).Nodup
        rw [← List.concat_eq_append]
        exact hs.nodup.concat hd
      · show (Function.update s.dev d ⟨type, false, 0⟩ a).active = false
        rw [Function.update_apply]
        split
        · rfl
        · exact hs.off a

theorem Fresh.recoverDev (hs : Fresh s) (h : recoverDev s d = some s') : Fresh s' := by
  unfold Roster.recoverDev at h
  split at h
  · cases h
    exact hs
  split at h
  · cases h
  · exact hs.devRegister h

/-- **The start:** nobody is online. -/
theorem recoverServer_fresh {db : Db} (h : recoverServer db = some s) : Fresh s := by
  obtain ⟨s₀, hs₀, h⟩ := Option.bind_eq_some_iff.mp h
  have hboot : Fresh (boot db) := ⟨List.nodup_nil, fun _ => rfl, fun _ => rfl⟩
  exact of_run (G := fun _ _ => True) (fun _ _ _ hI _ hd => Fresh.recoverDev hI hd)
    (hboot.devRegister hs₀) (guarded_true ..) h

/-- **The statistics are right** along a run from the recovered server, and no index is out of
bounds, exactly when every step of the run meets the guard. -/
theorem counted_iff {db : Db} (hs : recoverServer db = some s) (es : List Event) :
    Always (step cksum info) Counted s es ↔ Guarded (step cksum info) (Kept cksum) s es :=
  always_iff_guarded (I := Inv) (E := fun _ => True) (fun _ h => h.counted)
    (fun _ _ h _ hk => step_kept h hk) (fun _ _ _ h _ hk hs' => step_missed h hk hs')
    (recoverServer_fresh hs).inv fun _ _ => trivial

theorem oneClient_nodup : ([101] : List ℤ).Nodup := by decide

/-- One client in the database. -/
def oneClient : Db where
  table := [101]
  nodup := oneClient_nodup
  row := fun _ => ⟨1, "101".toList, 1⟩

def booted : Group := (recoverServer oneClient).get (by decide)

theorem recover_client : recoverServer oneClient = some booted := (Option.some_get _).symm

/-- A `reg` command of the client with a type. -/
def regAs (type : String) : Event :=
  .reg ⟨101, [type.toList, ['x'], ['1'], "none".toList], []⟩

/-- The client registers, is dead, and registers with another type. -/
def restarted : List Event :=
  [regAs "1", .heartbeatGod 101, .heartbeatGod 101, .heartbeatGod 101, .heartbeatGod 101, regAs "2"]

theorem counted_iff_restarted :
    Always (step (fun _ => ['x']) fun _ _ => []) Counted booted restarted :=
  (counted_iff recover_client restarted).mpr (by decide +kernel)

/-- **A registration with another type** while the client is online: one normal client is counted,
and there is none. -/
theorem retyped : (run (step (fun _ => ['x']) fun _ _ => []) booted [regAs "1", regAs "2"]).map
    (fun s => (s.activeCount 1, online s 1)) = some (1, 0) := by
  decide +kernel

theorem not_forall_counted : ¬ ∀ cksum info db s es, recoverServer db = some s →
    Always (step cksum info) Counted s es := by
  intro h
  have hall := h (fun _ => ['x']) (fun _ _ => []) _ booted [regAs "1", regAs "2"] recover_client
  obtain ⟨s, hc, hobs⟩ := hall.observed retyped
  rw [Prod.mk.injEq] at hobs
  have hone := hc 1
  omega

end GSConferencing.Serv.OnlineStats
