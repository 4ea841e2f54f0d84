import GSConferencing.Serv.DevEnts

/-!
# Which devices are alive

`hbeat.c`: a thread visits the devices every ten seconds and counts, `++ d->hbeat > 3`; a heartbeat
starts the count again.  A `reg` command activates a device as well, and leaves the count as it is.

* `tracks_step`: what an event does to the count and to the activity of a device.
* `active_iff`: a device is active exactly if it has given a sign of life and, since then, it was
  not visited or since its last heartbeat it was visited three times at most.
-/

namespace GSConferencing.Serv.Hbeat

open GSConferencing.Lib.Run GSConferencing.Serv.Strutil GSConferencing.Serv.CmdHandler
open GSConferencing.Serv.Roster
open GSConferencing.Serv.DevEnts (Event)

/-! ## Signs -/

/-- What an event means for one device. -/
inductive Sign where
  | reg
  | heartbeat
  | visit
  deriving DecidableEq

variable {cksum : BitVec 32 → Str} {info : Group → ℤ → Str} {s s' t : Group} {d a type : ℤ}
variable {l : List Sign}

/-- The sign of an event for the device `d`. -/
def sign (cksum : BitVec 32 → Str) (d : ℤ) (s : Group) : Event → Option Sign
  | .online (.reg cmd) =>
    if cmd.deviceId = d ∧ (regType cksum s cmd).isSome = true then some .reg else none
  | .online (.heartbeat a) => if a = d ∧ d ∈ s.devs then some .heartbeat else none
  | .online (.heartbeatGod a) => if a = d ∧ d ∈ s.devs then some .visit else none
  | _ => none

/-- The signs of a run, the oldest one first. -/
def signs (cksum : BitVec 32 → Str) (info : Group → ℤ → Str) (d : ℤ) :
    Group → List Event → List Sign
  | _, [] => []
  | s, e :: es => (sign cksum d s e).toList ++
    match DevEnts.step cksum info s e with
    | some s' => signs cksum info d s' es
    | none => []

/-- The visits since the last heartbeat. -/
def missed (l : List Sign) : ℕ := (l.reverse.takeWhile (· ≠ .heartbeat)).countP (· = .visit)

/-- **A sign of life** was given, and either no visit has come since, or three visits at most have
come since the last heartbeat. -/
def Alive (l : List Sign) : Prop :=
  (∃ x ∈ l, x ≠ .visit) ∧ (l.getLast? ≠ some .visit ∨ missed l ≤ 3)

instance (l : List Sign) : Decidable (Alive l) := inferInstanceAs (Decidable (_ ∧ _))

@[simp] theorem missed_reg (l : List Sign) : missed (l ++ [.reg]) = missed l := by
  simp [missed]

@[simp] theorem missed_heartbeat (l : List Sign) : missed (l ++ [.heartbeat]) = 0 := by
  simp [missed]

@[simp] theorem missed_visit (l : List Sign) : missed (l ++ [.visit]) = missed l + 1 := by
  simp [missed]

theorem alive_life {x : Sign} (hx : x ≠ .visit) : Alive (l ++ [x]) := by
  refine ⟨⟨x, List.mem_append_right l (List.mem_singleton_self x), hx⟩, Or.inl ?_⟩
  rw [List.getLast?_concat]
  exact fun h => hx (Option.some.inj h)

/-- A visit of a device that is alive, or of one that is not. -/
theorem alive_visit : Alive (l ++ [.visit]) ↔ Alive l ∧ missed l + 1 ≤ 3 := by
  have hlife : (∃ x ∈ l ++ [.visit], x ≠ .visit) ↔ ∃ x ∈ l, x ≠ .visit := by
    simp [or_and_right]
  unfold Alive
  rw [hlife, missed_visit, List.getLast?_concat]
  constructor
  · rintro ⟨hx, hlast | hmissed⟩
    · exact absurd rfl hlast
    · exact ⟨⟨hx, Or.inr (by omega)⟩, hmissed⟩
  · rintro ⟨⟨hx, -⟩, hmissed⟩
    exact ⟨hx, Or.inr hmissed⟩

/-! ## What an event does to the devices -/

theorem regDev_dev (h : regDev s a type = some s') :
    (∀ x, x ∈ s'.devs ↔ x ∈ s.devs ∨ x = a) ∧ s'.dev = Function.update s.dev a
      ⟨type, true, if a ∈ s.devs then (s.dev a).hbeat else 0⟩ := by
  by_cases ha : a ∈ s.devs
  · have hdev : (devUpdateData (setType s a type) a type).dev =
        Function.update s.dev a { s.dev a with type := type } := by
      rw [devUpdateData_dev, setType_dev ha]
    have hdevs : (devUpdateData (setType s a type) a type).devs = s.devs := by
      rw [devUpdateData_devs, setType_devs]
    rw [regDev_of_mem ha, doDevActivate_eq, hdev, Function.update_self] at h
    rw [if_pos ha]
    split_ifs at h with hact
    · obtain rfl := Option.some.inj h
      refine ⟨fun x => ?_, ?_⟩
      · rw [hdevs]
        exact ⟨Or.inl, fun hx => hx.elim id fun hx => hx ▸ ha⟩
      · rw [hdev]
        show Function.update s.dev a ⟨type, (s.dev a).active, (s.dev a).hbeat⟩ = _
        rw [show (s.dev a).active = true from hact]
    · obtain rfl := Option.some.inj h
      refine ⟨fun x => ?_, ?_⟩
      · show x ∈ (devUpdateData (setType s a type) a type).devs ↔ _
        rw [hdevs]
        exact ⟨Or.inl, fun hx => hx.elim id fun hx => hx ▸ ha⟩
      · show Function.update (devUpdateData (setType s a type) a type).dev a _ = _
        rw [hdev, Function.update_self, Function.update_idem]
  · rw [regDev_of_notMem ha] at h
    rw [if_neg ha]
    split_ifs at h
    obtain rfl := Option.some.inj h
    refine ⟨fun x => ?_, ?_⟩
    · show x ∈ (devUpdateData s a type).devs ++ [a] ↔ _
      rw [devUpdateData_devs, List.mem_append, List.mem_singleton]
    · have hnew : (enrolled (devUpdateData s a type) a type).dev a = ⟨type, false, 0⟩ :=
        Function.update_self ..
      show Function.update (Function.update (devUpdateData s a type).dev a _) a
        { (enrolled (devUpdateData s a type) a type).dev a with active := true } = _
      rw [hnew, devUpdateData_dev, Function.update_idem]

theorem heartbeat_dev (ha : a ∈ s.devs) (h : heartbeat s a = some s') :
    s'.devs = s.devs ∧
      s'.dev = Function.update s.dev a { s.dev a with active := true, hbeat := 0 } := by
  unfold heartbeat at h
  rw [if_pos ha, doDevActivate_eq] at h
  have hself : (s.setDev a fun D => { D with hbeat := 0 }).dev a = { s.dev a with hbeat := 0 } :=
    Function.update_self ..
  rw [hself] at h
  split_ifs at h with hact
  · obtain rfl := Option.some.inj h
    refine ⟨rfl, ?_⟩
    show Function.update s.dev a ⟨(s.dev a).type, (s.dev a).active, 0⟩ = _
    rw [show (s.dev a).active = true from hact]
  · obtain rfl := Option.some.inj h
    refine ⟨rfl, ?_⟩
    show Function.update (Function.update s.dev a _) a
      { (s.setDev a fun D => { D with hbeat := 0 }).dev a with active := true } = _
    rw [hself, Function.update_idem]

theorem heartbeatGod_dev (ha : a ∈ s.devs) (h : heartbeatGod s a = some s') :
    s'.devs = s.devs ∧ s'.dev = Function.update s.dev a { s.dev a with
      active := (s.dev a).active && decide ((s.dev a).hbeat + 1 ≤ 3)
      hbeat := (s.dev a).hbeat + 1 } := by
  unfold heartbeatGod at h
  have hself : (s.setDev a fun D => { D with hbeat := D.hbeat + 1 }).dev a =
      { s.dev a with hbeat := (s.dev a).hbeat + 1 } := Function.update_self ..
  simp only [if_pos ha, hself, doDevActivate_eq] at h
  by_cases hout : 3 < (s.dev a).hbeat + 1 ∧ (s.dev a).active = true
  · have hact : (s.dev a).active = true := hout.2
    rw [if_pos hout, if_neg (by rw [hact]; exact Bool.false_ne_true.symm)] at h
    split_ifs at h
    obtain rfl := Option.some.inj h
    refine ⟨rfl, ?_⟩
    show Function.update (Function.update s.dev a _) a
      { (s.setDev a fun D => { D with hbeat := D.hbeat + 1 }).dev a with active := false } = _
    rw [hself, Function.update_idem, decide_eq_false (not_le.mpr hout.1), Bool.and_false]
  · rw [if_neg hout] at h
    obtain rfl := Option.some.inj h
    refine ⟨rfl, ?_⟩
    have hactive : ((s.dev a).active && decide ((s.dev a).hbeat + 1 ≤ 3)) = (s.dev a).active := by
      cases hact : (s.dev a).active with
      | false => rfl
      | true =>
        have hle : (s.dev a).hbeat + 1 ≤ 3 := not_lt.mp fun hlt => hout ⟨hlt, hact⟩
        rw [decide_eq_true hle]
        rfl
    rw [hactive]
    rfl

theorem setUserId_dev {cmd : Cmd} {r : Reply Group} (h : cmdSetUserId s cmd = some r) :
    r.2.2.devs = s.devs ∧ r.2.2.dev = s.dev := by
  unfold cmdSetUserId at h
  rcases hargs : cmd.args with - | ⟨p, - | ⟨userId, args⟩⟩
  · rw [hargs, nextArg_nil] at h
    exact Option.some.inj h ▸ ⟨rfl, rfl⟩
  · rw [hargs, nextArg_cons, nextArg_nil] at h
    exact Option.some.inj h ▸ ⟨rfl, rfl⟩
  · rw [hargs, nextArg_cons, nextArg_cons] at h
    simp only at h
    split_ifs at h
    · obtain rfl := Option.some.inj h
      show (s.setData (atoi p) _).devs = s.devs ∧ (s.setData (atoi p) _).dev = s.dev
      unfold Group.setData
      split
      · split_ifs <;> exact ⟨rfl, rfl⟩
      · exact ⟨rfl, rfl⟩
    · exact Option.some.inj h ▸ ⟨rfl, rfl⟩

/-- The other commands. -/
theorem other_dev {e : Event} (he : ∀ o, e ≠ .online o)
    (h : DevEnts.step cksum info s e = some s') : s'.devs = s.devs ∧ s'.dev = s.dev := by
  cases e with
  | online o => exact absurd rfl (he o)
  | setUserId cmd =>
    obtain ⟨r, hr, rfl⟩ := Option.map_eq_some_iff.mp h
    exact setUserId_dev hr
  | getAllDevs cmd =>
    obtain rfl := Option.some.inj h
    by_cases hd : cmd.deviceId ∈ s.devs
    · rw [DevEnts.cmdGetAllDevs_of_mem hd]
      show (if s.dirty then refreshDevEntsCache s else s).devs = _ ∧
        (if s.dirty then refreshDevEntsCache s else s).dev = _
      split_ifs
      · obtain ⟨hdevs, hdev, -⟩ := DevEnts.foldl_append_frame s.devs { s with devEnts := [] }
        exact ⟨hdevs, hdev⟩
      · exact ⟨rfl, rfl⟩
    · unfold cmdGetAllDevs
      rw [if_pos hd]
      exact ⟨rfl, rfl⟩
  | sysStats cmd =>
    obtain rfl := Option.some.inj h
    unfold cmdSysStats
    split_ifs <;> exact ⟨rfl, rfl⟩
  | update args =>
    replace h : mUpdate s args = some s' := h
    unfold mUpdate at h
    split at h
    · exact Option.some.inj h ▸ ⟨rfl, rfl⟩
    · split_ifs at h
      exact Option.some.inj h ▸ ⟨rfl, rfl⟩

/-! ## Runs -/

/-- **The invariant:** what the server has of the device is what its signs say. -/
structure Tracks (d : ℤ) (s : Group) (l : List Sign) : Prop where
  new : d ∉ s.devs → l = []
  hbeat : d ∈ s.devs → (s.dev d).hbeat = missed l
  active : d ∈ s.devs → ((s.dev d).active = true ↔ Alive l)

/-- A device that nothing is done to. -/
theorem Tracks.same (h : Tracks d s l) (hdevs : d ∈ s'.devs ↔ d ∈ s.devs)
    (hdev : s'.dev d = s.dev d) : Tracks d s' l := by
  refine ⟨fun hd => h.new (mt hdevs.mpr hd), fun hd => ?_, fun hd => ?_⟩
  · rw [hdev]
    exact h.hbeat (hdevs.mp hd)
  · rw [hdev]
    exact h.active (hdevs.mp hd)

theorem Tracks.reg (h : Tracks d s l) (hr : regDev s d type = some s') :
    Tracks d s' (l ++ [.reg]) := by
  obtain ⟨hdevs, hdev⟩ := regDev_dev hr
  have hmem : d ∈ s'.devs := (hdevs d).mpr (Or.inr rfl)
  refine ⟨fun hd => absurd hmem hd, fun _ => ?_, fun _ => ?_⟩
  · rw [hdev, Function.update_self, missed_reg]
    by_cases hd : d ∈ s.devs
    · rw [if_pos hd]
      exact h.hbeat hd
    · rw [if_neg hd, h.new hd]
      rfl
  · rw [hdev, Function.update_self]
    exact iff_of_true rfl (alive_life (by decide))

theorem tracks_heartbeat (hd : d ∈ s.devs) (hr : heartbeat s d = some s') :
    Tracks d s' (l ++ [.heartbeat]) := by
  obtain ⟨hdevs, hdev⟩ := heartbeat_dev hd hr
  refine ⟨fun hd' => absurd (hdevs ▸ hd) hd', fun _ => ?_, fun _ => ?_⟩
  · rw [hdev, Function.update_self, missed_heartbeat]
    rfl
  · rw [hdev, Function.update_self]
    exact iff_of_true rfl (alive_life (by decide))

theorem Tracks.visit (h : Tracks d s l) (hd : d ∈ s.devs) (hr : heartbeatGod s d = some s') :
    Tracks d s' (l ++ [.visit]) := by
  obtain ⟨hdevs, hdev⟩ := heartbeatGod_dev hd hr
  have hbeat := h.hbeat hd
  refine ⟨fun hd' => absurd (hdevs ▸ hd) hd', fun _ => ?_, fun _ => ?_⟩
  · rw [hdev, Function.update_self, missed_visit]
    push_cast
    rw [← hbeat]
  · rw [hdev, Function.update_self, alive_visit, ← h.active hd]
    simp only [Bool.and_eq_true, decide_eq_true_eq, hbeat]
    have hcast : (missed l : ℤ) + 1 ≤ 3 ↔ missed l + 1 ≤ 3 := by omega
    rw [hcast]

/-- **The step lemma.** -/
theorem tracks_step (h : Tracks d s l) {e : Event} (hs : DevEnts.step cksum info s e = some s') :
    Tracks d s' (l ++ (sign cksum d s e).toList) := by
  have hnil : l ++ (none : Option Sign).toList = l := List.append_nil l
  cases e with
  | online o =>
    cases o with
    | reg cmd =>
      replace hs : (cmdReg cksum info s cmd).map (fun r => r.2.2) = some s' := hs
      rw [cmdReg_state] at hs
      rw [sign]
      cases htype : regType cksum s cmd with
      | none =>
        rw [htype] at hs
        rw [if_neg (fun hc => Bool.false_ne_true hc.2), hnil]
        exact Option.some.inj hs ▸ h
      | some type =>
        rw [htype] at hs
        by_cases hd : cmd.deviceId = d
        · rw [if_pos ⟨hd, rfl⟩]
          exact h.reg (hd ▸ hs)
        · rw [if_neg (fun hc => hd hc.1), hnil]
          obtain ⟨hdevs, hdev⟩ := regDev_dev hs
          refine h.same ?_ ?_
          · rw [hdevs]
            exact or_iff_left (Ne.symm hd)
          · rw [hdev, Function.update_of_ne (Ne.symm hd)]
    | heartbeat a =>
      replace hs : heartbeat s a = some s' := hs
      rw [sign]
      by_cases ha : a ∈ s.devs
      · by_cases hd : a = d
        · subst hd
          rw [if_pos ⟨rfl, ha⟩]
          exact tracks_heartbeat ha hs
        · obtain ⟨hdevs, hdev⟩ := heartbeat_dev ha hs
          rw [if_neg (fun hc => hd hc.1), hnil]
          exact h.same (by rw [hdevs]) (by rw [hdev, Function.update_of_ne (Ne.symm hd)])
      · rw [if_neg (fun hc : a = d ∧ d ∈ s.devs => ha (hc.1 ▸ hc.2)), hnil]
        unfold Roster.heartbeat at hs
        rw [if_neg ha] at hs
        exact Option.some.inj hs ▸ h
    | heartbeatGod a =>
      replace hs : heartbeatGod s a = some s' := hs
      rw [sign]
      by_cases ha : a ∈ s.devs
      · by_cases hd : a = d
        · subst hd
          rw [if_pos ⟨rfl, ha⟩]
          exact h.visit ha hs
        · obtain ⟨hdevs, hdev⟩ := heartbeatGod_dev ha hs
          rw [if_neg (fun hc => hd hc.1), hnil]
          exact h.same (by rw [hdevs]) (by rw [hdev, Function.update_of_ne (Ne.symm hd)])
      · rw [if_neg (fun hc : a = d ∧ d ∈ s.devs => ha (hc.1 ▸ hc.2)), hnil]
        unfold heartbeatGod at hs
        rw [if_neg ha] at hs
        exact Option.some.inj hs ▸ h
  | _ =>
    obtain ⟨hdevs, hdev⟩ := other_dev (by simp) hs
    show Tracks d s' (l ++ (none : Option Sign).toList)
    rw [hnil]
    exact h.same (by rw [hdevs]) (by rw [hdev])

theorem tracks_run (h : Tracks d s l) {es : List Event}
    (hrun : run (DevEnts.step cksum info) s es = some t) :
    Tracks d t (l ++ signs cksum info d s es) := by
  induction es generalizing s l with
  | nil =>
    rw [run_nil, Option.some.injEq] at hrun
    rw [signs, List.append_nil]
    exact hrun ▸ h
  | cons e es ih =>
    obtain ⟨s₁, hs₁, hrun⟩ := Option.bind_eq_some_iff.mp (run_cons s e es ▸ hrun)
    have hrest := ih (tracks_step h hs₁) hrun
    rw [signs, hs₁]
    rwa [List.append_assoc] at hrest

/-- A server that starts has heard of no device. -/
def Unheard (s : Group) : Prop := ∀ d ∈ s.devs, (s.dev d).hbeat = 0 ∧ (s.dev d).active = false

theorem Unheard.devRegister (h : Unheard s) (hr : devRegister s a type = some s') : Unheard s' := by
  rw [devRegister_eq] at hr
  split_ifs at hr with ha
  · exact Option.some.inj hr ▸ h
  · obtain rfl := Option.some.inj hr
    intro x hx
    show (Function.update s.dev a ⟨type, false, 0⟩ x).hbeat = 0 ∧
      (Function.update s.dev a ⟨type, false, 0⟩ x).active = false
    rcases List.mem_append.mp hx with hx | hx
    · have hne : x ≠ a := fun he => ha (he ▸ hx)
      rw [Function.update_of_ne hne]
      exact h x hx
    · obtain rfl := List.mem_singleton.mp hx
      rw [Function.update_self]
      exact ⟨rfl, rfl⟩

theorem Unheard.recoverDev (h : Unheard s) (hr : recoverDev s a = some s') : Unheard s' := by
  unfold Roster.recoverDev at hr
  split_ifs at hr
  · exact Option.some.inj hr ▸ h
  · exact h.devRegister hr

theorem unheard_recoverServer {db : Db} (h : recoverServer db = some s) : Unheard s := by
  obtain ⟨s₀, hs₀, h⟩ := Option.bind_eq_some_iff.mp h
  have hboot : Unheard (boot db) := fun x hx => absurd hx List.not_mem_nil
  exact of_run (G := fun _ _ => True) (fun _ _ _ hI _ hd => Unheard.recoverDev hI hd)
    (hboot.devRegister hs₀) (guarded_true ..) h

theorem not_alive_nil : ¬ Alive [] := fun ⟨⟨_, hx, _⟩, _⟩ => List.not_mem_nil hx

theorem tracks_recoverServer {db : Db} (h : recoverServer db = some s) (d : ℤ) :
    Tracks d s [] := by
  have hun := unheard_recoverServer h
  refine ⟨fun _ => rfl, fun hd => (hun d hd).1, fun hd => ?_⟩
  rw [(hun d hd).2]
  exact iff_of_false Bool.false_ne_true not_alive_nil

/-- **Who is alive:** in every run from the start of the server, a registered device is active
exactly if it has given a sign of life and it was not visited since then, or not more than three
times since its last heartbeat. -/
theorem active_iff {db : Db} (hs : recoverServer db = some s) {es : List Event}
    (hrun : run (DevEnts.step cksum info) s es = some t) (hd : d ∈ t.devs) :
    (t.dev d).active = true ↔ Alive (signs cksum info d s es) := by
  have h := tracks_run (tracks_recoverServer hs d) hrun
  rw [List.nil_append] at h
  exact h.active hd

/-- The client dies, registers again, and is visited before its next heartbeat. -/
def registersAgain : List Event :=
  [OnlineStats.regAs "1", .heartbeat 101, .heartbeatGod 101, .heartbeatGod 101, .heartbeatGod 101,
    .heartbeatGod 101, OnlineStats.regAs "1", .heartbeatGod 101].map .online

theorem active_registersAgain : ∃ t,
    run (DevEnts.step (fun _ => ['x']) fun _ _ => []) OnlineStats.booted registersAgain = some t ∧
      ¬ (t.dev 101).active = true := by
  have hrun : ((run (DevEnts.step (fun _ => ['x']) fun _ _ => []) OnlineStats.booted
      registersAgain).any fun t => decide (101 ∈ t.devs)) = true := by
    decide +kernel
  obtain ⟨t, ht, hmem⟩ := (Option.any_eq_true ..).mp hrun
  refine ⟨t, ht, ?_⟩
  rw [active_iff OnlineStats.recover_client ht (of_decide_eq_true hmem)]
  decide +kernel

end GSConferencing.Serv.Hbeat
