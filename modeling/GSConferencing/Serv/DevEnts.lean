import GSConferencing.Serv.OnlineStats

/-!
# The cached list of devices

`get_all_devs` replies with `caches.dev_ents`, which `dev_register` appends to and which is written
again when `dev_ents_dirty` is set.

* `coherent_iff`: the reply is right exactly when a list that is not dirty is the rendering.
* `devEnt_inj`: an entry tells the type and the user id.
* `step_kept`, `step_missed`: the steps that keep the list right, and those that do not.
* `coherent_iff_guarded`: the runs along which the reply is right.
-/

namespace GSConferencing.Serv.DevEnts

open GSConferencing.Lib.Run GSConferencing.Lib.Items
open GSConferencing.Serv.Strutil GSConferencing.Serv.CmdHandler GSConferencing.Serv.Roster

/-- What changes the records of devices or reads them. -/
inductive Event where
  /-- A registration, a heartbeat or a visit of the heartbeat thread. -/
  | online (e : OnlineStats.Event)
  | setUserId (cmd : Cmd)
  | getAllDevs (cmd : Cmd)
  | sysStats (cmd : Cmd)
  /-- The manager's `update`, with the arguments after the name of the table. -/
  | update (args : List Str)

variable (cksum : BitVec 32 → Str) (info : Group → ℤ → Str)

def step (s : Group) : Event → Option Group
  | .online e => OnlineStats.step cksum info s e
  | .setUserId cmd => (cmdSetUserId s cmd).map fun r => r.2.2
  | .getAllDevs cmd => some (cmdGetAllDevs s cmd).2.2
  | .sysStats cmd => some (cmdSysStats s cmd).2.2
  | .update args => mUpdate s args

/-- **The property:** a registered device that asks gets the rendering of the devices. -/
def Coherent (s : Group) : Prop :=
  ∀ cmd : Cmd, cmd.deviceId ∈ s.devs → ∃ s', cmdGetAllDevs s cmd =
    (0, repEnd (repAdd (repAdd cmd "OK".toList) (rendering s)), s')

/-- A list that is not dirty is the rendering. -/
def Cached (s : Group) : Prop := s.dirty = false → s.devEnts = rendering s

/-- The user id in the record that `reg` gives to the device. -/
def regUserId (s : Group) (d : ℤ) : Str := if d ∈ s.table then (s.row d).userId else fmtInt d

/-- The record of the device is the one in the table. -/
def UsesRow (s : Group) (d : ℤ) : Prop := d = 0 → s.manager.isNone = true

instance (s : Group) (d : ℤ) : Decidable (UsesRow s d) := inferInstanceAs (Decidable (_ → _))

/-- **The guard:** while the list is not dirty, an active device that registers again keeps its type
and its user id, and an `update` of the record of a registered device keeps the user id. -/
def Kept (s : Group) : Event → Prop
  | .online (.reg cmd) => ∀ type ∈ regType cksum s cmd, s.dirty = false → cmd.deviceId ∈ s.devs →
      (s.dev cmd.deviceId).active = true →
        type = (s.dev cmd.deviceId).type ∧
          regUserId s cmd.deviceId = (s.data cmd.deviceId).userId
  | .update args => ∀ a ∈ args.head?, s.dirty = false → atoi a ∈ s.table →
      Mirror.Fits deviceTable args → atoi a ∈ s.devs → UsesRow s (atoi a) →
        (readDevice args (s.row (atoi a))).userId = (s.row (atoi a)).userId
  | _ => True

instance (s : Group) : ∀ e, Decidable (Kept cksum s e)
  | .online (.reg cmd) => inferInstanceAs (Decidable (∀ type ∈ regType cksum s cmd, _ → _ → _ →
      type = (s.dev cmd.deviceId).type ∧
        regUserId s cmd.deviceId = (s.data cmd.deviceId).userId))
  | .online (.heartbeat _) => isTrue trivial
  | .online (.heartbeatGod _) => isTrue trivial
  | .setUserId _ => isTrue trivial
  | .getAllDevs _ => isTrue trivial
  | .sysStats _ => isTrue trivial
  | .update args => inferInstanceAs (Decidable (∀ a ∈ args.head?, _ → _ → _ → _ → _ →
      (readDevice args (s.row (atoi a))).userId = (s.row (atoi a)).userId))

/-- Ids are distinct, there is a device, and the list is right. -/
structure Inv (s : Group) : Prop where
  nodup : s.devs.Nodup
  nonempty : s.devs ≠ []
  cached : Cached s

/-! ## Entries -/

variable {cksum info} {s s' : Group} {d : ℤ}

/-- **An entry tells the type and the user id** of an id whose activity is known. -/
theorem devEnt_inj {t t' : ℤ} {u u' : Str} {a : Bool} (h : devEnt d t u a = devEnt d t' u' a) :
    t = t' ∧ u = u' := by
  have hcolon : ∀ n, ':' ∉ fmtInt n := notMem_fmtInt (by decide) (by decide)
  unfold devEnt at h
  have htail := (List.cons.inj (List.append_cancel_left h)).2
  obtain ⟨htype, htail⟩ := append_cons_inj (hcolon t) (hcolon t') htail
  exact ⟨fmtInt_injective htype, List.append_cancel_right htail⟩

theorem devEnt_ne_nil (d t : ℤ) (u : Str) (a : Bool) : devEnt d t u a ≠ [] :=
  List.append_ne_nil_of_left_ne_nil (fmtInt_ne_nil d) _

theorem entries_ne_nil (s : Group) (l : List ℤ) : ∀ w ∈ l.map (entryOf s), w ≠ [] := by
  intro w hw
  obtain ⟨a, -, rfl⟩ := List.mem_map.mp hw
  exact devEnt_ne_nil a _ _ _

/-- **A refreshed list** is the rendering. -/
theorem devEnts_refresh (s : Group) : (refreshDevEntsCache s).devEnts = rendering s := by
  have hfold : ∀ (l l' : List ℤ) (t : Group), t.dev = s.dev → t.row = s.row →
      t.manager = s.manager → t.devEnts = [','].intercalate (l'.map (entryOf s)) →
      (l.foldl appendDevEntsCache t).devEnts = [','].intercalate ((l' ++ l).map (entryOf s)) := by
    intro l
    induction l with
    | nil =>
      intro l' t _ _ _ ht
      rw [List.append_nil]
      exact ht
    | cons a l ih =>
      intro l' t hdev hrow hman ht
      have hentry : entryOf t a = entryOf s a := by
        unfold entryOf Group.data
        rw [hdev, hrow, hman]
      rw [List.foldl_cons, ih (l' ++ [a]) (appendDevEntsCache t a) hdev hrow hman,
        List.append_assoc, List.singleton_append]
      show listAdd t.devEnts (entryOf t a) = _
      rw [ht, hentry, listAdd_intercalate (entries_ne_nil s l'), List.map_append, List.map_singleton]
  exact hfold s.devs [] { s with devEnts := [] } rfl rfl rfl rfl

/-- The rendering does not depend on the list. -/
theorem rendering_congr (hdevs : s'.devs = s.devs) (hentry : ∀ a ∈ s.devs, entryOf s' a = entryOf s a) :
    rendering s' = rendering s := by
  unfold rendering
  rw [hdevs, List.map_congr_left hentry]

theorem foldl_append_frame (l : List ℤ) (t : Group) :
    (l.foldl appendDevEntsCache t).devs = t.devs ∧ (l.foldl appendDevEntsCache t).dev = t.dev ∧
      (l.foldl appendDevEntsCache t).row = t.row ∧
      (l.foldl appendDevEntsCache t).manager = t.manager := by
  induction l generalizing t with
  | nil => exact ⟨rfl, rfl, rfl, rfl⟩
  | cons a l ih => exact ih (appendDevEntsCache t a)

theorem cmdGetAllDevs_of_mem {cmd : Cmd} (hd : cmd.deviceId ∈ s.devs) :
    cmdGetAllDevs s cmd =
      (0, repEnd (repAdd (repAdd cmd "OK".toList) (if s.dirty then rendering s else s.devEnts)),
        if s.dirty then refreshDevEntsCache s else s) := by
  unfold cmdGetAllDevs
  rw [if_neg (not_not.mpr hd)]
  simp only
  split
  · rw [devEnts_refresh]
  · rfl

/-- **The reply is right** when a list that is not dirty is the rendering. -/
theorem coherent_iff (hne : s.devs ≠ []) : Coherent s ↔ Cached s := by
  constructor
  · intro h hclean
    obtain ⟨d, l, hl⟩ := List.exists_cons_of_ne_nil hne
    have hd : d ∈ s.devs := by
      rw [hl]
      exact List.mem_cons_self
    obtain ⟨s', hs'⟩ := h ⟨d, [], []⟩ hd
    rw [@cmdGetAllDevs_of_mem _ ⟨d, [], []⟩ hd, hclean, if_neg Bool.false_ne_true] at hs'
    have hrep := congrArg (fun r : Reply Group => r.2.1.rep) hs'
    exact (List.cons.inj (List.append_cancel_left (List.append_cancel_right hrep))).2
  · intro h cmd hd
    refine ⟨if s.dirty then refreshDevEntsCache s else s, ?_⟩
    rw [cmdGetAllDevs_of_mem hd]
    cases hdirty : s.dirty with
    | true => rfl
    | false =>
      rw [if_neg Bool.false_ne_true, h hdirty]

/-! ## What keeps the list -/

/-- **One entry may change:** the list is right after it exactly if the entry is what it was. -/
theorem cached_iff_entry (hs : Inv s) (hd : d ∈ s.devs) (hclean : s.dirty = false)
    (hdevs : s'.devs = s.devs) (hents : s'.devEnts = s.devEnts) (hdirty : s'.dirty = s.dirty)
    (hother : ∀ a ≠ d, entryOf s' a = entryOf s a) :
    Cached s' ↔ entryOf s' d = entryOf s d := by
  have hclean' : Cached s' ↔ rendering s = rendering s' := by
    unfold Cached
    rw [hdirty, hents, hs.cached hclean]
    exact ⟨fun h => h hclean, fun h _ => h⟩
  rw [hclean']
  constructor
  · intro h
    unfold rendering at h
    rw [hdevs] at h
    exact (intercalate_map_inj hs.nodup hd (fun a ha => (hother a ha).symm) h).symm
  · intro h
    refine (rendering_congr hdevs fun a _ => ?_).symm
    by_cases ha : a = d
    · rw [ha, h]
    · exact hother a ha

/-- No entry changes. -/
theorem Inv.of_entries (hs : Inv s) (hdevs : s'.devs = s.devs) (hents : s'.devEnts = s.devEnts)
    (hdirty : s'.dirty = s.dirty) (h : ∀ a ∈ s.devs, entryOf s' a = entryOf s a) : Inv s' := by
  refine ⟨hdevs ▸ hs.nodup, hdevs ▸ hs.nonempty, fun hclean => ?_⟩
  rw [hents, rendering_congr hdevs h]
  exact hs.cached (hdirty.symm.trans hclean)

/-- A dirty list may be anything. -/
theorem Inv.of_dirty (hs : Inv s) (hdevs : s'.devs = s.devs) (hdirty : s'.dirty = true) : Inv s' :=
  ⟨hdevs ▸ hs.nodup, hdevs ▸ hs.nonempty, fun hclean =>
    absurd (hclean.symm.trans hdirty) Bool.false_ne_true⟩

/-- **A new device** is appended. -/
theorem inv_enrolled (hnd : s.devs.Nodup) (hcached : Cached s) (hd : d ∉ s.devs) (type : ℤ) :
    Inv (enrolled s d type) := by
  have hentry : ∀ a ∈ s.devs, entryOf (enrolled s d type) a = entryOf s a := by
    intro a ha
    have hne : a ≠ d := by
      rintro rfl
      exact hd ha
    have hdev : (enrolled s d type).dev a = s.dev a := Function.update_of_ne hne _ _
    unfold entryOf
    rw [hdev]
    rfl
  refine ⟨?_, List.append_ne_nil_of_right_ne_nil _ (List.cons_ne_nil d []), fun hclean => ?_⟩
  · show (s.devs ++ [d]).Nodup
    rw [← List.concat_eq_append]
    exact hnd.concat hd
  · show listAdd s.devEnts (entryOf (enrolled s d type) d) =
      [','].intercalate ((s.devs ++ [d]).map (entryOf (enrolled s d type)))
    rw [hcached hclean, List.map_append, List.map_congr_left hentry, List.map_singleton]
    exact listAdd_intercalate (entries_ne_nil s s.devs) _

/-- **`do_dev_activate`** makes the list dirty, or does nothing. -/
theorem Inv.activate (hs : Inv s) {a : Bool} (h : doDevActivate s d a = some s') : Inv s' := by
  rw [doDevActivate_eq] at h
  split at h
  · cases h
    exact hs
  · split at h
    · cases h
    · cases h
      exact hs.of_dirty rfl rfl

theorem Inv.setHbeat (hs : Inv s) (f : ℤ → ℤ) :
    Inv (s.setDev d fun D => { D with hbeat := f D.hbeat }) := by
  refine hs.of_entries rfl rfl rfl fun a _ => ?_
  have hdev : ((s.setDev d fun D => { D with hbeat := f D.hbeat }).dev a).type = (s.dev a).type ∧
      ((s.setDev d fun D => { D with hbeat := f D.hbeat }).dev a).active = (s.dev a).active := by
    show (Function.update s.dev d _ a).type = _ ∧ (Function.update s.dev d _ a).active = _
    rw [Function.update_apply]
    split
    · next h => rw [h]; exact ⟨rfl, rfl⟩
    · exact ⟨rfl, rfl⟩
  unfold entryOf
  rw [hdev.1, hdev.2]
  rfl

theorem Inv.heartbeat (hs : Inv s) (h : heartbeat s d = some s') : Inv s' := by
  unfold Roster.heartbeat at h
  split at h
  · exact (hs.setHbeat fun _ => 0).activate h
  · cases h
    exact hs

theorem Inv.heartbeatGod (hs : Inv s) (h : heartbeatGod s d = some s') : Inv s' := by
  unfold Roster.heartbeatGod at h
  split at h
  · simp only at h
    split at h
    · exact (hs.setHbeat (· + 1)).activate h
    · cases h
      exact hs.setHbeat (· + 1)
  · cases h
    exact hs

/-- The record that `reg` gives to the device, and the records of the others. -/
theorem data_devUpdateData (s : Group) (d type : ℤ) :
    ((devUpdateData s d type).data d).userId = regUserId s d ∧
      ∀ a ≠ d, (devUpdateData s d type).data a = s.data a := by
  have hman : (devUpdateData s d type).manager = if d = 0 then none else s.manager := by
    unfold devUpdateData
    simp only
    split <;> split <;> rfl
  have hrow : (devUpdateData s d type).row =
      if d ∈ s.table then s.row else Function.update s.row d (newRow d type) := by
    unfold devUpdateData
    simp only
    split <;> split <;> rfl
  have hself : (devUpdateData s d type).data d = (devUpdateData s d type).row d := by
    unfold Group.data
    rw [hman]
    split
    · next h0 => rw [h0]; rfl
    · rfl
  refine ⟨?_, fun a ha => ?_⟩
  · rw [hself, hrow]
    unfold regUserId
    split
    · rfl
    · rw [Function.update_self]
      rfl
  · have hother : (devUpdateData s d type).row a = s.row a := by
      rw [hrow]
      split
      · rfl
      · exact Function.update_of_ne ha _ _
    unfold Group.data
    rw [hman, hother]
    split
    · next h0 =>
      have hd0 : d ≠ 0 := fun h => ha (h0.trans h.symm)
      have hrow0 : (devUpdateData s d type).row 0 = s.row 0 := h0 ▸ hother
      rw [if_neg hd0, hrow0]
    · rfl

/-- **`reg` of an active device** changes the type and the record, and not the list. -/
theorem regDev_active (hd : d ∈ s.devs) (hact : (s.dev d).active = true) (type : ℤ) :
    ∃ s', regDev s d type = some s' ∧ s'.devs = s.devs ∧ s'.devEnts = s.devEnts ∧
      s'.dirty = s.dirty ∧ entryOf s' d = devEnt d type (regUserId s d) (s.dev d).active ∧
      ∀ a ≠ d, entryOf s' a = entryOf s a := by
  have hdev : (devUpdateData (setType s d type) d type).dev =
      Function.update s.dev d { s.dev d with type := type } := by
    rw [devUpdateData_dev, setType_dev hd]
  have hset : setType s d type = s.setDev d fun D => { D with type := type } := if_pos hd
  obtain ⟨hself, hother⟩ := data_devUpdateData (setType s d type) d type
  refine ⟨devUpdateData (setType s d type) d type, ?_, ?_, ?_, ?_, ?_, fun a ha => ?_⟩
  · rw [regDev_of_mem hd, doDevActivate_eq, hdev, Function.update_self, if_pos hact]
  · rw [devUpdateData_devs, setType_devs]
  · rw [hset]
    unfold devUpdateData
    simp only
    split <;> split <;> rfl
  · rw [hset]
    unfold devUpdateData
    simp only
    split <;> split <;> rfl
  · unfold entryOf
    rw [hself, hdev, Function.update_self, hset]
    rfl
  · unfold entryOf
    rw [hother a ha, hdev, Function.update_of_ne ha, hset]
    rfl

/-- **`reg` of a device that is new or not active** makes the list dirty. -/
theorem Inv.regDev (hs : Inv s) (hoff : ¬ (d ∈ s.devs ∧ (s.dev d).active = true)) {type : ℤ}
    (h : regDev s d type = some s') : Inv s' := by
  by_cases hd : d ∈ s.devs
  · have hact : (s.dev d).active ≠ true := fun h => hoff ⟨hd, h⟩
    have hdev : (devUpdateData (setType s d type) d type).dev d =
        { s.dev d with type := type } := by
      rw [devUpdateData_dev, setType_dev hd, Function.update_self]
    rw [regDev_of_mem hd, doDevActivate_eq, hdev, if_neg hact] at h
    split at h
    · cases h
    · cases h
      exact hs.of_dirty (by
        show (devUpdateData (setType s d type) d type).devs = s.devs
        rw [devUpdateData_devs, setType_devs]) rfl
  · rw [regDev_of_notMem hd] at h
    split at h
    · cases h
    · cases h
      refine ⟨?_, List.append_ne_nil_of_right_ne_nil _ (List.cons_ne_nil d []), fun hclean =>
        absurd hclean.symm Bool.false_ne_true⟩
      show ((devUpdateData s d type).devs ++ [d]).Nodup
      rw [devUpdateData_devs, ← List.concat_eq_append]
      exact hs.nodup.concat hd

/-! ## Commands and updates -/

theorem Inv.setUserId (hs : Inv s) {cmd c : Cmd} {code : ℤ}
    (h : cmdSetUserId s cmd = some (code, c, s')) : Inv s' := by
  unfold cmdSetUserId at h
  rcases hargs : cmd.args with - | ⟨p, - | ⟨userId, l⟩⟩
  · rw [hargs, nextArg_nil] at h
    cases h
    exact hs
  · rw [hargs, nextArg_cons, nextArg_nil] at h
    cases h
    exact hs
  · rw [hargs, nextArg_cons, nextArg_cons] at h
    simp only at h
    split at h
    · cases h
      exact hs
    split at h
    · cases h
    · cases h
      refine hs.of_dirty ?_ rfl
      show (s.setData (atoi p) _).devs = s.devs
      unfold Group.setData
      split
      · split <;> rfl
      · rfl

/-- **A refreshed list** is right. -/
theorem Inv.refresh (hs : Inv s) : Inv (refreshDevEntsCache s) := by
  obtain ⟨hdevs, hdev, hrow, hman⟩ := foldl_append_frame s.devs { s with devEnts := [] }
  refine ⟨?_, ?_, fun _ => ?_⟩
  · exact hdevs.symm ▸ hs.nodup
  · exact hdevs.symm ▸ hs.nonempty
  · have hrend : rendering (refreshDevEntsCache s) = rendering s :=
      rendering_congr hdevs fun a _ => by
        unfold entryOf Group.data refreshDevEntsCache
        simp only [hdev, hrow, hman]
    rw [devEnts_refresh, hrend]

theorem Inv.getAllDevs (hs : Inv s) (cmd : Cmd) : Inv (cmdGetAllDevs s cmd).2.2 := by
  by_cases hd : cmd.deviceId ∈ s.devs
  · rw [cmdGetAllDevs_of_mem hd]
    show Inv (if s.dirty then refreshDevEntsCache s else s)
    split
    · exact hs.refresh
    · exact hs
  · have hsame : cmdGetAllDevs s cmd = (errNotReg, cmd, s) := if_pos hd
    rw [hsame]
    exact hs

theorem data_of_usesRow {x : ℤ} (h : UsesRow s x) : s.data x = s.row x := by
  unfold Group.data
  split
  · next h0 =>
    rw [Option.isNone_iff_eq_none.mp (h h0), h0]
    rfl
  · rfl

/-- A record of the table is written: the device that uses it has another one. -/
theorem data_setRow_self {x : ℤ} (f : DbDevice → DbDevice) (h : UsesRow s x) :
    (s.setRow x f).data x = f (s.row x) :=
  (data_of_usesRow (s := s.setRow x f) h).trans (Function.update_self ..)

theorem data_setRow_other {x a : ℤ} (f : DbDevice → DbDevice) (h : ¬ (a = x ∧ UsesRow s a)) :
    (s.setRow x f).data a = s.data a := by
  unfold Group.data
  show (if a = 0 then s.manager.getD (Function.update s.row x (f (s.row x)) 0)
    else Function.update s.row x (f (s.row x)) a) = _
  by_cases hax : a = x
  · have hman : ¬ UsesRow s a := fun hu => h ⟨hax, hu⟩
    unfold UsesRow at hman
    push Not at hman
    obtain ⟨h0, hsome⟩ := hman
    obtain ⟨r, hr⟩ := Option.ne_none_iff_exists'.mp fun hn => hsome (Option.isNone_iff_eq_none.mpr hn)
    rw [if_pos h0, if_pos h0, hr]
    rfl
  · split
    · next h0 =>
      subst h0
      rw [Function.update_of_ne hax]
    · rw [Function.update_of_ne hax]

/-- **An update** of a record, as far as the list is concerned. -/
theorem update_inv_iff (hs : Inv s) {x : ℤ} {f : DbDevice → DbDevice} :
    Cached (s.setRow x f) ↔ (s.dirty = false → x ∈ s.devs → UsesRow s x →
      (f (s.row x)).userId = (s.row x).userId) := by
  have hentry : ∀ a, ¬ (a = x ∧ UsesRow s a) → entryOf (s.setRow x f) a = entryOf s a := by
    intro a ha
    unfold entryOf
    rw [data_setRow_other f ha]
    rfl
  cases hdirty : s.dirty with
  | true =>
    refine ⟨fun _ h => absurd h.symm Bool.false_ne_true, fun _ hclean => ?_⟩
    exact absurd (hclean.symm.trans hdirty) Bool.false_ne_true
  | false =>
    by_cases hx : x ∈ s.devs ∧ UsesRow s x
    · have hself : (s.setRow x f).data x = f (s.row x) := data_setRow_self f hx.2
      have hrow : s.data x = s.row x := data_of_usesRow hx.2
      have hcached : Cached (s.setRow x f) ↔ entryOf (s.setRow x f) x = entryOf s x :=
        cached_iff_entry hs hx.1 hdirty rfl rfl rfl fun a ha => hentry a fun h => ha h.1
      have hents : entryOf (s.setRow x f) x = entryOf s x ↔
          (f (s.row x)).userId = (s.row x).userId := by
        unfold entryOf
        rw [hself, hrow]
        exact ⟨fun h => (devEnt_inj h).2, fun h => by rw [h]; rfl⟩
      rw [hcached, hents]
      exact ⟨fun h _ _ _ => h, fun h => h rfl hx.1 hx.2⟩
    · refine ⟨fun _ _ hd hu => absurd ⟨hd, hu⟩ hx, fun _ => ?_⟩
      have hinv : Inv (s.setRow x f) := hs.of_entries rfl rfl rfl fun a ha => hentry a fun h =>
        hx ⟨h.1 ▸ ha, h.1 ▸ h.2⟩
      exact hinv.cached

/-! ## Steps -/

/-- **A step that meets the guard** keeps the list right. -/
theorem step_kept (hs : Inv s) {e : Event} (hk : Kept cksum s e)
    (h : step cksum info s e = some s') : Inv s' := by
  cases e with
  | online e =>
    cases e with
    | reg cmd =>
      replace h : (cmdReg cksum info s cmd).map (fun r => r.2.2) = some s' := h
      rw [cmdReg_state] at h
      cases htype : regType cksum s cmd with
      | none =>
        rw [htype] at h
        cases h
        exact hs
      | some type =>
        rw [htype] at h
        replace hk := hk type htype
        by_cases hon : cmd.deviceId ∈ s.devs ∧ (s.dev cmd.deviceId).active = true
        · obtain ⟨t, ht, hdevs, hents, hdirty, hself, hother⟩ := regDev_active hon.1 hon.2 type
          cases ht.symm.trans h
          cases hclean : s.dirty with
          | true => exact hs.of_dirty hdevs (hdirty.trans hclean)
          | false =>
            obtain ⟨htype', huser⟩ := hk hclean hon.1 hon.2
            refine ⟨hdevs ▸ hs.nodup, hdevs ▸ hs.nonempty, ?_⟩
            rw [cached_iff_entry hs hon.1 hclean hdevs hents hdirty hother, hself, htype', huser]
            rfl
        · exact hs.regDev hon h
    | heartbeat d => exact hs.heartbeat h
    | heartbeatGod d => exact hs.heartbeatGod h
  | setUserId cmd =>
    obtain ⟨⟨code, c, t⟩, hc, rfl⟩ := Option.map_eq_some_iff.mp h
    exact hs.setUserId hc
  | getAllDevs cmd =>
    cases h
    exact hs.getAllDevs cmd
  | sysStats cmd =>
    cases h
    unfold cmdSysStats
    split
    · exact hs
    · exact hs
  | update args =>
    replace h : mUpdate s args = some s' := h
    unfold mUpdate at h
    split at h
    · cases h
      exact hs
    · next a l =>
      split at h
      · cases h
      split at h
      · cases h
      · next htable hfits =>
        cases h
        refine ⟨hs.nodup, hs.nonempty, (update_inv_iff hs).mpr fun hclean hd hu => ?_⟩
        exact hk a rfl hclean (not_not.mp htable) (not_not.mp hfits) hd hu

/-- **A step that misses the guard** leaves a wrong list. -/
theorem step_missed (hs : Inv s) {e : Event} (hk : ¬ Kept cksum s e) :
    ∃ s', step cksum info s e = some s' ∧ ¬ Coherent s' := by
  cases e with
  | online e =>
    cases e with
    | reg cmd =>
      unfold Kept at hk
      push Not at hk
      obtain ⟨type, htype, hclean, hd, hact, hne⟩ := hk
      rw [Option.mem_def] at htype
      obtain ⟨t, ht, hdevs, hents, hdirty, hself, hother⟩ := regDev_active hd hact type
      refine ⟨t, ?_, fun hc => ?_⟩
      · show (cmdReg cksum info s cmd).map (fun r => r.2.2) = some t
        rw [cmdReg_state, htype]
        exact ht
      · rw [coherent_iff (hdevs ▸ hs.nonempty),
          cached_iff_entry hs hd hclean hdevs hents hdirty hother, hself] at hc
        obtain ⟨htype', huser⟩ := devEnt_inj hc
        exact hne htype' huser
    | heartbeat d => exact absurd trivial hk
    | heartbeatGod d => exact absurd trivial hk
  | setUserId cmd => exact absurd trivial hk
  | getAllDevs cmd => exact absurd trivial hk
  | sysStats cmd => exact absurd trivial hk
  | update args =>
    unfold Kept at hk
    push Not at hk
    obtain ⟨a, ha, hclean, htable, hfits, hd, hu, hne⟩ := hk
    obtain ⟨l, rfl⟩ := List.head?_eq_some_iff.mp (Option.mem_def.mp ha)
    refine ⟨s.setRow (atoi a) (readDevice (a :: l)), ?_, fun hc => ?_⟩
    · show mUpdate s (a :: l) = _
      unfold mUpdate
      simp only
      rw [if_neg (not_not.mpr htable), if_neg (not_not.mpr hfits)]
    · have hcached : Cached (s.setRow (atoi a) (readDevice (a :: l))) :=
        (coherent_iff (s := s.setRow (atoi a) (readDevice (a :: l))) hs.nonempty).mp hc
      exact hne ((update_inv_iff hs).mp hcached hclean hd hu)

/-! ## Runs -/

/-- **The start:** the list has an entry for each device. -/
theorem recoverServer_inv {db : Db} (h : recoverServer db = some s) : Inv s := by
  obtain ⟨s₀, hs₀, h⟩ := Option.bind_eq_some_iff.mp h
  have hstep : ∀ {s s' : Group} {d type : ℤ}, s.devs.Nodup → Cached s →
      devRegister s d type = some s' → s = s' ∨ Inv s' := by
    intro s s' d type hnd hc h
    rw [devRegister_eq] at h
    split at h
    · cases h
      exact .inl rfl
    · next hd =>
      split at h
      · cases h
      · cases h
        exact .inr (inv_enrolled hnd hc hd type)
  have hfirst : Inv s₀ := by
    rcases hstep (s := boot db) List.nodup_nil (fun _ => rfl) hs₀ with rfl | hI
    · cases hs₀
    · exact hI
  refine of_run (G := fun _ _ => True) (fun t d t' hI _ hd => ?_) hfirst (guarded_true ..) h
  unfold recoverDev at hd
  split at hd
  · cases hd
    exact hI
  split at hd
  · cases hd
  · rcases hstep hI.nodup hI.cached hd with rfl | hI'
    · exact hI
    · exact hI'

/-- **The list of devices is right** in every state of a run from the recovered server exactly when
every step of the run meets the guard. -/
theorem coherent_iff_guarded {db : Db} (hs : recoverServer db = some s) (es : List Event) :
    Along (step cksum info) Coherent s es ↔ Guarded (step cksum info) (Kept cksum) s es :=
  along_iff_guarded (I := Inv) (E := fun _ => True) (fun _ h => (coherent_iff h.nonempty).mpr h.cached)
    (fun _ _ _ h _ hk hs' => step_kept h hk hs') (fun _ _ h _ hk => step_missed h hk)
    (recoverServer_inv hs) fun _ _ => trivial

/-- The client registers, gets a user id, and asks for the list. -/
def quiet : List Event :=
  [.online (OnlineStats.regAs "1"), .setUserId ⟨101, ["101".toList, "ann".toList], []⟩,
    .getAllDevs ⟨101, [], []⟩, .online (OnlineStats.regAs "1")]

theorem coherent_iff_guarded_quiet :
    Along (step (fun _ => ['x']) fun _ _ => []) Coherent OnlineStats.booted quiet :=
  (coherent_iff_guarded OnlineStats.recover_client quiet).mpr (by decide +kernel)

/-- The client registers again with another type after the list has been asked for. -/
def retyped : List Event :=
  [.online (OnlineStats.regAs "1"), .getAllDevs ⟨101, [], []⟩, .online (OnlineStats.regAs "2")]

/-- **A registration with another type:** the list still has the old one. -/
theorem stale_retyped : (run (step (fun _ => ['x']) fun _ _ => []) OnlineStats.booted retyped).map
    (fun s => (s.devs, s.dirty, s.devEnts, rendering s)) =
      some ([0, 101], false, "0:0::0,101:1:101:1".toList, "0:0::0,101:2:101:1".toList) := by
  decide +kernel

theorem not_forall_coherent : ¬ ∀ cksum info db s es, recoverServer db = some s →
    Along (step cksum info) Coherent s es := by
  intro h
  have hall := h (fun _ => ['x']) (fun _ _ => []) _ _ retyped OnlineStats.recover_client
  obtain ⟨s, hcoherent, hobs⟩ := hall.observed stale_retyped
  simp only [Prod.mk.injEq] at hobs
  obtain ⟨hdevs, hclean, hents, hrend⟩ := hobs
  have hcached := (coherent_iff (by rw [hdevs]; decide)).mp hcoherent hclean
  rw [hents, hrend] at hcached
  exact absurd hcached (by decide)

end GSConferencing.Serv.DevEnts
