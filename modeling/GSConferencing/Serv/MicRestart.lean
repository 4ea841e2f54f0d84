import GSConferencing.Serv.MicSaves
import GSConferencing.Serv.OpenRuns

/-!
# Open microphones across a restart

The server is killed between two steps and starts again from the database as it has been saved so
far: `recover_devs` opens the microphones that were open.

* `recovered`: what a start makes of the records.
* `recoverServer_iff`: when it has a result.
* `restart_reopens`: after any run, a restart brings back the devices that were open, in their tags,
  and lists that are right even if those before the restart were not.
-/

namespace GSConferencing.Serv.MicRestart

open GSConferencing.Lib.CyclicList GSConferencing.Lib.Run
open GSConferencing.Serv.Strutil GSConferencing.Serv.CmdHandler GSConferencing.Serv.Dev
open GSConferencing.Serv.Tag GSConferencing.Serv.Interp GSConferencing.Serv.Devctl
open GSConferencing.Serv.Ptc GSConferencing.Serv.Discuss
open GSConferencing.Serv.Server (Db Event boot groupCreate recoverDev recoverServer restoreDiscuss
  restoreSub recoverServer_some)
open GSConferencing.Serv.OpenView GSConferencing.Serv.Frame GSConferencing.Serv.Mics
open GSConferencing.Serv.OpenRuns GSConferencing.Serv.MicSaves

/-! ## The database -/

/-- What has been saved last. -/
structure Saved where
  row : ℤ → DbDevice
  group : DbGroup

structure System where
  server : Server
  saved : Saved

/-- Whether the record of `d` has been saved. -/
def savesDevice (l : List Out) (d : ℤ) : Bool := l.any fun
  | .saveDevice d' => d' = d
  | _ => false

def savesGroup (l : List Out) : Bool := l.any fun
  | .saveGroup => true
  | _ => false

/-- The messages `l` of a step, which leaves the server in the state `s`: `device_save` is the last
thing that the step does to a record, and `group_save` to the group. -/
def Saved.write (m : Saved) (l : List Out) (s : Server) : Saved where
  row d := if savesDevice l d then s.row d else m.row d
  group := if savesGroup l then s.grp.dbData else m.group

def step (x : System) (e : Event) : Option System :=
  (Server.step x.server e).map fun s => ⟨s, x.saved.write (sent x.server s) s⟩

/-- The server that has started from the database. -/
def start (db : Db) (s : Server) : System := ⟨s, Saved.write ⟨db.row, db.group⟩ s.out s⟩

/-- The database a restart begins with. -/
def Saved.db (m : Saved) (db : Db) : Db := { db with row := m.row, group := m.group }

theorem savesDevice_iff {l : List Out} {d : ℤ} :
    savesDevice l d = true ↔ Out.saveDevice d ∈ l := by
  unfold savesDevice
  rw [List.any_eq_true]
  constructor
  · rintro ⟨o, ho, h⟩
    cases o with
    | saveDevice d' =>
      rw [decide_eq_true_eq] at h
      exact h ▸ ho
    | deviceCmd => cases h
    | brcastAll => cases h
    | brcastTag => cases h
    | brcastMulti => cases h
    | interpRep => cases h
    | saveGroup => cases h
  · intro h
    exact ⟨_, h, decide_eq_true rfl⟩

/-! ## The start -/

section Start
variable {s s' : Server} {d : ℤ} {db : Db}

theorem micView_devSubscribe (s : Server) (d t : ℤ) : micView (devSubscribe s d t) = micView s :=
  devSubscribe_same micView_interpSetRepTag (fun _ _ _ => micView_setTag ..)
    (fun _ _ _ => micView_setDev_other _ _ _ rfl)
    (fun _ _ _ => micView_setRow_other _ _ _ rfl rfl) s d t

theorem micView_restoreSub (s : Server) (d : ℤ) : micView (restoreSub s d) = micView s :=
  restoreSub_same micView_requestTag micView_devSubscribe s d

/-- **`dev_register`** puts a new device into the tag of its record. -/
theorem micView_devRegister (hd : d ∉ s.devs) (type : ℤ) :
    micView (devRegister s d type) = { micView s with
      devs := s.devs ++ [d]
      mic := Function.update (micView s).mic d ((s.row d).tagid, false) } := by
  have hnew : micView ((tagAddDevice (requestTag (Server.setDev { s with devs := s.devs ++ [d] } d
      fun _ => newDev type) (s.row d).tagid) (s.row d).tagid d).setDev d fun D =>
        { D with tag := (s.row d).tagid }) = { micView s with
      devs := s.devs ++ [d]
      mic := Function.update (micView s).mic d ((s.row d).tagid, false) } := by
    rw [micView_setDev]
    unfold tagAddDevice
    rw [micView_setTag, micView_requestTag, micView_setDev]
    simp only [Server.setTag, dev_requestTag, Server.setDev, Function.update_self,
      Function.update_idem]
    rfl
  unfold devRegister
  rw [if_neg hd]
  simp only []
  have hucast (s : Server) (t x : ℤ) : micView (tagCheckUcast s t x) = micView s :=
    tagCheckUcast_same (fun _ _ _ => micView_setTag ..) s t x
  split
  · rw [micView_devSubscribe, micView_requestTag, hucast, hnew]
  · rw [hucast, hnew]

theorem quiet_restorePtc (s : Server) (d : ℤ) : Quiet s (if isPtc s d then addPtc s d else s) := by
  split
  · exact quiet_addPtc ..
  · exact Quiet.refl s

/-- **`restore_discuss`** opens the microphone that the record says is open. -/
theorem micView_restoreDiscuss (h : restoreDiscuss s d = some s')
    (hmic : (micView s).mic d = ((s.row d).tagid, false)) :
    micView s' =
      { micView s with mic := Function.update (micView s).mic d ((micView s).row d) } := by
  unfold restoreDiscuss at h
  have hptc := (quiet_restorePtc s d).micView
  generalize (if isPtc s d then addPtc s d else s) = s₀ at hptc h
  simp only [] at h
  have hrow : (micView s₀).row d = (micView s).row d := by rw [hptc]
  have hmic₀ : (micView s₀).mic d = ((s₀.row d).tagid, false) := by
    rw [hptc, hmic]
    exact congrArg (fun x : ℤ × Bool => (x.1, false)) hrow.symm
  rw [← hptc]
  split at h
  · next hopen =>
    obtain ⟨s₁, hs₁, h⟩ := Option.bind_eq_some_iff.mp h
    have hflag : (micView s₀).row d = ((s₀.row d).tagid, true) :=
      Prod.ext rfl (decide_eq_true hopen)
    have htag : (s₀.dev d).tag = (s₀.row d).tagid := congrArg Prod.fst hmic₀
    rw [(quiet_ptcPut h).micView, (addOpen_writes hs₁).2, htag, ← hflag, Function.update_eq_self]
  · next hclosed =>
    rw [← Option.some.inj h]
    have hflag : (micView s₀).row d = ((s₀.row d).tagid, false) :=
      Prod.ext rfl (decide_eq_false hclosed)
    rw [hflag, ← hmic₀, Function.update_eq_self]

/-- **One device of the table**. -/
theorem recoverDev_micView (h : recoverDev s d = some s') : micView s' =
    if (s.row d).enabled = 0 then micView s
    else { micView s with
      devs := s.devs ++ [d]
      mic := Function.update (micView s).mic d ((micView s).row d) } := by
  unfold recoverDev at h
  split at h
  · next hen =>
    cases h
    rw [if_pos hen]
  · next hen =>
    rw [if_neg hen]
    split at h
    · cases h
    · next hd =>
      have honline : micView (s.setRow d fun r => { r with online := 0 }) = micView s :=
        micView_setRow_other _ _ _ rfl rfl
      generalize (s.setRow d fun r => { r with online := 0 }) = s₁ at h honline
      have hdevs : s₁.devs = s.devs := congrArg MicView.devs honline
      rw [← hdevs] at hd
      have hsub := (micView_restoreSub (devRegister s₁ d (s₁.row d).type) d).trans
        (micView_devRegister hd (s₁.row d).type)
      simp only [] at h
      generalize restoreSub (devRegister s₁ d (s₁.row d).type) d = s₂ at hsub h
      have hrow : (micView s₂).row = (micView s₁).row := by rw [hsub]
      have htag : (s₂.row d).tagid = (s₁.row d).tagid := congrArg Prod.fst (congrFun hrow d)
      have hmic : (micView s₂).mic d = ((s₂.row d).tagid, false) := by
        rw [hsub, htag]
        exact Function.update_self ..
      rw [micView_restoreDiscuss h hmic, hrow, hsub]
      simp only [Function.update_idem, honline, hdevs]

/-- **The table:** the devices that are enabled come in its order, as their records say. -/
theorem recoverDevs_micView {l : List ℤ} (h : l.foldlM recoverDev s = some s') :
    s'.devs = s.devs ++ l.filter (fun d => (s.row d).enabled ≠ 0) ∧
      (micView s').row = (micView s).row ∧ (micView s').enabled = (micView s).enabled ∧
      ∀ d, (micView s').mic d =
        if d ∈ l ∧ (s.row d).enabled ≠ 0 then (micView s).row d else (micView s).mic d := by
  induction l generalizing s with
  | nil =>
    cases h
    refine ⟨(List.append_nil _).symm, rfl, rfl, fun d => ?_⟩
    rw [if_neg fun h => absurd h.1 List.not_mem_nil]
  | cons d l ih =>
    rw [List.foldlM_cons] at h
    obtain ⟨s₁, hs₁, h⟩ := Option.bind_eq_some_iff.mp h
    have hview := recoverDev_micView hs₁
    obtain ⟨hdevs, hrow, henabled, hmic⟩ := ih h
    have hen₁ : (micView s₁).enabled = (micView s).enabled := by
      rw [hview]
      split <;> rfl
    have hrow₁ : (micView s₁).row = (micView s).row := by
      rw [hview]
      split <;> rfl
    have henAt : ∀ x, (s₁.row x).enabled = (s.row x).enabled := congrFun hen₁
    refine ⟨?_, hrow.trans hrow₁, henabled.trans hen₁, fun x => ?_⟩
    · rw [hdevs]
      have hdevs₁ : s₁.devs = (micView s₁).devs := rfl
      rw [hdevs₁, hview]
      simp only [henAt]
      by_cases hen : (s.row d).enabled = 0
      · rw [if_pos hen, List.filter_cons_of_neg (by simpa using hen)]
        rfl
      · rw [if_neg hen, List.filter_cons_of_pos (by simpa using hen)]
        exact List.append_assoc ..
    · rw [hmic x, henAt x, hrow₁, hview]
      by_cases hl : x ∈ l ∧ (s.row x).enabled ≠ 0
      · rw [if_pos hl, if_pos ⟨List.mem_cons_of_mem d hl.1, hl.2⟩]
      rw [if_neg hl]
      by_cases hen : (s.row d).enabled = 0
      · rw [if_pos hen, if_neg]
        rintro ⟨hx, hxen⟩
        rcases List.mem_cons.mp hx with rfl | hx
        · exact hxen hen
        · exact hl ⟨hx, hxen⟩
      · rw [if_neg hen]
        by_cases hxd : x = d
        · subst hxd
          rw [if_pos ⟨List.mem_cons_self, hen⟩]
          exact Function.update_self ..
        · rw [if_neg]
          · exact Function.update_of_ne hxd ..
          · rintro ⟨hx, hxen⟩
            exact hl ⟨(List.mem_cons.mp hx).resolve_left hxd, hxen⟩

/-- The records of the devices, with the one that the manager device gets. -/
def rowsOf (db : Db) : ℤ → ℤ × Bool := Function.update (fun d => ofRow (db.row d)) 0 (1, false)

theorem rowsOf_zero (db : Db) : rowsOf db 0 = (1, false) := Function.update_self ..

theorem rowsOf_of_ne (db : Db) (hd : d ≠ 0) : rowsOf db d = ofRow (db.row d) := by
  unfold rowsOf
  rw [Function.update_of_ne hd]

def enabledOf (db : Db) : ℤ → ℤ := Function.update (fun d => (db.row d).enabled) 0 0

/-- The devices of the server that starts from the database. -/
def devsOf (db : Db) : List ℤ := 0 :: db.table.filter fun d => (db.row d).enabled ≠ 0

/-- No record with the id of the manager device is enabled. -/
def ManagerFree (db : Db) : Prop := ¬ (0 ∈ db.table ∧ (db.row 0).enabled ≠ 0)

theorem enabledOf_eq (hfree : ManagerFree db) (hd : d ∈ db.table) :
    enabledOf db d = (db.row d).enabled := by
  unfold enabledOf
  by_cases hz : d = 0
  · subst hz
    have hen : (db.row 0).enabled = 0 := by
      by_contra hen
      exact hfree ⟨hd, hen⟩
    rw [Function.update_self, hen]
  · rw [Function.update_of_ne hz]

theorem managerFree_of_recover (h : recoverServer db = some s) : ManagerFree db := by
  intro hmanager
  unfold recoverServer at h
  rw [if_pos hmanager] at h
  cases h

theorem micView_addManagerDev (h : micView s = micView (boot db)) : micView (addManagerDev s) =
    { devs := [0], mic := Function.update (micView (boot db)).mic 0 (1, false), row := rowsOf db,
      enabled := enabledOf db } := by
  have hdevs : s.devs = [] := congrArg MicView.devs h
  unfold addManagerDev
  simp only []
  rw [micView_devRegister (by
    show (0 : ℤ) ∉ s.devs
    rw [hdevs]
    exact List.not_mem_nil), micView_setRow, h]
  refine MicView.ext ?_ ?_ rfl rfl
  · show s.devs ++ [0] = [0]
    rw [hdevs, List.nil_append]
  · refine congrArg (fun t : ℤ => Function.update (micView (boot db)).mic 0 (t, false)) ?_
    exact congrArg DbDevice.tagid (Function.update_self 0 _ s.row)

/-- **A start:** the enabled devices behind the manager device, as their records say. -/
theorem recovered (h : recoverServer db = some s) : s.devs = devsOf db ∧
    (micView s).row = rowsOf db ∧ (micView s).enabled = enabledOf db ∧
    ∀ d ∈ s.devs, Agrees s d := by
  have hfree := managerFree_of_recover h
  obtain ⟨s₀, s₁, hs₀, hs₁, rfl⟩ := recoverServer_some h
  have hgo : micView (ptcGoCurrent s₁) = micView s₁ :=
    ptcGoCurrent_same micView_sparesPtc.ptcs micView_send s₁
  have hmanager := micView_addManagerDev (groupCreate_same micView_setGrp hs₀)
  obtain ⟨hdevs, hrow, hen, hmic⟩ := recoverDevs_micView hs₁
  have hen₀ : ∀ d, ((addManagerDev s₀).row d).enabled = enabledOf db d :=
    congrFun (congrArg MicView.enabled hmanager)
  simp only [hen₀] at hdevs hmic
  rw [hmanager] at hrow hen hmic
  have hdevs₀ : (addManagerDev s₀).devs = [0] := congrArg MicView.devs hmanager
  have hfilter : (db.table.filter fun d => enabledOf db d ≠ 0) =
      db.table.filter fun d => (db.row d).enabled ≠ 0 :=
    List.filter_congr fun d hd => by rw [enabledOf_eq hfree hd]
  have hall : s₁.devs = devsOf db := by
    rw [hdevs, hdevs₀, hfilter]
    rfl
  refine ⟨(congrArg MicView.devs hgo).trans hall, by rw [hgo, hrow], by rw [hgo, hen], ?_⟩
  intro d hd
  have hd₁ : d ∈ devsOf db := by
    have hsame : (ptcGoCurrent s₁).devs = s₁.devs := congrArg MicView.devs hgo
    rwa [hsame, hall] at hd
  unfold Agrees
  rw [hgo, hrow, hmic]
  by_cases hz : d = 0
  · subst hz
    have hoff : enabledOf db 0 = 0 := Function.update_self ..
    rw [if_neg fun h => h.2 hoff]
    have hmic₀ : Function.update (micView (boot db)).mic 0 (1, false) 0 = (1, false) :=
      Function.update_self ..
    exact (rowsOf_zero db).trans hmic₀.symm
  · have hmem : d ∈ db.table ∧ (db.row d).enabled ≠ 0 := by
      simpa using (List.mem_cons.mp hd₁).resolve_left hz
    rw [if_pos ⟨hmem.1, by rw [enabledOf_eq hfree hmem.1]; exact hmem.2⟩]

/-! ## When the server starts -/

/-- The members of the discussion that was open have room. -/
def Fits (db : Db) : Prop := db.group.discussId ≠ 0 →
  ∀ r ∈ db.discuss.find? fun r => r.id = db.group.discussId,
    (forEachId r.members).length ≤ memberMax

theorem groupCreate_iff (s : Server) : (∃ s', groupCreate s = some s') ↔
    (s.grp.dbData.discussId ≠ 0 →
      ∀ r ∈ s.discussTable.find? fun r => r.id = s.grp.dbData.discussId,
        (forEachId r.members).length ≤ memberMax) := by
  unfold groupCreate
  by_cases hz : s.grp.dbData.discussId = 0
  · rw [if_pos hz]
    exact ⟨fun _ h => absurd hz h, fun _ => ⟨s, rfl⟩⟩
  · rw [if_neg hz]
    cases hfind : s.discussTable.find? fun r => r.id = s.grp.dbData.discussId with
    | none => exact ⟨fun _ _ r hr => absurd hr (Option.not_mem_none r), fun _ => ⟨s, rfl⟩⟩
    | some r =>
      have hsetup : (∃ s', groupSetupDiscuss s r = some s') ↔
          (forEachId r.members).length ≤ memberMax := by
        unfold groupSetupDiscuss
        simp only [List.length_map]
        split
        · next hlong =>
          refine ⟨fun h => ?_, fun h => absurd h (Nat.not_le.mpr hlong)⟩
          obtain ⟨s', h⟩ := h
          cases h
        · next hfit => exact ⟨fun _ => Nat.not_lt.mp hfit, fun _ => ⟨_, rfl⟩⟩
      rw [hsetup]
      constructor
      · intro h _ r' hr'
        cases hr'
        exact h
      · exact fun h => h hz r rfl

/-- **One device** that is not there yet comes back. -/
theorem recoverDev_total (h : Good s) (hnew : (s.row d).enabled ≠ 0 → d ∉ s.devs) :
    ∃ s', recoverDev s d = some s' := by
  obtain ⟨h1, ls, pl, hI⟩ := h
  unfold recoverDev
  by_cases hen : (s.row d).enabled = 0
  · exact ⟨s, if_pos hen⟩
  have hd := hnew hen
  rw [if_neg hen, if_neg hd]
  obtain ⟨h2, ⟨ls₂, hI₂⟩, hd₂, ho₂⟩ := devRegister_inv
    (s := s.setRow d fun r => { r with online := 0 }) (d := d) hI hd
    ((s.setRow d fun r => { r with online := 0 }).row d).type (Or.inl h1)
  obtain ⟨h3, ⟨ls₃, hI₃⟩, hdevs, hopn⟩ := restoreSub_inv hI₂ h2 d
  obtain ⟨s', hs', -⟩ := restoreDiscuss_inv (d := d) hI₃ h3 (hdevs ▸ hd₂)
    ((congrFun hopn d).trans ho₂)
  exact ⟨s', hs'⟩

theorem recoverDevs_total {l : List ℤ} (h : Good s) (hl : l.Nodup)
    (hnew : ∀ d ∈ l, (s.row d).enabled ≠ 0 → d ∉ s.devs) :
    ∃ s', l.foldlM recoverDev s = some s' := by
  induction l generalizing s with
  | nil => exact ⟨s, rfl⟩
  | cons d l ih =>
    obtain ⟨hd, hl⟩ := List.nodup_cons.mp hl
    obtain ⟨hdnew, hnew⟩ := List.forall_mem_cons.mp hnew
    obtain ⟨s₁, hs₁⟩ := recoverDev_total h hdnew
    have hview := recoverDev_micView hs₁
    have hdevs : ∀ x ∈ s₁.devs, x ∈ s.devs ∨ x = d := by
      intro x (hx : x ∈ (micView s₁).devs)
      rw [hview] at hx
      split at hx
      · exact .inl hx
      · simpa using hx
    have hen : (micView s₁).enabled = (micView s).enabled := by
      rw [hview]
      split <;> rfl
    have hnew₁ : ∀ x ∈ l, (s₁.row x).enabled ≠ 0 → x ∉ s₁.devs := by
      intro x hx hxen hmem
      have hxen : (s.row x).enabled ≠ 0 := fun h => hxen ((congrFun hen x).trans h)
      rcases hdevs x hmem with hmem | rfl
      · exact hnew x hx hxen hmem
      · exact hd hx
    obtain ⟨s', hs'⟩ := ih (recoverDev_good h hs₁) hl hnew₁
    exact ⟨s', by rw [List.foldlM_cons, hs₁]; exact hs'⟩

/-- **When a start has a result.** -/
theorem recoverServer_iff (db : Db) :
    (∃ s, recoverServer db = some s) ↔ ManagerFree db ∧ Fits db := by
  constructor
  · rintro ⟨s, h⟩
    obtain ⟨s₀, s₁, hs₀, -, -⟩ := recoverServer_some h
    exact ⟨managerFree_of_recover h, (groupCreate_iff (boot db)).mp ⟨s₀, hs₀⟩⟩
  · rintro ⟨hfree, hfits⟩
    obtain ⟨s₀, hs₀⟩ := (groupCreate_iff (boot db)).mpr hfits
    have hmanager := micView_addManagerDev (groupCreate_same micView_setGrp hs₀)
    have hgood : Good (addManagerDev s₀) := by
      have hview := groupCreate_view hs₀
      have hdevs : s₀.devs = [] := congrArg View.devs hview
      exact addManagerDev_good (hview ▸ boot_inv db) (hdevs ▸ List.not_mem_nil)
    have hnew : ∀ d ∈ db.table, ((addManagerDev s₀).row d).enabled ≠ 0 →
        d ∉ (addManagerDev s₀).devs := by
      intro d hd hen hmem
      have hdevs : (addManagerDev s₀).devs = [0] := congrArg MicView.devs hmanager
      rw [hdevs, List.mem_singleton] at hmem
      subst hmem
      have hoff : ((addManagerDev s₀).row 0).enabled = enabledOf db 0 :=
        congrFun (congrArg MicView.enabled hmanager) 0
      exact hen (hoff.trans (Function.update_self ..))
    obtain ⟨s₁, hs₁⟩ := recoverDevs_total hgood db.nodup hnew
    refine ⟨ptcGoCurrent s₁, ?_⟩
    unfold recoverServer
    rw [if_neg hfree, hs₀]
    simp only [Option.bind_eq_bind, Option.bind_some, hs₁]

end Start

/-! ## Runs -/

/-- The database has what the records say about tags and microphones. -/
structure Stored (db : Db) (x : System) : Prop where
  devs : x.server.devs = devsOf db
  enabled : (micView x.server).enabled = enabledOf db
  agrees : ∀ d ∈ x.server.devs, Agrees x.server d
  saved : ∀ d, d ≠ 0 → ofRow (x.saved.row d) = (micView x.server).row d
  savedEnabled : ∀ d ∈ db.table, (x.saved.row d).enabled = enabledOf db d

section Runs
variable {db : Db} {s : Server} {x x' : System} {e : Event}

theorem stored_start (h : recoverServer db = some s) : Stored db (start db s) := by
  obtain ⟨hdevs, hrow, hen, hagree⟩ := recovered h
  refine ⟨hdevs, hen, hagree, fun d hd => ?_, fun d hd => ?_⟩
  · show ofRow (if savesDevice s.out d then s.row d else db.row d) = (micView s).row d
    split
    · rfl
    · rw [hrow, rowsOf_of_ne db hd]
  · show (if savesDevice s.out d then s.row d else db.row d).enabled = enabledOf db d
    split
    · exact congrFun hen d
    · exact (enabledOf_eq (managerFree_of_recover h) hd).symm

/-- **One step:** what it changes of a record is in the database afterwards. -/
theorem stored_step (h : Stored db x) (hx : step x e = some x') : Stored db x' := by
  obtain ⟨s', hs', rfl⟩ := Option.map_eq_some_iff.mp hx
  have hw := step_writes hs'
  refine ⟨hw.devs.trans h.devs, hw.enabled.trans h.enabled, fun d hd => ?_, fun d hd => ?_,
    fun d hd => ?_⟩
  · have hmem : d ∈ x.server.devs := hw.devs ▸ hd
    exact hw.agrees d (h.agrees d hmem)
  · show ofRow (if savesDevice (sent x.server s') d then s'.row d else x.saved.row d) = _
    split
    · rfl
    · next hsave =>
      have hsame := (hw.saved d hd).resolve_right fun hmem => hsave (savesDevice_iff.mpr hmem)
      exact (h.saved d hd).trans hsame.symm
  · show (if savesDevice (sent x.server s') d then s'.row d else x.saved.row d).enabled = _
    split
    · exact congrFun (hw.enabled.trans h.enabled) d
    · exact h.savedEnabled d hd

/-- **After the restart** there are the same devices in the same tags, and the list of a tag holds
the devices that were open in it, other than the manager device, which has no record. -/
structure Reopened (s s' : Server) : Prop where
  devs : s'.devs = s.devs
  tag : ∀ d ∈ s.devs, d ≠ 0 → (s'.dev d).tag = (s.dev d).tag ∧ (s.dev d).tag ∈ s'.tags
  lists : ∀ t ∈ s'.tags, ∃ l, Ring s'.openL t l ∧
    (∀ d, d ∈ l ↔ d ≠ 0 ∧ d ∈ s.devs ∧ (s.dev d).tag = t ∧ (s.dev d).discussOpen ≠ 0) ∧
    (s'.tag t).openuser = l.length

theorem reopened (h : Stored db x) (hfree : ManagerFree db) {s' : Server}
    (hs' : recoverServer (x.saved.db db) = some s') : Reopened x.server s' := by
  obtain ⟨hdevs, hrow, hen, hagree⟩ := recovered hs'
  have hgood := recoverServer_good hs'
  have hsame : s'.devs = x.server.devs := by
    rw [hdevs, h.devs]
    refine congrArg (0 :: ·) (List.filter_congr fun d hd => ?_)
    have henabled : ((x.saved.db db).row d).enabled = (db.row d).enabled :=
      (h.savedEnabled d hd).trans (enabledOf_eq hfree hd)
    rw [henabled]
  have hmic : ∀ d ∈ x.server.devs, d ≠ 0 → (micView s').mic d = (micView x.server).mic d := by
    intro d hd hz
    calc (micView s').mic d = (micView s').row d := (hagree d (hsame ▸ hd)).symm
      _ = rowsOf (x.saved.db db) d := by rw [hrow]
      _ = ofRow (x.saved.row d) := rowsOf_of_ne _ hz
      _ = (micView x.server).row d := h.saved d hz
      _ = (micView x.server).mic d := h.agrees d hd
  have htag : ∀ d ∈ x.server.devs, d ≠ 0 → (s'.dev d).tag = (x.server.dev d).tag :=
    fun d hd hz => congrArg Prod.fst (hmic d hd hz)
  have hopen : ∀ d ∈ x.server.devs, d ≠ 0 →
      ((s'.dev d).discussOpen ≠ 0 ↔ (x.server.dev d).discussOpen ≠ 0) := fun d hd hz =>
    decide_eq_decide.mp (congrArg Prod.snd (hmic d hd hz))
  refine ⟨hsame, fun d hd hz => ⟨htag d hd hz, ?_⟩, fun t ht => ?_⟩
  · rw [← htag d hd hz]
    exact hgood.tag_mem (hsame ▸ hd)
  · obtain ⟨l, hring, hmem, hlen⟩ := openListOk_of_good hgood t ht
    refine ⟨l, hring, fun d => ?_, hlen⟩
    rw [hmem d, hsame]
    by_cases hz : d = 0
    · subst hz
      -- the record of the manager device is a new one, in which nothing is open
      refine ⟨fun hin => ?_, fun hin => absurd rfl hin.1⟩
      have hrow₀ := hagree 0 (hsame ▸ hin.1)
      unfold Agrees at hrow₀
      rw [hrow, rowsOf_zero] at hrow₀
      have hclosed : false = decide ((s'.dev 0).discussOpen ≠ 0) := congrArg Prod.snd hrow₀
      exact absurd hin.2.2 (of_decide_eq_false hclosed.symm)
    · constructor
      · rintro ⟨hd, ht', ho⟩
        exact ⟨hz, hd, (htag d hd hz).symm.trans ht', (hopen d hd hz).mp ho⟩
      · rintro ⟨-, hd, ht', ho⟩
        exact ⟨hd, (htag d hd hz).trans ht', (hopen d hd hz).mpr ho⟩

/-- **A restart after any run:** unless the discussion that is saved has too many members, the
server comes back with the microphones that were open.  The run may be one that has spoilt the
lists. -/
theorem restart_reopens (hs : recoverServer db = some s) {es : List Event}
    (hx : run step (start db s) es = some x) :
    (∃ s', recoverServer (x.saved.db db) = some s' ∧ Reopened x.server s') ↔
      Fits (x.saved.db db) := by
  have hfree := managerFree_of_recover hs
  have hstored : Stored db x :=
    of_run (fun _ _ _ h _ hx => stored_step h hx) (stored_start hs) (guarded_true ..) hx
  have hfree' : ManagerFree (x.saved.db db) := fun hbad => by
    have hen := hstored.savedEnabled 0 hbad.1
    exact hbad.2 (hen.trans (Function.update_self ..))
  constructor
  · rintro ⟨s', hs', -⟩
    exact ((recoverServer_iff _).mp ⟨s', hs'⟩).2
  · intro hfits
    obtain ⟨s', hs'⟩ := (recoverServer_iff _).mpr ⟨hfree', hfits⟩
    exact ⟨s', hs', reopened hstored hfree hs'⟩

/-- The second request puts the open device into its list again. -/
theorem restart_spoiltList : ∃ s x, recoverServer twoClients = some s ∧
    run step (start twoClients s) [request 101 "1", request 101 "2"] = some x ∧
    ((∃ s', recoverServer (x.saved.db twoClients) = some s' ∧ Reopened x.server s') ↔
      Fits (x.saved.db twoClients)) := by
  have hany : (recoverServer twoClients).any (fun s =>
      (run step (start twoClients s) [request 101 "1", request 101 "2"]).isSome) = true := by
    decide +kernel
  obtain ⟨s, hs, hrun⟩ := (Option.any_eq_true _ _).mp hany
  obtain ⟨x, hx⟩ := Option.isSome_iff_exists.mp hrun
  exact ⟨s, x, hs, hx, restart_reopens hs hx⟩

end Runs

end GSConferencing.Serv.MicRestart
