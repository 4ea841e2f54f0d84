import GSConferencing.Serv.Tag
import GSConferencing.Lib.Run

/-!
# Presence of a manager

`manage.c`, and the logins and the sessions of `cmd_manage.c`: while a manager is there, chairs are
allowed only if the manager says so.  Every session is a thread that sets one `static` flag when it
is opened and clears it when it ends.

* `told_notifyAll`: after a notification all chairs have been told the same.
* `mem_addChair`: which chairs are known.
* `right_iff`: the runs along which the flag says that a session is open and the chairs have been
  told so.
-/

namespace GSConferencing.Serv.Presence

open GSConferencing.Lib.Run
open GSConferencing.Serv.Strutil GSConferencing.Serv.CmdHandler
open GSConferencing.Serv.Dev (devtypeChair)

/-- `array_size(chairs)`. -/
def maxChairs : ℕ := 32

/-- The `static` variables of `manage.c`, the registered devices, the users, the number of sessions
that are open, and what has been sent. -/
structure State where
  active : ℤ
  allowChair : ℤ
  /-- `chairs[]` up to the first free place. -/
  chairs : List ℤ
  devs : List ℤ
  type : ℤ → ℤ
  /-- The names and passwords of the table `user`. -/
  users : List (Str × Str)
  /-- The threads that run `serv_manage`. -/
  sessions : ℕ
  /-- The last `allow` in an `allow_chair_ctl` for the device. -/
  told : ℤ → Option ℤ

/-! ## Notifications -/

/-- `(!active) || allow_chair`. -/
def allow (s : State) : ℤ := if s.active = 0 ∨ s.allowChair ≠ 0 then 1 else 0

/-- `manage_notify_chair`, with `__notify_chair`: `device_cmd` may drop the command for a device that
is not active. -/
def notifyChair (s : State) (d : ℤ) : State :=
  { s with told := Function.update s.told d (some (allow s)) }

/-- `manage_notify_all_chairs`. -/
def notifyAllChairs (s : State) : State := s.chairs.foldl notifyChair s

/-- `manage_add_chair`. -/
def addChair (s : State) (d : ℤ) : State :=
  if d ∈ s.chairs then s
  else if s.chairs.length < maxChairs then { s with chairs := s.chairs ++ [d] }
  else s

/-! ## Commands -/

/-- `validate_user`. -/
def validateUser (s : State) (user pswd : Str) : Bool := s.users.contains (user, pswd)

/-- `manage login`; a thread begins to serve the manager. -/
def login (s : State) : State :=
  let s := notifyAllChairs { s with active := 1 }
  { s with sessions := s.sessions + 1 }

/-- `cmd_manage`. -/
def cmdManage (s : State) (cmd : Cmd) : Option (Reply State) :=
  nextArg cmd.args cmd s fun subcmd args =>
    if subcmd = "login".toList then
      nextArg args cmd s fun u args => nextArg args cmd s fun p _ =>
        if validateUser s u p then some (0, cmd, login s) else some (errRejected, cmd, s)
    else some (2, cmd, s)

/-- `cmd chair_ctl` in a session. -/
def chairCtl (s : State) (arg : Option Str) : Str × State :=
  match arg with
  | some a => ("OK\n".toList, notifyAllChairs { s with allowChair := atoi a })
  | none => ("FAIL 1\n".toList, s)

/-- The end of `serv_manage`. -/
def endSession (s : State) : State :=
  notifyAllChairs { s with active := 0, sessions := s.sessions - 1 }

/-- `dev_register`, as far as it concerns the chairs. -/
def devRegister (s : State) (d type : ℤ) : State :=
  if d ∈ s.devs then s
  else
    let s := { s with devs := s.devs ++ [d], type := Function.update s.type d type }
    if type = devtypeChair then addChair s d else s

/-- `cmd_reg` of a device that may register. -/
def regDev (s : State) (d type : ℤ) : State :=
  let s := if d ∈ s.devs then { s with type := Function.update s.type d type } else s
  let s := devRegister s d type
  if type = devtypeChair then notifyChair s d else s

/-! ## The server -/

/-- The database the server starts from: the enabled devices and the users. -/
structure Db where
  table : List ℤ
  nodup : table.Nodup
  type : ℤ → ℤ
  users : List (Str × Str)

/-- `recover_server`, after the manager device has registered. -/
def recoverServer (db : Db) : State :=
  db.table.foldl (fun s d => devRegister s d (db.type d))
    { active := 0, allowChair := 0, chairs := [], devs := [0], type := fun _ => 0, users := db.users
      sessions := 0, told := fun _ => none }

inductive Event where
  /-- A `manage` command. -/
  | manage (cmd : Cmd)
  /-- `chair_ctl` in one of the sessions. -/
  | chairCtl (arg : Option Str)
  /-- One of the sessions ends. -/
  | endSession
  | reg (d type : ℤ)

def step (s : State) : Event → Option State
  | .manage cmd => (cmdManage s cmd).map fun r => r.2.2
  | .chairCtl arg => if s.sessions = 0 then none else some (chairCtl s arg).2
  | .endSession => if s.sessions = 0 then none else some (endSession s)
  | .reg d type => some (regDev s d type)

/-- **The property:** the flag says that a session is open, and what the chairs have been told last
is that they are allowed when there is none or the manager allows them. -/
def Right (s : State) : Prop :=
  (s.active = 1 ↔ 0 < s.sessions) ∧ ∀ d ∈ s.chairs, ∀ a ∈ s.told d,
    a = if s.sessions = 0 ∨ s.allowChair ≠ 0 then 1 else 0

/-- **The guard:** a session that ends is the only one. -/
def LastEnds (s : State) : Event → Prop
  | .endSession => s.sessions ≤ 1
  | _ => True

/-- A device that registers as a chair is known, or is new and finds a place in `chairs[]`. -/
def FindsPlace (s : State) : Event → Prop
  | .reg d type => type = devtypeChair →
      d ∈ s.chairs ∨ (d ∉ s.devs ∧ s.chairs.length < maxChairs)
  | _ => True

instance (s : State) : ∀ e, Decidable (LastEnds s e)
  | .manage _ => isTrue trivial
  | .chairCtl _ => isTrue trivial
  | .endSession => inferInstanceAs (Decidable (s.sessions ≤ 1))
  | .reg _ _ => isTrue trivial

instance (s : State) : ∀ e, Decidable (FindsPlace s e)
  | .manage _ => isTrue trivial
  | .chairCtl _ => isTrue trivial
  | .endSession => isTrue trivial
  | .reg _ _ => inferInstanceAs (Decidable (_ → _ ∨ (_ ∧ _)))

/-- Every registered chair is known. -/
def AllKnown (s : State) : Prop := ∀ d ∈ s.devs, s.type d = devtypeChair → d ∈ s.chairs

/-! ## What the functions do -/

section Functions

variable {s s' : State} {d type : ℤ}

theorem foldl_notifyChair (l : List ℤ) (s : State) :
    l.foldl notifyChair s =
      { s with told := fun d => if d ∈ l then some (allow s) else s.told d } := by
  induction l generalizing s with
  | nil => simp
  | cons a l ih =>
    rw [List.foldl_cons, ih]
    have hallow : allow (notifyChair s a) = allow s := rfl
    rw [hallow]
    unfold notifyChair
    congr 1
    funext d
    simp only [List.mem_cons, Function.update_apply]
    by_cases hl : d ∈ l
    · rw [if_pos hl, if_pos (.inr hl)]
    · rw [if_neg hl]
      simp only [hl, or_false]

/-- **A notification of all chairs** tells every chair the same. -/
theorem notifyAllChairs_eq (s : State) :
    notifyAllChairs s =
      { s with told := fun d => if d ∈ s.chairs then some (allow s) else s.told d } :=
  foldl_notifyChair s.chairs s

/-- The flag is a truth value. -/
theorem allow_eq (h : s.active = 0 ∨ s.active = 1) :
    (s.active = 1 ↔ 0 < s.sessions) →
      allow s = if s.sessions = 0 ∨ s.allowChair ≠ 0 then 1 else 0 := by
  intro hflag
  have h0 : s.active = 0 ↔ s.sessions = 0 := by omega
  unfold allow
  simp only [h0]

/-- The flag is a truth value, and every known chair that has been told anything has been told what
the flag says. -/
structure Inv (s : State) : Prop where
  bit : s.active = 0 ∨ s.active = 1
  told : ∀ d ∈ s.chairs, ∀ a ∈ s.told d, a = allow s

theorem Inv.right (h : Inv s) : Right s ↔ (s.active = 1 ↔ 0 < s.sessions) := by
  refine ⟨fun hr => hr.1, fun hflag => ⟨hflag, fun d hd a ha => ?_⟩⟩
  rw [h.told d hd a ha, allow_eq h.bit hflag]

/-- **A notification of all chairs** makes up for any change of the flags. -/
theorem inv_notifyAllChairs (h : s.active = 0 ∨ s.active = 1) : Inv (notifyAllChairs s) := by
  rw [notifyAllChairs_eq]
  refine ⟨h, fun d hd a ha => ?_⟩
  have htold : (if d ∈ s.chairs then some (allow s) else s.told d) = some a := ha
  rw [if_pos hd] at htold
  exact (Option.some.inj htold).symm

theorem mem_addChair {x : ℤ} (hx : x ∈ (addChair s d).chairs) : x ∈ s.chairs ∨ x = d := by
  unfold addChair at hx
  split at hx
  · exact .inl hx
  split at hx
  · exact (List.mem_append.mp hx).imp_right List.mem_singleton.mp
  · exact .inl hx

theorem subset_addChair {x : ℤ} (hx : x ∈ s.chairs) : x ∈ (addChair s d).chairs := by
  unfold addChair
  split
  · exact hx
  split
  · exact List.mem_append_left _ hx
  · exact hx

/-- A chair that finds a place is known. -/
theorem self_mem_addChair (h : s.chairs.length < maxChairs) : d ∈ (addChair s d).chairs := by
  unfold addChair
  split
  · assumption
  · exact List.mem_append_right _ (List.mem_singleton_self d)

/-- What `dev_register` leaves alone. -/
theorem devRegister_frame (s : State) (d type : ℤ) :
    (devRegister s d type).active = s.active ∧ (devRegister s d type).allowChair = s.allowChair ∧
      (devRegister s d type).sessions = s.sessions ∧ (devRegister s d type).told = s.told := by
  unfold devRegister addChair
  split
  · exact ⟨rfl, rfl, rfl, rfl⟩
  · simp only
    split
    · split
      · exact ⟨rfl, rfl, rfl, rfl⟩
      · split <;> exact ⟨rfl, rfl, rfl, rfl⟩
    · exact ⟨rfl, rfl, rfl, rfl⟩

/-- The chairs after `dev_register`. -/
theorem mem_devRegister {x : ℤ} (hx : x ∈ (devRegister s d type).chairs) :
    x ∈ s.chairs ∨ (x = d ∧ type = devtypeChair) := by
  unfold devRegister at hx
  split at hx
  · exact .inl hx
  · simp only at hx
    split at hx
    · next ht => exact (mem_addChair hx).imp_right fun h => ⟨h, ht⟩
    · exact .inl hx

/-- A registered device takes the type of its `reg` command. -/
def retype (s : State) (d type : ℤ) : State :=
  if d ∈ s.devs then { s with type := Function.update s.type d type } else s

theorem regDev_eq (s : State) (d type : ℤ) :
    regDev s d type = if type = devtypeChair then notifyChair (devRegister (retype s d type) d type) d
      else devRegister (retype s d type) d type := rfl

theorem retype_frame (s : State) (d type : ℤ) :
    (retype s d type).active = s.active ∧ (retype s d type).allowChair = s.allowChair ∧
      (retype s d type).sessions = s.sessions ∧ (retype s d type).told = s.told ∧
      (retype s d type).chairs = s.chairs ∧ (retype s d type).devs = s.devs := by
  unfold retype
  split <;> exact ⟨rfl, rfl, rfl, rfl, rfl, rfl⟩

/-- **`reg`** tells a chair what the flag says. -/
theorem Inv.regDev (h : Inv s) (d type : ℤ) :
    Inv (regDev s d type) ∧ (regDev s d type).active = s.active ∧
      (regDev s d type).sessions = s.sessions := by
  obtain ⟨hact, hallow, hses, htold⟩ := devRegister_frame (retype s d type) d type
  obtain ⟨hact', hallow', hses', htold', hchairs, -⟩ := retype_frame s d type
  have hsame : allow (devRegister (retype s d type) d type) = allow s := by
    unfold allow
    rw [hact, hallow, hact', hallow']
  rw [regDev_eq]
  split
  · next ht =>
    refine ⟨⟨?_, fun x hx a ha => ?_⟩, hact.trans hact', hses.trans hses'⟩
    · show (devRegister (retype s d type) d type).active = 0 ∨
        (devRegister (retype s d type) d type).active = 1
      rw [hact, hact']
      exact h.bit
    · have ha' : Function.update (devRegister (retype s d type) d type).told d
        (some (allow (devRegister (retype s d type) d type))) x = some a := ha
      show a = allow (devRegister (retype s d type) d type)
      rw [Function.update_apply, htold, htold'] at ha'
      rw [hsame] at ha' ⊢
      split at ha'
      · exact (Option.some.inj ha').symm
      · next hne =>
        refine h.told x ?_ a ha'
        have hold := (mem_devRegister hx).resolve_right fun hxd => hne hxd.1
        rwa [hchairs] at hold
  · next ht =>
    refine ⟨⟨?_, fun x hx a ha => ?_⟩, hact.trans hact', hses.trans hses'⟩
    · rw [hact, hact']
      exact h.bit
    · rw [hsame]
      rw [htold, htold'] at ha
      have hold := (mem_devRegister hx).resolve_right fun hxd => ht hxd.2
      rw [hchairs] at hold
      exact h.told x hold a ha

end Functions

/-! ## Steps -/

section Steps

variable {s s' : State} {e : Event}

/-- **`cmd_manage`:** it is refused, or a session is opened. -/
theorem cmdManage_cases (s : State) (cmd : Cmd) :
    ∃ code c, (code ≠ 0 ∧ cmdManage s cmd = some (code, c, s)) ∨
      cmdManage s cmd = some (0, c, login s) := by
  unfold cmdManage
  match cmd.args with
  | [] => exact ⟨1, cmd, .inl ⟨one_ne_zero, rfl⟩⟩
  | sub :: l =>
    rw [nextArg_cons]
    by_cases hsub : sub = "login".toList
    · rw [if_pos hsub]
      match l with
      | [] => exact ⟨1, cmd, .inl ⟨one_ne_zero, rfl⟩⟩
      | [_] => exact ⟨1, cmd, .inl ⟨one_ne_zero, rfl⟩⟩
      | u :: p :: l =>
        rw [nextArg_cons, nextArg_cons]
        by_cases hv : validateUser s u p = true
        · exact ⟨0, cmd, .inr (if_pos hv)⟩
        · exact ⟨errRejected, cmd, .inl ⟨by decide, if_neg hv⟩⟩
    · exact ⟨2, cmd, .inl ⟨two_ne_zero, if_neg hsub⟩⟩

theorem inv_login (s : State) :
    Inv (login s) ∧ (login s).active = 1 ∧ 0 < (login s).sessions := by
  have h := inv_notifyAllChairs (s := { s with active := 1 }) (.inr rfl)
  unfold login
  rw [notifyAllChairs_eq] at h ⊢
  exact ⟨⟨h.bit, h.told⟩, rfl, Nat.succ_pos _⟩

theorem inv_endSession (s : State) :
    Inv (endSession s) ∧ (endSession s).active = 0 ∧ (endSession s).sessions = s.sessions - 1 := by
  have h := inv_notifyAllChairs (s := { s with active := 0, sessions := s.sessions - 1 }) (.inl rfl)
  unfold endSession
  rw [notifyAllChairs_eq] at h ⊢
  exact ⟨h, rfl, rfl⟩

theorem inv_chairCtl (h : Inv s) (arg : Option Str) :
    Inv (chairCtl s arg).2 ∧ (chairCtl s arg).2.active = s.active ∧
      (chairCtl s arg).2.sessions = s.sessions := by
  cases arg with
  | none => exact ⟨h, rfl, rfl⟩
  | some a =>
    have hn := inv_notifyAllChairs (s := { s with allowChair := atoi a }) h.bit
    unfold chairCtl
    simp only
    rw [notifyAllChairs_eq] at hn ⊢
    exact ⟨hn, rfl, rfl⟩

/-- **A step** keeps the flag right, unless a session ends and another one stays. -/
theorem step_right (hI : Inv s) (hr : s.active = 1 ↔ 0 < s.sessions) (hs : step s e = some s') :
    Inv s' ∧ ((s'.active = 1 ↔ 0 < s'.sessions) ↔ LastEnds s e) := by
  cases e with
  | manage cmd =>
    obtain ⟨r, hc, rfl⟩ := Option.map_eq_some_iff.mp hs
    obtain ⟨code, c, ⟨-, h⟩ | h⟩ := cmdManage_cases s cmd
    · cases h.symm.trans hc
      exact ⟨hI, fun _ => trivial, fun _ => hr⟩
    · cases h.symm.trans hc
      obtain ⟨hl, hact, hses⟩ := inv_login s
      exact ⟨hl, fun _ => trivial, fun _ => ⟨fun _ => hses, fun _ => hact⟩⟩
  | chairCtl arg =>
    unfold step at hs
    simp only at hs
    split at hs
    · cases hs
    · cases hs
      obtain ⟨hc, hact, hses⟩ := inv_chairCtl hI arg
      rw [hact, hses]
      exact ⟨hc, fun _ => trivial, fun _ => hr⟩
  | endSession =>
    unfold step at hs
    simp only at hs
    split at hs
    · cases hs
    · next h0 =>
      cases hs
      obtain ⟨hE, hact, hses⟩ := inv_endSession s
      rw [hact, hses]
      refine ⟨hE, ?_⟩
      show _ ↔ s.sessions ≤ 1
      omega
  | reg d type =>
    cases hs
    obtain ⟨hreg, hact, hses⟩ := hI.regDev d type
    rw [hact, hses]
    exact ⟨hreg, fun _ => trivial, fun _ => hr⟩

end Steps

/-! ## Runs -/

section Runs

variable {s s' : State} {e : Event}

theorem devRegister_fold (l : List ℤ) (type : ℤ → ℤ) (s : State) :
    let s' := l.foldl (fun s d => devRegister s d (type d)) s
    s'.active = s.active ∧ s'.sessions = s.sessions ∧ s'.told = s.told := by
  induction l generalizing s with
  | nil => exact ⟨rfl, rfl, rfl⟩
  | cons d l ih =>
    obtain ⟨hact, -, hses, htold⟩ := devRegister_frame s d (type d)
    obtain ⟨hact', hses', htold'⟩ := ih (devRegister s d (type d))
    exact ⟨hact'.trans hact, hses'.trans hses, htold'.trans htold⟩

/-- **The start:** nobody has been told anything. -/
theorem inv_recoverServer (db : Db) : Inv (recoverServer db) ∧
    ((recoverServer db).active = 1 ↔ 0 < (recoverServer db).sessions) := by
  obtain ⟨hact, hses, htold⟩ := devRegister_fold db.table db.type
    { active := 0, allowChair := 0, chairs := [], devs := [0], type := fun _ => 0, users := db.users
      sessions := 0, told := fun _ => none }
  refine ⟨⟨.inl hact, fun d _ a ha => ?_⟩, ?_⟩
  · have hnone : (recoverServer db).told d = none := congrFun htold d
    rw [hnone] at ha
    cases ha
  · have hact' : (recoverServer db).active = 0 := hact
    have hses' : (recoverServer db).sessions = 0 := hses
    rw [hact', hses']
    decide

/-- The chairs of the database find a place. -/
def Fits (db : Db) : Prop :=
  (db.table.filter fun d => db.type d = devtypeChair).length ≤ maxChairs

theorem length_devRegister (s : State) (d type : ℤ) :
    (devRegister s d type).chairs.length ≤
      s.chairs.length + if type = devtypeChair then 1 else 0 := by
  unfold devRegister addChair
  split
  · exact Nat.le_add_right _ _
  · simp only
    split
    · split
      · exact Nat.le_succ _
      split
      · rw [List.length_append, List.length_singleton]
      · exact Nat.le_succ _
    · exact Nat.le_refl _

/-- **A device that registers** is known if it is a chair. -/
theorem allKnown_devRegister (h : AllKnown s) {d type : ℤ}
    (hroom : type = devtypeChair → d ∈ s.chairs ∨ s.chairs.length < maxChairs) :
    AllKnown (devRegister s d type) := by
  intro x hx htype
  by_cases hd : d ∈ s.devs
  · have hsame : devRegister s d type = s := if_pos hd
    rw [hsame] at hx htype ⊢
    exact h x hx htype
  · unfold devRegister at hx htype ⊢
    rw [if_neg hd] at hx htype ⊢
    simp only at hx htype ⊢
    have hdevs : x ∈ s.devs ++ [d] := by
      split at hx
      · unfold addChair at hx
        split at hx
        · exact hx
        · split at hx <;> exact hx
      · exact hx
    have htype' : Function.update s.type d type x = devtypeChair := by
      split at htype
      · unfold addChair at htype
        split at htype
        · exact htype
        · split at htype <;> exact htype
      · exact htype
    by_cases hxd : x = d
    · rw [hxd, Function.update_self] at htype'
      rw [if_pos htype', hxd]
      rcases hroom htype' with hmem | hlt
      · exact subset_addChair hmem
      · exact self_mem_addChair hlt
    · rw [Function.update_of_ne hxd] at htype'
      have hold : x ∈ s.devs := (List.mem_append.mp hdevs).resolve_right fun hmem =>
        hxd (List.mem_singleton.mp hmem)
      split
      · exact subset_addChair (h x hold htype')
      · exact h x hold htype'

theorem allKnown_fold {type : ℤ → ℤ} (l : List ℤ) (s : State) (h : AllKnown s)
    (hlen : s.chairs.length + (l.filter fun d => type d = devtypeChair).length ≤ maxChairs) :
    AllKnown (l.foldl (fun s d => devRegister s d (type d)) s) := by
  induction l generalizing s with
  | nil => exact h
  | cons d l ih =>
    have hone := length_devRegister s d (type d)
    rw [List.filter_cons] at hlen
    by_cases hchair : type d = devtypeChair
    · rw [if_pos (decide_eq_true hchair), List.length_cons] at hlen
      rw [if_pos hchair] at hone
      exact ih (devRegister s d (type d)) (allKnown_devRegister h fun _ => .inr (by omega)) (by omega)
    · rw [if_neg (by simpa using hchair)] at hlen
      rw [if_neg hchair] at hone
      exact ih (devRegister s d (type d)) (allKnown_devRegister h fun hc => absurd hc hchair) (by omega)

theorem allKnown_recoverServer {db : Db} (hfit : Fits db) : AllKnown (recoverServer db) := by
  refine allKnown_fold db.table _ (fun d _ hc => ?_) ?_
  · exact absurd (show (0 : ℤ) = devtypeChair from hc) (by decide)
  · show 0 + _ ≤ maxChairs
    rw [Nat.zero_add]
    exact hfit

/-- **A step** keeps the chairs known if a new one finds a place. -/
theorem allKnown_step (h : AllKnown s) (hplace : FindsPlace s e) (hs : step s e = some s') :
    AllKnown s' := by
  cases e with
  | manage cmd =>
    obtain ⟨r, hc, rfl⟩ := Option.map_eq_some_iff.mp hs
    obtain ⟨code, c, ⟨-, heq⟩ | heq⟩ := cmdManage_cases s cmd
    · cases heq.symm.trans hc
      exact h
    · cases heq.symm.trans hc
      unfold login
      rw [notifyAllChairs_eq]
      exact h
  | chairCtl arg =>
    unfold step at hs
    simp only at hs
    split at hs
    · cases hs
    · cases hs
      cases arg with
      | none => exact h
      | some a =>
        show AllKnown (notifyAllChairs _)
        rw [notifyAllChairs_eq]
        exact h
  | endSession =>
    unfold step at hs
    simp only at hs
    split at hs
    · cases hs
    · cases hs
      unfold endSession
      rw [notifyAllChairs_eq]
      exact h
  | reg d type =>
    cases hs
    have hreg : AllKnown (devRegister (retype s d type) d type) := by
      by_cases hd : d ∈ s.devs
      · have hset : retype s d type = { s with type := Function.update s.type d type } := if_pos hd
        have hsame : devRegister (retype s d type) d type = retype s d type := by
          rw [hset]
          exact if_pos hd
        rw [hsame, hset]
        intro x hx hchair
        replace hchair : Function.update s.type d type x = devtypeChair := hchair
        rw [Function.update_apply] at hchair
        split at hchair
        · next hxd =>
          rcases hplace hchair with hmem | ⟨hnew, -⟩
          · exact hxd ▸ hmem
          · exact absurd hd hnew
        · exact h x hx hchair
      · have hset : retype s d type = s := if_neg hd
        rw [hset]
        exact allKnown_devRegister h fun ht => (hplace ht).imp_right fun hp => hp.2
    rw [regDev_eq]
    split
    · exact hreg
    · exact hreg

/-- **The presence of a manager** is known to the chairs in every state of a run exactly when no
session ends while another one is open.  A registered chair is one of these chairs, as long as those
that register find a place. -/
theorem right_iff (db : Db) (es : List Event) :
    (Along step Right (recoverServer db) es ↔ Guarded step LastEnds (recoverServer db) es) ∧
    (Fits db → Guarded step FindsPlace (recoverServer db) es →
      Along step AllKnown (recoverServer db) es) := by
  obtain ⟨hI, hflag⟩ := inv_recoverServer db
  constructor
  · refine along_iff_guarded (I := fun s => Inv s ∧ (s.active = 1 ↔ 0 < s.sessions))
      (E := fun _ => True) (fun _ h => h.1.right.mpr h.2) (fun _ _ _ h _ hg hs => ?_)
      (fun s e h _ hg => ?_) ⟨hI, hflag⟩ fun _ _ => trivial
    · obtain ⟨hI', hiff⟩ := step_right h.1 h.2 hs
      exact ⟨hI', hiff.mpr hg⟩
    · have hend : ∃ s', step s e = some s' := by
        cases e with
        | manage => exact absurd trivial hg
        | chairCtl => exact absurd trivial hg
        | reg => exact absurd trivial hg
        | endSession =>
          replace hg : ¬ s.sessions ≤ 1 := hg
          exact ⟨endSession s, if_neg (by omega)⟩
      obtain ⟨s', hs'⟩ := hend
      obtain ⟨hI', hiff⟩ := step_right h.1 h.2 hs'
      exact ⟨s', hs', fun hr => hg (hiff.mp (hI'.right.mp hr))⟩
  · intro hfit hg
    exact along_of_guarded (I := AllKnown) (E := fun _ => True) (fun _ h => h)
      (fun _ _ _ h _ hp hs => allKnown_step h hp hs) (allKnown_recoverServer hfit)
      (fun _ _ => trivial) hg

end Runs

/-- A database with a chair and a user. -/
def oneChair : Db where
  table := [201]
  nodup := by decide
  type := fun _ => devtypeChair
  users := [("admin".toList, "pw".toList)]

/-- A manager logs in. -/
def loginAdmin : Event := .manage ⟨0, ["login".toList, "admin".toList, "pw".toList], []⟩

/-- **Two managers,** of which one leaves: the flag says that there is none, and the chair is told
that it is allowed. -/
theorem twoManagers : (run step (recoverServer oneChair) [loginAdmin, loginAdmin, .endSession]).map
    (fun s => (s.active, s.sessions, s.allowChair, s.told 201)) = some (0, 1, 0, some 1) := by
  decide +kernel

theorem not_forall_right : ¬ ∀ db es, Along step Right (recoverServer db) es := by
  intro h
  obtain ⟨s, hright, hobs⟩ := (h oneChair _).observed twoManagers
  simp only [Prod.mk.injEq] at hobs
  obtain ⟨hact, hses, -, -⟩ := hobs
  have hone := hright.1.mpr (by omega)
  omega

end GSConferencing.Serv.Presence
