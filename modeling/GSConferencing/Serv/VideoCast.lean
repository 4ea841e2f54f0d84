import GSConferencing.Serv.CmdHandler
import GSConferencing.Include.ListHead
import GSConferencing.Lib.Run

/-!
# The video source

`cmd_video.c`: the devices that broadcast video are stacked in an intrusive list, and the packets of
the one on top, `bcast_dev`, are cast.

* `Sourced`: the source is the device that started last among those that have not stopped since.
* `source_exact`: it is, and no null pointer is followed, as long as starts and stops of a device
  alternate.
* `stop_crashes`: a stop without a start.
-/

namespace GSConferencing.Serv.VideoCast

open GSConferencing.Lib.CyclicList GSConferencing.Lib.Run GSConferencing.Include.ListHead
open GSConferencing.Serv.Strutil GSConferencing.Serv.CmdHandler

/-! ## The commands -/

/-- `ERR_INVL_ARG`. -/
def errInvlArg : ℤ := 5

/-- The registered devices with their `video.l`, the list of `video_head`, and `bcast_dev`. -/
structure State where
  devs : List ℤ
  links : Links Unit ℤ
  bcastDev : Option ℤ

/-- `LIST_HEAD(video_head)`; the structures of the devices are zeroed. -/
def new (devs : List ℤ) : State where
  devs := devs
  links := Links.init ⟨fun _ => none, fun _ => none⟩ (.head ())
  bcastDev := none

/-- `cast_video`: the return code, and what is broadcast. -/
def castVideo {β : Type*} (s : State) (d : ℤ) (buf : β) : ℤ × List β :=
  if s.bcastDev = some d then (0, [buf]) else (-1, [])

/-- `list_entry(video_head.next, struct device, video.l)`, where the list is not empty. -/
def firstDevice (L : Links Unit ℤ) : Option ℤ :=
  match L.next (.head ()) with
  | some (.entry d) => some d
  | _ => none

def videoStart (s : State) (cmd : Cmd) (d : ℤ) (args : List Str) : Option (Reply State) :=
  nextArg args cmd s fun p _ =>
    if atoi p = 0 then
      (listAdd s.links (.entry d) (.head ())).map fun L =>
        (0, repOk cmd, { s with links := L, bcastDev := some d })
    else some (errInvlArg, cmd, s)

def videoStop (s : State) (cmd : Cmd) (d : ℤ) : Option (Reply State) :=
  if s.bcastDev = none then some (errOther, cmd, s)
  else do
    let L ← listDel s.links (.entry d)
    let s := { s with links := L }
    if listEmpty L (.head ()) then some (0, repOk cmd, { s with bcastDev := none })
    else if s.bcastDev = some d then
      (firstDevice L).map fun d' => (0, repOk cmd, { s with bcastDev := some d' })
    else some (0, repOk cmd, s)

/-- `cmd_video`: an unknown subcommand is answered with `OK`. -/
def cmdVideo (s : State) (cmd : Cmd) : Option (Reply State) :=
  let d := cmd.deviceId
  if d ∉ s.devs then some (errNotReg, cmd, s)
  else nextArg cmd.args cmd s fun subcmd args =>
    if subcmd = "start".toList then videoStart s cmd d args
    else if subcmd = "stop".toList then videoStop s cmd d
    else some (0, repOk cmd, s)

/-! ## What has been said so far -/

/-- A start or a stop. -/
inductive Act where
  | start (d : ℤ)
  | stop (d : ℤ)
  deriving DecidableEq

/-- The command is `video start 0`. -/
def IsStart (cmd : Cmd) : Prop :=
  cmd.args.head? = some "start".toList ∧ cmd.args[1]?.map atoi = some 0

/-- The command is `video stop`. -/
def IsStop (cmd : Cmd) : Prop := cmd.args.head? = some "stop".toList

instance (cmd : Cmd) : Decidable (IsStart cmd) := inferInstanceAs (Decidable (_ ∧ _))

instance (cmd : Cmd) : Decidable (IsStop cmd) := inferInstanceAs (Decidable (_ = _))

/-- What a command of a registered device asks for. -/
def acts (cmd : Cmd) : List Act :=
  if IsStart cmd then [.start cmd.deviceId] else if IsStop cmd then [.stop cmd.deviceId] else []

/-- The device of the latest start that is not in `stopped` and has no stop after it; the latest
act comes first. -/
def latest (stopped : List ℤ) : List Act → Option ℤ
  | [] => none
  | .start d :: h => if d ∈ stopped then latest stopped h else some d
  | .stop d :: h => latest (d :: stopped) h

/-- The server with the starts and stops of registered devices so far. -/
structure Session where
  state : State
  hist : List Act

/-- A command, or a device that registers with a structure of its own. -/
inductive Event where
  | video (cmd : Cmd)
  | reg (d : ℤ)

def step (x : Session) : Event → Option Session
  | .video cmd => (cmdVideo x.state cmd).map fun r =>
    { state := r.2.2
      hist := if cmd.deviceId ∈ x.state.devs then acts cmd ++ x.hist else x.hist }
  | .reg d => some
    { x with state := { x.state with
        devs := if d ∈ x.state.devs then x.state.devs else x.state.devs ++ [d] } }

/-- **The property:** `bcast_dev` is the device that started last and has not stopped since. -/
def Sourced (x : Session) : Prop := x.state.bcastDev = latest [] x.hist

/-- Only the packets of that device are broadcast. -/
theorem Sourced.cast {x : Session} (h : Sourced x) {β : Type*} (d : ℤ) (buf : β) :
    (castVideo x.state d buf).2 = if latest [] x.hist = some d then [buf] else [] := by
  unfold castVideo
  rw [show x.state.bcastDev = _ from h]
  split <;> rfl

/-- The device's `video.l` is in a list. -/
def Linked (s : State) (d : ℤ) : Prop := (s.links.next (.entry d)).isSome

instance (s : State) (d : ℤ) : Decidable (Linked s d) := inferInstanceAs (Decidable (_ = _))

/-- A device starts only when it is not linked, and stops only when it is, if there is a source. -/
def Alternates (x : Session) : Event → Prop
  | .video cmd => cmd.deviceId ∈ x.state.devs →
    (IsStart cmd → ¬ Linked x.state cmd.deviceId) ∧
      (IsStop cmd → x.state.bcastDev ≠ none → Linked x.state cmd.deviceId)
  | .reg _ => True

instance (x : Session) : ∀ e, Decidable (Alternates x e)
  | .video cmd => inferInstanceAs (Decidable (cmd.deviceId ∈ x.state.devs →
    (IsStart cmd → ¬ Linked x.state cmd.deviceId) ∧
      (IsStop cmd → x.state.bcastDev ≠ none → Linked x.state cmd.deviceId)))
  | .reg _ => inferInstanceAs (Decidable True)

/-! ## The stack -/

/-- The devices that have started and not stopped, if starts and stops alternate. -/
def stack : List Act → List ℤ
  | [] => []
  | .start d :: h => d :: stack h
  | .stop d :: h => (stack h).erase d

/-- No device starts that is on the stack. -/
def NoRepeat : List Act → Prop
  | [] => True
  | .start d :: h => d ∉ stack h ∧ NoRepeat h
  | .stop _ :: h => NoRepeat h

theorem NoRepeat.nodup : ∀ {h : List Act}, NoRepeat h → (stack h).Nodup
  | [], _ => List.nodup_nil
  | .start _ :: _, hn => List.nodup_cons.mpr ⟨hn.1, hn.2.nodup⟩
  | .stop d :: h, hn => (NoRepeat.nodup (h := h) hn).erase d

/-- The latest device is the first on the stack that is not stopped. -/
theorem latest_eq_find (h : List Act) (hn : NoRepeat h) (stopped : List ℤ) :
    latest stopped h = (stack h).find? fun d => d ∉ stopped := by
  induction h generalizing stopped with
  | nil => rfl
  | cons a h ih =>
    cases a with
    | start d =>
      unfold latest stack
      by_cases hd : d ∈ stopped
      · rw [if_pos hd, List.find?_cons_of_neg (by simpa using hd), ih hn.2]
      · rw [if_neg hd, List.find?_cons_of_pos (by simpa using hd)]
    | stop d =>
      have hnodup : (stack h).Nodup := NoRepeat.nodup (show NoRepeat h from hn)
      show latest (d :: stopped) h = ((stack h).erase d).find? _
      rw [ih hn, hnodup.erase_eq_filter, List.find?_filter]
      congr 1
      funext x
      simp [not_or, bne_iff_ne]

theorem latest_eq_head {h : List Act} (hn : NoRepeat h) : latest [] h = (stack h).head? := by
  rw [latest_eq_find h hn]
  cases stack h with
  | nil => rfl
  | cons d l => rfl

/-! ## The invariant -/

/-- The list is the stack, the source is its top, and the other devices are not linked. -/
structure Inv (x : Session) : Prop where
  ring : Rings x.state.links (fun _ : Unit => True) fun _ => stack x.hist
  free : ∀ d, d ∉ stack x.hist → x.state.links.next (.entry d) = none
  source : x.state.bcastDev = (stack x.hist).head?
  noRepeat : NoRepeat x.hist

section Steps
variable {x x' : Session}

theorem Inv.sourced (h : Inv x) : Sourced x := h.source.trans (latest_eq_head h.noRepeat).symm

theorem Inv.linked_iff (h : Inv x) (d : ℤ) : Linked x.state d ↔ d ∈ stack x.hist := by
  constructor
  · intro hl
    by_contra hd
    rw [Linked, h.free d hd] at hl
    cases hl
  · intro hd
    exact Option.isSome_iff_ne_none.mpr ((h.ring.ring () trivial).entry_linked hd).1

/-- A device that is not linked starts. -/
theorem start_inv (h : Inv x) {d : ℤ} (hd : ¬ Linked x.state d) : ∃ L,
    listAdd x.state.links (.entry d) (.head ()) = some L ∧
      Inv ⟨{ x.state with links := L, bcastDev := some d }, .start d :: x.hist⟩ := by
  rw [h.linked_iff] at hd
  obtain ⟨L, hL, hring, hkept⟩ := listAdd_rings h.ring (h := ()) trivial fun _ _ => hd
  refine ⟨L, hL, ?_, fun y hy => ?_, rfl, hd, h.noRepeat⟩
  · rwa [Function.update_eq_const_of_subsingleton] at hring
  · have hne : y ≠ d := fun e => hy (e ▸ List.mem_cons_self)
    have hold : y ∉ stack x.hist := fun hm => hy (List.mem_cons_of_mem d hm)
    rw [show L.next (.entry y) = _ from (hkept y hne fun _ _ => hold).1]
    exact h.free y hold

/-- A device on the stack stops; the source is the top of what remains. -/
theorem stop_inv (h : Inv x) {d : ℤ} (hd : d ∈ stack x.hist) {cmd : Cmd} : ∃ s',
    videoStop x.state cmd d = some (0, repOk cmd, s') ∧ Inv ⟨s', .stop d :: x.hist⟩ ∧
      s'.devs = x.state.devs := by
  obtain ⟨L, hL, hring, hkept, hfree, -⟩ := listDel_rings h.ring (h := ()) trivial hd
  rw [Function.update_eq_const_of_subsingleton] at hring
  have hinv : ∀ b, b = ((stack x.hist).erase d).head? →
      Inv ⟨{ x.state with links := L, bcastDev := b }, .stop d :: x.hist⟩ := by
    intro b hb
    refine ⟨hring, fun y hy => ?_, hb, h.noRepeat⟩
    by_cases e : y = d
    · rw [e]
      exact hfree
    · have hold : y ∉ stack x.hist := fun hm => hy ((List.mem_erase_of_ne e).mpr hm)
      rw [show L.next (.entry y) = _ from (hkept y e fun _ _ => hold).1]
      exact h.free y hold
  have hempty : listEmpty L (.head ()) = true ↔ (stack x.hist).erase d = [] :=
    listEmpty_rings hring trivial
  have hne : x.state.bcastDev ≠ none := by
    rw [h.source]
    exact fun e => List.not_mem_nil (List.head?_eq_none_iff.mp e ▸ hd)
  have hfirst : ∀ d' l, (stack x.hist).erase d = d' :: l → firstDevice L = some d' := by
    intro d' l hl
    have hnext := (hring.ring () trivial).head_next
    unfold firstDevice
    rw [hnext, hl]
    rfl
  unfold videoStop
  rw [if_neg hne, hL]
  show ∃ s', (if listEmpty L (.head ()) then some (0, repOk cmd, _) else _) = _ ∧ _
  by_cases he : listEmpty L (.head ()) = true
  · rw [if_pos he]
    exact ⟨_, rfl, hinv none (by rw [hempty.mp he]; rfl), rfl⟩
  rw [if_neg he]
  obtain ⟨d', l, hl⟩ := List.exists_cons_of_ne_nil fun e => he (hempty.mpr e)
  by_cases htop : x.state.bcastDev = some d
  · rw [if_pos htop, hfirst d' l hl]
    exact ⟨_, rfl, hinv (some d') (by rw [hl]; rfl), rfl⟩
  · rw [if_neg htop]
    refine ⟨_, rfl, hinv _ ?_, rfl⟩
    show x.state.bcastDev = _
    rw [h.source] at htop ⊢
    obtain ⟨c, l', hstack⟩ := List.exists_cons_of_ne_nil (List.ne_nil_of_mem hd)
    rw [hstack] at htop ⊢
    have hcd : c ≠ d := fun e => htop (by rw [e]; rfl)
    rw [List.erase_cons_tail (by simpa using hcd)]
    rfl

/-- A stop while there is no source is noted, and changes nothing. -/
theorem idle_inv (h : Inv x) (hno : x.state.bcastDev = none) (d : ℤ) :
    Inv ⟨x.state, .stop d :: x.hist⟩ := by
  have hstack : stack x.hist = [] := List.head?_eq_none_iff.mp (h.source.symm.trans hno)
  have hstop : stack (.stop d :: x.hist) = stack x.hist := by
    show (stack x.hist).erase d = _
    rw [hstack]
    rfl
  exact ⟨hstop ▸ h.ring, hstop ▸ h.free, hstop ▸ h.source, h.noRepeat⟩

theorem acts_nil {cmd : Cmd} (h1 : ¬ IsStart cmd) (h2 : ¬ IsStop cmd) : acts cmd = [] := by
  unfold acts
  rw [if_neg h1, if_neg h2]

/-- **A command** of a registered device. -/
theorem video_inv (h : Inv x) {cmd : Cmd} (hd : cmd.deviceId ∈ x.state.devs)
    (hstart : IsStart cmd → ¬ Linked x.state cmd.deviceId)
    (hstop : IsStop cmd → x.state.bcastDev ≠ none → Linked x.state cmd.deviceId) :
    ∃ r, cmdVideo x.state cmd = some r ∧ Inv ⟨r.2.2, acts cmd ++ x.hist⟩ := by
  have hquiet : ¬ IsStart cmd → ¬ IsStop cmd → Inv ⟨x.state, acts cmd ++ x.hist⟩ := by
    intro h1 h2
    rw [acts_nil h1 h2]
    exact h
  unfold cmdVideo
  rw [if_neg (not_not.mpr hd)]
  cases hargs : cmd.args with
  | nil =>
    have h1 : ¬ IsStart cmd := fun hs => by rw [IsStart, hargs] at hs; cases hs.1
    have h2 : ¬ IsStop cmd := fun hs => by rw [IsStop, hargs] at hs; cases hs
    exact ⟨_, rfl, hquiet h1 h2⟩
  | cons subcmd args =>
    have hS : IsStart cmd ↔ subcmd = "start".toList ∧ args.head?.map atoi = some 0 := by
      unfold IsStart
      rw [hargs, List.head?_cons, Option.some.injEq, List.head?_eq_getElem?]
      rfl
    have hT : IsStop cmd ↔ subcmd = "stop".toList := by
      unfold IsStop
      rw [hargs, List.head?_cons, Option.some.injEq]
    rw [nextArg_cons]
    refine exists_ite (fun e => ?_) fun e => exists_ite (fun e' => ?_) fun e' => ?_
    · have h2 : ¬ IsStop cmd := fun hs => absurd (e.symm.trans (hT.mp hs)) (by decide)
      cases args with
      | nil => exact ⟨_, rfl, hquiet (fun hs => by cases (hS.mp hs).2) h2⟩
      | cons p l =>
        unfold videoStart
        rw [nextArg_cons]
        by_cases hp : atoi p = 0
        · have h1 : IsStart cmd := hS.mpr ⟨e, congrArg some hp⟩
          obtain ⟨L, hL, hinv⟩ := start_inv h (hstart h1)
          rw [if_pos hp, hL, acts, if_pos h1]
          exact ⟨_, rfl, hinv⟩
        · rw [if_neg hp]
          exact ⟨_, rfl, hquiet (fun hs => hp (Option.some.inj (hS.mp hs).2)) h2⟩
    · have h1 : ¬ IsStart cmd := fun hs => e (hS.mp hs).1
      rw [acts, if_neg h1, if_pos (hT.mpr e')]
      by_cases hno : x.state.bcastDev = none
      · unfold videoStop
        rw [if_pos hno]
        exact ⟨_, rfl, idle_inv h hno _⟩
      · obtain ⟨s', hs', hinv, -⟩ :=
          @stop_inv _ h _ ((h.linked_iff _).mp (hstop (hT.mpr e') hno)) cmd
        exact ⟨_, hs', hinv⟩
    · exact ⟨_, rfl, hquiet (fun hs => e (hS.mp hs).1) fun hs => e' (hT.mp hs)⟩

/-- **A step.** -/
theorem step_inv (h : Inv x) {e : Event} (hg : Alternates x e) :
    ∃ x', step x e = some x' ∧ Inv x' := by
  cases e with
  | reg d => exact ⟨_, rfl, h.ring, h.free, h.source, h.noRepeat⟩
  | video cmd =>
    by_cases hd : cmd.deviceId ∈ x.state.devs
    · obtain ⟨r, hr, hinv⟩ := video_inv h hd (hg hd).1 (hg hd).2
      refine ⟨_, by rw [step, hr]; rfl, ?_⟩
      rwa [if_pos hd]
    · have hr : cmdVideo x.state cmd = some (errNotReg, cmd, x.state) := if_pos hd
      refine ⟨_, by rw [step, hr]; rfl, ?_⟩
      rw [if_neg hd]
      exact h

theorem new_inv (devs : List ℤ) : Inv ⟨new devs, []⟩ :=
  ⟨⟨fun _ _ => ring_init .., fun _ _ _ _ _ ha => absurd ha List.not_mem_nil⟩, fun _ _ => rfl, rfl,
    trivial⟩

end Steps

/-! ## Runs -/

/-- **The source is exact:** no command follows a null pointer, and `bcast_dev` is the device that
started last and has not stopped since, in every run in which the starts and stops of a device
alternate. -/
theorem source_exact (devs : List ℤ) {es : List Event}
    (hg : Guarded step Alternates ⟨new devs, []⟩ es) : Always step Sourced ⟨new devs, []⟩ es :=
  always_of_guarded (I := Inv) (E := fun _ => True) (fun _ h => h.sourced)
    (fun _ _ h _ hg => step_inv h hg) (new_inv devs) (fun _ _ => trivial) hg

def command (d : ℤ) (args : List String) : Event :=
  .video { deviceId := d, args := args.map String.toList, rep := [] }

theorem source_exact_twoDevices : Always step Sourced ⟨new [101, 102], []⟩
    [command 101 ["stop"], command 101 ["start", "0"], command 102 ["start", "0"],
      command 101 ["stop"], command 101 ["start", "0"], command 101 ["stop"],
      command 102 ["stop"]] :=
  source_exact [101, 102] (by decide +kernel)

/-- **A stop without a start:** the links of the device are null, and `list_del` follows them. -/
theorem stop_crashes : run step ⟨new [101, 102], []⟩
    [command 101 ["start", "0"], command 102 ["stop"]] = none := by
  decide +kernel

/-- A device that starts twice stays the source when it stops. -/
example : (run step ⟨new [101], []⟩ [command 101 ["start", "0"], command 101 ["start", "0"],
    command 101 ["stop"]]).map (fun x => (x.state.bcastDev, latest [] x.hist)) =
    some (some 101, none) := by
  decide +kernel

theorem not_always_sourced : ¬ ∀ devs es, Always step Sourced ⟨new devs, []⟩ es := by
  intro h
  obtain ⟨x, hx, -⟩ := always_iff_reached.mp (h [101, 102] _) _ List.prefix_rfl
  rw [stop_crashes] at hx
  cases hx

end GSConferencing.Serv.VideoCast
