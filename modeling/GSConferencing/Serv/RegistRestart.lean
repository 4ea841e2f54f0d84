import GSConferencing.Serv.RegistRuns

/-!
# Registration after a restart

`regist_start` is kept in the database, and the text at `arrive_idstr` is not: it is `NULL` until a
`regist start` of the same process.

* `stop_replies`, `status_replies`, `reg_replies`: when a command gets its reply.
* `step_inv`: a registration that an earlier process has left open stays without the text.
* `survives_iff`: the runs along which no command uses the text while it is `NULL` and every `reg`,
  `status` and `stop` gets a reply.
-/

namespace GSConferencing.Serv.RegistRestart

open GSConferencing.Lib.Run
open GSConferencing.Serv.Strutil GSConferencing.Serv.CmdHandler GSConferencing.Serv.Regist
open GSConferencing.Serv.RegistEffect
open GSConferencing.Serv.RegistRuns (regist_cases cmdRegist_start cmdRegist_reg handle_auth)

def step (s : State) (e : Event) : Option State := (handle s e).map fun r => r.2

/-- The subcommands that use what has been registered. -/
def Reads (cmd : Cmd) : Prop :=
  cmd.args.head? ∈ [some "stop".toList, some "status".toList, some "reg".toList]

/-- The reply begins with `OK`. -/
def Begun (cmd c : Cmd) : Prop := ∃ t, c.rep = cmd.rep ++ " OK".toList ++ t

/-- The handler returns, with a reply where it returns 0; other codes are replied to by the caller. -/
def Replies (s : State) (cmd : Cmd) : Prop :=
  ∃ code c s', cmdRegist s cmd = some (code, c, s') ∧ (code = 0 → Begun cmd c)

/-- The state with a text at `arrive_idstr`. -/
def withText (s : State) (str : Str) : State := s.setGrp fun g => { g with arriveIdstr := some str }

/-- The command does not use a text that is `NULL`: it returns if it would with any text. -/
def NullSafe (s : State) (cmd : Cmd) : Prop :=
  ∀ str, (cmdRegist (withText s str) cmd).isSome = true → (cmdRegist s cmd).isSome = true

/-- **The property:** the command does not use a `NULL`, and the subcommands other than `start` get
a reply. -/
def Survives (s : State) : Event → Prop
  | .regist cmd => NullSafe s cmd ∧ (Reads cmd → Replies s cmd)
  | _ => True

/-- The first accepted `reg` of a device. -/
def FirstReg (s : State) (cmd : Cmd) : Prop :=
  cmd.args.head? = some "reg".toList ∧ s.reg cmd.deviceId = 0 ∧
    ∃ p ∈ cmd.args[1]?, ∃ q ∈ cmd.args[2]?, Accepted s cmd.deviceId p q

instance (s : State) (cmd : Cmd) : Decidable (FirstReg s cmd) :=
  have (p q : Str) : Decidable (Accepted s cmd.deviceId p q) :=
    inferInstanceAs (Decidable (_ ∧ _ ∧ _))
  inferInstanceAs (Decidable (_ ∧ _ ∧ _))

/-- **The guard:** the manager device asks for the status only after a start of this process.  No
`stop` and no first `reg` meets a registration that an earlier process has left open, and a first
`reg` finds room in `arrive_ids`. -/
def Ready (left : Prop) (s : State) : Event → Prop
  | .regist cmd => cmd.deviceId ∈ s.devs →
      (cmd.args.head? = some "status".toList → cmd.deviceId = 0 →
        s.grp.arriveIdstr.isSome = true) ∧
      (cmd.args.head? = some "stop".toList → ¬ left) ∧
      (FirstReg s cmd → ¬ left ∧ s.grp.arrive < memberMax)
  | _ => True

instance (left : Prop) [Decidable left] (s : State) : ∀ e, Decidable (Ready left s e)
  | .regist _ => inferInstanceAs (Decidable (_ → (_ → _ → _) ∧ (_ → _) ∧ (_ → _ ∧ _)))
  | .auth _ => isTrue trivial
  | .reg _ => isTrue trivial

/-! ## Replies -/

section Replies

variable {s : State} {cmd c : Cmd}

theorem begun_ok (cmd : Cmd) : Begun cmd (repAdd cmd "OK".toList) :=
  ⟨[], (List.append_nil _).symm⟩

theorem Begun.repAdd (h : Begun cmd c) (str : Str) : Begun cmd (repAdd c str) := by
  obtain ⟨t, ht⟩ := h
  refine ⟨t ++ ' ' :: str, ?_⟩
  show c.rep ++ ' ' :: str = _
  rw [ht, List.append_assoc]

theorem Begun.repEnd (h : Begun cmd c) : Begun cmd (repEnd c) := by
  obtain ⟨t, ht⟩ := h
  refine ⟨t ++ ['\n'], ?_⟩
  show c.rep ++ ['\n'] = _
  rw [ht, List.append_assoc]

theorem repCancelEnd_repEnd (c : Cmd) : repCancelEnd (repEnd c) = c := by
  unfold repCancelEnd CmdHandler.repEnd
  simp only [List.dropLast_concat]

theorem cmdRegist_stop (hd : cmd.deviceId ∈ s.devs)
    (hargs : cmd.args.head? = some "stop".toList) :
    cmdRegist s cmd = registStop s cmd cmd.deviceId := by
  obtain ⟨l, hl⟩ := List.head?_eq_some_iff.mp hargs
  unfold cmdRegist
  rw [if_neg (not_not.mpr hd), hl, nextArg_cons, if_neg (by decide), if_pos rfl]

theorem cmdRegist_status (hd : cmd.deviceId ∈ s.devs)
    (hargs : cmd.args.head? = some "status".toList) :
    cmdRegist s cmd = registStatus s cmd cmd.deviceId := by
  obtain ⟨l, hl⟩ := List.head?_eq_some_iff.mp hargs
  unfold cmdRegist
  rw [if_neg (not_not.mpr hd), hl, nextArg_cons, if_neg (by decide), if_neg (by decide), if_pos rfl]

/-- **`stop`** needs the text of the registration it closes. -/
theorem stop_replies (hd : cmd.deviceId ∈ s.devs) (hargs : cmd.args.head? = some "stop".toList) :
    Replies s cmd ↔ (s.grp.dbData.registStart ≠ 0 → s.grp.arriveIdstr.isSome = true) := by
  unfold Replies
  rw [cmdRegist_stop hd hargs]
  unfold registStop
  by_cases h0 : s.grp.dbData.registStart = 0
  · rw [if_pos h0]
    refine ⟨fun _ h => absurd h0 h, fun _ => ⟨errOther, cmd, s, rfl, fun h => absurd h (by decide)⟩⟩
  · rw [if_neg h0]
    cases hstr : s.grp.arriveIdstr with
    | none =>
      simp only [State.send, hstr, Option.bind_eq_bind, Option.bind_none]
      constructor
      · rintro ⟨_, _, _, h, _⟩
        exact absurd h.symm (Option.some_ne_none _)
      · exact fun h => absurd (h h0) (by decide)
    | some idstr =>
      simp only [State.send, hstr, Option.bind_eq_bind, Option.bind_some]
      refine ⟨fun _ _ => rfl, fun _ => ⟨0, _, _, rfl, fun _ => ?_⟩⟩
      rw [repCancelEnd_repEnd]
      exact ((((begun_ok cmd).repAdd _).repAdd _).repAdd _).repEnd

/-- **`status`** of the manager device reads the text. -/
theorem status_replies (hd : cmd.deviceId ∈ s.devs)
    (hargs : cmd.args.head? = some "status".toList) :
    Replies s cmd ↔ (cmd.deviceId = 0 → s.grp.arriveIdstr.isSome = true) := by
  unfold Replies
  rw [cmdRegist_status hd hargs]
  unfold registStatus
  simp only
  have hbegun := ((begun_ok cmd).repAdd (fmtInt s.grp.expect)).repAdd (fmtInt s.grp.arrive)
  by_cases h0 : cmd.deviceId = 0
  · rw [if_pos h0]
    cases hstr : s.grp.arriveIdstr with
    | none =>
      refine ⟨fun ⟨_, _, _, h, _⟩ => (Option.some_ne_none _ h.symm).elim, fun h => ?_⟩
      exact absurd (h h0) (by decide)
    | some idstr =>
      exact ⟨fun _ _ => rfl, fun _ => ⟨0, _, _, rfl, fun _ => (hbegun.repAdd idstr).repEnd⟩⟩
  · rw [if_neg h0]
    exact ⟨fun _ h => absurd h h0, fun _ => ⟨0, _, _, rfl, fun _ => hbegun.repEnd⟩⟩

/-- **`reg`** of a device that has not arrived writes into the text. -/
theorem reg_replies (hd : cmd.deviceId ∈ s.devs) (hargs : cmd.args.head? = some "reg".toList) :
    Replies s cmd ↔ (FirstReg s cmd →
      s.grp.arriveIdstr.isSome = true ∧ 0 ≤ s.grp.arrive ∧ s.grp.arrive < memberMax) := by
  obtain ⟨l, hl⟩ := List.head?_eq_some_iff.mp hargs
  have hrefused : ∀ code : ℤ, code ≠ 0 → cmdRegist s cmd = some (code, cmd, s) →
      ¬ FirstReg s cmd → (Replies s cmd ↔ (FirstReg s cmd →
        s.grp.arriveIdstr.isSome = true ∧ 0 ≤ s.grp.arrive ∧ s.grp.arrive < memberMax)) :=
    fun code hcode hc hno => ⟨fun _ h => absurd h hno,
      fun _ => ⟨code, cmd, s, hc, fun h => absurd h hcode⟩⟩
  have hreg := cmdRegist_reg hd hl
  unfold registReg at hreg
  match l with
  | [] =>
    exact hrefused 1 one_ne_zero hreg fun ⟨_, _, p, hp, _⟩ => by rw [hl] at hp; cases hp
  | [p] =>
    exact hrefused 1 one_ne_zero hreg fun ⟨_, _, _, _, q, hq, _⟩ => by rw [hl] at hq; cases hq
  | p :: q :: l =>
    have hfirst : FirstReg s cmd ↔ s.reg cmd.deviceId = 0 ∧ Accepted s cmd.deviceId p q := by
      unfold FirstReg
      rw [hl]
      constructor
      · rintro ⟨-, h0, p', hp', q', hq', hacc⟩
        cases hp'
        cases hq'
        exact ⟨h0, hacc⟩
      · rintro ⟨h0, hacc⟩
        exact ⟨rfl, h0, p, rfl, q, rfl, hacc⟩
    simp only [nextArg_cons] at hreg
    by_cases hmode : s.grp.dbData.registStart = 0 ∨ s.grp.dbData.registMode ≠ atoi p
    · rw [if_pos hmode] at hreg
      refine hrefused errOther (by decide) hreg fun h => ?_
      have hacc := (hfirst.mp h).2
      exact hmode.elim hacc.1 fun hne => hne hacc.2.1
    rw [if_neg hmode] at hreg
    by_cases hcard : atoi p = registCardId ∧ atoi q ≠ (s.row cmd.deviceId).userCard
    · rw [if_pos hcard] at hreg
      refine hrefused errOther (by decide) hreg fun h => ?_
      exact hcard.2 ((hfirst.mp h).2.2.2 hcard.1)
    rw [if_neg hcard] at hreg
    push Not at hmode hcard
    have hacc : Accepted s cmd.deviceId p q := ⟨hmode.1, hmode.2, hcard⟩
    have hbegun := ((((begun_ok cmd).repAdd (fmtInt (s.row cmd.deviceId).userCard)).repAdd
      (replyName (s.row cmd.deviceId).userName)).repAdd
        (fmtInt (s.row cmd.deviceId).userGender)).repEnd
    by_cases h0 : s.reg cmd.deviceId = 0
    · rw [if_neg (not_not.mpr h0)] at hreg
      rw [hfirst]
      unfold Replies
      rw [hreg]
      unfold arriveDev
      by_cases hout : s.grp.arrive < 0 ∨ memberMax ≤ s.grp.arrive
      · rw [if_pos hout]
        refine ⟨fun ⟨_, _, _, h, _⟩ => (Option.some_ne_none _ h.symm).elim, fun h => ?_⟩
        have := h ⟨h0, hacc⟩
        omega
      · rw [if_neg hout]
        cases hstr : s.grp.arriveIdstr with
        | none =>
          refine ⟨fun ⟨_, _, _, h, _⟩ => (Option.some_ne_none _ h.symm).elim, fun h => ?_⟩
          exact absurd (h ⟨h0, hacc⟩).1 (by decide)
        | some idstr =>
          refine ⟨fun _ _ => ⟨rfl, by omega⟩, fun _ => ⟨0, _, _, rfl, fun _ => hbegun⟩⟩
    · rw [if_pos h0] at hreg
      exact ⟨fun _ h => absurd (hfirst.mp h).1 h0, fun _ => ⟨0, _, _, hreg, fun _ => hbegun⟩⟩

/-- **`start`** allocates the text. -/
theorem start_nullSafe (hd : cmd.deviceId ∈ s.devs) (hargs : cmd.args.head? = some "start".toList) :
    NullSafe s cmd := by
  obtain ⟨l, hl⟩ := List.head?_eq_some_iff.mp hargs
  have hsome : ∀ t : State, (registStart t cmd cmd.deviceId l).isSome = true ↔
      ¬ (t.grp.dbData.registStart = 0 ∧
        ∃ dr l, t.registTable = dr :: l ∧ memberMax < (memberIds dr).length) := by
    intro t
    have heff := start_effect t cmd cmd.deviceId l
    rw [← Option.isSome_map (f := fun r : Reply State => (r.1, view r.2.2))]
    generalize (registStart t cmd cmd.deviceId l).map (fun r => (r.1, view r.2.2)) = r at heff ⊢
    cases heff with
    | refused hcode hno =>
      refine ⟨fun _ ⟨h0, dr, l', hdr, _⟩ => ?_, fun _ => rfl⟩
      exact hno.elim (fun h => h h0) fun h => List.cons_ne_nil _ _ (hdr.symm.trans h)
    | overflow h0 hdr hlong =>
      exact ⟨fun h => absurd h (by decide), fun h => absurd ⟨h0, _, _, hdr, hlong⟩ h⟩
    | noMode hcode h0 hdr hfit hargs =>
      refine ⟨fun _ ⟨_, dr, l', hdr', hlong⟩ => ?_, fun _ => rfl⟩
      cases hdr.symm.trans hdr'
      omega
    | opened h0 hdr hfit hargs =>
      refine ⟨fun _ ⟨_, dr, l', hdr', hlong⟩ => ?_, fun _ => rfl⟩
      cases hdr.symm.trans hdr'
      omega
  intro str h
  rw [cmdRegist_start hd hl, hsome]
  rw [cmdRegist_start (s := withText s str) hd hl, hsome] at h
  exact h

end Replies

/-! ## Steps -/

/-- What is left of the registration: one of an earlier process stays as it is, and one of this
process has a text. -/
structure Inv (left : Prop) (v : View) : Prop where
  stale : left → v.start ≠ 0 ∧ v.idstr = none
  text : ¬ left → v.start ≠ 0 → v.idstr.isSome = true
  arrive : ¬ left → 0 ≤ v.arrive

section Steps

variable {left : Prop} {s s' : State} {e : Event}

/-- A registration with a text was started after the restart. -/
theorem Inv.not_left {v : View} (hI : Inv left v) {idstr : Str} (hstr : v.idstr = some idstr) :
    ¬ left := by
  intro hl
  rw [(hI.stale hl).2] at hstr
  cases hstr

theorem stop_inv (hI : Inv left (view s)) {cmd : Cmd} {d code : ℤ} {c : Cmd}
    (h : registStop s cmd d = some (code, c, s')) : Inv left (view s') := by
  unfold registStop at h
  split at h
  · cases h
    exact hI
  · next h0 =>
    cases hstr : s.grp.arriveIdstr with
    | none =>
      simp only [State.send, hstr, Option.bind_eq_bind, Option.bind_none] at h
      cases h
    | some idstr =>
      have hleft : ¬ left := hI.not_left hstr
      simp only [Option.bind_eq_bind] at h
      obtain ⟨idstr', -, h⟩ := Option.bind_eq_some_iff.mp h
      cases h
      rw [view_deviceSave, view_setRow, view_send]
      exact ⟨fun hl => absurd hl hleft, fun _ hstart => absurd rfl hstart, fun _ => le_refl 0⟩

theorem start_inv (hI : Inv left (view s)) {cmd : Cmd} {d code : ℤ} {l : List Str} {c : Cmd}
    (h : registStart s cmd d l = some (code, c, s')) : Inv left (view s') := by
  have heff := start_effect s cmd d l
  rw [h, Option.map_some] at heff
  generalize view s' = v at heff ⊢
  cases heff with
  | refused => exact hI
  | noMode hcode h0 => exact ⟨hI.stale, hI.text, hI.arrive⟩
  | opened h0 =>
    have hleft : ¬ left := fun hl => (hI.stale hl).1 h0
    exact ⟨fun hl => absurd hl hleft, fun _ _ => rfl, fun _ => le_refl 0⟩

theorem reg_inv (hI : Inv left (view s)) {cmd : Cmd} {d code : ℤ} {l : List Str} {c : Cmd}
    (h : registReg s cmd d l = some (code, c, s')) : Inv left (view s') := by
  have heff := reg_effect s cmd d l
  rw [h, Option.map_some] at heff
  generalize view s' = v at heff ⊢
  cases heff with
  | refused => exact hI
  | again => exact hI
  | arrives hargs hacc hreg hlt hstr =>
    have hleft : ¬ left := hI.not_left hstr
    have harrive := hI.arrive hleft
    exact ⟨fun hl => absurd hl hleft, fun _ _ => rfl, fun _ => by
      show 0 ≤ (view s).arrive + 1
      omega⟩

/-- **A step** keeps a registration that was left open as it is. -/
theorem step_inv (hI : Inv left (view s)) (h : step s e = some s') : Inv left (view s') := by
  obtain ⟨⟨code, t⟩, ht, rfl⟩ := Option.map_eq_some_iff.mp h
  cases e with
  | regist cmd =>
    obtain ⟨⟨code', c, t'⟩, hc, heq⟩ := Option.map_eq_some_iff.mp ht
    cases heq
    rcases regist_cases s cmd with ⟨code', c', -, hs⟩ | ⟨hd, sub, l, hargs, hsub⟩
    · cases hs.symm.trans hc
      exact hI
    · rcases hsub with ⟨-, hs⟩ | ⟨-, hs⟩ | ⟨-, hs⟩ | ⟨-, hs⟩
      · exact start_inv hI (hs.symm.trans hc)
      · exact stop_inv hI (hs.symm.trans hc)
      · rw [hs] at hc
        unfold registStatus at hc
        simp only at hc
        split at hc
        · obtain ⟨_, -, heq⟩ := Option.map_eq_some_iff.mp hc
          cases heq
          exact hI
        · cases hc
          exact hI
      · exact reg_inv hI (hs.symm.trans hc)
  | auth cmd =>
    by_cases hd : cmd.deviceId ∈ s.devs
    · have heff := auth_effect hd
      rw [← handle_auth, ht, Option.map_some] at heff
      show Inv left (view t)
      generalize view t = v at heff ⊢
      cases heff with
      | refused => exact hI
      | arrives =>
        exact ⟨hI.stale, hI.text, fun hl => by
          have := hI.arrive hl
          show 0 ≤ (view s).arrive + 1
          omega⟩
    · have hauth : cmdAuth s cmd = some (errNotReg, cmd, s) := if_pos hd
      have hsame : handle s (.auth cmd) = some (errNotReg, s) := by
        show (cmdAuth s cmd).map _ = _
        rw [hauth]
        rfl
      cases hsame.symm.trans ht
      exact hI
  | reg d =>
    cases ht
    rcases view_reg s d with hv | ⟨-, hv⟩
    · rw [hv]
      exact hI
    · rw [hv]
      exact ⟨hI.stale, hI.text, hI.arrive⟩

/-- **One event** survives exactly when it meets the guard. -/
theorem survives_iff_ready (hI : Inv left (view s)) (e : Event) : Survives s e ↔ Ready left s e := by
  cases e with
  | auth => exact Iff.rfl
  | reg => exact Iff.rfl
  | regist cmd =>
    show (NullSafe s cmd ∧ (Reads cmd → Replies s cmd)) ↔ (cmd.deviceId ∈ s.devs →
      (cmd.args.head? = some "status".toList → cmd.deviceId = 0 →
        s.grp.arriveIdstr.isSome = true) ∧
      (cmd.args.head? = some "stop".toList → ¬ left) ∧
      (FirstReg s cmd → ¬ left ∧ s.grp.arrive < memberMax))
    by_cases hd : cmd.deviceId ∈ s.devs
    swap
    · have hc : cmdRegist s cmd = some (errNotReg, cmd, s) := if_pos hd
      refine ⟨fun _ h => absurd h hd, fun _ => ⟨fun _ _ => by rw [hc]; rfl, fun _ => ?_⟩⟩
      exact ⟨errNotReg, cmd, s, hc, fun h => absurd h (by decide)⟩
    have hreads : Reads cmd → ((NullSafe s cmd ∧ (Reads cmd → Replies s cmd)) ↔ Replies s cmd) := by
      refine fun hr => ⟨fun h => h.2 hr, fun h => ⟨fun _ _ => ?_, fun _ => h⟩⟩
      obtain ⟨_, _, _, hc, -⟩ := h
      rw [hc]
      rfl
    by_cases hstop : cmd.args.head? = some "stop".toList
    · have hne : cmd.args.head? ≠ some "status".toList := by rw [hstop]; decide
      have hne' : ¬ FirstReg s cmd := fun h => by
        have := hstop.symm.trans h.1
        exact absurd this (by decide)
      rw [hreads (by unfold Reads; rw [hstop]; decide), stop_replies hd hstop]
      constructor
      · refine fun h _ => ⟨fun hs => absurd hs hne, fun _ hl => ?_, fun hf => absurd hf hne'⟩
        obtain ⟨hstart, hnull⟩ := hI.stale hl
        have hsome := h hstart
        rw [show s.grp.arriveIdstr = none from hnull] at hsome
        exact absurd hsome (by decide)
      · exact fun h => hI.text ((h hd).2.1 hstop)
    by_cases hstatus : cmd.args.head? = some "status".toList
    · have hne : ¬ FirstReg s cmd := fun h => by
        have := hstatus.symm.trans h.1
        exact absurd this (by decide)
      rw [hreads (by unfold Reads; rw [hstatus]; decide), status_replies hd hstatus]
      exact ⟨fun h _ => ⟨fun _ => h, fun hs => absurd hs hstop, fun hf => absurd hf hne⟩,
        fun h => (h hd).1 hstatus⟩
    by_cases hreg : cmd.args.head? = some "reg".toList
    · rw [hreads (by unfold Reads; rw [hreg]; decide), reg_replies hd hreg]
      constructor
      · refine fun h _ => ⟨fun hs => absurd hs hstatus, fun hs => absurd hs hstop, fun hf => ?_⟩
        obtain ⟨hsome, -, hlt⟩ := h hf
        refine ⟨fun hl => ?_, hlt⟩
        rw [show s.grp.arriveIdstr = none from (hI.stale hl).2] at hsome
        exact absurd hsome (by decide)
      · intro h hf
        obtain ⟨hleft, hlt⟩ := (h hd).2.2 hf
        obtain ⟨-, -, p, -, q, -, hacc⟩ := hf
        exact ⟨hI.text hleft hacc.1, hI.arrive hleft, hlt⟩
    · have hother : ¬ Reads cmd := by
        unfold Reads
        simp only [List.mem_cons, List.not_mem_nil, or_false]
        rintro (h | h | h)
        · exact hstop h
        · exact hstatus h
        · exact hreg h
      refine ⟨fun _ _ => ⟨fun h => absurd h hstatus, fun h => absurd h hstop,
        fun h => absurd h.1 hreg⟩, fun _ => ⟨?_, fun h => absurd h hother⟩⟩
      by_cases hstart : cmd.args.head? = some "start".toList
      · exact start_nullSafe hd hstart
      · intro _ _
        rcases regist_cases s cmd with ⟨code, c, -, hc⟩ | ⟨-, sub, l, hargs, hsub⟩
        · rw [hc]
          rfl
        · rw [hargs] at hstop hstatus hreg hstart
          rcases hsub with ⟨rfl, -⟩ | ⟨rfl, -⟩ | ⟨rfl, -⟩ | ⟨rfl, -⟩
          · exact absurd rfl hstart
          · exact absurd rfl hstop
          · exact absurd rfl hstatus
          · exact absurd rfl hreg

end Steps

/-! ## Runs -/

/-- **After a restart** no command uses a `NULL` text, and every `reg`, `status` and `stop` gets a
reply, exactly along the runs whose commands meet the guard. That the reply of a `status` with very
many ids fits `rep` is not part of it. -/
theorem survives_iff {db : Db} {s : State} (hs : recoverServer db = some s) (es : List Event) :
    Guarded step Survives s es ↔ Guarded step (Ready (db.group.registStart ≠ 0)) s es := by
  have hI : Inv (db.group.registStart ≠ 0) (view s) := by
    unfold recoverServer at hs
    simp only at hs
    split at hs
    · cases hs
    · cases hs
      refine ⟨fun hl => ⟨hl, rfl⟩, fun hl hstart => absurd hstart hl, fun hl => ?_⟩
      show 0 ≤ if db.group.registStart = 0 then 0 else db.group.registArrive
      rw [if_pos (not_not.mp hl)]
  exact guarded_congr (I := fun s => Inv (db.group.registStart ≠ 0) (view s))
    (fun _ _ _ hI h => step_inv hI h) (fun _ e hI => survives_iff_ready hI e) hI

/-- A database with one client and a registration, which may have been left open. -/
def oneClient (start : ℤ) : Db where
  group := ⟨start, 0, 1, 0⟩
  table := [101]
  nodup := by decide
  row := fun _ => ⟨7, "Ann".toList, 1, 1, 0, 0⟩
  registTable := [⟨"101".toList, 1⟩]
  authCards := []

def command (d : ℤ) (args : List String) : Event :=
  .regist ⟨d, args.map String.toList, []⟩

def booted (start : ℤ) : State := (recoverServer (oneClient start)).get (by
  unfold recoverServer oneClient
  simp)

theorem recover_client (start : ℤ) : recoverServer (oneClient start) = some (booted start) :=
  (Option.some_get _).symm

/-- A registration from its start to its end. -/
def session : List Event :=
  [command 101 ["start", "0"], command 101 ["reg", "0", "7"], command 0 ["status"],
    command 101 ["stop"]]

theorem survives_iff_session : Guarded step Survives (booted 0) session :=
  (survives_iff (recover_client 0) session).mpr (by decide +kernel)

/-- **A registration that was left open** cannot be closed: there is no text to reply with. -/
theorem stop_left : (cmdRegist (booted 1) ⟨101, ["stop".toList], []⟩).isNone = true := by
  decide +kernel

theorem not_forall_survives : ¬ ∀ db s es, recoverServer db = some s →
    Guarded step Survives s es := by
  intro h
  have hstop := (h _ _ [command 101 ["stop"]] (recover_client 1)).1
  obtain ⟨code, c, s', hs', -⟩ := hstop.2 (by unfold Reads; decide)
  have hnone := stop_left
  rw [show cmdRegist (booted 1) ⟨101, ["stop".toList], []⟩ = _ from hs'] at hnone
  exact Bool.false_ne_true hnone

end GSConferencing.Serv.RegistRestart
