import GSConferencing.Serv.VoteInv

/-!
# References to vote objects along runs

`RefsOk`: the group has an object exactly while a vote is open, and a device refers to this object
or to none, so that no reference is to an object that has been freed.

* `step_refs`, `step_bad`: what a command that is no slip keeps, and what a slip leaves.
* `refs_exact`: along a run the property holds exactly when every `stop` finds no vote open and
  every `showresult` reaches all devices that refer to the object it frees.
-/

namespace GSConferencing.Serv.VoteRefs

open GSConferencing.Lib.CyclicList GSConferencing.Lib.Run
open GSConferencing.Serv.Strutil GSConferencing.Serv.CmdHandler GSConferencing.Serv.Votectrl
open GSConferencing.Serv.VoteEffect GSConferencing.Serv.VoteInv

/-- The references to vote objects are in order. -/
structure RefsOk (v : View) : Prop where
  isOpen : v.gv ≠ none ↔ v.current ≠ none
  same : ∀ d ∈ v.devs, v.ref d = none ∨ v.ref d = v.gv
  live : ∀ d ∈ v.devs, ∀ a, v.ref d = some a → v.objs a ≠ none

/-- The list of the object `a`, followed from its head, comes back to it and passes every device
that refers to the object, the sender `d` aside. -/
def Covered (s : State) (d : ℤ) (a : ℕ) : Prop :=
  ∃ ms, Leads s.links a (s.links.next (.head a)) ms ∧
    ∀ x ∈ s.devs, (s.dev x).v = some a → x = d ∨ x ∈ ms

/-- `showresult` frees an object that it takes from every device. -/
def ShowCovers (s : State) (d : ℤ) (args : List Str) : Prop :=
  s.grp.current ≠ none → ∀ q l a, args = q :: l → (s.dev d).v = some a →
    Covered s d a ∧ ∀ v, s.objs a = some v → v.type ≠ voteScore → v.cnOptions ≤ resultMax

/-- An event that is no slip. -/
def StepSafe (s : State) : Event → Prop
  | .votectrl cmd => cmd.deviceId ∈ s.devs →
      (∀ l, cmd.args = "start".toList :: l → StartSafe s l) ∧
      (∀ l, cmd.args = "result".toList :: l → ResultSafe s cmd.deviceId l) ∧
      (∀ l, cmd.args = "showresult".toList :: l → ShowCovers s cmd.deviceId l) ∧
      (∀ l, cmd.args = "stop".toList :: l → s.grp.current = none)
  | .reg _ _ => True
  | .save _ => True

/-- The events apart from `select` and `status`, which only read. -/
def Writes : Event → Prop
  | .votectrl cmd => cmd.args.head? ≠ some "select".toList ∧ cmd.args.head? ≠ some "status".toList
  | _ => True

instance : DecidablePred Writes
  | .votectrl cmd => inferInstanceAs (Decidable (cmd.args.head? ≠ some "select".toList ∧
      cmd.args.head? ≠ some "status".toList))
  | .reg _ _ => isTrue trivial
  | .save _ => isTrue trivial

/-! ## What keeps the references -/

section Keep
variable {v : View} {d : ℤ}

/-- No device refers to an object while no vote is open. -/
theorem RefsOk.ref_none (h : RefsOk v) (hcur : v.current = none) {x : ℤ} (hx : x ∈ v.devs) :
    v.ref x = none := by
  have hgv : v.gv = none := by
    by_contra hne
    exact h.isOpen.mp hne hcur
  rcases h.same x hx with hn | hg
  · exact hn
  · rw [hg, hgv]

/-- The live references follow from the others, as the open vote has an object. -/
theorem RefsOk.of_wf (hw : Wf v) (hopen : v.gv ≠ none ↔ v.current ≠ none)
    (hsame : ∀ d ∈ v.devs, v.ref d = none ∨ v.ref d = v.gv) : RefsOk v := by
  refine ⟨hopen, hsame, fun d hd a ha => ?_⟩
  rcases hsame d hd with hn | hg
  · rw [hn] at ha
    cases ha
  · have hgv : v.gv ≠ none := by
      rw [← hg, ha]
      exact Option.some_ne_none a
    obtain ⟨dv, hdv⟩ := Option.ne_none_iff_exists'.mp (hopen.mp hgv)
    obtain ⟨b, o, hb, ho, -⟩ := (hw.running dv hdv).obj
    rw [← hg, ha, Option.some.injEq] at hb
    rw [hb, ho]
    exact Option.some_ne_none o

theorem refs_started (h : RefsOk v) (hcur : v.current = none) {dv : DbVote} {ids : List ℤ}
    {R S : ℤ → DbDevice} {o : Vote} {L : Links ℕ ℤ} (hw : Wf (v.started d dv ids R S o L)) :
    RefsOk (v.started d dv ids R S o L) := by
  refine RefsOk.of_wf hw ⟨fun _ => Option.some_ne_none _, fun _ => Option.some_ne_none _⟩ ?_
  intro x hx
  show (if _ then some v.next else v.ref x) = none ∨ (if _ then some v.next else v.ref x) = _
  split_ifs
  · exact .inr rfl
  · exact .inl (h.ref_none hcur hx)

theorem refs_shown (h : RefsOk v) {a : ℕ} {ms : List ℤ} {R S : ℤ → DbDevice}
    (hw : Wf (v.shown d a ms R S)) (hgv : v.gv = some a)
    (hall : ∀ x ∈ v.devs, v.ref x = some a → x = d ∨ x ∈ ms) : RefsOk (v.shown d a ms R S) := by
  refine RefsOk.of_wf hw ⟨fun h' => absurd rfl h', fun h' => absurd rfl h'⟩ fun x hx => .inl ?_
  show (if x ∈ ms ∨ x = d then none else v.ref x) = none
  split_ifs with hin
  · rfl
  · rcases h.same x hx with hn | hg
    · exact hn
    · rw [hgv] at hg
      exact absurd (hall x hx hg).symm hin

/-- A device that has an object is a device of the open vote. -/
theorem RefsOk.gv_of_ref (h : RefsOk v) (hd : d ∈ v.devs) {a : ℕ} (ha : v.ref d = some a) :
    v.gv = some a := by
  rcases h.same d hd with hn | hg
  · rw [hn] at ha
    cases ha
  · exact hg.symm.trans ha

theorem refs_registered {v' : View} (h : RefsOk v) (hw : Wf v') (he : RegEffect v d v') :
    RefsOk v' := by
  cases he with
  | ignored => exact h
  | known hr hd => exact ⟨h.isOpen, h.same, h.live⟩
  | joined hr hd =>
    refine RefsOk.of_wf hw h.isOpen fun x hx => ?_
    show Function.update v.ref d none x = none ∨ Function.update v.ref d none x = v.gv
    by_cases e : x = d
    · rw [e, Function.update_self]
      exact .inl rfl
    · rw [Function.update_of_ne e]
      exact h.same x ((List.mem_append.mp hx).resolve_right fun h' => e (List.mem_singleton.mp h'))

end Keep

/-! ## Steps -/

section Steps
variable {s s' : State} {e : Event} {cmd : Cmd}

/-- The step of a command, from what it does to the view. -/
theorem step_of_map {code : ℤ} {v : View}
    (h : (cmdVotectrl s cmd).map (fun r => (r.1, view r.2.2)) = some (code, v)) :
    ∃ s', step s (.votectrl cmd) = some s' ∧ view s' = v := by
  obtain ⟨r, hr, heq⟩ := Option.map_eq_some_iff.mp h
  cases heq
  exact ⟨r.2.2, by rw [step, hr]; rfl, rfl⟩

theorem showSafe_of_covers {d : ℤ} {l : List Str} (h : RefsOk (view s)) (hd : d ∈ s.devs)
    (hs : ShowCovers s d l) : ShowSafe s d l := by
  intro hcur q l' a hargs href
  obtain ⟨⟨ms, hlead, -⟩, hmax⟩ := hs hcur q l' a hargs href
  obtain ⟨v, hv⟩ := Option.ne_none_iff_exists'.mp (h.live d hd a href)
  exact ⟨v, ms, hv, hlead, hmax v hv⟩

/-- **A command that is no slip** has a result, and the references stay in order. -/
theorem votectrl_refs (hw : Wf (view s)) (h : RefsOk (view s)) (hE : Writes (.votectrl cmd))
    (hsafe : StepSafe s (.votectrl cmd)) :
    ∃ s', step s (.votectrl cmd) = some s' ∧ RefsOk (view s') := by
  have hsame : ∀ {code : ℤ}, (cmdVotectrl s cmd).map (fun r => (r.1, view r.2.2)) =
      some (code, view s) → ∃ s', step s (.votectrl cmd) = some s' ∧ RefsOk (view s') := by
    intro code hmap
    obtain ⟨s', hs', hv⟩ := step_of_map hmap
    exact ⟨s', hs', hv ▸ h⟩
  obtain ⟨code, c, -, heq⟩ | ⟨hd, scmd, l, hargs, hcases⟩ := votectrl_cases s cmd
  · exact hsame (by rw [heq]; rfl)
  obtain ⟨hstart, hresult, hshow, hstop⟩ := hsafe hd
  rcases hcases with ⟨rfl, he⟩ | ⟨rfl, -⟩ | ⟨rfl, he⟩ | ⟨rfl, he⟩ | ⟨rfl, -⟩ | ⟨rfl, he⟩ |
    ⟨rfl, he⟩ | ⟨rfl, he⟩ | ⟨rfl, he⟩
  · obtain ⟨s', hs', hv⟩ := step_of_map (he ▸ view_query s cmd)
    exact ⟨s', hs', hv ▸ ⟨h.isOpen, h.same, h.live⟩⟩
  · exact absurd (by rw [hargs]; rfl) hE.1
  · have heff := start_effect cmd cmd.deviceId l hw.links
    rw [← he] at heff
    generalize hr : (cmdVotectrl s cmd).map (fun r => (r.1, view r.2.2)) = r at heff
    cases heff with
    | stuck hno => exact absurd (hstart l hargs) hno
    | refused => exact hsame hr
    | rejected =>
      obtain ⟨s', hs', hv⟩ := step_of_map hr
      exact ⟨s', hs', hv ▸ ⟨h.isOpen, h.same, h.live⟩⟩
    | started _ hcur hdv hfit hR ho hL =>
      obtain ⟨s', hs', hv⟩ := step_of_map hr
      exact ⟨s', hs', hv ▸ refs_started h hcur (hw.started hdv hfit memberList_eq hR ho hL)⟩
  · have heff := result_effect s cmd cmd.deviceId l
    rw [← he] at heff
    generalize hr : (cmdVotectrl s cmd).map (fun r => (r.1, view r.2.2)) = r at heff
    cases heff with
    | stuck hno => exact absurd (hresult l hargs) hno
    | refused => exact hsame hr
    | counted _ _ _ hobj _ hb hR =>
      obtain ⟨s', hs', hv⟩ := step_of_map hr
      exact ⟨s', hs', hv ▸ RefsOk.of_wf (hw.counted hobj hb hR) h.isOpen h.same⟩
  · exact absurd (by rw [hargs]; rfl) hE.2
  · have heff := show_effect cmd cmd.deviceId l hw.links
    rw [← he] at heff
    generalize hr : (cmdVotectrl s cmd).map (fun r => (r.1, view r.2.2)) = r at heff
    cases heff with
    | stuck hno => exact absurd (showSafe_of_covers h hd (hshow l hargs)) hno
    | refused => exact hsame hr
    | shown hl hcur href hobj hlead hmax hR =>
      obtain ⟨s', hs', hv⟩ := step_of_map hr
      obtain ⟨⟨ms', hlead', hall⟩, -⟩ := hshow l hargs hcur _ _ _ hl href
      cases hlead.unique hlead'
      refine ⟨s', hs', hv ▸ refs_shown h (hw.shown _ _ hR) (h.gv_of_ref hd href) hall⟩
  · obtain ⟨s', hs', hv⟩ := step_of_map (he ▸ view_stop s cmd)
    refine ⟨s', hs', hv ▸ ?_⟩
    have hcur : (view s).current = none := hstop l hargs
    have hopen := h.isOpen
    rw [hcur] at hopen
    exact ⟨hopen, h.same, h.live⟩
  · obtain ⟨r', hr', hv⟩ := view_remind s cmd l
    exact ⟨r'.2.2, by rw [step, he, hr']; rfl, hv ▸ h⟩
  · obtain ⟨r', hr', hv⟩ := view_forbid s cmd l
    exact ⟨r'.2.2, by rw [step, he, hr']; rfl, hv ▸ h⟩

theorem step_refs (hw : Wf (view s)) (h : RefsOk (view s)) (hE : Writes e)
    (hsafe : StepSafe s e) : ∃ s', step s e = some s' ∧ Wf (view s') ∧ RefsOk (view s') := by
  cases e with
  | votectrl cmd =>
    obtain ⟨s', hs', h'⟩ := votectrl_refs hw h hE hsafe
    exact ⟨s', hs', step_wf hw hs', h'⟩
  | reg d moved =>
    have hw' : Wf (view (reg s d moved)) := hw.registered (reg_effect s d moved)
    exact ⟨_, rfl, hw', refs_registered h hw' (reg_effect s d moved)⟩
  | save d =>
    refine ⟨_, rfl, step_wf hw (e := .save d) rfl, ?_⟩
    rw [view_deviceSave]
    exact ⟨h.isOpen, h.same, h.live⟩

/-! ## Slips -/

/-- A command that has a result. -/
theorem map_of_step (hs' : step s (.votectrl cmd) = some s') :
    ∃ code, (cmdVotectrl s cmd).map (fun r => (r.1, view r.2.2)) = some (code, view s') := by
  obtain ⟨r, hr, rfl⟩ := Option.map_eq_some_iff.mp hs'
  exact ⟨r.1, by rw [hr]; rfl⟩

/-- **A `showresult` that misses a device** leaves it with an object that is freed. -/
theorem show_bad (hw : Wf (view s)) (hd : cmd.deviceId ∈ s.devs) {l : List Str}
    (hargs : cmd.args = "showresult".toList :: l) (hbad : ¬ ShowCovers s cmd.deviceId l)
    (hs' : step s (.votectrl cmd) = some s') : ¬ RefsOk (view s') := by
  obtain ⟨code, hmap⟩ := map_of_step hs'
  have heff := show_effect cmd cmd.deviceId l hw.links
  rw [← cmdVotectrl_showresult hd hargs, hmap] at heff
  generalize view s' = v' at heff ⊢
  cases heff with
  | refused hcode hno =>
    refine absurd (fun hcur q l' a hl href => ?_) hbad
    rw [hno hcur q l' hl] at href
    cases href
  | shown hl hcur href hobj hlead hmax hR =>
    intro hok
    refine hbad fun _ q l' a hl' href' => ?_
    rw [href] at href'
    cases href'
    refine ⟨⟨_, hlead, fun x hx hxa => ?_⟩, fun v hv => ?_⟩
    · by_contra hout
      have hgone := hok.ref_none rfl hx
      replace hgone : (if x ∈ _ ∨ x = cmd.deviceId then none else (s.dev x).v) = none := hgone
      rw [if_neg fun h => hout h.symm, hxa] at hgone
      cases hgone
    · rw [hobj] at hv
      cases hv
      exact hmax

/-- **A slip leaves a reference that is wrong.** -/
theorem step_bad (hw : Wf (view s)) (h : RefsOk (view s)) (hbad : ¬ StepSafe s e)
    (hs' : step s e = some s') : ¬ RefsOk (view s') := by
  cases e with
  | reg d moved => exact absurd trivial hbad
  | save d => exact absurd trivial hbad
  | votectrl cmd =>
    by_cases hd : cmd.deviceId ∈ s.devs
    swap
    · exact absurd (fun h => absurd h hd) hbad
    obtain ⟨code, hmap⟩ := map_of_step hs'
    intro hok
    refine hbad fun _ =>
      ⟨fun l hargs => ?_, fun l hargs => ?_, fun l hargs => ?_, fun l hargs => ?_⟩
    · have heff := start_effect cmd cmd.deviceId l hw.links
      rw [← cmdVotectrl_start hd hargs, hmap] at heff
      exact heff.safe
    · have heff := result_effect s cmd cmd.deviceId l
      rw [← cmdVotectrl_result hd hargs, hmap] at heff
      exact heff.safe
    · by_contra hno
      exact show_bad hw hd hargs hno hs' hok
    · -- the object stays with the group when the vote is stopped
      by_contra hopen
      rw [cmdVotectrl_stop hd hargs, view_stop, Option.some.injEq, Prod.mk.injEq] at hmap
      rw [← hmap.2] at hok
      exact hok.isOpen.mp (h.isOpen.mpr hopen) rfl

end Steps

/-! ## Whole runs -/

theorem booted_refs {db : Db} {ds : List ℤ} {v : View} (h : Booted db ds v) (hw : Wf v) :
    RefsOk v := by
  refine RefsOk.of_wf hw ?_ fun d _ => h.ref d
  rw [h.gv_eq, h.current_eq]
  cases openRecord db <;> simp

/-- **The references are in order along a run exactly when no event of it is a slip:** every `stop`
finds no vote open, and every `showresult` reaches all devices that refer to the object it frees. -/
theorem refs_exact {db : Db} {s : State} (hs : recoverServer db = some s) {es : List Event}
    (hes : ∀ e ∈ es, Writes e) :
    Always step (fun s => RefsOk (view s)) s es ↔ Guarded step StepSafe s es := by
  have hboot := recoverServer_booted hs
  have hw := hboot.wf (startable_of_recover hs)
  exact always_iff_guarded (I := fun s => Wf (view s) ∧ RefsOk (view s)) (E := Writes)
    (fun _ h => h.2) (fun _ _ h hE hg => step_refs h.1 h.2 hE hg)
    (fun _ _ _ h _ hn hs' => step_bad h.1 h.2 hn hs') ⟨hw, booted_refs hboot hw⟩ hes

theorem twoMembers_nodup : ([101, 102] : List ℤ).Nodup := by decide

/-- Two devices, and a vote between two options that both are members of. -/
def twoMembers : Db where
  group := { voteId := 0, voteResults := ['0'] }
  table := [101, 102]
  nodup := twoMembers_nodup
  row := fun _ => newRow
  voteTable :=
    { records := [{ id := 1, name := "v".toList, type := 0, optionsCount := 2, maxSelect := 1
                    options := "a,b".toList, members := "101,102".toList, expect := 2 }]
      nodup := by decide }

def command (d : ℤ) (args : List String) : Event :=
  .votectrl { deviceId := d, args := args.map String.toList, rep := [] }

theorem refs_exact_twoMembers : ∃ s, recoverServer twoMembers = some s ∧
    (Always step (fun s => RefsOk (view s)) s
        [command 101 ["query"], command 101 ["start", "0"], command 102 ["result", "0", "1"],
          command 101 ["showresult", "0"]] ↔
      Guarded step StepSafe s
        [command 101 ["query"], command 101 ["start", "0"], command 102 ["result", "0", "1"],
          command 101 ["showresult", "0"]]) := by
  obtain ⟨s, hs⟩ := Option.isSome_iff_exists.mp
    (show (recoverServer twoMembers).isSome = true by decide)
  exact ⟨s, hs, refs_exact hs (by decide)⟩

/-- What a run leaves: whether the group has an object, and whether a vote is open. -/
def openAfter (db : Db) (es : List Event) : Option (Bool × Bool) :=
  ((recoverServer db).bind fun s => run step s es).map fun s =>
    (s.grp.v.isSome, s.grp.current.isSome)

theorem reached_of_openAfter {db : Db} {es : List Event} {x : Bool × Bool}
    (h : openAfter db es = some x) : ∃ s t, recoverServer db = some s ∧ run step s es = some t ∧
      t.grp.v.isSome = x.1 ∧ t.grp.current.isSome = x.2 := by
  obtain ⟨t, ht, rfl⟩ := Option.map_eq_some_iff.mp h
  obtain ⟨s, hs, ht⟩ := Option.bind_eq_some_iff.mp ht
  exact ⟨s, t, hs, ht, rfl, rfl⟩

/-- A vote that is stopped leaves its object with the group. -/
theorem stop_leaves_object : ∃ s, recoverServer twoMembers = some s ∧
    ¬ Always step (fun s => RefsOk (view s)) s
      [command 101 ["query"], command 101 ["start", "0"], command 101 ["stop"]] := by
  obtain ⟨s, t, hs, ht, hv, hcur⟩ := reached_of_openAfter
    (show openAfter twoMembers
      [command 101 ["query"], command 101 ["start", "0"], command 101 ["stop"]] =
      some (true, false) by decide)
  refine ⟨s, hs, fun h => ?_⟩
  have hok := h.final ht
  have hne := hok.isOpen.mp (Option.isSome_iff_ne_none.mp hv)
  rw [← Option.isSome_iff_ne_none] at hne
  exact Bool.false_ne_true (hcur.symm.trans hne)

end GSConferencing.Serv.VoteRefs
