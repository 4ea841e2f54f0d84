import GSConferencing.Serv.VoteRefs

/-!
# The tally of a vote

A session keeps, next to the server, the ballots that `votectrl result` has counted since the vote
started: `TallyOk` compares the counters with them.

* `tallyOk_cons_iff`: what one ballot must be for the counters to stay right.
* `tally_exact`: along a run of ballots the counters are right exactly when the options fit the
  counters and every ballot is the first of its device, names no option twice and is counted in
  the object of the group.
-/

namespace GSConferencing.Serv.VoteTally

open GSConferencing.Lib.Run
open GSConferencing.Serv.Strutil GSConferencing.Serv.CmdHandler GSConferencing.Serv.Votectrl
open GSConferencing.Serv.VoteEffect GSConferencing.Serv.VoteInv GSConferencing.Serv.VoteRefs

/-! ## Ballots -/

/-- A counted ballot: its device and its options. -/
abbrev Ballots := List (ℤ × List ℤ)

/-- The devices that voted. -/
def voters (bs : Ballots) : Finset ℤ := (bs.map Prod.fst).toFinset

/-- The devices with a ballot that contains the option `k`. -/
def votersFor (bs : Ballots) (k : ℤ) : Finset ℤ := voters (bs.filter fun b => k ∈ b.2)

section Ballots
variable {bs : Ballots} {d k : ℤ} {opts : List ℤ}

theorem voters_cons : voters ((d, opts) :: bs) = insert d (voters bs) := List.toFinset_cons

theorem votersFor_cons : votersFor ((d, opts) :: bs) k =
    if k ∈ opts then insert d (votersFor bs k) else votersFor bs k := by
  unfold votersFor
  by_cases hk : k ∈ opts
  · rw [if_pos hk, List.filter_cons_of_pos (by simpa using hk)]
    exact voters_cons
  · rw [if_neg hk, List.filter_cons_of_neg (by simpa using hk)]

theorem votersFor_subset : votersFor bs k ⊆ voters bs := by
  intro x hx
  simp only [votersFor, voters, List.mem_toFinset, List.mem_map, List.mem_filter] at hx ⊢
  obtain ⟨b, ⟨hb, -⟩, rfl⟩ := hx
  exact ⟨b, hb, rfl⟩

/-- The number of voters goes up by one exactly with a new voter. -/
theorem card_voters_cons :
    (voters ((d, opts) :: bs)).card = (voters bs).card + 1 ↔ d ∉ voters bs := by
  rw [voters_cons]
  constructor
  · intro h hd
    rw [Finset.insert_eq_of_mem hd] at h
    omega
  · exact Finset.card_insert_of_notMem

/-- A new voter counts for the options on its ballot, once each. -/
theorem card_votersFor_cons (hd : d ∉ voters bs) :
    (votersFor ((d, opts) :: bs) k).card =
      (votersFor bs k).card + if k ∈ opts then 1 else 0 := by
  rw [votersFor_cons]
  split_ifs
  · exact Finset.card_insert_of_notMem fun h => hd (votersFor_subset h)
  · rfl

end Ballots

/-! ## Sessions -/

/-- The server, with the ballots it has counted in the open vote. -/
structure Session where
  state : State
  ballots : Ballots

/-- A command; a `result` that is answered with an OK is a counted ballot. -/
def sessionStep (x : Session) (cmd : Cmd) : Option Session :=
  (cmdVotectrl x.state cmd).map fun (code, _, s) =>
    { state := s
      ballots := if code = 0 then
          (cmd.deviceId, ballotOptions (cmd.args.getD 2 [])) :: x.ballots
        else x.ballots }

def isResult (cmd : Cmd) : Prop := cmd.args.head? = some "result".toList

instance : DecidablePred isResult := fun _ => inferInstanceAs (Decidable (_ = _))

theorem toNat_lt_options {k : ℤ} (h : 0 ≤ k ∧ k < 40) : k.toNat < 40 := by omega

/-- The counter of the option `k` in the object of the group, if there is one. -/
def tally (v : View) (k : ℤ) : Option ℤ :=
  (v.gv.bind v.objs).bind fun o =>
    if h : 0 ≤ k ∧ k < 40 then some (o.results ⟨k.toNat, toNat_lt_options h⟩) else none

/-- The options of the object of the group. -/
def optionsCount (v : View) : ℤ := ((v.gv.bind v.objs).map Vote.cnOptions).getD 0

/-- The counters say how many devices voted, and how many of them for each option. -/
structure TallyOk (v : View) (bs : Ballots) : Prop where
  nvoted : v.nvoted = (voters bs).card
  results : ∀ k, 0 ≤ k → k < optionsCount v → tally v k = some ((votersFor bs k).card : ℤ)

/-- The ballot `p` of the device `d`, which refers to the object `a`, is the first one of `d`, and
adds to each counter what it should. -/
structure FirstBallot (v : View) (bs : Ballots) (d : ℤ) (a : ℕ) (p : Str) : Prop where
  first : d ∉ voters bs
  once : ∀ k, 0 ≤ k → k < optionsCount v →
    (ballotOptions p).count k ≤ if v.gv = some a then 1 else 0

/-- A ballot that has a result and is counted as it should be. -/
def BallotSafe (x : Session) (cmd : Cmd) : Prop :=
  cmd.deviceId ∈ x.state.devs → ∀ l, cmd.args = "result".toList :: l →
    ResultSafe x.state cmd.deviceId l ∧
    (x.state.grp.current ≠ none → ∀ q p l' a, l = q :: p :: l' →
      (x.state.dev cmd.deviceId).v = some a →
      FirstBallot (view x.state) x.ballots cmd.deviceId a p)

/-- The open vote counts options, and its object has a counter for each of them. -/
structure Counting (v : View) : Prop where
  current : v.current ≠ none
  obj : ∃ a o, v.gv = some a ∧ v.objs a = some o ∧ o.type ≠ voteScore ∧ o.cnOptions ≤ resultMax

/-! ## One ballot -/

section Step
variable {v : View} {bs : Ballots} {d : ℤ} {a : ℕ} {o o' : Vote} {p : Str}

theorem tally_of_obj {g : ℕ} (hg : v.gv = some g) (ho : v.objs g = some o) {k : ℤ} (hk : 0 ≤ k)
    (hlt : k < 40) : tally v k = some (o.results ⟨k.toNat, by omega⟩) := by
  unfold tally
  rw [hg, Option.bind_some, ho, Option.bind_some, dif_pos ⟨hk, hlt⟩]

theorem optionsCount_of_obj {g : ℕ} (hg : v.gv = some g) (ho : v.objs g = some o) :
    optionsCount v = o.cnOptions := by
  unfold optionsCount
  rw [hg, Option.bind_some, ho]
  rfl

/-- The object of the group after a ballot counted in the object `a`. -/
theorem counted_obj {g : ℕ} {og : Vote} (hg : v.objs g = some og)
    (ho : v.objs a = some o) (hb : Ballot o o' p) (htype : og.type ≠ voteScore) (c : ℤ)
    (R S : ℤ → DbDevice) :
    ∃ og', (v.counted d a o' c R S).objs g = some og' ∧ og'.type = og.type ∧
      og'.cnOptions = og.cnOptions ∧ ∀ k, og'.results k =
        og.results k + if g = a then ((ballotOptions p).count (k.val : ℤ) : ℤ) else 0 := by
  by_cases e : g = a
  · subst e
    rw [ho] at hg
    cases hg
    refine ⟨o', Function.update_self .., hb.type, hb.cnOptions, fun k => ?_⟩
    rw [hb.results k, if_neg htype, if_pos rfl]
  · refine ⟨og, ?_, rfl, rfl, fun k => ?_⟩
    · show Function.update v.objs a (some o') g = _
      rw [Function.update_of_ne e, hg]
    · rw [if_neg e, add_zero]

theorem Counting.counted (h : Counting v) (ho : v.objs a = some o) (hb : Ballot o o' p) (c : ℤ)
    (R S : ℤ → DbDevice) : Counting (v.counted d a o' c R S) := by
  obtain ⟨g, og, hg, hog, htype, hmax⟩ := h.obj
  obtain ⟨og', hog', ht, hc, -⟩ := counted_obj (d := d) hog ho hb htype c R S
  exact ⟨h.current, g, og', hg, hog', by rw [ht]; exact htype, by rw [hc]; exact hmax⟩

/-- **One ballot:** the counters stay right exactly when it is the first one of its device and adds
to each counter what it should. -/
theorem tallyOk_cons_iff (h : Counting v) (ht : TallyOk v bs) (ho : v.objs a = some o)
    (hb : Ballot o o' p) (c : ℤ) (R S : ℤ → DbDevice) :
    TallyOk (v.counted d a o' c R S) ((d, ballotOptions p) :: bs) ↔ FirstBallot v bs d a p := by
  obtain ⟨g, og, hg, hog, htype, hmax⟩ := h.obj
  obtain ⟨og', hog', -, hc, hr⟩ := counted_obj (d := d) hog ho hb htype c R S
  have hg' : (v.counted d a o' c R S).gv = some g := hg
  have hcount : optionsCount (v.counted d a o' c R S) = optionsCount v := by
    rw [optionsCount_of_obj hg' hog', optionsCount_of_obj hg hog, hc]
  have hnvoted : (v.counted d a o' c R S).nvoted = ((voters bs).card : ℤ) + 1 := by
    rw [← ht.nvoted]
    rfl
  -- the counter of one option, given that the voter is new
  have hone : d ∉ voters bs → ∀ k, 0 ≤ k → k < optionsCount v →
      (tally (v.counted d a o' c R S) k =
        some ((votersFor ((d, ballotOptions p) :: bs) k).card : ℤ) ↔
      (ballotOptions p).count k ≤ if v.gv = some a then 1 else 0) := by
    intro hd k hk hlt
    have h40 : k < 40 := by
      rw [optionsCount_of_obj hg hog] at hlt
      exact lt_of_lt_of_le hlt hmax
    have hold := ht.results k hk hlt
    rw [tally_of_obj hg hog hk h40, Option.some.injEq] at hold
    rw [tally_of_obj hg' hog' hk h40, Option.some.injEq, hr, hold, card_votersFor_cons hd, hg,
      Int.toNat_of_nonneg hk]
    have hpos : k ∈ ballotOptions p ↔ 0 < (ballotOptions p).count k := List.count_pos_iff.symm
    simp only [Option.some.injEq]
    split_ifs with h1 h2 h2
    · have := hpos.mp h2
      omega
    · have := mt hpos.mpr h2
      omega
    · have := hpos.mp h2
      omega
    · have := mt hpos.mpr h2
      omega
  constructor
  · intro h'
    have hcard : (voters ((d, ballotOptions p) :: bs)).card = (voters bs).card + 1 := by
      have := h'.nvoted
      rw [hnvoted] at this
      exact_mod_cast this.symm
    have hd := card_voters_cons.mp hcard
    exact ⟨hd, fun k hk hlt => (hone hd k hk hlt).mp (h'.results k hk (hcount ▸ hlt))⟩
  · rintro ⟨hd, honce⟩
    refine ⟨?_, fun k hk hlt => ?_⟩
    · rw [hnvoted, card_voters_cons.mpr hd]
      exact (Nat.cast_succ _).symm
    · rw [hcount] at hlt
      exact (hone hd k hk hlt).mpr (honce k hk hlt)

end Step

/-! ## Steps -/

section Session
variable {x x' : Session} {cmd : Cmd}

theorem sessionStep_of_map {code : ℤ} {v : View}
    (h : (cmdVotectrl x.state cmd).map (fun r => (r.1, view r.2.2)) = some (code, v)) :
    ∃ x', sessionStep x cmd = some x' ∧ view x'.state = v ∧
      x'.ballots = if code = 0 then
          (cmd.deviceId, ballotOptions (cmd.args.getD 2 [])) :: x.ballots
        else x.ballots := by
  obtain ⟨r, hr, heq⟩ := Option.map_eq_some_iff.mp h
  cases heq
  exact ⟨_, by rw [sessionStep, hr]; rfl, rfl, rfl⟩

/-- What one command of a session does. -/
inductive BallotEffect (x : Session) (cmd : Cmd) : Option Session → Prop
  | stuck (h : ¬ BallotSafe x cmd) : BallotEffect x cmd none
  | refused {x' : Session} (hsafe : BallotSafe x cmd) (hv : view x'.state = view x.state)
      (hbs : x'.ballots = x.ballots) : BallotEffect x cmd (some x')
  | counted {x' : Session} {p : Str} {a : ℕ} {o o' : Vote} {c : ℤ}
      {R S : ℤ → DbDevice}
      (hsafe : BallotSafe x cmd ↔ FirstBallot (view x.state) x.ballots cmd.deviceId a p)
      (ho : x.state.objs a = some o) (hb : Ballot o o' p)
      (hv : view x'.state = (view x.state).counted cmd.deviceId a o' c R S)
      (hbs : x'.ballots = (cmd.deviceId, ballotOptions p) :: x.ballots) :
      BallotEffect x cmd (some x')

theorem ballot_effect (hres : isResult cmd) : BallotEffect x cmd (sessionStep x cmd) := by
  obtain ⟨l, hargs⟩ : ∃ l, cmd.args = "result".toList :: l := by
    obtain ⟨l, hl⟩ := List.head?_eq_some_iff.mp hres
    exact ⟨l, hl⟩
  by_cases hd : cmd.deviceId ∈ x.state.devs
  swap
  · have hno : cmdVotectrl x.state cmd = some (errNotReg, cmd, x.state) := by
      unfold cmdVotectrl
      rw [if_pos hd]
    obtain ⟨x', hx', hv, hbs⟩ := sessionStep_of_map (x := x) (by rw [hno]; rfl)
    rw [hx']
    exact .refused (fun h => absurd h hd) hv hbs
  have he := result_effect x.state cmd cmd.deviceId l
  rw [← cmdVotectrl_result hd hargs] at he
  generalize hr : (cmdVotectrl x.state cmd).map (fun r => (r.1, view r.2.2)) = r at he
  cases he with
  | stuck hno =>
    have hnone : sessionStep x cmd = none := by
      unfold sessionStep
      rw [Option.map_eq_none_iff] at hr ⊢
      exact hr
    rw [hnone]
    exact .stuck fun h => hno (h hd l hargs).1
  | refused hcode hno =>
    obtain ⟨x', hx', hv, hbs⟩ := sessionStep_of_map hr
    rw [hx']
    rw [if_neg hcode] at hbs
    refine .refused (fun _ l₁ hl₁ => ?_) hv hbs
    rw [hargs, List.cons.injEq] at hl₁
    obtain ⟨-, rfl⟩ := hl₁
    refine ⟨fun hcur q p l' a hl href => ?_, fun hcur q p l' a hl href => ?_⟩
    · rw [hno hcur q p l' hl] at href
      cases href
    · rw [hno hcur q p l' hl] at href
      cases href
  | @counted q p l' a o o' R hl hcur href hobj hok hb hR =>
    obtain ⟨x', hx', hv, hbs⟩ := sessionStep_of_map hr
    rw [hx']
    have hp : cmd.args.getD 2 [] = p := by
      rw [hargs, hl]
      rfl
    rw [if_pos rfl, hp] at hbs
    refine .counted ⟨fun h => (h hd l hargs).2 hcur q p l' a hl href, fun h _ l₁ hl₁ => ?_⟩
      hobj hb hv hbs
    rw [hargs, List.cons.injEq] at hl₁
    obtain ⟨-, rfl⟩ := hl₁
    refine ⟨fun _ q' p' l₂ a' hl' href' => ?_, fun _ q' p' l₂ a' hl' href' => ?_⟩
    · rw [hl] at hl'
      rw [href] at href'
      cases hl'
      cases href'
      exact ⟨o, hobj, hok⟩
    · rw [hl] at hl'
      rw [href] at href'
      cases hl'
      cases href'
      exact h

/-- A session in a vote that counts options, with the counters right. -/
structure Inv (x : Session) : Prop where
  counting : Counting (view x.state)
  tally : TallyOk (view x.state) x.ballots

theorem step_inv (hI : Inv x) (hres : isResult cmd) (hsafe : BallotSafe x cmd) :
    ∃ x', sessionStep x cmd = some x' ∧ Inv x' := by
  have he := ballot_effect (x := x) hres
  generalize sessionStep x cmd = r at he
  cases he with
  | stuck hno => exact absurd hsafe hno
  | refused _ hv hbs =>
    exact ⟨_, rfl, by rw [hv]; exact hI.counting, by rw [hv, hbs]; exact hI.tally⟩
  | counted hiff ho hb hv hbs =>
    refine ⟨_, rfl, ?_, ?_⟩
    · rw [hv]
      exact hI.counting.counted ho hb _ _ _
    · rw [hv, hbs]
      exact (tallyOk_cons_iff hI.counting hI.tally ho hb _ _ _).mpr (hiff.mp hsafe)

theorem step_bad (hI : Inv x) (hres : isResult cmd) (hbad : ¬ BallotSafe x cmd)
    (hx' : sessionStep x cmd = some x') : ¬ TallyOk (view x'.state) x'.ballots := by
  have he := ballot_effect (x := x) hres
  rw [hx'] at he
  cases he with
  | refused hsafe => exact absurd hsafe hbad
  | counted hiff ho hb hv hbs =>
    rw [hv, hbs]
    exact fun h => hbad (hiff.mpr ((tallyOk_cons_iff hI.counting hI.tally ho hb _ _ _).mp h))

end Session

/-! ## Whole runs -/

section Runs
variable {db : Db} {s₀ s s₁ : State} {es : List Event} {cmd c : Cmd} {l : List Str} {dv : DbVote}

/-- The object of a vote that has just started. -/
theorem start_obj (hw : Wf (view s)) (hargs : cmd.args = "start".toList :: l)
    (hstart : cmdVotectrl s cmd = some (0, c, s₁)) (hdv : s₁.grp.current = some dv) :
    s₁.grp.nvoted = 0 ∧ ∃ a o, (view s₁).gv = some a ∧ (view s₁).objs a = some o ∧
      SameCounts o (zeroVote dv) := by
  have hd : cmd.deviceId ∈ s.devs := by
    by_contra hd
    unfold cmdVotectrl at hstart
    rw [if_pos hd] at hstart
    cases hstart
  have he := start_effect cmd cmd.deviceId l hw.links
  rw [← cmdVotectrl_start hd hargs, hstart] at he
  generalize hr : Option.map (fun r : Reply State => (r.1, view r.2.2)) (some (0, c, s₁)) = r at he
  cases he with
  | stuck => cases hr
  | refused _ hcode => exact absurd (congrArg Prod.fst (Option.some.inj hr)).symm hcode
  | rejected _ hcode => exact absurd (congrArg Prod.fst (Option.some.inj hr)).symm hcode
  | started _ _ _ _ _ ho _ =>
    have hv := congrArg Prod.snd (Option.some.inj hr)
    dsimp only at hv
    have hcur : (view s₁).current = some dv := hdv
    rw [hv] at hcur
    cases hcur
    refine ⟨congrArg View.nvoted hv, s.next, _, congrArg View.gv hv, ?_, ho⟩
    rw [hv]
    exact Function.update_self ..

/-- **Along a run of ballots the counters are right exactly when the options of the vote fit the
counters and no ballot is a slip:** each is the first one of its device, names no option twice, and
is counted in the object of the group. -/
theorem tally_exact (hs : recoverServer db = some s₀) (hrun : run step s₀ es = some s)
    (hargs : cmd.args = "start".toList :: l) (hstart : cmdVotectrl s cmd = some (0, c, s₁))
    (hdv : s₁.grp.current = some dv) (htype : dv.type ≠ voteScore) {ballots : List Cmd}
    (hres : ∀ b ∈ ballots, isResult b) :
    Always sessionStep (fun x => TallyOk (view x.state) x.ballots) ⟨s₁, []⟩ ballots ↔
      dv.optionsCount ≤ resultMax ∧ Guarded sessionStep BallotSafe ⟨s₁, []⟩ ballots := by
  obtain ⟨hnvoted, a, o, hg, ho, htype', hcn, hzero⟩ :=
    start_obj (wf_of_run hs hrun) hargs hstart hdv
  have hcount : optionsCount (view s₁) = dv.optionsCount :=
    (optionsCount_of_obj hg ho).trans hcn
  have hexact : dv.optionsCount ≤ resultMax →
      (Always sessionStep (fun x => TallyOk (view x.state) x.ballots) ⟨s₁, []⟩ ballots ↔
        Guarded sessionStep BallotSafe ⟨s₁, []⟩ ballots) := by
    intro hmax
    refine always_iff_guarded (I := Inv) (E := isResult) (fun _ h => h.tally)
      (fun _ _ h hE hG => step_inv h hE hG) (fun _ _ _ h hE hn hs' => step_bad h hE hn hs') ?_ hres
    refine ⟨⟨?_, a, o, hg, ho, ?_, ?_⟩, hnvoted, fun k hk hlt => ?_⟩
    · show s₁.grp.current ≠ none
      rw [hdv]
      exact Option.some_ne_none dv
    · rw [htype']
      exact htype
    · rw [hcn]
      exact hmax
    · rw [tally_of_obj hg ho hk (lt_of_lt_of_le (hcount ▸ hlt) hmax), hzero]
      rfl
  constructor
  · intro h
    have hmax : dv.optionsCount ≤ resultMax := by
      by_contra hlong
      -- the option 40 has no counter
      have h40 := h.head.results 40 (by omega) (by rw [hcount]; exact not_le.mp hlong)
      unfold tally at h40
      rw [hg, Option.bind_some, ho, Option.bind_some, dif_neg (by omega)] at h40
      cases h40
    exact ⟨hmax, (hexact hmax).mp h⟩
  · rintro ⟨hmax, h⟩
    exact (hexact hmax).mpr h

end Runs

/-- The device 101 starts the vote 0. -/
def startCmd : Cmd where
  deviceId := 101
  args := ["start".toList, "0".toList]
  rep := []

/-- The device 102 votes for the option 1. -/
def ballotCmd : Cmd where
  deviceId := 102
  args := ["result".toList, "0".toList, "1".toList]
  rep := []

/-- The states before and after the start of the vote, and the session at the end. -/
def sessionAfter (ballots : List Cmd) : Option (State × State × Reply State × Session) :=
  (recoverServer twoMembers).bind fun s₀ => (run step s₀ [command 101 ["query"]]).bind fun s =>
    (cmdVotectrl s startCmd).bind fun r =>
      (run sessionStep ⟨r.2.2, []⟩ ballots).map fun x => (s₀, s, r, x)

theorem of_sessionAfter {ballots : List Cmd} {s₀ s : State} {r : Reply State} {x : Session}
    (h : sessionAfter ballots = some (s₀, s, r, x)) :
    recoverServer twoMembers = some s₀ ∧ run step s₀ [command 101 ["query"]] = some s ∧
      cmdVotectrl s startCmd = some r ∧ run sessionStep ⟨r.2.2, []⟩ ballots = some x := by
  obtain ⟨s₁, hs₁, h⟩ := Option.bind_eq_some_iff.mp h
  obtain ⟨s₂, hs₂, h⟩ := Option.bind_eq_some_iff.mp h
  obtain ⟨r', hr', h⟩ := Option.bind_eq_some_iff.mp h
  obtain ⟨x', hx', h⟩ := Option.map_eq_some_iff.mp h
  cases h
  exact ⟨hs₁, hs₂, hr', hx'⟩

theorem tally_exact_twoMembers : ∃ s₀ s s₁ c dv, recoverServer twoMembers = some s₀ ∧
    run step s₀ [command 101 ["query"]] = some s ∧ cmdVotectrl s startCmd = some (0, c, s₁) ∧
    s₁.grp.current = some dv ∧ dv.type ≠ voteScore ∧
    (Always sessionStep (fun x => TallyOk (view x.state) x.ballots) ⟨s₁, []⟩ [ballotCmd] ↔
      dv.optionsCount ≤ resultMax ∧ Guarded sessionStep BallotSafe ⟨s₁, []⟩ [ballotCmd]) := by
  have h : (sessionAfter [ballotCmd]).map (fun y => (y.2.2.1.1, y.2.2.1.2.2.grp.current.map
      DbVote.type)) = some (0, some 0) := by decide
  obtain ⟨⟨s₀, s, ⟨code, c, s₁⟩, x⟩, hx, hval⟩ := Option.map_eq_some_iff.mp h
  simp only [Prod.mk.injEq] at hval
  obtain ⟨rfl, htype⟩ := hval
  obtain ⟨dv, hdv, htype⟩ := Option.map_eq_some_iff.mp htype
  obtain ⟨hs, hrun, hstart, -⟩ := of_sessionAfter hx
  have hscore : dv.type ≠ voteScore := by
    rw [htype]
    decide
  exact ⟨s₀, s, s₁, c, dv, hs, hrun, hstart, hdv, hscore,
    tally_exact hs hrun rfl hstart hdv hscore (by decide)⟩

/-- A device that votes twice is counted twice. -/
theorem second_ballot_counts : ∃ s₀ s s₁ c dv, recoverServer twoMembers = some s₀ ∧
    run step s₀ [command 101 ["query"]] = some s ∧ cmdVotectrl s startCmd = some (0, c, s₁) ∧
    s₁.grp.current = some dv ∧ dv.type ≠ voteScore ∧
    ¬ Always sessionStep (fun x => TallyOk (view x.state) x.ballots) ⟨s₁, []⟩
      [ballotCmd, ballotCmd] := by
  have h : (sessionAfter [ballotCmd, ballotCmd]).map (fun y =>
      (y.2.2.1.1, y.2.2.1.2.2.grp.current.map DbVote.type, y.2.2.2.state.grp.nvoted,
        y.2.2.2.ballots.map Prod.fst)) = some (0, some 0, 2, [102, 102]) := by decide
  obtain ⟨⟨s₀, s, ⟨code, c, s₁⟩, x⟩, hx, hval⟩ := Option.map_eq_some_iff.mp h
  simp only [Prod.mk.injEq] at hval
  obtain ⟨rfl, htype, hnvoted, hvoters⟩ := hval
  obtain ⟨dv, hdv, htype⟩ := Option.map_eq_some_iff.mp htype
  obtain ⟨hs, hrun, hstart, hsession⟩ := of_sessionAfter hx
  refine ⟨s₀, s, s₁, c, dv, hs, hrun, hstart, hdv, ?_, fun hall => ?_⟩
  · rw [htype]
    decide
  have hok := hall.final hsession
  have hcard : ((voters x.ballots).card : ℤ) = 1 := by
    unfold voters
    rw [hvoters]
    decide
  have hcount : x.state.grp.nvoted = (voters x.ballots).card := hok.nvoted
  rw [hnvoted, hcard] at hcount
  omega

end GSConferencing.Serv.VoteTally
