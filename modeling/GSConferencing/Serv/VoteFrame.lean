import GSConferencing.Serv.VoteTally

/-!
# What a ballot changes

`votectrl result` compares an option with the size of `results[]`, and neither with 0 nor with the
number of options of the vote.

* `sum_count`: the counters of the options go up by as much as there are options in range.
* `result_framed_iff`: the ballots that change nothing but these counters.
* `option_out_of_range`: the ballot `2` on a vote with two options.
-/

namespace GSConferencing.Serv.VoteFrame

open GSConferencing.Lib.Run
open GSConferencing.Serv.Strutil GSConferencing.Serv.CmdHandler GSConferencing.Serv.Votectrl
open GSConferencing.Serv.VoteEffect GSConferencing.Serv.VoteInv GSConferencing.Serv.VoteRefs
open GSConferencing.Serv.VoteTally

/-! ## Counters and options -/

/-- The counters of the options together. -/
def optionSum (v : Vote) : ℤ := ∑ k : Fin 40 with (k.val : ℤ) < v.cnOptions, v.results k

/-- The option is one of the vote. -/
def InRange (v : Vote) (i : ℤ) : Prop := 0 ≤ i ∧ i < v.cnOptions

instance (v : Vote) : DecidablePred (InRange v) := fun _ => inferInstanceAs (Decidable (_ ∧ _))

/-- No option is written before the counters, or to the counter of no option. -/
def InBounds (v : Vote) (opts : List ℤ) : Prop :=
  v.cnOptions ≤ resultMax ∧ ∀ i ∈ opts, InRange v i ∨ resultMax ≤ i

instance (v : Vote) (opts : List ℤ) : Decidable (InBounds v opts) :=
  inferInstanceAs (Decidable (_ ∧ _))

/-- **What a ballot may change** of the object `a`, which is `v`: nothing but the counters of the
options of the vote, which go up by the number of options in range together. -/
structure Framed (s s' : State) (a : ℕ) (v : Vote) (opts : List ℤ) : Prop where
  links : s'.links = s.links
  others : ∀ a', a' ≠ a → s'.objs a' = s.objs a'
  object : ∃ v', s'.objs a = some v' ∧ v'.type = v.type ∧ v'.cnOptions = v.cnOptions ∧
    v'.nMembers = v.nMembers ∧
    (∀ k : Fin 40, v.cnOptions ≤ k.val → v'.results k = v.results k) ∧
    optionSum v' = optionSum v + if v.type = voteScore then 0 else (opts.countP (InRange v ·) : ℤ)

section Count
variable {v v' : Vote} {opts : List ℤ}

/-- An option in range has one counter. -/
theorem sum_single (h : v.cnOptions ≤ resultMax) (i : ℤ) :
    (∑ k : Fin 40 with (k.val : ℤ) < v.cnOptions, if i = k.val then 1 else 0 : ℤ) =
      if InRange v i then 1 else 0 := by
  have hmax : v.cnOptions ≤ 40 := h
  split_ifs with hi
  · obtain ⟨h0, hlt⟩ := hi
    have hk : (((⟨i.toNat, by omega⟩ : Fin 40).val : ℕ) : ℤ) = i := Int.toNat_of_nonneg h0
    rw [Finset.sum_eq_single_of_mem (⟨i.toNat, by omega⟩ : Fin 40)
      (Finset.mem_filter.mpr ⟨Finset.mem_univ _, hk.symm ▸ hlt⟩), if_pos hk.symm]
    intro k _ hne
    rw [if_neg]
    rintro rfl
    exact hne (Fin.ext (by simp))
  · refine Finset.sum_eq_zero fun k hk => if_neg ?_
    rintro rfl
    exact hi ⟨by omega, (Finset.mem_filter.mp hk).2⟩

/-- **The counters of the options** count the options in range. -/
theorem sum_count (h : v.cnOptions ≤ resultMax) (opts : List ℤ) :
    (∑ k : Fin 40 with (k.val : ℤ) < v.cnOptions, (opts.count (k.val : ℤ) : ℤ)) =
      opts.countP (InRange v ·) := by
  induction opts with
  | nil => simp
  | cons i opts ih =>
    calc (∑ k : Fin 40 with (k.val : ℤ) < v.cnOptions, ((i :: opts).count (k.val : ℤ) : ℤ))
        = ∑ k : Fin 40 with (k.val : ℤ) < v.cnOptions,
            ((opts.count (k.val : ℤ) : ℤ) + if i = k.val then 1 else 0) := by
          refine Finset.sum_congr rfl fun k _ => ?_
          rw [List.count_cons]
          push_cast
          simp only [beq_iff_eq]
      _ = opts.countP (InRange v ·) + if InRange v i then 1 else 0 := by
          rw [Finset.sum_add_distrib, ih, sum_single h]
      _ = ((i :: opts).countP (InRange v ·) : ℤ) := by
          rw [List.countP_cons]
          push_cast
          simp only [decide_eq_true_eq]

theorem nMembers_countOption {v v' : Vote} {i : ℤ} (h : countOption v i = some v') :
    v'.nMembers = v.nMembers := by
  unfold countOption at h
  split_ifs at h <;> cases h <;> rfl

theorem nMembers_countBallot (h : countBallot v opts = some v') : v'.nMembers = v.nMembers := by
  unfold countBallot at h
  split_ifs at h
  · cases h
    rfl
  · exact of_run_forall (I := fun v₁ => v₁.nMembers = v.nMembers) (E := fun _ => True)
      (fun _ _ _ hI _ hs => (nMembers_countOption hs).trans hI) rfl (fun _ _ => trivial) h

/-- Where the ballot is in bounds, it changes the counters of the options. -/
theorem sum_of_ballot {p : Str} (h : Ballot v v' p) (hin : v.type = voteScore ∨
    v.cnOptions ≤ resultMax) :
    optionSum v' = optionSum v +
      if v.type = voteScore then 0 else ((ballotOptions p).countP (InRange v ·) : ℤ) := by
  unfold optionSum
  rw [h.cnOptions, Finset.sum_congr rfl fun k _ => h.results k, Finset.sum_add_distrib]
  split_ifs with hscore
  · rw [Finset.sum_const_zero]
  · rw [sum_count (hin.resolve_left hscore)]

/-- A ballot leaves the counters behind the options alone, if it names none of them. -/
theorem rest_of_ballot {p : Str} (h : Ballot v v' p) : (∀ k : Fin 40, v.cnOptions ≤ k.val →
    v'.results k = v.results k) ↔ (v.type = voteScore ∨
      ∀ i ∈ ballotOptions p, 0 ≤ i → v.cnOptions ≤ i → resultMax ≤ i) := by
  by_cases hscore : v.type = voteScore
  · refine iff_of_true (fun k _ => ?_) (.inl hscore)
    rw [h.results k, if_pos hscore, add_zero]
  rw [or_iff_right hscore]
  have hk : ∀ k, v'.results k = v.results k ↔ (k.val : ℤ) ∉ ballotOptions p := fun k => by
    rw [h.results k, if_neg hscore, ← List.count_eq_zero]
    omega
  constructor
  · intro hall i hi h0 hcn
    by_contra hlt
    have hi40 : i.toNat < 40 := by
      have : (40 : ℤ) = resultMax := rfl
      omega
    have heq : (((⟨i.toNat, hi40⟩ : Fin 40).val : ℕ) : ℤ) = i := Int.toNat_of_nonneg h0
    refine (hk ⟨i.toNat, hi40⟩).mp (hall _ (by rw [heq]; exact hcn)) ?_
    rw [heq]
    exact hi
  · intro hall k hcn
    refine (hk k).mpr fun hmem => ?_
    have hle := hall _ hmem (by omega) hcn
    have : (40 : ℤ) = resultMax := rfl
    omega

end Count

/-! ## The handler -/

section Result
variable {s : State} {d : ℤ} {a : ℕ} {v : Vote}

/-- `result`, once there is a vote to count for. -/
theorem result_eq (hcur : s.grp.current ≠ none) (href : (s.dev d).v = some a)
    (hobj : s.objs a = some v) (cmd : Cmd) (q p : Str) (l : List Str) :
    votectrlResult s cmd d (q :: p :: l) =
      (countBallot v (ballotOptions p)).bind fun v' =>
        (resultsText v' s.grp.dbData.voteResults).bind fun text =>
          some (0, repOk cmd, noteBallot s d a v' p text) := by
  unfold votectrlResult
  rw [if_neg (by rwa [Option.isNone_iff_eq_none]), nextArg_cons, nextArg_cons, href]
  simp only [Option.bind_eq_bind, hobj, Option.bind_some]

/-- **A ballot changes the counters of the options** and no other field of a vote, exactly when no
option is negative or between the options and the end of the counters. -/
theorem result_framed_iff (hcur : s.grp.current ≠ none) (href : (s.dev d).v = some a)
    (hobj : s.objs a = some v) (cmd : Cmd) (q p : Str) (l : List Str) :
    (∃ r, votectrlResult s cmd d (q :: p :: l) = some r ∧
      Framed s r.2.2 a v (ballotOptions p)) ↔
      v.type = voteScore ∨ InBounds v (ballotOptions p) := by
  rw [result_eq hcur href hobj]
  rcases countBallot_cases v p with ⟨hno, hnone⟩ | ⟨hok, v', hcount, hballot, htext⟩
  · rw [hnone]
    refine iff_of_false (fun h => by obtain ⟨r, hr, -⟩ := h; cases hr) fun h => hno fun hscore => ?_
    obtain ⟨hmax, hall⟩ := h.resolve_left hscore
    refine ⟨fun i hi => ?_, hmax⟩
    rcases hall i hi with hin | hlarge
    · exact hin.1
    · exact le_trans (by decide) hlarge
  obtain ⟨text, ht⟩ := htext s.grp.dbData.voteResults
  rw [hcount, Option.bind_some, ht, Option.bind_some]
  have hview := view_noteBallot s d a v' p text
  have hobjs : (noteBallot s d a v' p text).objs = Function.update s.objs a (some v') :=
    congrArg View.objs hview
  have hlinks : (noteBallot s d a v' p text).links = s.links := congrArg View.links hview
  constructor
  · rintro ⟨r, hr, hframe⟩
    cases hr
    obtain ⟨v₁, hv₁, -, -, -, hrest, -⟩ := hframe.object
    rw [hobjs, Function.update_self] at hv₁
    cases hv₁
    by_cases hscore : v.type = voteScore
    · exact .inl hscore
    refine .inr ⟨(hok hscore).2, fun i hi => ?_⟩
    have h0 := (hok hscore).1 i hi
    by_cases hcn : i < v.cnOptions
    · exact .inl ⟨h0, hcn⟩
    · exact .inr (((rest_of_ballot hballot).mp hrest).resolve_left hscore i hi h0 (not_lt.mp hcn))
  · intro h
    refine ⟨_, rfl, hlinks, fun a' ha' => by rw [hobjs, Function.update_of_ne ha'], v', ?_,
      hballot.type, hballot.cnOptions, nMembers_countBallot hcount, (rest_of_ballot hballot).mpr ?_,
      sum_of_ballot hballot (h.imp_right And.left)⟩
    · rw [hobjs, Function.update_self]
    · refine h.imp_right fun hin i hi _ hcn => (hin.2 i hi).resolve_left fun hr => ?_
      exact absurd hr.2 (not_lt.mpr hcn)

end Result

/-! ## Two options -/

/-- The vote 0, which has two options, has been started; the device 102 may vote. -/
def started : Option (State × ℕ × Vote) :=
  (sessionAfter []).bind fun y =>
    let s := y.2.2.1.2.2
    (s.dev 102).v.bind fun a => (s.objs a).map fun v => (s, a, v)

theorem of_started {s : State} {a : ℕ} {v : Vote} (h : started = some (s, a, v)) :
    (s.dev 102).v = some a ∧ s.objs a = some v := by
  obtain ⟨y, -, h⟩ := Option.bind_eq_some_iff.mp h
  obtain ⟨a', ha, h⟩ := Option.bind_eq_some_iff.mp h
  obtain ⟨v', hv, h⟩ := Option.map_eq_some_iff.mp h
  cases h
  exact ⟨ha, hv⟩

/-- The option 2 of a vote with the options 0 and 1 is counted. -/
theorem option_out_of_range : ∃ s a v, started = some (s, a, v) ∧ s.grp.current ≠ none ∧
    (s.dev 102).v = some a ∧ s.objs a = some v ∧
    ¬ ∃ r, votectrlResult s ballotCmd 102 ["0".toList, "2".toList] = some r ∧
      Framed s r.2.2 a v (ballotOptions "2".toList) := by
  have h : started.map (fun y => (y.1.grp.current.isSome, y.2.2.cnOptions, y.2.2.results 2,
      (votectrlResult y.1 ballotCmd 102 ["0".toList, "2".toList]).bind fun r =>
        (r.2.2.objs y.2.1).map fun v' => v'.results 2)) = some (true, 2, 0, some 1) := by decide
  obtain ⟨⟨s, a, v⟩, hs, hval⟩ := Option.map_eq_some_iff.mp h
  simp only [Prod.mk.injEq] at hval
  obtain ⟨hcur, hcn, hold, hnew⟩ := hval
  obtain ⟨href, hobj⟩ := of_started hs
  refine ⟨s, a, v, hs, Option.isSome_iff_ne_none.mp hcur, href, hobj, ?_⟩
  rintro ⟨r, hr, hframe⟩
  obtain ⟨v', hv', -, -, -, hrest, -⟩ := hframe.object
  rw [hr, Option.bind_some, hv', Option.map_some, Option.some.injEq] at hnew
  have hsame := hrest 2 (by rw [hcn]; decide)
  rw [hnew, hold] at hsame
  exact absurd hsame one_ne_zero

theorem result_framed_iff_started : ∃ s a v, started = some (s, a, v) ∧
    ((∃ r, votectrlResult s ballotCmd 102 ["0".toList, "1,0,99".toList] = some r ∧
      Framed s r.2.2 a v (ballotOptions "1,0,99".toList)) ↔
      v.type = voteScore ∨ InBounds v (ballotOptions "1,0,99".toList)) := by
  have h : started.map (fun y => y.1.grp.current.isSome) = some true := by decide
  obtain ⟨⟨s, a, v⟩, hs, hcur⟩ := Option.map_eq_some_iff.mp h
  obtain ⟨href, hobj⟩ := of_started hs
  exact ⟨s, a, v, hs, result_framed_iff (Option.isSome_iff_ne_none.mp hcur) href hobj ballotCmd
    "0".toList "1,0,99".toList []⟩

end GSConferencing.Serv.VoteFrame
