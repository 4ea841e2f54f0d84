import Mathlib

/-!
# Runs of a partial step function

A machine is a step function `step : σ → ε → Option σ`; `none` says that the step has no result
(undefined behaviour, or a call that never returns).  A run is a list of events.

* `Always step P s es`: every step of the run has a result, and `P` holds of every state the run
  passes through; `always_iff_reached` reads it as a statement about all reached states.
* `Guarded step G s es`: every step of the run meets `G` in the state it starts from.
* `always_of_guarded`: an invariant kept by the guarded steps holds along every guarded run.
* `always_iff_guarded`: if a step that misses the guard leaves `P`, the guard is exact.
* `Along step P s es`: `P` holds of the states passed through, as far as the steps have results;
  `along_of_guarded` and `along_iff_guarded` are the rules for it.
* `Stepwise step R s es`: every step has a result, and `R` relates it to the state before it.
* `Each step P s es`: every round of a loop has a result, and `P` holds after it.
* `Always.observed`, `Along.observed`: what holds at the end of a run that has been computed.
-/

namespace GSConferencing.Lib.Run

variable {σ ε : Type*} {step : σ → ε → Option σ} {P I : σ → Prop} {G : σ → ε → Prop}

/-- The state after a list of events. -/
def run (step : σ → ε → Option σ) (s : σ) (es : List ε) : Option σ := es.foldlM step s

/-- Every step has a result, and `P` holds of every state passed through. -/
def Always (step : σ → ε → Option σ) (P : σ → Prop) : σ → List ε → Prop
  | s, [] => P s
  | s, e :: es => P s ∧ ∃ s', step s e = some s' ∧ Always step P s' es

/-- Every step meets `G` in the state it starts from. -/
def Guarded (step : σ → ε → Option σ) (G : σ → ε → Prop) : σ → List ε → Prop
  | _, [] => True
  | s, e :: es => G s e ∧ ∀ s', step s e = some s' → Guarded step G s' es

instance decidableGuarded [∀ s e, Decidable (G s e)] :
    ∀ (s : σ) (es : List ε), Decidable (Guarded step G s es)
  | _, [] => .isTrue trivial
  | s, e :: es => match h : step s e with
    | none => decidable_of_iff (G s e) ⟨fun hg => ⟨hg, fun s' hs' => by (rw [h] at hs'; cases hs')⟩,
        fun hg => hg.1⟩
    | some s₁ => have := decidableGuarded s₁ es
      decidable_of_iff (G s e ∧ Guarded step G s₁ es)
        ⟨fun hg => ⟨hg.1, fun s' hs' => by (rw [h] at hs'; cases hs'; exact hg.2)⟩,
          fun hg => ⟨hg.1, hg.2 s₁ h⟩⟩

@[simp] theorem run_nil (s : σ) : run step s [] = some s := rfl

theorem run_cons (s : σ) (e : ε) (es : List ε) :
    run step s (e :: es) = (step s e).bind fun s' => run step s' es := rfl

theorem run_append (s : σ) (es es' : List ε) :
    run step s (es ++ es') = (run step s es).bind fun s' => run step s' es' := by
  simp only [run, List.foldlM_append]
  rfl

theorem Always.head {s : σ} {es : List ε} (h : Always step P s es) : P s := by
  cases es with
  | nil => exact h
  | cons e es => exact h.1

/-- `Always` is a statement about the state reached by every prefix. -/
theorem always_iff_reached {s : σ} {es : List ε} :
    Always step P s es ↔ ∀ pre, pre <+: es → ∃ t, run step s pre = some t ∧ P t := by
  induction es generalizing s with
  | nil => simp [Always]
  | cons e es ih =>
    constructor
    · rintro ⟨hP, s', hs', h⟩ pre hpre
      obtain rfl | ⟨pre', rfl, hpre'⟩ := List.prefix_cons_iff.mp hpre
      · exact ⟨s, rfl, hP⟩
      · rw [run_cons, hs']
        exact ih.mp h pre' hpre'
    · intro h
      obtain ⟨t, ht, hP⟩ := h [] (by simp)
      obtain ⟨s', hs', -⟩ := h [e] (by simp)
      rw [run_nil, Option.some.injEq] at ht
      rw [run_cons] at hs'
      cases hstep : step s e with
      | none => simp [hstep] at hs'
      | some s₁ =>
        refine ⟨ht ▸ hP, s₁, hstep, ih.mpr fun pre hpre => ?_⟩
        have := h (e :: pre) (by simpa using hpre)
        rwa [run_cons, hstep] at this

/-- The guard that asks for nothing. -/
theorem guarded_true (s : σ) (es : List ε) : Guarded step (fun _ _ => True) s es := by
  induction es generalizing s with
  | nil => trivial
  | cons e es ih => exact ⟨trivial, fun s' _ => ih s'⟩

/-- Two guards that agree in the states of an invariant. -/
theorem guarded_congr {H : σ → ε → Prop} (hstep : ∀ s e s', I s → step s e = some s' → I s')
    (hiff : ∀ s e, I s → (G s e ↔ H s e)) {s : σ} {es : List ε} (hs : I s) :
    Guarded step G s es ↔ Guarded step H s es := by
  induction es generalizing s with
  | nil => exact Iff.rfl
  | cons e es ih =>
    exact and_congr (hiff s e hs) (forall_congr' fun s' => imp_congr_right fun hs' =>
      ih (hstep s e s' hs hs'))

/-- A guard that the events of one kind meet in the states of an invariant. -/
theorem guarded_of_forall {E : ε → Prop} (hstep : ∀ s e s', I s → E e → step s e = some s' → I s')
    (hG : ∀ s e, I s → E e → G s e) {s : σ} {es : List ε} (hs : I s) (hE : ∀ e ∈ es, E e) :
    Guarded step G s es := by
  induction es generalizing s with
  | nil => trivial
  | cons e es ih =>
    have hEe := hE e List.mem_cons_self
    exact ⟨hG s e hs hEe, fun s' hs' => ih (hstep s e s' hs hEe hs')
      fun e' h => hE e' (List.mem_cons_of_mem e h)⟩

/-- A guard that does not look at the state, where every step has a result. -/
theorem guarded_iff_forall {E : ε → Prop} (htotal : ∀ s e, ∃ s', step s e = some s') {s : σ}
    {es : List ε} : Guarded step (fun _ e => E e) s es ↔ ∀ e ∈ es, E e := by
  induction es generalizing s with
  | nil => exact ⟨fun _ _ h => absurd h List.not_mem_nil, fun _ => trivial⟩
  | cons e es ih =>
    obtain ⟨s', hs'⟩ := htotal s e
    constructor
    · rintro ⟨he, hes⟩
      exact List.forall_mem_cons.mpr ⟨he, ih.mp (hes s' hs')⟩
    · intro h
      obtain ⟨he, hes⟩ := List.forall_mem_cons.mp h
      exact ⟨he, fun _ _ => ih.mpr hes⟩

/-- A guarded run meets the guard wherever a prefix of it leads. -/
theorem Guarded.reached {s t : σ} {pre es : List ε} {e : ε}
    (h : Guarded step G s (pre ++ e :: es)) (ht : run step s pre = some t) : G t e := by
  induction pre generalizing s with
  | nil =>
    rw [run_nil, Option.some.injEq] at ht
    exact ht ▸ h.1
  | cons e' pre ih =>
    obtain ⟨s', hs', ht⟩ := Option.bind_eq_some_iff.mp (run_cons s e' pre ▸ ht)
    exact ih (h.2 s' hs') ht

/-- **The invariant rule,** for runs of events in `E`. -/
theorem always_of_guarded {E : ε → Prop} (hIP : ∀ s, I s → P s)
    (hstep : ∀ s e, I s → E e → G s e → ∃ s', step s e = some s' ∧ I s')
    {s : σ} {es : List ε} (hs : I s) (hE : ∀ e ∈ es, E e) (hg : Guarded step G s es) :
    Always step P s es := by
  induction es generalizing s with
  | nil => exact hIP s hs
  | cons e es ih =>
    obtain ⟨s', hs', hI⟩ := hstep s e hs (hE e List.mem_cons_self) hg.1
    exact ⟨hIP s hs, s', hs', ih hI (fun e' h' => hE e' (List.mem_cons_of_mem e h')) (hg.2 s' hs')⟩

/-- Where every step has a result, every event has met its guard. -/
theorem Always.forall_of_guarded {E : ε → Prop} {s : σ} {es : List ε} (h : Always step P s es)
    (hg : Guarded step (fun _ e => E e) s es) : ∀ e ∈ es, E e := by
  induction es generalizing s with
  | nil => exact List.forall_mem_nil E
  | cons e es ih =>
    obtain ⟨-, s', hs', h'⟩ := h
    exact List.forall_mem_cons.mpr ⟨hg.1, ih h' (hg.2 s' hs')⟩

/-- **The exact rule:** a step that misses the guard leaves the property, so the property holds
along the run exactly when every step meets the guard. -/
theorem always_iff_guarded {E : ε → Prop} (hIP : ∀ s, I s → P s)
    (hstep : ∀ s e, I s → E e → G s e → ∃ s', step s e = some s' ∧ I s')
    (hbad : ∀ s e s', I s → E e → ¬ G s e → step s e = some s' → ¬ P s')
    {s : σ} {es : List ε} (hs : I s) (hE : ∀ e ∈ es, E e) :
    Always step P s es ↔ Guarded step G s es := by
  refine ⟨fun h => ?_, always_of_guarded hIP hstep hs hE⟩
  induction es generalizing s with
  | nil => trivial
  | cons e es ih =>
    obtain ⟨-, s', hs', h'⟩ := h
    have hEe := hE e List.mem_cons_self
    have hG : G s e := by
      by_contra hn
      exact hbad s e s' hs hEe hn hs' h'.head
    obtain ⟨s₁, hs₁, hI⟩ := hstep s e hs hEe hG
    refine ⟨hG, fun t ht => ?_⟩
    rw [hs'] at ht hs₁
    cases ht
    cases hs₁
    exact ih hI (fun e' h₁ => hE e' (List.mem_cons_of_mem e h₁)) h'

/-! ## Runs that may end early -/

/-- `P` holds of every state passed through, as far as the steps have results. -/
def Along (step : σ → ε → Option σ) (P : σ → Prop) : σ → List ε → Prop
  | s, [] => P s
  | s, e :: es => P s ∧ ∀ s', step s e = some s' → Along step P s' es

theorem Along.head {s : σ} {es : List ε} (h : Along step P s es) : P s := by
  cases es with
  | nil => exact h
  | cons e es => exact h.1

/-- `Along` is a statement about the states that are reached. -/
theorem along_iff_reached {s : σ} {es : List ε} :
    Along step P s es ↔ ∀ pre, pre <+: es → ∀ t, run step s pre = some t → P t := by
  induction es generalizing s with
  | nil => simp [Along]
  | cons e es ih =>
    constructor
    · rintro ⟨hP, h⟩ pre hpre t ht
      obtain rfl | ⟨pre', rfl, hpre'⟩ := List.prefix_cons_iff.mp hpre
      · exact Option.some.inj ht ▸ hP
      · obtain ⟨s', hs', ht⟩ := Option.bind_eq_some_iff.mp (run_cons s e pre' ▸ ht)
        exact ih.mp (h s' hs') pre' hpre' t ht
    · intro h
      refine ⟨h [] (by simp) s rfl, fun s' hs' => ih.mpr fun pre hpre t ht => ?_⟩
      refine h (e :: pre) (by simpa using hpre) t ?_
      rw [run_cons, hs']
      exact ht

/-- **The invariant rule** for `Along`. -/
theorem along_of_guarded {E : ε → Prop} (hIP : ∀ s, I s → P s)
    (hstep : ∀ s e s', I s → E e → G s e → step s e = some s' → I s')
    {s : σ} {es : List ε} (hs : I s) (hE : ∀ e ∈ es, E e) (hg : Guarded step G s es) :
    Along step P s es := by
  induction es generalizing s with
  | nil => exact hIP s hs
  | cons e es ih =>
    refine ⟨hIP s hs, fun s' hs' => ih (hstep s e s' hs (hE e List.mem_cons_self) hg.1 hs')
      (fun e' h' => hE e' (List.mem_cons_of_mem e h')) (hg.2 s' hs')⟩

/-- **The exact rule** for `Along`: a step that misses the guard leads out of the property. -/
theorem along_iff_guarded {E : ε → Prop} (hIP : ∀ s, I s → P s)
    (hstep : ∀ s e s', I s → E e → G s e → step s e = some s' → I s')
    (hbad : ∀ s e, I s → E e → ¬ G s e → ∃ s', step s e = some s' ∧ ¬ P s')
    {s : σ} {es : List ε} (hs : I s) (hE : ∀ e ∈ es, E e) :
    Along step P s es ↔ Guarded step G s es := by
  refine ⟨fun h => ?_, along_of_guarded hIP hstep hs hE⟩
  induction es generalizing s with
  | nil => trivial
  | cons e es ih =>
    obtain ⟨-, h⟩ := h
    have hEe := hE e List.mem_cons_self
    have hG : G s e := by
      by_contra hn
      obtain ⟨s', hs', hP⟩ := hbad s e hs hEe hn
      exact hP (h s' hs').head
    exact ⟨hG, fun s' hs' => ih (hstep s e s' hs hEe hG hs')
      (fun e' h₁ => hE e' (List.mem_cons_of_mem e h₁)) (h s' hs')⟩

/-- The converse of `along_of_guarded`, for runs that reach their end. -/
theorem guarded_of_along {E : ε → Prop}
    (hstep : ∀ s e s', I s → E e → G s e → step s e = some s' → I s')
    (hbad : ∀ s e s', I s → E e → ¬ G s e → step s e = some s' → ¬ P s')
    {s t : σ} {es : List ε} (hs : I s) (hE : ∀ e ∈ es, E e) (ht : run step s es = some t)
    (h : Along step P s es) : Guarded step G s es := by
  induction es generalizing s with
  | nil => trivial
  | cons e es ih =>
    obtain ⟨-, h⟩ := h
    have hEe := hE e List.mem_cons_self
    obtain ⟨s₁, hs₁, ht⟩ := Option.bind_eq_some_iff.mp (run_cons s e es ▸ ht)
    have hG : G s e := by
      by_contra hn
      exact hbad s e s₁ hs hEe hn hs₁ (h s₁ hs₁).head
    refine ⟨hG, fun s' hs' => ?_⟩
    rw [hs₁, Option.some.injEq] at hs'
    subst hs'
    exact ih (hstep s e s₁ hs hEe hG hs₁) (fun e' h₁ => hE e' (List.mem_cons_of_mem e h₁)) ht
      (h s₁ hs₁)

/-- A property of the states reached, without the demand that steps have results. -/
theorem of_run (hstep : ∀ s e s', I s → G s e → step s e = some s' → I s')
    {s t : σ} {es : List ε} (hs : I s) (hg : Guarded step G s es)
    (ht : run step s es = some t) : I t := by
  induction es generalizing s with
  | nil => rw [run_nil, Option.some.injEq] at ht; exact ht ▸ hs
  | cons e es ih =>
    rw [run_cons] at ht
    cases hstep' : step s e with
    | none => simp [hstep'] at ht
    | some s' =>
      rw [hstep', Option.bind_some] at ht
      exact ih (hstep s e s' hs hg.1 hstep') (hg.2 s' hstep') ht

/-- The same, for events of one kind. -/
theorem of_run_forall {E : ε → Prop} (hstep : ∀ s e s', I s → E e → step s e = some s' → I s')
    {s t : σ} {es : List ε} (hs : I s) (hE : ∀ e ∈ es, E e) (ht : run step s es = some t) :
    I t := by
  induction es generalizing s with
  | nil =>
    rw [run_nil, Option.some.injEq] at ht
    exact ht ▸ hs
  | cons e es ih =>
    obtain ⟨s', hs', ht⟩ := Option.bind_eq_some_iff.mp (run_cons s e es ▸ ht)
    exact ih (hstep s e s' hs (hE e List.mem_cons_self) hs')
      (fun e' h => hE e' (List.mem_cons_of_mem e h)) ht

/-- **Two runs side by side:** steps that keep a relation keep it along runs of related events. -/
theorem run_related {σ' ε' : Type*} {step' : σ' → ε' → Option σ'} {R : σ → σ' → Prop}
    {E : ε → ε' → Prop}
    (hstep : ∀ s s' e e' t, R s s' → E e e' → step s e = some t →
      ∃ t', step' s' e' = some t' ∧ R t t')
    {s t : σ} {s' : σ'} {es : List ε} {es' : List ε'} (hs : R s s') (hes : List.Forall₂ E es es')
    (ht : run step s es = some t) : ∃ t', run step' s' es' = some t' ∧ R t t' := by
  induction hes generalizing s s' with
  | nil =>
    rw [run_nil, Option.some.injEq] at ht
    exact ⟨s', rfl, ht ▸ hs⟩
  | @cons e e' es es' he _ ih =>
    obtain ⟨s₁, hs₁, ht⟩ := Option.bind_eq_some_iff.mp (run_cons s e es ▸ ht)
    obtain ⟨s₁', hs₁', hR⟩ := hstep s s' e e' s₁ hs he hs₁
    obtain ⟨t', ht', hRt⟩ := ih hR ht
    exact ⟨t', by rw [run_cons, hs₁', Option.bind_some, ht'], hRt⟩

/-- A fold keeps what each of its steps keeps. -/
theorem foldl_same {α : Type*} {f : σ → ε → σ} {v : σ → α} (h : ∀ s e, v (f s e) = v s)
    (es : List ε) (s : σ) : v (es.foldl f s) = v s :=
  List.foldlRecOn (motive := fun t => v t = v s) es f rfl fun t ht e _ => (h t e).trans ht

/-! ## What each step does -/

/-- Every step has a result, and `R` holds of the state before it, the event and the result. -/
def Stepwise (step : σ → ε → Option σ) (R : σ → ε → σ → Prop) : σ → List ε → Prop
  | _, [] => True
  | s, e :: es => ∃ s', step s e = some s' ∧ R s e s' ∧ Stepwise step R s' es

/-- **The invariant rule** for `Stepwise`. -/
theorem stepwise_of_guarded {R : σ → ε → σ → Prop}
    (hstep : ∀ s e, I s → G s e → ∃ s', step s e = some s' ∧ R s e s' ∧ I s')
    {s : σ} {es : List ε} (hs : I s) (hg : Guarded step G s es) : Stepwise step R s es := by
  induction es generalizing s with
  | nil => trivial
  | cons e es ih =>
    obtain ⟨s', hs', hR, hI⟩ := hstep s e hs hg.1
    exact ⟨s', hs', hR, ih hI (hg.2 s' hs')⟩

/-! ## Rounds of a loop -/

/-- Every step has a result, and `P` holds after it. -/
def Each (step : σ → ε → Option σ) (P : σ → Prop) : σ → List ε → Prop
  | _, [] => True
  | s, e :: es => ∃ s', step s e = some s' ∧ P s' ∧ Each step P s' es

theorem each_cons_of_some {s s' : σ} {e : ε} (h : step s e = some s') (hP : P s') (es : List ε) :
    Each step P s (e :: es) ↔ Each step P s' es := by
  constructor
  · rintro ⟨t, ht, -, hes⟩
    cases h.symm.trans ht
    exact hes
  · exact fun hes => ⟨s', h, hP, hes⟩

theorem not_each_cons {s : σ} {e : ε} (h : step s e = none) (es : List ε) :
    ¬ Each step P s (e :: es) := by
  rintro ⟨t, ht, -⟩
  cases h.symm.trans ht

/-- The loop has a result. -/
theorem Each.run {s : σ} {es : List ε} (h : Each step P s es) : ∃ t, run step s es = some t := by
  induction es generalizing s with
  | nil => exact ⟨s, rfl⟩
  | cons e es ih =>
    obtain ⟨s', hs', -, hes⟩ := h
    rw [run_cons, hs', Option.bind_some]
    exact ih hes

/-! ## Observations -/

section Observed
variable {α : Type*} {f : σ → α} {a : α} {s t : σ} {es : List ε}

theorem Along.final (h : Along step P s es) (ht : run step s es = some t) : P t :=
  along_iff_reached.mp h es List.prefix_rfl t ht

theorem Always.final (h : Always step P s es) (ht : run step s es = some t) : P t := by
  obtain ⟨t', ht', hP⟩ := always_iff_reached.mp h es List.prefix_rfl
  rw [ht, Option.some.injEq] at ht'
  exact ht' ▸ hP

/-- What is observed at the end of a run. -/
theorem Along.observed (h : Along step P s es) (hrun : (run step s es).map f = some a) :
    ∃ t, P t ∧ f t = a := by
  obtain ⟨t, ht, ha⟩ := Option.map_eq_some_iff.mp hrun
  exact ⟨t, h.final ht, ha⟩

theorem Always.observed (h : Always step P s es) (hrun : (run step s es).map f = some a) :
    ∃ t, P t ∧ f t = a := by
  obtain ⟨t, ht, ha⟩ := Option.map_eq_some_iff.mp hrun
  exact ⟨t, h.final ht, ha⟩

end Observed

end GSConferencing.Lib.Run
