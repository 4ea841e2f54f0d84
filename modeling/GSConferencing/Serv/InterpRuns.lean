import GSConferencing.Serv.InterpView

/-!
# Replication along runs

A tag may replicate another one while its interpreters are silent.  Four commands switch this; only
the end of `cmd_sub` looks at the microphone and the type of the device before it does.

* `TagOk`: what a replicating tag promises.
* `step_tagOk`: which steps keep the promise.
* `rep_exact`: along a run the promises hold exactly when every step is `Safe`.
-/

namespace GSConferencing.Serv.InterpRuns

open GSConferencing.Lib.Run
open GSConferencing.Serv.Strutil GSConferencing.Serv.CmdHandler GSConferencing.Serv.Dev
open GSConferencing.Serv.Discuss GSConferencing.Serv.Server
open GSConferencing.Serv.SubView GSConferencing.Serv.Subscribe GSConferencing.Serv.InterpView

/-! ## The machine -/

/-- The commands that switch replication. -/
inductive Event where
  | interp (cmd : Cmd)
  | request (cmd : Cmd)
  | sub (cmd : Cmd)
  | switchTag (cmd : Cmd)

variable (notice : Server → ℤ → ℤ → Bool → Str)

def step (s : Server) : Event → Option Server
  | .interp cmd => (cmdInterp s cmd).map fun r => r.2.2
  | .request cmd => (cmdDiscctrl s cmd).map fun r => r.2.2
  | .sub cmd => (cmdSub notice s cmd).map fun r => r.2.2
  | .switchTag cmd => (cmdSwitchTag s cmd).map fun r => r.2.2

/-- The modes are those of the enumeration, and of `discctrl` there are requests only. -/
def InMix : Event → Prop
  | .interp cmd => ∀ m, interpArg cmd = some m → m = interpNo ∨ m = interpOr ∨ m = interpRe
  | .request cmd => cmd.args.head? = some "request".toList
  | _ => True

/-! ## What a replicating tag promises -/

/-- The interpreters of a tag. -/
def Interpreter (v : View) (t d : ℤ) : Prop :=
  d ∈ v.devs ∧ v.type d = devtypeInterp ∧ v.tagOf d = t

/-- No interpreter of the tag has an open microphone. -/
def AllClosed (v : View) (t : ℤ) : Prop := ∀ d, Interpreter v t d → v.opn d = 0

/-- The only interpreter of the tag subscribes to `r`. -/
def Follows (v : View) (t r : ℤ) : Prop :=
  ∀ d, Interpreter v t d → (∀ e, Interpreter v t e → e = d) → v.subscription d = some r

/-- A tag that replicates has a mode for it and silent interpreters, and in the mode `INTERP_RE` it
replicates what its only interpreter subscribes to. -/
def TagOk (v : View) (t : ℤ) : Prop :=
  ∀ r, v.rep t = some r →
    v.mode t ≠ interpNo ∧ AllClosed v t ∧ (v.mode t = interpRe → Follows v t r)

def RepOk (s : Server) : Prop := ∀ t ∈ s.tags, TagOk (view s) t

/-! ## Which steps are safe -/

/-- The tag of the device takes the mode `m`. -/
def InterpSafe (v : View) (d m : ℤ) : Prop :=
  (m ≠ interpNo → AllClosed v (v.tagOf d)) ∧
  (m = interpRe → ∀ r, v.subscription d = some r → Follows v (v.tagOf d) r)

/-- An interpreter closes its microphone. -/
def CloseSafe (v : View) (d : ℤ) : Prop :=
  v.type d = devtypeInterp → v.mode (v.tagOf d) ≠ interpNo →
    ∀ e, Interpreter v (v.tagOf d) e → e ≠ d → v.opn e = 0

/-- A device of a tag that follows subscriptions subscribes to the tag `n`. -/
def SubSafe (v : View) (d n : ℤ) : Prop :=
  v.mode (v.tagOf d) = interpRe →
    v.subscription d ≠ some n ∨ (v.type d = devtypeInterp ∧ v.opn d = 0) →
    AllClosed v (v.tagOf d) ∧ ∀ e, Interpreter v (v.tagOf d) e →
      (∀ e', Interpreter v (v.tagOf d) e' → e' = e) → e = d ∨ v.subscription e = some n

/-- An interpreter enters the tag `tid`. -/
def EnterSafe (v : View) (d tid : ℤ) : Prop :=
  v.type d = devtypeInterp → tid ∈ v.tags → v.mode tid ≠ interpNo →
    v.opn d = 0 ∧ AllClosed v tid

/-- **A safe step.** A device without a subscription has no step that would read it: `set_mode` to
`RE`, and closing or entering where a tag's replication is switched by it. -/
def Safe (s : Server) : Event → Prop
  | .interp cmd => cmd.deviceId ∈ s.devs → ∀ m, interpArg cmd = some m →
      InterpSafe (view s) cmd.deviceId m
  | .request cmd => cmd.deviceId ∈ s.devs → cmd.args.tail.head?.map atoi = some 0 →
      CloseSafe (view s) cmd.deviceId
  | .sub cmd => cmd.deviceId ∈ s.devs → ∀ n, cmd.args.head?.map atoi = some n → 0 < n →
      SubSafe (view s) cmd.deviceId n
  | .switchTag cmd => ∀ tid, switchArg s cmd = some tid → EnterSafe (view s) cmd.deviceId tid

/-! ## The invariant -/

/-- Tags and modes. -/
structure Shape (v : View) : Prop where
  one : 1 ∈ v.tags
  tagOf : ∀ d ∈ v.devs, v.tagOf d ∈ v.tags
  mode : ∀ t ∈ v.tags, v.mode t = interpNo ∨ v.mode t = interpOr ∨ v.mode t = interpRe

/-- Every tag keeps its promise. -/
def Ok (v : View) : Prop := ∀ t ∈ v.tags, TagOk v t

variable {v v' : View} {d t : ℤ}

theorem tagOk_none (h : v.rep t = none) : TagOk v t := fun r hr => by
  rw [h] at hr
  cases hr

theorem tagOk_iff {r : ℤ} (h : v.rep t = some r) :
    TagOk v t ↔ v.mode t ≠ interpNo ∧ AllClosed v t ∧ (v.mode t = interpRe → Follows v t r) := by
  constructor
  · exact fun hok => hok r h
  · intro hok r' hr'
    rw [h, Option.some.injEq] at hr'
    exact hr' ▸ hok

/-- The promise of a tag depends on its mode, on what it replicates and on its interpreters. -/
theorem TagOk.congr (h : TagOk v t) (hrep : v'.rep t = v.rep t) (hmode : v'.mode t = v.mode t)
    (hint : ∀ d, Interpreter v' t d ↔ Interpreter v t d)
    (hopn : ∀ d, Interpreter v t d → v.opn d = 0 → v'.opn d = 0)
    (hsub : v.mode t = interpRe → ∀ d, Interpreter v t d → v'.subscription d = v.subscription d) :
    TagOk v' t := by
  intro r hr
  obtain ⟨hno, hclosed, hfollow⟩ := h r (hrep ▸ hr)
  refine ⟨hmode ▸ hno, fun d hd => hopn d ((hint d).mp hd) (hclosed d ((hint d).mp hd)), ?_⟩
  intro hre d hd huniq
  rw [hmode] at hre
  rw [hsub hre d ((hint d).mp hd)]
  exact hfollow hre d ((hint d).mp hd) fun e he => huniq e ((hint e).mpr he)

/-- Only the tag `t` may break its promise. -/
theorem ok_iff (h : ∀ x ∈ v.tags, x ≠ t → TagOk v x) (ht : t ∈ v.tags) : Ok v ↔ TagOk v t :=
  ⟨fun hok => hok t ht, fun hok x hx => if hxt : x = t then hxt ▸ hok else h x hx hxt⟩

/-! ## What a tag replicates -/

theorem Shape.setRep (h : Shape v) (t : ℤ) (r : Option ℤ) : Shape (setRep v t r) :=
  ⟨h.one, h.tagOf, h.mode⟩

theorem setRep_rep (v : View) (t : ℤ) (r : Option ℤ) : (setRep v t r).rep t = r :=
  Function.update_self ..

theorem setRep_other {x : ℤ} (hx : x ≠ t) (r : Option ℤ) :
    TagOk (setRep v t r) x ↔ TagOk v x := by
  unfold TagOk
  rw [show (setRep v t r).rep x = v.rep x from Function.update_of_ne hx ..]
  exact Iff.rfl

theorem setRep_some (v : View) (t r : ℤ) : TagOk (setRep v t (some r)) t ↔
    v.mode t ≠ interpNo ∧ AllClosed v t ∧ (v.mode t = interpRe → Follows v t r) :=
  tagOk_iff (setRep_rep ..)

/-- `apply_interp_mode` sets what the tag replicates. -/
theorem applyMode_eq (hs : Shape v) (ht : t ∈ v.tags) (h : applyMode v t d = some v') :
    (v.mode t = interpNo ∧ v' = setRep v t none) ∨
    (v.mode t = interpOr ∧ v' = setRep v t (some 1)) ∨
    ∃ r, v.mode t = interpRe ∧ v.subscription d = some r ∧ v' = setRep v t (some r) := by
  unfold applyMode at h
  by_cases h0 : v.mode t = interpNo
  · rw [if_pos h0, Option.some.injEq] at h
    exact .inl ⟨h0, h.symm⟩
  rw [if_neg h0] at h
  by_cases h1 : v.mode t = interpOr
  · rw [if_pos h1, if_pos hs.one, Option.some.injEq] at h
    exact .inr (.inl ⟨h1, h.symm⟩)
  rw [if_neg h1] at h
  have h2 := ((hs.mode t ht).resolve_left h0).resolve_left h1
  rw [if_pos h2] at h
  obtain ⟨r, hr, h⟩ := Option.map_eq_some_iff.mp h
  exact .inr (.inr ⟨r, h2, hr, h.symm⟩)

/-- **`apply_interp_mode`:** when the tag keeps its promise. -/
theorem applyMode_ok (hs : Shape v) (ht : t ∈ v.tags)
    (hok : ∀ x ∈ v.tags, x ≠ t → TagOk v x) (h : applyMode v t d = some v') :
    Shape v' ∧ (Ok v' ↔ (v.mode t ≠ interpNo → AllClosed v t) ∧
      (v.mode t = interpRe → ∀ r, v.subscription d = some r → Follows v t r)) := by
  have hset : ∀ r, Ok (setRep v t r) ↔ TagOk (setRep v t r) t := fun r =>
    ok_iff (fun x hx hxt => (setRep_other hxt r).mpr (hok x hx hxt)) ht
  rcases applyMode_eq hs ht h with ⟨hm, rfl⟩ | ⟨hm, rfl⟩ | ⟨r, hm, hr, rfl⟩
  · refine ⟨hs.setRep .., ⟨fun _ => ?_, fun _ => (hset none).mpr (tagOk_none (setRep_rep ..))⟩⟩
    rw [hm]
    exact ⟨absurd rfl, fun h => absurd h (by decide)⟩
  · refine ⟨hs.setRep .., ?_⟩
    rw [hset, setRep_some, hm]
    exact ⟨fun h => ⟨fun _ => h.2.1, fun h => absurd h (by decide)⟩,
      fun h => ⟨by decide, h.1 (by decide), fun h => absurd h (by decide)⟩⟩
  · refine ⟨hs.setRep .., ?_⟩
    rw [hset, setRep_some, hm]
    refine ⟨fun h => ⟨fun _ => h.2.1, fun _ r' hr' => ?_⟩,
      fun h => ⟨by decide, h.1 (by decide), fun _ => h.2 rfl r hr⟩⟩
    rw [hr, Option.some.injEq] at hr'
    exact hr' ▸ h.2.2 rfl

/-! ## The steps -/

theorem interp_ok (hs : Shape v) (hok : Ok v) (hd : d ∈ v.devs) {m : ℤ}
    (hm : m = interpNo ∨ m = interpOr ∨ m = interpRe)
    (h : applyMode (setMode v (v.tagOf d) m) (v.tagOf d) d = some v') :
    Shape v' ∧ (Ok v' ↔ InterpSafe v d m) := by
  have hmode : (setMode v (v.tagOf d) m).mode (v.tagOf d) = m := Function.update_self ..
  have hother : ∀ x, x ≠ v.tagOf d → (setMode v (v.tagOf d) m).mode x = v.mode x := fun x hx =>
    Function.update_of_ne hx ..
  have hshape : Shape (setMode v (v.tagOf d) m) := by
    refine ⟨hs.one, hs.tagOf, fun x hx => ?_⟩
    by_cases hxt : x = v.tagOf d
    · rw [hxt, hmode]
      exact hm
    · rw [hother x hxt]
      exact hs.mode x hx
  have hkeep : ∀ x ∈ v.tags, x ≠ v.tagOf d → TagOk (setMode v (v.tagOf d) m) x :=
    fun x hx hxt => (hok x hx).congr rfl (hother x hxt) (fun _ => Iff.rfl) (fun _ _ h => h)
      fun _ _ _ => rfl
  have := applyMode_ok hshape (hs.tagOf d hd) hkeep h
  rw [hmode] at this
  exact this

/-- Microphones of other devices do not open. -/
theorem moved_other {a : ℤ} {opn : ℤ → ℤ} (h : Moved v d a opn) {e : ℤ} (he : e ≠ d)
    (h0 : v.opn e = 0) : opn e = 0 := by
  by_cases ha : a = 0
  · rw [h.1 ha, Function.update_of_ne he]
    exact h0
  · rcases (h.2 ha).2 e he with heq | heq
    · exact heq.trans h0
    · exact heq

/-- The end of a request that closes the microphone of an interpreter. -/
theorem closeSafe_iff (hd : Interpreter v t d) (ht : v.tagOf d = t) (hm : v.mode t ≠ interpNo) :
    ((v.mic d 0).mode t ≠ interpNo → AllClosed (v.mic d 0) t) ∧
      ((v.mic d 0).mode t = interpRe → ∀ r, (v.mic d 0).subscription d = some r →
        Follows (v.mic d 0) t r) ↔ CloseSafe v d := by
  constructor
  · rintro ⟨hclosed, -⟩ - - e he hed
    have h0 : Function.update v.opn d 0 e = 0 := hclosed hm e (ht ▸ he)
    rwa [Function.update_of_ne hed] at h0
  · intro hsafe
    refine ⟨fun _ e he => ?_, fun _ r hr e _ huniq => ?_⟩
    · show Function.update v.opn d 0 e = 0
      by_cases hed : e = d
      · rw [hed, Function.update_self]
      · rw [Function.update_of_ne hed]
        exact hsafe hd.2.1 (ht.symm ▸ hm) e (ht.symm ▸ he) hed
    · exact huniq d hd ▸ hr

theorem request_ok (hs : Shape v) (hok : Ok v) (hd : d ∈ v.devs) {a : ℤ} {opn : ℤ → ℤ}
    (hmoved : Moved v d a opn) (h : post { v with opn := opn } (v.tagOf d) d a = some v') :
    Shape v' ∧ (Ok v' ↔ (a = 0 → CloseSafe v d)) := by
  have ht := hs.tagOf d hd
  have hshape : Shape { v with opn := opn } := ⟨hs.one, hs.tagOf, hs.mode⟩
  have hkeep : ∀ x ∈ v.tags, x ≠ v.tagOf d → TagOk { v with opn := opn } x := by
    intro x hx hxt
    refine (hok x hx).congr rfl rfl (fun _ => Iff.rfl) (fun e he h0 => ?_) fun _ _ _ => rfl
    exact moved_other hmoved (fun hed => hxt (hed ▸ he.2.2).symm) h0
  have hall : Ok { v with opn := opn } ↔ TagOk { v with opn := opn } (v.tagOf d) :=
    @ok_iff { v with opn := opn } _ hkeep ht
  unfold post at h
  by_cases hint : v.type d = devtypeInterp ∧ 0 < v.mode (v.tagOf d)
  · rw [if_pos (show _ ∧ _ from hint)] at h
    have hm : v.mode (v.tagOf d) ≠ interpNo := hint.2.ne'
    by_cases ha : a = 0
    · rw [if_neg (not_not.mpr ha)] at h
      have := applyMode_ok hshape ht hkeep h
      rw [hmoved.1 ha] at this
      refine ⟨this.1, this.2.trans ((closeSafe_iff ⟨hd, hint.1, rfl⟩ rfl hm).trans ?_)⟩
      exact ⟨fun h _ => h, fun h => h ha⟩
    · rw [if_pos ha, Option.some.injEq] at h
      subst h
      refine ⟨hshape.setRep .., ⟨fun _ h0 => absurd h0 ha, fun _ => ?_⟩⟩
      exact (ok_iff (fun x hx hxt => (setRep_other hxt none).mpr (hkeep x hx hxt)) ht).mpr
        (tagOk_none (setRep_rep ..))
  · rw [if_neg (show ¬(_ ∧ _) from hint), Option.some.injEq] at h
    subst h
    refine ⟨hshape, ⟨fun _ _ htype hm => ?_, fun _ => hall.mpr ?_⟩⟩
    · have hle := not_lt.mp fun hlt => hint ⟨htype, hlt⟩
      rcases hs.mode _ ht with h0 | h1 | h2
      · exact absurd h0 hm
      · exact absurd (h1 ▸ hle) (by decide)
      · exact absurd (h2 ▸ hle) (by decide)
    · by_cases htype : v.type d = devtypeInterp
      · -- the mode is `INTERP_NO`, so nothing is replicated
        have hle := not_lt.mp fun hlt => hint ⟨htype, hlt⟩
        refine tagOk_none (Option.eq_none_iff_forall_ne_some.mpr fun r hr => ?_)
        rcases hs.mode _ ht with h0 | h1 | h2
        · exact (hok _ ht r hr).1 h0
        · exact absurd (h1 ▸ hle) (by decide)
        · exact absurd (h2 ▸ hle) (by decide)
      · refine (hok _ ht).congr rfl rfl (fun _ => Iff.rfl) (fun e he h0 => ?_) fun _ _ _ => rfl
        exact moved_other hmoved (fun hed => htype (hed ▸ he.2.1)) h0

/-! ### `sub` -/

/-- A tag that exists already is not touched. -/
theorem request_other (n : ℤ) (ht : t ∈ v.tags) :
    (request v n).mode t = v.mode t ∧ (request v n).rep t = v.rep t := by
  unfold request
  split
  · exact ⟨rfl, rfl⟩
  · next hn =>
    have hne : t ≠ n := fun heq => hn (heq ▸ ht)
    exact ⟨Function.update_of_ne hne .., Function.update_of_ne hne ..⟩

/-- A new tag replicates nothing. -/
theorem request_new (n : ℤ) (ht : t ∈ (request v n).tags) (hv : t ∉ v.tags) :
    (request v n).mode t = interpNo ∧ (request v n).rep t = none := by
  unfold request at ht ⊢
  by_cases hn : n ∈ v.tags
  · rw [if_pos hn] at ht
    exact absurd ht hv
  · rw [if_neg hn] at ht ⊢
    have htn : t = n := List.mem_singleton.mp ((List.mem_append.mp ht).resolve_left hv)
    exact htn ▸ ⟨Function.update_self .., Function.update_self ..⟩

theorem Shape.request (h : Shape v) (n : ℤ) : Shape (request v n) := by
  refine ⟨request_tags_subset v n h.one, fun e he => ?_, fun x hx => ?_⟩
  · rw [request_tagOf]
    exact request_tags_subset v n (h.tagOf e ((request_devs v n) ▸ he))
  · by_cases hv : x ∈ v.tags
    · rw [(request_other n hv).1]
      exact h.mode x hv
    · exact .inl (request_new n hx hv).1

theorem interpreter_request (n e : ℤ) : Interpreter (request v n) t e ↔ Interpreter v t e := by
  unfold Interpreter
  rw [request_devs, request_type, request_tagOf]

theorem Ok.request (h : Ok v) (n : ℤ) : Ok (request v n) := by
  intro x hx
  by_cases hxv : x ∈ v.tags
  · refine (h x hxv).congr (request_other n hxv).2 (request_other n hxv).1
      (interpreter_request n) (fun e _ h0 => ?_) fun _ e _ => ?_
    · rwa [request_opn]
    · rw [request_subscription]
  · exact tagOk_none (request_new n hx hxv).2

theorem subSafe_request (hs : Shape v) (hd : d ∈ v.devs) (n : ℤ) (m : ℤ) :
    SubSafe (request v m) d n ↔ SubSafe v d n := by
  unfold SubSafe AllClosed
  simp only [request_tagOf, request_subscription, request_type, request_opn, interpreter_request,
    (request_other m (hs.tagOf d hd)).1]

/-- The subscription that the tag of the device follows is new, or applied once more. -/
def Followed (v : View) (d n : ℤ) : Prop :=
  v.mode (v.tagOf d) = interpRe ∧
    (v.subscription d ≠ some n ∨ (v.type d = devtypeInterp ∧ v.opn d = 0))

instance (v : View) (d n : ℤ) : Decidable (Followed v d n) :=
  inferInstanceAs (Decidable (_ ∧ _))

/-- A new subscription, and what the tag of the device replicates. -/
theorem endSub_subscribe (v : View) (d n : ℤ) : ∃ head sub1,
    endSub (subscribe v d n) d false = { v with
      head := head
      sub1 := sub1
      subscription := Function.update v.subscription d (some n)
      rep := if Followed v d n then Function.update v.rep (v.tagOf d) (some n) else v.rep } := by
  refine ⟨(subscribe v d n).head, (subscribe v d n).sub1, ?_⟩
  unfold endSub
  by_cases hs : v.subscription d = some n
  · -- subscribed already: only the end of the command applies it again
    have hself : Function.update v.subscription d (some n) = v.subscription :=
      Function.update_eq_self_iff.mpr hs.symm
    have hsubscribe : subscribe v d n = v := if_pos hs
    rw [hsubscribe, hself, if_neg Bool.false_ne_true, hs]
    by_cases hre : v.type d = devtypeInterp ∧ v.mode (v.tagOf d) = interpRe ∧ v.opn d = 0
    · have hf : Followed v d n := ⟨hre.2.1, .inr ⟨hre.1, hre.2.2⟩⟩
      rw [if_pos hre, if_pos hf]
      rfl
    · have hf : ¬ Followed v d n := fun h => hre ⟨(h.2.resolve_left (not_not.mpr hs)).1, h.1,
        (h.2.resolve_left (not_not.mpr hs)).2⟩
      rw [if_neg hre, if_neg hf]
  · have hsubscribe : subscribe v d n = dup (link (unlink v d) d n) d n := if_neg hs
    have hlink : link (unlink v d) d n = { v with
        head := (link (unlink v d) d n).head
        sub1 := (link (unlink v d) d n).sub1
        subscription := Function.update v.subscription d (some n) } := by
      rw [link, unlink_eq]
    by_cases hre : v.mode (v.tagOf d) = interpRe
    · have hf : Followed v d n := ⟨hre, .inl hs⟩
      rw [hsubscribe, dup, hlink, if_pos (show _ = _ from hre), if_pos hf]
      split
      · simp [setRep]
      · rfl
    · have hf : ¬ Followed v d n := fun h => hre h.1
      rw [hsubscribe, dup, hlink, if_neg (show ¬ (_ = _) from hre), if_neg (fun h => hre h.2.1),
        if_neg hf]

/-- The end of a subscription, and what the tag of the device replicates. -/
theorem endSub_unsubscribe (v : View) (d n : ℤ) : ∃ head sub1 subscription,
    (∀ e, e ≠ d → subscription e = v.subscription e) ∧
    endSub (unsubscribe v d n) d true = { v with
      head := head
      sub1 := sub1
      subscription := subscription
      rep := if v.type d = devtypeInterp ∧ v.mode (v.tagOf d) = interpRe ∧ v.opn d = 0 then
        Function.update v.rep (v.tagOf d) none else v.rep } := by
  refine ⟨(unsubscribe v d n).head, (unsubscribe v d n).sub1, (unsubscribe v d n).subscription,
    fun e he => ?_, ?_⟩
  · unfold unsubscribe
    split
    · exact Function.update_of_ne he ..
    · rfl
  · unfold endSub
    rw [unsubscribe_eq]
    simp only
    split <;> rfl

/-- The part of the view that a subscription leaves alone. -/
structure Same (w v : View) : Prop where
  devs : w.devs = v.devs
  tags : w.tags = v.tags
  mode : w.mode = v.mode
  opn : w.opn = v.opn
  tagOf : w.tagOf = v.tagOf
  interpreter : ∀ x e, Interpreter w x e ↔ Interpreter v x e

variable {w : View}

theorem Same.shape (h : Same w v) (hs : Shape v) : Shape w :=
  ⟨h.tags ▸ hs.one, by rw [h.devs, h.tagOf, h.tags]; exact hs.tagOf,
    by rw [h.tags, h.mode]; exact hs.mode⟩

/-- Only the tag of the device is concerned when the device changes its subscription. -/
theorem Same.other (h : Same w v) (hok : Ok v) (hsub : ∀ e, e ≠ d →
    w.subscription e = v.subscription e) {x : ℤ} (hx : x ∈ v.tags) (hxt : x ≠ v.tagOf d)
    (hrep : w.rep x = v.rep x) : TagOk w x := by
  refine (hok x hx).congr hrep (congrFun h.mode x) (h.interpreter x) (fun e _ h0 => ?_)
    fun _ e he => hsub e fun hed => hxt (hed ▸ he.2.2).symm
  rwa [h.opn]

theorem sub_ok (hs : Shape v) (hok : Ok v) (hd : d ∈ v.devs) (n : ℤ) :
    Shape (endSub (subscribe v d n) d false) ∧
      (Ok (endSub (subscribe v d n) d false) ↔ SubSafe v d n) := by
  obtain ⟨head, sub1, hv⟩ := endSub_subscribe v d n
  generalize endSub (subscribe v d n) d false = w at hv ⊢
  have hsame : Same w v := hv ▸ ⟨rfl, rfl, rfl, rfl, rfl, fun _ _ => Iff.rfl⟩
  have hsub : w.subscription = Function.update v.subscription d (some n) :=
    congrArg View.subscription hv
  have hrep : w.rep = if Followed v d n then Function.update v.rep (v.tagOf d) (some n)
      else v.rep := congrArg View.rep hv
  have hkeep : ∀ x ∈ w.tags, x ≠ v.tagOf d → TagOk w x := by
    intro x hx hxt
    refine hsame.other hok (fun e he => ?_) (hsame.tags ▸ hx) hxt ?_
    · rw [hsub, Function.update_of_ne he]
    · rw [hrep]
      split
      · exact Function.update_of_ne hxt ..
      · rfl
  refine ⟨hsame.shape hs,
    (ok_iff hkeep (hsame.tags ▸ hs.tagOf d hd)).trans ?_⟩
  by_cases hf : Followed v d n
  · -- the tag replicates `n`
    have hrep' : w.rep (v.tagOf d) = some n := by
      rw [hrep, if_pos hf, Function.update_self]
    have hfollows : Follows w (v.tagOf d) n ↔ ∀ e, Interpreter v (v.tagOf d) e →
        (∀ e', Interpreter v (v.tagOf d) e' → e' = e) → e = d ∨ v.subscription e = some n := by
      unfold Follows
      simp only [hsame.interpreter, hsub]
      refine forall_congr' fun e => forall_congr' fun _ => forall_congr' fun _ => ?_
      by_cases hed : e = d
      · simp [hed]
      · simp [hed]
    have hclosed : AllClosed w (v.tagOf d) ↔ AllClosed v (v.tagOf d) := by
      unfold AllClosed
      simp only [hsame.interpreter, hsame.opn]
    rw [tagOk_iff hrep', hsame.mode, hfollows, hclosed]
    exact ⟨fun h _ _ => ⟨h.2.1, h.2.2 hf.1⟩, fun h =>
      ⟨fun hno => absurd (hno.symm.trans hf.1) (by decide), (h hf.1 hf.2).1,
        fun _ => (h hf.1 hf.2).2⟩⟩
  · -- the tag replicates what it did
    have hsafe : SubSafe v d n := fun hre hch => absurd ⟨hre, hch⟩ hf
    refine ⟨fun _ => hsafe, fun _ => ?_⟩
    refine (hok _ (hs.tagOf d hd)).congr (by rw [hrep, if_neg hf]) (congrFun hsame.mode _)
      (hsame.interpreter _) (fun e _ h0 => by rwa [hsame.opn]) fun hre e _ => ?_
    have hsame' : v.subscription d = some n := not_not.mp fun hne => hf ⟨hre, .inl hne⟩
    rw [hsub, Function.update_eq_self_iff.mpr hsame'.symm]

theorem unsub_ok (hs : Shape v) (hok : Ok v) (hd : d ∈ v.devs) (n : ℤ) :
    Shape (endSub (unsubscribe v d n) d true) ∧ Ok (endSub (unsubscribe v d n) d true) := by
  obtain ⟨head, sub1, subscription, hother, hv⟩ := endSub_unsubscribe v d n
  generalize endSub (unsubscribe v d n) d true = w at hv ⊢
  have hsame : Same w v := hv ▸ ⟨rfl, rfl, rfl, rfl, rfl, fun _ _ => Iff.rfl⟩
  have hsub : w.subscription = subscription := congrArg View.subscription hv
  have hrep : w.rep = if v.type d = devtypeInterp ∧ v.mode (v.tagOf d) = interpRe ∧ v.opn d = 0
      then Function.update v.rep (v.tagOf d) none else v.rep := congrArg View.rep hv
  refine ⟨hsame.shape hs, (ok_iff (fun x hx hxt => ?_)
    (hsame.tags ▸ hs.tagOf d hd)).mpr ?_⟩
  · refine hsame.other hok (fun e he => hsub ▸ hother e he) (hsame.tags ▸ hx) hxt ?_
    rw [hrep]
    split
    · exact Function.update_of_ne hxt ..
    · rfl
  by_cases hend : v.type d = devtypeInterp ∧ v.mode (v.tagOf d) = interpRe ∧ v.opn d = 0
  · refine tagOk_none ?_
    rw [hrep, if_pos hend, Function.update_self]
  rw [if_neg hend] at hrep
  by_cases hint : v.type d = devtypeInterp ∧ v.opn d ≠ 0
  · -- an interpreter that speaks: nothing is replicated
    refine tagOk_none (Option.eq_none_iff_forall_ne_some.mpr fun r hr => hint.2 ?_)
    exact (hok _ (hs.tagOf d hd) r (hrep ▸ hr)).2.1 d ⟨hd, hint.1, rfl⟩
  · refine (hok _ (hs.tagOf d hd)).congr (congrFun hrep _) (congrFun hsame.mode _)
      (hsame.interpreter _) (fun e _ h0 => by rwa [hsame.opn]) fun hre e he => ?_
    rw [hsub]
    refine hother e fun hed => ?_
    rw [hed] at he
    exact hint ⟨he.2.1, fun h0 => hend ⟨he.2.1, hre, h0⟩⟩

/-- **`sub`:** when the tag of the device keeps its promise. -/
theorem change_ok (hs : Shape v) (hok : Ok v) (hd : d ∈ v.devs) {n : ℤ} (hn : n ≠ 0) :
    Shape (endSub (change v d n) d (n < 0)) ∧
      (Ok (endSub (change v d n) d (n < 0)) ↔ (0 < n → SubSafe v d n)) := by
  have hd' : d ∈ (request v |n|).devs := by rwa [request_devs]
  unfold change
  by_cases hneg : n < 0
  · have := unsub_ok (hs.request |n|) (hok.request |n|) hd' |n|
    rw [if_pos hneg, decide_eq_true hneg]
    exact ⟨this.1, fun _ hpos => absurd hpos hneg.not_gt, fun _ => this.2⟩
  · have hpos : 0 < n := lt_of_le_of_ne (not_lt.mp hneg) hn.symm
    have := sub_ok (hs.request |n|) (hok.request |n|) hd' |n|
    rw [if_neg hneg, decide_eq_false hneg]
    rw [subSafe_request hs hd, abs_of_pos hpos] at this
    rw [abs_of_pos hpos]
    exact ⟨this.1, this.2.trans ⟨fun h _ => h, fun h => h hpos⟩⟩

/-! ### `switch_tag` -/

theorem Shape.move (hs : Shape v) (d tid : ℤ) : Shape (move v d tid) := by
  refine ⟨(hs.request tid).one, fun e he => ?_, (hs.request tid).mode⟩
  show Function.update v.tagOf d tid e ∈ (Subscribe.request v tid).tags
  by_cases hed : e = d
  · rw [hed, Function.update_self]
    exact mem_request v tid
  · rw [Function.update_of_ne hed]
    exact request_tags_subset v tid (hs.tagOf e ((request_devs v tid) ▸ he))

/-- The other devices stay where they are. -/
theorem interpreter_move_other {x e : ℤ} (he : e ≠ d) (tid : ℤ) :
    Interpreter (move v d tid) x e ↔ Interpreter v x e := by
  have htag : (move v d tid).tagOf e = v.tagOf e := Function.update_of_ne he ..
  have hrest : (move v d tid).devs = v.devs ∧ (move v d tid).type = v.type :=
    ⟨request_devs v tid, request_type v tid⟩
  unfold Interpreter
  rw [htag, hrest.1, hrest.2]

theorem interpreter_move_self {x tid : ℤ} :
    Interpreter (move v d tid) x d ↔ d ∈ v.devs ∧ v.type d = devtypeInterp ∧ tid = x := by
  have htag : (move v d tid).tagOf d = tid := Function.update_self ..
  have hrest : (move v d tid).devs = v.devs ∧ (move v d tid).type = v.type :=
    ⟨request_devs v tid, request_type v tid⟩
  unfold Interpreter
  rw [htag, hrest.1, hrest.2]

/-- A tag without the device, before and after, keeps its promise. -/
theorem move_other (hok : Ok v) {x tid : ℤ} (hx : x ∈ (move v d tid).tags)
    (hd : ¬ Interpreter v x d) (hd' : ¬ Interpreter (move v d tid) x d) :
    TagOk (move v d tid) x := by
  refine (hok.request tid x hx).congr rfl rfl (fun e => ?_) (fun _ _ h0 => h0) fun _ _ _ => rfl
  rw [interpreter_request]
  by_cases hed : e = d
  · rw [hed]
    exact ⟨fun h => absurd h hd', fun h => absurd h hd⟩
  · exact interpreter_move_other hed tid

/-- A silent tag promises nothing. -/
theorem quit_ok (hs : Shape v) (hok : Ok v) (hd : d ∈ v.devs) :
    Shape (quit v d) ∧ Ok (quit v d) ∧
      (v.type d = devtypeInterp → (quit v d).rep (v.tagOf d) = none) := by
  unfold quit
  by_cases htype : v.type d = devtypeInterp
  swap
  · rw [if_neg htype]
    exact ⟨hs, hok, fun h => absurd h htype⟩
  rw [if_pos htype]
  have hmode : (setMode v (v.tagOf d) interpNo).mode (v.tagOf d) = interpNo :=
    Function.update_self ..
  have hquit := interp_ok hs hok hd (.inl rfl)
    (show applyMode (setMode v (v.tagOf d) interpNo) (v.tagOf d) d = _ from if_pos hmode)
  exact ⟨hquit.1, hquit.2.mpr ⟨absurd rfl, fun h => absurd h (by decide)⟩,
    fun _ => setRep_rep ..⟩

theorem quit_fields (v : View) (d : ℤ) : (quit v d).devs = v.devs ∧ (quit v d).tags = v.tags ∧
    (quit v d).type = v.type ∧ (quit v d).tagOf = v.tagOf ∧ (quit v d).opn = v.opn ∧
    (quit v d).subscription = v.subscription := by
  unfold quit
  split <;> exact ⟨rfl, rfl, rfl, rfl, rfl, rfl⟩

theorem quit_mode (h : t ≠ v.tagOf d) : (quit v d).mode t = v.mode t := by
  unfold quit
  split
  · exact Function.update_of_ne h ..
  · rfl

theorem interpreter_quit (d x e : ℤ) : Interpreter (quit v d) x e ↔ Interpreter v x e := by
  obtain ⟨hdevs, -, htype, htag, -⟩ := quit_fields v d
  unfold Interpreter
  rw [hdevs, htype, htag]

/-- The interpreters of the tag that an interpreter enters. -/
theorem enterSafe_iff (hd : d ∈ v.devs) {tid : ℤ} (htid : tid ≠ v.tagOf d)
    (htype : v.type d = devtypeInterp) (w : View) (hw : w = move (quit v d) d tid) :
    ((w.mode tid ≠ interpNo → AllClosed w tid) ∧
      (w.mode tid = interpRe → ∀ r, w.subscription d = some r → Follows w tid r)) ↔
    EnterSafe v d tid := by
  obtain ⟨hdevs, htags, htype', -, hopn, -⟩ := quit_fields v d
  have hself : Interpreter w tid d :=
    hw ▸ interpreter_move_self.mpr ⟨hdevs.symm ▸ hd, htype'.symm ▸ htype, rfl⟩
  have hother : ∀ e, e ≠ d → (Interpreter w tid e ↔ Interpreter v tid e) := fun e he => by
    rw [hw, interpreter_move_other he, interpreter_quit]
  have hwopn : w.opn = v.opn := by
    rw [hw, ← hopn]
    exact request_opn (quit v d) tid
  have hclosed : AllClosed w tid ↔ v.opn d = 0 ∧ AllClosed v tid := by
    unfold AllClosed
    rw [hwopn]
    constructor
    · intro h
      refine ⟨h d hself, fun e he => ?_⟩
      have hed : e ≠ d := fun heq => htid (heq ▸ he.2.2).symm
      exact h e ((hother e hed).mpr he)
    · rintro ⟨h0, h⟩ e he
      by_cases hed : e = d
      · exact hed ▸ h0
      · exact h e ((hother e hed).mp he)
  have hfollows : ∀ r, w.subscription d = some r → Follows w tid r := fun r hr e _ huniq =>
    huniq d hself ▸ hr
  have hmode : w.mode tid ≠ interpNo ↔ tid ∈ v.tags ∧ v.mode tid ≠ interpNo := by
    have hmove : w.mode tid = (request (quit v d) tid).mode tid := hw ▸ rfl
    rw [hmove]
    by_cases ht : tid ∈ v.tags
    · rw [(request_other tid (htags.symm ▸ ht)).1, quit_mode htid]
      exact ⟨fun h => ⟨ht, h⟩, fun h => h.2⟩
    · rw [(request_new tid (mem_request _ _) (htags.symm ▸ ht)).1]
      exact ⟨absurd rfl, fun h => absurd h.1 ht⟩
  rw [hclosed]
  exact ⟨fun h _ ht hm => h.1 (hmode.mpr ⟨ht, hm⟩), fun h =>
    ⟨fun hm => h htype (hmode.mp hm).1 (hmode.mp hm).2, fun _ => hfollows⟩⟩

/-- **`switch_tag`:** when the tag that the device enters keeps its promise. -/
theorem switch_ok (hs : Shape v) (hok : Ok v) (hd : d ∈ v.devs) {tid : ℤ}
    (htid : tid ≠ v.tagOf d) (h : enter (move (quit v d) d tid) d tid = some v') :
    Shape v' ∧ (Ok v' ↔ EnterSafe v d tid) := by
  obtain ⟨hqs, hqok, hqrep⟩ := quit_ok hs hok hd
  obtain ⟨hdevs, -, htype, htag, -⟩ := quit_fields v d
  have hmove : (move (quit v d) d tid).type d = v.type d := by
    rw [← htype]
    exact congrFun (request_type (quit v d) tid) d
  unfold enter at h
  rw [hmove] at h
  by_cases hint : v.type d = devtypeInterp
  · rw [if_pos hint] at h
    have := applyMode_ok (hqs.move d tid) (mem_request _ _) (fun x hx hxt => ?_) h
    · exact ⟨this.1, this.2.trans (enterSafe_iff hd htid hint _ rfl)⟩
    by_cases hx0 : x = v.tagOf d
    · -- the tag that the interpreter has left
      refine tagOk_none ?_
      have hx' : x ∈ (quit v d).tags := by
        rw [hx0, ← htag]
        exact hqs.tagOf d (hdevs.symm ▸ hd)
      exact (request_other tid hx').2.trans (hx0 ▸ hqrep hint)
    · refine move_other hqok hx (fun hi => hx0 ?_) fun hi => hxt ?_
      · rw [interpreter_quit] at hi
        exact hi.2.2.symm
      · exact (interpreter_move_self.mp hi).2.2.symm
  · rw [if_neg hint, Option.some.injEq] at h
    subst h
    refine ⟨hqs.move d tid, fun _ htype' => absurd htype' hint, fun _ x hx => ?_⟩
    refine move_other hqok hx (fun hi => hint (htype ▸ hi.2.1)) fun hi => hint (hmove ▸ hi.2.1)

/-! ## Runs -/

/-- **One step** keeps the promises exactly when it is safe. -/
theorem step_ok {s s' : Server} {e : Event} (hs : Shape (view s)) (hok : RepOk s) (hE : InMix e)
    (h : step notice s e = some s') : Shape (view s') ∧ (RepOk s' ↔ Safe s e) := by
  cases e with
  | interp cmd =>
    obtain ⟨r, hr, rfl⟩ := Option.map_eq_some_iff.mp h
    rcases cmdInterp_cases s cmd with ⟨hno, code, c, hc⟩ | ⟨m, hd, harg, hv⟩
    · rw [hc, Option.some.injEq] at hr
      subst hr
      refine ⟨hs, fun _ hd m harg => ?_, fun _ => hok⟩
      exact absurd harg (hno.resolve_left (not_not.mpr hd) ▸ (Option.some_ne_none m).symm)
    · rw [hr, Option.map_some] at hv
      have := interp_ok hs hok hd (hE m harg) hv.symm
      refine ⟨this.1, this.2.trans ⟨fun h _ m' harg' => ?_, fun h => h hd m harg⟩⟩
      rw [harg, Option.some.injEq] at harg'
      exact harg' ▸ h
  | request cmd =>
    obtain ⟨r, hr, rfl⟩ := Option.map_eq_some_iff.mp h
    rcases cmdDiscctrl_request_cases hE hr with ⟨heq, hno⟩ | ⟨a, opn, hd, harg, hmoved, hpost⟩
    · rw [heq]
      exact ⟨hs, fun _ hd h0 => absurd h0 (hno.resolve_left (not_not.mpr hd)), fun _ => hok⟩
    · have := request_ok hs hok hd hmoved hpost
      refine ⟨this.1, this.2.trans ⟨fun h _ h0 => h ?_, fun h h0 => h hd (h0 ▸ harg)⟩⟩
      rw [harg, Option.some.injEq] at h0
      exact h0
  | sub cmd =>
    obtain ⟨r, hr, rfl⟩ := Option.map_eq_some_iff.mp h
    rcases cmdSub_cases notice s cmd with ⟨hno, code, c, hc⟩ | ⟨-, -, hc⟩ |
      ⟨n, c, s₁, hd, harg, hn, -, hc, hv⟩
    · rw [hc, Option.some.injEq] at hr
      subst hr
      exact ⟨hs, fun _ hd n harg hpos => absurd (hno hd n harg) hpos.ne', fun _ => hok⟩
    · rw [hc] at hr
      cases hr
    · rw [hc, Option.some.injEq] at hr
      subst hr
      have := change_ok hs hok hd hn
      rw [← hv] at this
      refine ⟨this.1, this.2.trans ⟨fun h _ n' harg' hpos => ?_, fun h => h hd n harg⟩⟩
      rw [harg, Option.some.injEq] at harg'
      exact harg' ▸ h (harg'.symm ▸ hpos)
  | switchTag cmd =>
    obtain ⟨r, hr, rfl⟩ := Option.map_eq_some_iff.mp h
    rcases cmdSwitchTag_cases hr with ⟨heq, hno⟩ | ⟨tid, harg, hv⟩
    · rw [heq]
      exact ⟨hs, fun _ tid harg => absurd (hno.symm.trans harg) (Option.some_ne_none tid).symm,
        fun _ => hok⟩
    · obtain ⟨hd, htid⟩ := switchArg_some harg
      have := switch_ok hs hok hd htid hv
      refine ⟨this.1, this.2.trans ⟨fun h tid' harg' => ?_, fun h => h tid harg⟩⟩
      rw [harg, Option.some.injEq] at harg'
      exact harg' ▸ h

/-! ### The start -/

/-- No tag replicates anything. -/
structure Calm (v : View) : Prop where
  tagOf : ∀ d ∈ v.devs, v.tagOf d ∈ v.tags
  calm : ∀ t ∈ v.tags, v.mode t = interpNo ∧ v.rep t = none

theorem Calm.request (h : Calm v) (n : ℤ) : Calm (request v n) := by
  refine ⟨fun e he => ?_, fun x hx => ?_⟩
  · rw [request_tagOf]
    exact request_tags_subset v n (h.tagOf e ((request_devs v n) ▸ he))
  · by_cases hv : x ∈ v.tags
    · rw [(request_other n hv).1, (request_other n hv).2]
      exact h.calm x hv
    · exact request_new n hx hv

theorem Calm.subscribe (h : Calm v) (hd : d ∈ v.devs) (n : ℤ) : Calm (subscribe v d n) := by
  have hno : v.mode (v.tagOf d) ≠ interpRe := by
    rw [(h.calm _ (h.tagOf d hd)).1]
    decide
  have hrep : (Subscribe.subscribe v d n).rep = v.rep := by
    unfold Subscribe.subscribe dup link
    split
    · rfl
    · rw [unlink_eq, if_neg (show ¬ (_ = _) from hno)]
  rw [subscribe_eq, hrep]
  exact ⟨h.tagOf, h.calm⟩

theorem Calm.enroll (h : Calm v) (d type tid : ℤ) : Calm (enroll v d type tid) := by
  unfold Subscribe.enroll
  refine ⟨fun e he => ?_, fun x hx => ?_⟩
  · rw [request_devs] at he
    rw [request_tagOf]
    show Function.update v.tagOf d tid e ∈ _
    by_cases hed : e = d
    · rw [hed, Function.update_self]
      exact mem_request _ tid
    · rw [Function.update_of_ne hed]
      refine request_tags_subset _ tid (h.tagOf e ?_)
      exact (List.mem_append.mp he).resolve_right fun hmem => hed (List.mem_singleton.mp hmem)
  · by_cases hv : x ∈ v.tags
    · have hother := @request_other { v with
        devs := v.devs ++ [d]
        type := Function.update v.type d type
        tagOf := Function.update v.tagOf d tid
        subscription := Function.update v.subscription d none
        opn := Function.update v.opn d 0 } x tid hv
      rw [hother.1, hother.2]
      exact h.calm x hv
    · exact request_new tid hx hv

theorem Calm.register (h : Calm v) (d type tid : ℤ) : Calm (register v d type tid) := by
  unfold Subscribe.register
  by_cases hd : d ∈ v.devs
  · rw [if_pos hd]
    exact h
  rw [if_neg hd]
  have henroll := h.enroll d type tid
  simp only
  split
  · refine (henroll.request 1).subscribe ?_ 1
    rw [request_devs, enroll_devs]
    exact List.mem_append_right _ List.mem_cons_self
  · exact henroll

theorem Calm.restoreOne (h : Calm v) (hd : d ∈ v.devs) (tid : ℤ) : Calm (restoreOne v d tid) := by
  unfold Subscribe.restoreOne
  split
  · exact h
  · exact (h.request tid).subscribe ((request_devs v tid).symm ▸ hd) tid

theorem restoreOne_tags_subset (v : View) (d tid : ℤ) {x : ℤ} (hx : x ∈ v.tags) :
    x ∈ (restoreOne v d tid).tags := by
  unfold restoreOne
  split
  · exact hx
  · rw [subscribe_eq]
    exact request_tags_subset _ tid hx

theorem recoverDev_calm {s s' : Server} (h : Calm (view s)) (h1 : 1 ∈ s.tags)
    (hs : recoverDev s d = some s') : Calm (view s') ∧ 1 ∈ s'.tags := by
  rcases recoverDev_view hs with hv | ⟨-, type, tid, opn, hv⟩
  · have htags : s'.tags = s.tags := congrArg View.tags hv
    exact ⟨hv ▸ h, htags ▸ h1⟩
  · have hreg := h.register d type tid
    have hd : d ∈ (register (view s) d type tid).devs := mem_register ..
    have hcalm : Calm (recovered (register (view s) d type tid) d) :=
      (hreg.restoreOne hd _).restoreOne (by rw [restoreOne_devs]; exact hd) _
    refine ⟨hv ▸ ⟨hcalm.tagOf, hcalm.calm⟩, ?_⟩
    have htags : s'.tags = (recovered (register (view s) d type tid) d).tags :=
      congrArg View.tags hv
    rw [htags]
    exact restoreOne_tags_subset _ _ _
      (restoreOne_tags_subset _ _ _ (register_tags_subset _ _ _ _ (.inl h1)))

theorem foldlM_recoverDev_calm {l : List ℤ} {s s' : Server} (h : Calm (view s)) (h1 : 1 ∈ s.tags)
    (hs : l.foldlM recoverDev s = some s') : Calm (view s') ∧ 1 ∈ s'.tags :=
  of_run (I := fun s : Server => Calm (view s) ∧ 1 ∈ s.tags)
    (fun _ _ _ h _ hs => recoverDev_calm h.1 h.2 hs) ⟨h, h1⟩ (guarded_true ..) hs

/-- **The recovered server** replicates nothing. -/
theorem recoverServer_calm {db : Db} {s : Server} (hs : recoverServer db = some s) :
    Shape (view s) ∧ RepOk s := by
  obtain ⟨s₁, s₂, hv, hl, hs⟩ := recoverServer_view hs
  have hboot : Calm (managerRow (view (boot db))) :=
    ⟨fun d hd => absurd hd List.not_mem_nil, fun t ht => absurd ht List.not_mem_nil⟩
  have hcalm := hv.symm ▸ hboot.register 0 devtypeNone 1
  have h1 : 1 ∈ s₁.tags := by
    rw [← view_tags, hv]
    exact register_tags_subset _ _ _ _ (.inr ⟨List.not_mem_nil, rfl⟩)
  obtain ⟨hcalm, h1⟩ := foldlM_recoverDev_calm hcalm h1 hl
  rw [hs, RepOk, ← view_tags, hs]
  exact ⟨⟨h1, hcalm.tagOf, fun t ht => .inl (hcalm.calm t ht).1⟩,
    fun t ht => tagOk_none (hcalm.calm t ht).2⟩

/-- **Replication,** along every run from the recovered server: if every step is safe, the tags keep
their promises; and in a run that reaches its end they do so only then. -/
theorem rep_exact {db : Db} {s : Server} (hs : recoverServer db = some s) {es : List Event}
    (hes : ∀ e ∈ es, InMix e) :
    (Guarded (step notice) Safe s es → Along (step notice) RepOk s es) ∧
    (run (step notice) s es ≠ none → Along (step notice) RepOk s es →
      Guarded (step notice) Safe s es) := by
  obtain ⟨hshape, hok⟩ := recoverServer_calm hs
  have hstep : ∀ s e s', Shape (view s) ∧ RepOk s → InMix e → Safe s e →
      step notice s e = some s' → Shape (view s') ∧ RepOk s' := fun s e s' hI hE hg h =>
    ⟨(step_ok notice hI.1 hI.2 hE h).1, (step_ok notice hI.1 hI.2 hE h).2.mpr hg⟩
  refine ⟨along_of_guarded (fun _ h => h.2) hstep ⟨hshape, hok⟩ hes, fun hrun => ?_⟩
  obtain ⟨t, ht⟩ := Option.ne_none_iff_exists'.mp hrun
  refine guarded_of_along hstep (fun s e s' hI hE hg h hok' => hg ?_) ⟨hshape, hok⟩ hes ht
  exact (step_ok notice hI.1 hI.2 hE h).2.mp hok'

theorem booth_nodup : ([101, 102] : List ℤ).Nodup := by decide

/-- A database with the interpreter 101 and the client 102 in the tag 2. -/
def booth : Db where
  group := { discussMode := 0, discussMaxuser := 0, discussId := 0 }
  table := [101, 102]
  nodup := booth_nodup
  row := fun d =>
    { type := if d = 101 then 3 else 1, tagid := 2, userName := "?".toList, enabled := 1,
      online := 0, sub1 := 0, sub2 := 0, discussChair := 0, discussOpen := 0, ptcId := -1,
      ptcCmd := [] }
  discuss := []
  optMixer := .soft

def command (d : ℤ) (args : List String) : Cmd :=
  { deviceId := d, args := args.map String.toList, rep := [] }

/-- A device with its type, its tag and its subscription. -/
structure Member where
  id : ℤ
  type : ℤ
  tag : ℤ
  subscription : Option ℤ
  deriving DecidableEq

def members (s : Server) : List Member :=
  s.devs.map fun d => ⟨d, (s.dev d).type, (s.dev d).tag, (s.dev d).subscription⟩

/-- The members once the interpreter lets its tag follow its subscription. -/
def boothMembers : List Member := [⟨0, 0, 1, none⟩, ⟨101, 3, 2, some 1⟩, ⟨102, 1, 2, some 1⟩]

/-- The interpreter lets its tag follow its subscription. -/
theorem booth_follows : ∃ s s₁ c, recoverServer booth = some s ∧
    cmdInterp s (command 101 ["set_mode", "2"]) = some (0, c, s₁) ∧ (s₁.tag 2).interpMode = 2 ∧
    members s₁ = boothMembers := by
  obtain ⟨s, hs⟩ := Option.isSome_iff_exists.mp
    (show (recoverServer booth).isSome = true by decide)
  have h : ((recoverServer booth).bind fun s => (cmdInterp s (command 101 ["set_mode", "2"])).map
      fun r => (r.1, (r.2.2.tag 2).interpMode, members r.2.2)) = some (0, 2, boothMembers) := by
    decide
  rw [hs, Option.bind_some] at h
  obtain ⟨⟨code, c, s₁⟩, hc, h⟩ := Option.map_eq_some_iff.mp h
  simp only [Prod.mk.injEq] at h
  obtain ⟨rfl, h⟩ := h
  exact ⟨s, s₁, c, hs, hc, h⟩

/-- The interpreter's command, then a subscription of the client. -/
def redirect : List Event := [.interp (command 101 ["set_mode", "2"]), .sub (command 102 ["5"])]

theorem redirect_inMix : ∀ e ∈ redirect, InMix e := by
  intro e he
  rcases List.mem_cons.mp he with rfl | he
  · intro m hm
    exact .inr (.inr (Option.some.inj hm).symm)
  · rcases List.mem_singleton.mp he with rfl
    trivial

/-- The client's subscription is not safe: it is not what the only interpreter hears. -/
theorem booth_not_safe {s : Server} (hmode : (s.tag 2).interpMode = 2)
    (hmembers : members s = boothMembers) : ¬ Safe s (.sub (command 102 ["5"])) := by
  have hdevs : s.devs = [0, 101, 102] := by
    have hids := congrArg (List.map Member.id) hmembers
    simpa [members, boothMembers, Function.comp_def] using hids
  rw [members, hdevs] at hmembers
  simp only [List.map_cons, List.map_nil, boothMembers, List.cons.injEq, Member.mk.injEq, true_and,
    and_true] at hmembers
  obtain ⟨⟨htype0, -, -⟩, ⟨htype1, htag1, hsub1⟩, htype2, htag2, hsub2⟩ := hmembers
  intro hsafe
  have htag : (view s).tagOf 102 = 2 := htag2
  have hre : (view s).mode ((view s).tagOf 102) = interpRe := htag.symm ▸ hmode
  have hnew : (view s).subscription 102 ≠ some 5 := by
    rw [view_subscription, hsub2]
    decide
  obtain ⟨-, hfollow⟩ := hsafe (by simp [hdevs, command]) 5 rfl (by decide) hre (.inl hnew)
  have hint : Interpreter (view s) ((view s).tagOf 102) 101 :=
    ⟨by simp [hdevs], htype1, htag1.trans htag.symm⟩
  have honly : ∀ e, Interpreter (view s) ((view s).tagOf 102) e → e = 101 := by
    rintro e ⟨he, htype, -⟩
    rw [view_devs, hdevs] at he
    rw [view_type] at htype
    rcases List.mem_cons.mp he with rfl | he
    · exact absurd (htype0.symm.trans htype) (by decide)
    · rcases List.mem_cons.mp he with rfl | he
      · rfl
      · rw [List.mem_singleton.mp he] at htype
        exact absurd (htype2.symm.trans htype) (by decide)
  rcases hfollow 101 hint honly with h | h
  · exact absurd h (by decide)
  · rw [view_subscription, hsub1] at h
    exact absurd h (by decide)

/-- A client of the tag subscribes, and the tag replicates what its interpreter does not hear. -/
theorem client_redirects_replication : ¬ ∃ notice : Server → ℤ → ℤ → Bool → Str,
    ∀ db s es, recoverServer db = some s → (∀ e ∈ es, InMix e) →
      Along (step notice) RepOk s es := by
  rintro ⟨notice, h⟩
  obtain ⟨s, s₁, c, hs, hc, hmode, hmembers⟩ := booth_follows
  have hrun := h booth s redirect hs redirect_inMix
  have hstep : step notice s (.interp (command 101 ["set_mode", "2"])) = some s₁ := by
    rw [step, hc]
    rfl
  have hok := (hrun.2 s₁ hstep).head
  obtain ⟨hshape, hok₀⟩ := recoverServer_calm hs
  have hshape₁ := (step_ok notice hshape hok₀ (redirect_inMix _ List.mem_cons_self) hstep).1
  have hbad := booth_not_safe hmode hmembers
  -- the subscription has a result
  rcases cmdSub_cases notice s₁ (command 102 ["5"]) with ⟨hno, -⟩ | ⟨-, hmin, -⟩ |
    ⟨n, c', s₂, -, -, -, -, hc', -⟩
  · refine hbad fun hd n harg hpos => ?_
    exact absurd (hno hd n harg) hpos.ne'
  · exact absurd hmin (by decide)
  · have hstep₂ : step notice s₁ (.sub (command 102 ["5"])) = some s₂ := by
      rw [step, hc']
      rfl
    have hok₂ := (hrun.2 s₁ hstep).2 s₂ hstep₂
    exact hbad ((step_ok notice hshape₁ hok (redirect_inMix _ (by simp [redirect])) hstep₂).2.mp hok₂)

theorem rep_exact_booth : ∃ s, recoverServer booth = some s ∧
    ∀ notice : Server → ℤ → ℤ → Bool → Str,
      (Guarded (step notice) Safe s redirect → Along (step notice) RepOk s redirect) ∧
      (run (step notice) s redirect ≠ none → Along (step notice) RepOk s redirect →
        Guarded (step notice) Safe s redirect) := by
  obtain ⟨s, -, -, hs, -⟩ := booth_follows
  exact ⟨s, hs, fun notice => rep_exact notice hs redirect_inMix⟩

end GSConferencing.Serv.InterpRuns
