import GSConferencing.Serv.OpenRuns
import GSConferencing.Serv.SubView

/-!
# Admission to the floor

`Opens s t l`: the open list of the tag `t` is a ring of the distinct open devices `l`, and the
counter is its length.  A request to open a closed device walks that list.

* `scan_spec`: the walk stops at the first chair that brings the users that occupy a site below the
  maximum, or at the first dead speaker; else it ends with the earliest speaker.
* `admission_spec`: what becomes of the request, in terms of the speakers of the list.
* `addOpen_opens`, `delOpen_opens`: the list after a device is opened, or closed.
* `request_admitted`: a request of a closed device, from any such state.
-/

namespace GSConferencing.Serv.Admission

open GSConferencing.Lib.CyclicList GSConferencing.Include.ListHead
open GSConferencing.Serv.Strutil GSConferencing.Serv.CmdHandler GSConferencing.Serv.Dev
open GSConferencing.Serv.Tag GSConferencing.Serv.Devctl GSConferencing.Serv.Interp
open GSConferencing.Serv.Ptc GSConferencing.Serv.Discuss GSConferencing.Serv.OpenView
open GSConferencing.Serv.Server GSConferencing.Lib.Run
open GSConferencing.Serv.Mics (PtcInv ptcPush_inv ptcRemove_inv)

/-- The open list of the tag `t` is `l`. -/
structure Opens (s : Server) (t : ℤ) (l : List ℤ) : Prop where
  ring : Ring s.openL t l
  devs : ∀ k ∈ l, k ∈ s.devs
  opn : ∀ k ∈ l, (s.dev k).discussOpen ≠ 0
  openuser : (s.tag t).openuser = l.length

/-- In a server that keeps the invariant every tag has such a list. -/
theorem opens_of_inv {s : Server} {ls : ℤ → List ℤ} (h : Mics.OpenInv (view s) ls) {t : ℤ}
    (ht : t ∈ s.tags) : Opens s t (ls t) where
  ring := h.rings.ring t ht
  devs k hk := ((h.mem t ht k).mp hk).1
  opn k hk := ((h.mem t ht k).mp hk).2.2
  openuser := h.openuser t ht

/-- The open devices that are not chairs. -/
def speakers (s : Server) (l : List ℤ) : List ℤ :=
  l.filter fun k => (s.dev k).type ≠ devtypeChair

/-- The first of them that is inactive. -/
def firstDead (s : Server) (l : List ℤ) : Option ℤ :=
  (speakers s l).find? fun k => (s.dev k).active = false

/-- The conditions under which the request of `d` is turned down. -/
def Rejects (s : Server) (t d : ℤ) (l : List ℤ) : Prop :=
  ¬((s.dev d).type = devtypeChair ∧ (s.tag t).openuser < maxMix) ∧
    (s.tag t).maxuser ≤ (speakers s l).length ∧
    (∀ k ∈ speakers s l, (s.dev k).active = true) ∧
    ((s.tag t).mode ≠ discmodeFifo ∨ speakers s l = [])

/-- The device `k` may have to go: it is the first dead speaker, or nobody is dead and it has been
open for the longest. -/
def Kicked (s : Server) (t : ℤ) (l : List ℤ) (k : ℤ) : Prop :=
  firstDead s l = some k ∨
    firstDead s l = none ∧ (s.tag t).mode = discmodeFifo ∧ (speakers s l).head? = some k

/-! ## The search -/

section Search
variable {s : Server} {t : ℤ} {l : List ℤ}

theorem speakers_cons_chair {k : ℤ} (h : (s.dev k).type = devtypeChair) (l : List ℤ) :
    speakers s (k :: l) = speakers s l :=
  List.filter_cons_of_neg (by simpa using h)

theorem speakers_cons {k : ℤ} (h : (s.dev k).type ≠ devtypeChair) (l : List ℤ) :
    speakers s (k :: l) = k :: speakers s l :=
  List.filter_cons_of_pos (by simpa using h)

theorem mem_of_mem_speakers {k : ℤ} (h : k ∈ speakers s l) : k ∈ l := List.mem_of_mem_filter h

theorem speakers_length_le (s : Server) (l : List ℤ) : (speakers s l).length ≤ l.length :=
  List.length_filter_le _ l

theorem firstDead_eq_none :
    firstDead s l = none ↔ ∀ k ∈ speakers s l, (s.dev k).active = true := by
  simp [firstDead, List.find?_eq_none]

theorem Kicked.mem_speakers {k : ℤ} (h : Kicked s t l k) : k ∈ speakers s l := by
  rcases h with h | ⟨-, -, h⟩
  · exact List.mem_of_find?_eq_some h
  · exact List.mem_of_mem_head? h

theorem Kicked.mem {k : ℤ} (h : Kicked s t l k) : k ∈ l := mem_of_mem_speakers h.mem_speakers

/-- **The search,** from the candidate `c` and `n` users: every chair is passed at a discount. -/
theorem scan_spec (s : Server) (t : ℤ) (l : List ℤ) (c : Option ℤ) (n : ℤ)
    (hn : (s.tag t).maxuser ≤ n) :
    (foldExit (scanStep s t) (c, n) l = .inr .openit ∧
      n - l.length + (speakers s l).length < (s.tag t).maxuser) ∨
    (∃ k, foldExit (scanStep s t) (c, n) l = .inr (.dead k) ∧ firstDead s l = some k) ∨
    (∃ m, foldExit (scanStep s t) (c, n) l = .inl (c.orElse fun _ => (speakers s l).head?, m) ∧
      firstDead s l = none ∧ (s.tag t).maxuser ≤ n - l.length + (speakers s l).length) := by
  induction l generalizing c n with
  | nil =>
    refine .inr (.inr ⟨n, ?_, rfl, by simpa [speakers] using hn⟩)
    cases c <;> rfl
  | cons k l ih =>
    have hlen := speakers_length_le s l
    simp only [foldExit, scanStep]
    by_cases hchair : (s.dev k).type = devtypeChair
    · rw [if_pos hchair, firstDead, speakers_cons_chair hchair, ← firstDead]
      have hnum : n - ((k :: l).length : ℤ) + (speakers s l).length =
          n - 1 - l.length + (speakers s l).length := by
        rw [List.length_cons]
        push_cast
        ring
      rw [hnum]
      by_cases hopen : n - 1 < (s.tag t).maxuser
      · rw [if_pos hopen]
        exact .inl ⟨rfl, by omega⟩
      · rw [if_neg hopen]
        exact ih c (n - 1) (not_lt.mp hopen)
    · rw [if_neg hchair, firstDead, speakers_cons hchair]
      by_cases hdead : (s.dev k).active = false
      · rw [if_pos hdead]
        exact .inr (.inl ⟨k, rfl, List.find?_cons_of_pos (by simpa using hdead)⟩)
      · rw [if_neg hdead, List.find?_cons_of_neg (by simpa using hdead), ← firstDead]
        have hnum : n - ((k :: l).length : ℤ) + ((k :: speakers s l).length : ℤ) =
            n - l.length + (speakers s l).length := by
          rw [List.length_cons, List.length_cons]
          push_cast
          ring
        rw [hnum]
        have := ih (c.orElse fun _ => some k) n hn
        cases c <;> exact this

/-- **Admission:** the request is rejected exactly when it meets `Rejects`, a device that is kicked
is one that may have to go, and where nobody goes the speakers are below the maximum, or the device
is a chair. -/
theorem admission_spec (h : Opens s t l) (d : ℤ) :
    (Rejects s t d l ∧ admission s t d = some .reject) ∨
    (¬ Rejects s t d l ∧
      ((∃ k, admission s t d = some (.kick k) ∧ Kicked s t l k) ∨
        (admission s t d = some .openit ∧ ((s.dev d).type = devtypeChair ∨
          ((speakers s l).length : ℤ) < (s.tag t).maxuser)))) := by
  have hle := speakers_length_le s l
  unfold admission
  by_cases hchair : (s.dev d).type = devtypeChair ∧ (s.tag t).openuser < maxMix
  · rw [if_pos hchair]
    exact .inr ⟨fun hr => hr.1 hchair, .inr ⟨rfl, .inl hchair.1⟩⟩
  rw [if_neg hchair]
  by_cases hfree : (s.tag t).openuser < (s.tag t).maxuser
  · rw [if_pos hfree]
    rw [h.openuser] at hfree
    exact .inr ⟨fun hr => by have := hr.2.1; omega, .inr ⟨rfl, .inr (by omega)⟩⟩
  rw [if_neg hfree]
  have hrounds : l.length ≤ scanRounds s t := by
    have h1 : l.length ≤ s.devs.length := (h.ring.nodup.subperm h.devs).length_le
    have h2 : s.devs.length + 1 ≤ scanRounds s t := Nat.le_mul_of_pos_right _ (by omega)
    omega
  rw [h.ring.forEach_eq (scanStep s t) _ hrounds (none, (s.tag t).openuser)]
  rcases scan_spec s t l none (s.tag t).openuser (not_lt.mp hfree) with
    ⟨hscan, hnum⟩ | ⟨k, hscan, hdead⟩ | ⟨m, hscan, hdead, hnum⟩
  · -- a chair made room
    rw [h.openuser] at hnum
    rw [hscan]
    exact .inr ⟨fun hr => by have := hr.2.1; omega, .inr ⟨rfl, .inr (by omega)⟩⟩
  · rw [hscan]
    refine .inr ⟨fun hr => ?_, .inl ⟨k, rfl, .inl hdead⟩⟩
    rw [firstDead_eq_none.mpr hr.2.2.1] at hdead
    cases hdead
  · rw [h.openuser] at hnum
    rw [hscan]
    have hmax : (s.tag t).maxuser ≤ (speakers s l).length := by omega
    have hactive := firstDead_eq_none.mp hdead
    cases hhead : (speakers s l).head? with
    | none => exact .inl ⟨⟨hchair, hmax, hactive, .inr (List.head?_eq_none_iff.mp hhead)⟩, rfl⟩
    | some k =>
      by_cases hfifo : (s.tag t).mode = discmodeFifo
      · refine .inr ⟨fun hr => ?_, .inl ⟨k, ?_, .inr ⟨hdead, hfifo, hhead⟩⟩⟩
        · rcases hr.2.2.2 with hmode | hnil
          · exact hmode hfifo
          · rw [hnil] at hhead
            cases hhead
        · simp [hfifo]
      · exact .inl ⟨⟨hchair, hmax, hactive, .inl hfifo⟩, by simp [hfifo]⟩

end Search

/-! ## The camera -/

section Camera
variable {s s' : Server} {d : ℤ}

theorem ptcPut_view (h : ptcPut s d = some s') : ∃ P, view s' = { view s with ptcL := P } := by
  obtain ⟨P, -, rfl⟩ := Option.map_eq_some_iff.mp h
  exact ⟨P, by rw [view_setCurr, view_setLinks]⟩

theorem ptcPush_view (h : ptcPush s d = some s') : ∃ P, view s' = { view s with ptcL := P } := by
  obtain ⟨s₁, hs₁, rfl⟩ := Option.map_eq_some_iff.mp h
  rw [view_ptcSend]
  exact ptcPut_view hs₁

theorem ptcRemove_view (h : ptcRemove s d = some s') :
    ∃ P, view s' = { view s with ptcL := P } := by
  unfold ptcRemove at h
  split at h
  · obtain ⟨P, -, h⟩ := Option.bind_eq_some_iff.mp h
    refine ⟨P, ?_⟩
    simp only [] at h
    split at h
    · rw [Option.some.injEq] at h
      rw [← h, view_setCurr, view_ptcDefault, view_setLinks]
    · split at h
      · obtain ⟨d', -, h⟩ := Option.map_eq_some_iff.mp h
        rw [← h, view_ptcSend, view_setCurr, view_setLinks]
      · rw [Option.some.injEq] at h
        rw [← h, view_setLinks]
  · rw [Option.some.injEq] at h
    exact ⟨s.ptc.links, by rw [h]; rfl⟩

end Camera

/-! ## The list -/

section List
variable {s s' : Server} {t d k : ℤ} {l : List ℤ}

/-- What a state is seen to have of the open lists decides `Opens`. -/
theorem Opens.of_view (h : Opens s t l) {P : Links Unit ℤ}
    (hv : view s' = { view s with ptcL := P }) : Opens s' t l where
  ring := by
    rw [show s'.openL = s.openL from congrArg View.openL hv]
    exact h.ring
  devs k hk := by
    rw [show s'.devs = s.devs from congrArg View.devs hv]
    exact h.devs k hk
  opn k hk := by
    rw [show (s'.dev k).discussOpen = (s.dev k).discussOpen from
      congrFun (congrArg View.opn hv) k]
    exact h.opn k hk
  openuser := by
    rw [show (s'.tag t).openuser = (s.tag t).openuser from
      congrFun (congrArg View.openuser hv) t]
    exact h.openuser

/-- One list as a family of lists. -/
theorem Opens.rings (h : Opens s t l) : Rings s.openL (· = t) fun _ => l where
  ring t' ht' := by
    rw [ht']
    exact h.ring
  disj _ _ _ ht' ht'' _ _ := ht'.trans ht''.symm

/-- **`add_open`** puts a closed device at the end of the list. -/
theorem addOpen_opens (h : Opens s t l) (hd : d ∈ s.devs) (ho : (s.dev d).discussOpen = 0) :
    ∃ s', addOpen s t d = some s' ∧ Opens s' t (l ++ [d]) ∧ s'.ptc.links = s.ptc.links := by
  have hdl : d ∉ l := fun hm => h.opn d hm ho
  obtain ⟨L, hL, hr, -⟩ := listAddTail_rings h.rings (h := t) rfl fun _ _ => hdl
  rcases addOpen_view s t d with ⟨hnone, -⟩ | ⟨L', s', hL', hs', hseat⟩
  · rw [hL] at hnone
    cases hnone
  rw [hL] at hL'
  cases hL'
  obtain ⟨sl, mb, hv⟩ := Mics.seated_eq hseat
  refine ⟨s', hs', ⟨?_, fun k hk => ?_, fun k hk => ?_, ?_⟩, congrArg View.ptcL hv⟩
  · rw [show s'.openL = L from congrArg View.openL hv]
    have := hr.ring t rfl
    rwa [Function.update_self] at this
  · rw [show s'.devs = s.devs from congrArg View.devs hv]
    rcases List.mem_append.mp hk with hk | hk
    · exact h.devs k hk
    · exact List.mem_singleton.mp hk ▸ hd
  · rw [show (s'.dev k).discussOpen = Function.update (view s).opn d 1 k from
      congrFun (congrArg View.opn hv) k]
    by_cases hkd : k = d
    · rw [hkd, Function.update_self]
      exact one_ne_zero
    · rw [Function.update_of_ne hkd]
      exact h.opn k ((List.mem_append.mp hk).resolve_right fun hm =>
        hkd (List.mem_singleton.mp hm))
  · rw [show (s'.tag t).openuser = Function.update (view s).openuser t ((view s).openuser t + 1) t
      from congrFun (congrArg View.openuser hv) t, Function.update_self,
      show (view s).openuser t = l.length from h.openuser, List.length_append]
    rfl

/-- **`del_open`** takes a device out of the list. -/
theorem delOpen_opens (h : Opens s t l) (hk : k ∈ l) :
    ∃ s', delOpen s t k = some s' ∧ Opens s' t (l.erase k) ∧ s'.ptc.links = s.ptc.links := by
  obtain ⟨L, hL, hr, -, -⟩ := listDel_rings h.rings (h := t) rfl hk
  rcases delOpen_view s t k with ⟨hnone, -⟩ | ⟨L', s', hL', hs', hun⟩
  · rw [hL] at hnone
    cases hnone
  rw [hL] at hL'
  cases hL'
  obtain ⟨sl, mb, hv⟩ := Mics.unseated_eq hun
  refine ⟨s', hs', ⟨?_, fun x hx => ?_, fun x hx => ?_, ?_⟩, congrArg View.ptcL hv⟩
  · rw [show s'.openL = L from congrArg View.openL hv]
    have := hr.ring t rfl
    rwa [Function.update_self] at this
  · rw [show s'.devs = s.devs from congrArg View.devs hv]
    exact h.devs x (List.mem_of_mem_erase hx)
  · obtain ⟨hxk, hx⟩ := h.ring.nodup.mem_erase_iff.mp hx
    rw [show (s'.dev x).discussOpen = Function.update (view s).opn k 0 x from
      congrFun (congrArg View.opn hv) x, Function.update_of_ne hxk]
    exact h.opn x hx
  · rw [show (s'.tag t).openuser = Function.update (view s).openuser t ((view s).openuser t - 1) t
      from congrFun (congrArg View.openuser hv) t, Function.update_self,
      show (view s).openuser t = l.length from h.openuser, List.length_erase_of_mem hk]
    have := List.length_pos_of_mem hk
    omega

/-- A device is put through. -/
theorem openit_opens (h : Opens s t l) (hd : d ∈ s.devs) (ho : (s.dev d).discussOpen = 0)
    (hs : openit s t d = some s') : Opens s' t (l ++ [d]) := by
  obtain ⟨s₁, hs₁, h₁, -⟩ := addOpen_opens h hd ho
  rw [openit, hs₁] at hs
  obtain ⟨P, hv⟩ := ptcPush_view hs
  exact h₁.of_view hv

/-- A device has to go. -/
theorem closeit_opens (h : Opens s t l) (hk : k ∈ l) (hs : closeit s t k = some s') :
    Opens s' t (l.erase k) := by
  obtain ⟨s₁, hs₁, h₁, -⟩ := delOpen_opens h hk
  rw [closeit, hs₁] at hs
  obtain ⟨P, hv⟩ := ptcRemove_view hs
  exact h₁.of_view hv

/-- A device is put through where the camera has a list. -/
theorem openit_total (h : Opens s t l) (hd : d ∈ s.devs) (ho : (s.dev d).discussOpen = 0)
    {pl : List ℤ} (hp : PtcInv s.ptc.links pl) : ∃ s', openit s t d = some s' := by
  obtain ⟨s₁, hs₁, -, hlinks⟩ := addOpen_opens h hd ho
  obtain ⟨s', -, hs', -⟩ := ptcPush_inv (hlinks ▸ hp) d
  exact ⟨s', by rw [openit, hs₁]; exact hs'⟩

theorem closeit_total (h : Opens s t l) (hk : k ∈ l) {pl : List ℤ}
    (hp : PtcInv s.ptc.links pl) :
    ∃ s', closeit s t k = some s' ∧ PtcInv s'.ptc.links (pl.erase k) := by
  obtain ⟨s₁, hs₁, -, hlinks⟩ := delOpen_opens h hk
  obtain ⟨s', P, hs', hv, hP⟩ := ptcRemove_inv (hlinks ▸ hp) k
  refine ⟨s', by rw [closeit, hs₁]; exact hs', ?_⟩
  rw [show s'.ptc.links = P from congrArg View.ptcL hv]
  exact hP

end List

/-! ## The request -/

section Request
variable {s s' : Server} {t d k : ℤ} {l : List ℤ}

/-- What is left of the speakers and who has been put through. -/
structure Admitted (s : Server) (t d : ℤ) (l : List ℤ) (s' : Server) (l' : List ℤ) : Prop where
  opens : Opens s' t l'
  list : l' = l ++ [d] ∨ ∃ k, Kicked s t l k ∧ l' = l.erase k ++ [d]
  speakers : ((speakers s' l').length : ℤ) ≤ max (s.tag t).maxuser (speakers s l).length

theorem speakers_congr (h : ∀ k, (s'.dev k).type = (s.dev k).type) (l : List ℤ) :
    speakers s' l = speakers s l :=
  List.filter_congr fun k _ => by rw [h]

theorem length_speakers_concat (s : Server) (l : List ℤ) (d : ℤ) :
    (speakers s (l ++ [d])).length =
      (speakers s l).length + if (s.dev d).type = devtypeChair then 0 else 1 := by
  rw [speakers, List.filter_append, List.length_append]
  congr 1
  by_cases h : (s.dev d).type = devtypeChair <;> simp [h]

theorem length_speakers_erase (hk : k ∈ speakers s l) :
    (speakers s (l.erase k)).length = (speakers s l).length - 1 := by
  have hkp := List.mem_filter.mp hk
  simp only [speakers, ← List.countP_eq_length_filter]
  rw [List.countP_erase, if_pos ⟨hkp.1, hkp.2⟩]

/-- A request that opens ends the replication of an interpreter at most. -/
theorem requestPost_opens (cmd : Cmd) (t d : ℤ) {a : ℤ} (ha : a ≠ 0) :
    ∃ c s', requestPost s cmd t d a = some (0, c, s') ∧ view s' = view s ∧
      ∀ k, (s'.dev k).type = (s.dev k).type := by
  unfold requestPost
  by_cases h : (s.dev d).type = devtypeInterp ∧ 0 < (s.tag t).interpMode
  · rw [if_pos h, if_pos ha]
    exact ⟨_, _, rfl, view_interpDelRep s t, fun k => rfl⟩
  · rw [if_neg h]
    exact ⟨_, _, rfl, rfl, fun k => rfl⟩

/-- **The requester is put through.** -/
theorem admitted_openit (h : Opens s t l) (hd : d ∈ s.devs) (ho : (s.dev d).discussOpen = 0)
    (hroom : (s.dev d).type = devtypeChair ∨ ((speakers s l).length : ℤ) < (s.tag t).maxuser)
    (hs : openit s t d = some s') : Admitted s t d l s' (l ++ [d]) where
  opens := openit_opens h hd ho hs
  list := .inl rfl
  speakers := by
    have htype : ∀ k, (s'.dev k).type = (s.dev k).type := fun k =>
      congrFun (congrArg SubView.View.type (SubView.openit_view hs)) k
    rw [speakers_congr htype, length_speakers_concat]
    rcases hroom with hchair | hroom
    · rw [if_pos hchair]
      exact le_max_right _ _
    · refine le_max_of_le_left ?_
      split <;> push_cast <;> omega

/-- After a kick the requester is as it was, and the devices have their types. -/
theorem after_kick {s₁ : Server} (h : Opens s t l) (hd : d ∈ s.devs)
    (ho : (s.dev d).discussOpen = 0) (hk : k ∈ l) (hs₁ : closeit s t k = some s₁) :
    Opens (kickUser s₁ d k) t (l.erase k) ∧ d ∈ (kickUser s₁ d k).devs ∧
      ((kickUser s₁ d k).dev d).discussOpen = 0 ∧
      ∀ x, ((kickUser s₁ d k).dev x).type = (s.dev x).type := by
  have hsub : SubView.view (kickUser s₁ d k) = (SubView.view s).mic k 0 :=
    (SubView.view_deviceCmd ..).trans (SubView.closeit_view hs₁)
  have hdk : d ≠ k := fun e => h.opn k hk (e ▸ ho)
  refine ⟨(closeit_opens h hk hs₁).of_view (P := s₁.ptc.links) (view_kickUser s₁ d k), ?_, ?_,
    fun x => congrFun (congrArg SubView.View.type hsub) x⟩
  · rw [show (kickUser s₁ d k).devs = s.devs from congrArg SubView.View.devs hsub]
    exact hd
  · rw [show ((kickUser s₁ d k).dev d).discussOpen = Function.update (SubView.view s).opn k 0 d
      from congrFun (congrArg SubView.View.opn hsub) d, Function.update_of_ne hdk]
    exact ho

/-- **The requester takes the site of another one.** -/
theorem admitted_kick {s₁ : Server} (h : Opens s t l) (hd : d ∈ s.devs)
    (ho : (s.dev d).discussOpen = 0) (hk : Kicked s t l k) (hs₁ : closeit s t k = some s₁)
    (hs' : openit (kickUser s₁ d k) t d = some s') :
    Admitted s t d l s' (l.erase k ++ [d]) := by
  obtain ⟨hopens₁, hd₁, ho₁, htype₁⟩ := after_kick h hd ho hk.mem hs₁
  refine ⟨openit_opens hopens₁ hd₁ ho₁ hs', .inr ⟨k, hk, rfl⟩, le_max_of_le_right ?_⟩
  have htype : ∀ x, (s'.dev x).type = (s.dev x).type := fun x =>
    (congrFun (congrArg SubView.View.type (SubView.openit_view hs')) x).trans (htype₁ x)
  have hpos := List.length_pos_of_mem hk.mem_speakers
  rw [speakers_congr htype, length_speakers_concat, length_speakers_erase hk.mem_speakers]
  split <;> push_cast <;> omega

/-- What follows `post:` does not change it. -/
theorem Admitted.post {s₁ : Server} {l' : List ℤ} (h : Admitted s t d l s₁ l')
    (hv : view s' = view s₁) (htype : ∀ k, (s'.dev k).type = (s₁.dev k).type) :
    Admitted s t d l s' l' where
  opens := h.opens.of_view (P := s₁.ptc.links) hv
  list := h.list
  speakers := by
    rw [speakers_congr htype]
    exact h.speakers

/-- **A closed device asks for the floor.**  It is turned down exactly under `Rejects`, and then
nothing has changed; else, when the command has a result, the device is at the end of the list, one
device has left it at most, and there are no more speakers than before or than the maximum.  A
camera list that is a list gives a result. -/
theorem request_admitted {cmd : Cmd} {p : Str} {args : List Str} (h : Opens s t l)
    (hargs : cmd.args = "request".toList :: p :: args) (hp : atoi p ≠ 0)
    (hd : cmd.deviceId ∈ s.devs) (ht : (s.dev cmd.deviceId).tag = t)
    (ho : (s.dev cmd.deviceId).discussOpen = 0) :
    (Rejects s t cmd.deviceId l →
      cmdDiscctrl s cmd = some (errRejected, repAdd cmd "OK".toList, s)) ∧
    (¬ Rejects s t cmd.deviceId l → ∀ code c s', cmdDiscctrl s cmd = some (code, c, s') →
      code = 0 ∧ ∃ l', Admitted s t cmd.deviceId l s' l') ∧
    ((∃ pl, PtcInv s.ptc.links pl) → ∃ r, cmdDiscctrl s cmd = some r) := by
  rw [cmdDiscctrl_request hd hargs]
  generalize cmd.deviceId = d at hd ht ho
  have hclosed : ¬ (s.dev d).discussOpen = atoi p := fun e => hp (e ▸ ho)
  unfold discctrlRequest
  rw [nextArg_cons]
  simp only [ht]
  rw [if_neg hclosed, if_pos hp]
  rcases admission_spec h d with ⟨hrej, hadm⟩ | ⟨hrej, ⟨k, hadm, hk⟩ | ⟨hadm, hroom⟩⟩ <;>
    rw [hadm] <;> simp only [Option.bind_eq_bind, Option.bind_some]
  · exact ⟨fun _ => trivial, fun hn => absurd hrej hn, fun _ => ⟨_, rfl⟩⟩
  · refine ⟨fun hr => absurd hr hrej, fun _ code c s' hs' => ?_, fun ⟨pl, hpl⟩ => ?_⟩
    · obtain ⟨s₁, hs₁, hs'⟩ := Option.bind_eq_some_iff.mp hs'
      obtain ⟨s₂, hs₂, hs'⟩ := Option.bind_eq_some_iff.mp hs'
      obtain ⟨c', s₃, hpost, hv, htype⟩ :=
        requestPost_opens (s := s₂) (repAdd cmd "OK".toList) t d hp
      rw [hpost] at hs'
      cases hs'
      exact ⟨rfl, _, (admitted_kick h hd ho hk hs₁ hs₂).post hv htype⟩
    · obtain ⟨s₁, hs₁, hpl₁⟩ := closeit_total h hk.mem hpl
      obtain ⟨hopens₁, hd₁, ho₁, -⟩ := after_kick h hd ho hk.mem hs₁
      have hlinks : (kickUser s₁ d k).ptc.links = s₁.ptc.links :=
        congrArg View.ptcL (view_kickUser s₁ d k)
      obtain ⟨s₂, hs₂⟩ := openit_total hopens₁ hd₁ ho₁ (hlinks ▸ hpl₁)
      obtain ⟨c', s₃, hpost, -⟩ :=
        requestPost_opens (s := s₂) (repAdd cmd "OK".toList) t d hp
      exact ⟨_, by rw [hs₁, Option.bind_some, hs₂, Option.bind_some]; exact hpost⟩
  · refine ⟨fun hr => absurd hr hrej, fun _ code c s' hs' => ?_, fun ⟨pl, hpl⟩ => ?_⟩
    · obtain ⟨s₁, hs₁, hs'⟩ := Option.bind_eq_some_iff.mp hs'
      obtain ⟨c', s₂, hpost, hv, htype⟩ :=
        requestPost_opens (s := s₁) (repAdd cmd "OK".toList) t d hp
      rw [hpost] at hs'
      cases hs'
      exact ⟨rfl, _, (admitted_openit h hd ho hroom hs₁).post hv htype⟩
    · obtain ⟨s₁, hs₁⟩ := openit_total h hd ho hpl
      obtain ⟨c', s₂, hpost, -⟩ :=
        requestPost_opens (s := s₁) (repAdd cmd "OK".toList) t d hp
      exact ⟨_, by rw [hs₁, Option.bind_some]; exact hpost⟩

end Request

/-! ## Two clients and one site -/

/-- Two clients of a discussion with one site, which goes to whoever asked last. -/
def oneSite : Db :=
  { OpenRuns.twoClients with
    group := { discussMode := discmodeFifo, discussMaxuser := 1, discussId := 0 } }

/-- The client 101 has the site. -/
def seated : Server :=
  (((recoverServer oneSite).bind fun s => run step s [OpenRuns.request 101 "1"])).get
    (by decide +kernel)

instance (L : Links ℤ ℤ) (x y : Node ℤ ℤ) : Decidable (L.Adj x y) :=
  inferInstanceAs (Decidable (_ ∧ _))

theorem opens_seated : Opens seated 1 [101] where
  ring := ⟨by decide, by decide +kernel⟩
  devs := by decide +kernel
  opn := by decide +kernel
  openuser := by decide +kernel

theorem request_admitted_seated :
    (Rejects seated 1 102 [101] → cmdDiscctrl seated (OpenRuns.command 102 ["request", "1"]) =
      some (errRejected, repAdd (OpenRuns.command 102 ["request", "1"]) "OK".toList, seated)) ∧
    (¬ Rejects seated 1 102 [101] → ∀ code c s',
      cmdDiscctrl seated (OpenRuns.command 102 ["request", "1"]) = some (code, c, s') →
      code = 0 ∧ ∃ l', Admitted seated 1 102 [101] s' l') ∧
    ((∃ pl, PtcInv seated.ptc.links pl) →
      ∃ r, cmdDiscctrl seated (OpenRuns.command 102 ["request", "1"]) = some r) :=
  have hargs : (OpenRuns.command 102 ["request", "1"]).args = ["request".toList, "1".toList] := rfl
  have hdev : 102 ∈ seated.devs ∧ (seated.dev 102).tag = 1 ∧ (seated.dev 102).discussOpen = 0 := by
    decide +kernel
  request_admitted opens_seated hargs (by decide) hdev.1 hdev.2.1 hdev.2.2

end GSConferencing.Serv.Admission
