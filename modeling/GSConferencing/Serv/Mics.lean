import GSConferencing.Serv.OpenView

/-!
# The invariant of the open microphones

`OpenInv v ls`: the open list of every tag is a ring that holds exactly the open devices of the
tag, and the counter is its length.  `SlotInv v`: a mix slot belongs to an open device of its tag,
and the device's bit names the slot.  `PtcInv L pl`: the list of the camera is a ring, and what is
not in it does not look linked.

* `addOpen_inv`, `delOpen_inv`, `openit_inv`, `closeit_inv`: a closed microphone is opened, an open
  one is closed.
* `admission_total`: the search for a device to kick ends, at a device of the list.
* `devRegister_inv`, `recoverServer_inv`: the invariant holds from the start.
-/

namespace GSConferencing.Serv.Mics

open GSConferencing.Lib.CyclicList GSConferencing.Lib.Run GSConferencing.Include.ListHead
open GSConferencing.Serv.Strutil GSConferencing.Serv.CmdHandler GSConferencing.Serv.Dev
open GSConferencing.Serv.Tag GSConferencing.Serv.Interp GSConferencing.Serv.Devctl
open GSConferencing.Serv.Ptc GSConferencing.Serv.Discuss GSConferencing.Serv.Server
open GSConferencing.Serv.OpenView GSConferencing.Serv.Frame

/-- The open lists `ls` of the tags. -/
structure OpenInv (v : View) (ls : ℤ → List ℤ) : Prop where
  nodup : v.devs.Nodup
  tagOf : ∀ d ∈ v.devs, v.tagOf d ∈ v.tags
  flag : ∀ d ∈ v.devs, v.opn d = 0 ∨ v.opn d = 1
  rings : Rings v.openL (· ∈ v.tags) ls
  openuser : ∀ t ∈ v.tags, v.openuser t = (ls t).length
  mem : ∀ t ∈ v.tags, ∀ d, d ∈ ls t ↔ d ∈ v.devs ∧ v.tagOf d = t ∧ v.opn d ≠ 0
  interp : ∀ t ∈ v.tags, v.interpMode t = interpNo

/-- Slots and bits agree. -/
structure SlotInv (v : View) : Prop where
  slot : ∀ t ∈ v.tags, ∀ i d, v.slot t i = some d →
    d ∈ v.devs ∧ v.tagOf d = t ∧ v.opn d ≠ 0 ∧ v.mixbit d = 2 ^ i.val
  bit : ∀ d ∈ v.devs, v.mixbit d ≠ 0 → ∃ i, v.slot (v.tagOf d) i = some d

/-- The list `pl` of the camera. -/
structure PtcInv (L : Links Unit ℤ) (pl : List ℤ) : Prop where
  rings : Rings L (fun _ => True) fun _ => pl
  free : ∀ d, d ∉ pl → L.prev (.entry d) = none ∨ L.next (.entry d) = none

/-- The invariant. -/
structure Inv (v : View) (ls : ℤ → List ℤ) (pl : List ℤ) : Prop where
  opens : OpenInv v ls
  slots : SlotInv v
  ptc : PtcInv v.ptcL pl

/-! ## Open lists -/

section Lists
variable {v : View} {ls : ℤ → List ℤ}

theorem OpenInv.notMem_of_closed (h : OpenInv v ls) {d : ℤ} (ho : v.opn d = 0) :
    ∀ t, t ∈ v.tags → d ∉ ls t :=
  fun t ht hm => ((h.mem t ht d).mp hm).2.2 ho

theorem OpenInv.length_le (h : OpenInv v ls) {t : ℤ} (ht : t ∈ v.tags) :
    (ls t).length ≤ v.devs.length :=
  ((h.rings.ring t ht).nodup.subperm fun d hd => ((h.mem t ht d).mp hd).1).length_le

/-- Slots and bits do not matter to the lists. -/
theorem OpenInv.slots_bits (h : OpenInv v ls) (sl : ℤ → Fin 8 → Option ℤ) (mb : ℤ → ℕ) :
    OpenInv { v with slot := sl, mixbit := mb } ls :=
  ⟨h.nodup, h.tagOf, h.flag, h.rings, h.openuser, h.mem, h.interp⟩

theorem seated_eq {v v' : View} {t d : ℤ} (h : v.Seated v' t d) :
    ∃ sl mb, v' = { v with slot := sl, mixbit := mb } := by
  rcases h with ⟨-, rfl⟩ | ⟨i, -, -, rfl⟩
  · exact ⟨v'.slot, v'.mixbit, rfl⟩
  · exact ⟨_, _, rfl⟩

theorem unseated_eq {v v' : View} {t d : ℤ} (h : v.Unseated v' t d) :
    ∃ sl mb, v' = { v with slot := sl, mixbit := mb } := by
  obtain ⟨o, -, -, rfl⟩ := h
  exact ⟨_, _, rfl⟩

/-- A change of the slots leaves the tags as they are. -/
theorem seated_tags {v v' : View} {t d : ℤ} (h : v.Seated v' t d) : v'.tags = v.tags := by
  obtain ⟨sl, mb, rfl⟩ := seated_eq h
  rfl

theorem unseated_tags {v v' : View} {t d : ℤ} (h : v.Unseated v' t d) : v'.tags = v.tags := by
  obtain ⟨sl, mb, rfl⟩ := unseated_eq h
  rfl

/-- A closed microphone is linked at the end of its tag's list. -/
theorem OpenInv.opened (h : OpenInv v ls) {d : ℤ} (hd : d ∈ v.devs) (ho : v.opn d = 0) :
    ∃ L, listAddTail v.openL (.entry d) (.head (v.tagOf d)) = some L ∧
      OpenInv (v.opened (v.tagOf d) d L)
        (Function.update ls (v.tagOf d) (ls (v.tagOf d) ++ [d])) := by
  have ht := h.tagOf d hd
  obtain ⟨L, hL, hr, -⟩ := listAddTail_rings h.rings ht (h.notMem_of_closed ho)
  refine ⟨L, hL, h.nodup, h.tagOf, fun x hx => ?_, hr, fun t' ht' => ?_, fun t' ht' x => ?_,
    h.interp⟩
  · by_cases hxd : x = d
    · subst hxd; right; exact Function.update_self ..
    · have : (v.opened (v.tagOf d) d L).opn x = v.opn x := Function.update_of_ne hxd ..
      rw [this]; exact h.flag x hx
  · show Function.update v.openuser (v.tagOf d) (v.openuser (v.tagOf d) + 1) t' = _
    by_cases htt : t' = v.tagOf d
    · subst htt
      rw [Function.update_self, Function.update_self, h.openuser _ ht]
      simp
    · rw [Function.update_of_ne htt, Function.update_of_ne htt]
      exact h.openuser t' ht'
  · show _ ↔ x ∈ v.devs ∧ v.tagOf x = t' ∧ Function.update v.opn d 1 x ≠ 0
    by_cases hxd : x = d
    · subst hxd
      rw [Function.update_self]
      by_cases htt : t' = v.tagOf x
      · subst htt; simp [hd]
      · rw [Function.update_of_ne htt]
        have := h.notMem_of_closed ho t' ht'
        simp only [this, false_iff]
        rintro ⟨-, h', -⟩
        exact htt h'.symm
    · rw [Function.update_of_ne hxd, ← h.mem t' ht' x]
      by_cases htt : t' = v.tagOf d
      · subst htt; simp [hxd]
      · rw [Function.update_of_ne htt]

/-- An open microphone is unlinked. -/
theorem OpenInv.closed (h : OpenInv v ls) {d : ℤ} (hd : d ∈ v.devs) (ho : v.opn d ≠ 0) :
    ∃ L, listDel v.openL (.entry d) = some L ∧
      OpenInv (v.closed (v.tagOf d) d L)
        (Function.update ls (v.tagOf d) ((ls (v.tagOf d)).erase d)) := by
  have ht := h.tagOf d hd
  have hm : d ∈ ls (v.tagOf d) := (h.mem _ ht d).mpr ⟨hd, rfl, ho⟩
  have hn := (h.rings.ring _ ht).nodup
  obtain ⟨L, hL, hr, -, -, -⟩ := listDel_rings h.rings ht hm
  refine ⟨L, hL, h.nodup, h.tagOf, fun x hx => ?_, hr, fun t' ht' => ?_, fun t' ht' x => ?_,
    h.interp⟩
  · by_cases hxd : x = d
    · subst hxd; left; exact Function.update_self ..
    · have : (v.closed (v.tagOf d) d L).opn x = v.opn x := Function.update_of_ne hxd ..
      rw [this]; exact h.flag x hx
  · show Function.update v.openuser (v.tagOf d) (v.openuser (v.tagOf d) - 1) t' = _
    by_cases htt : t' = v.tagOf d
    · subst htt
      have hpos : 0 < (ls (v.tagOf d)).length := List.length_pos_of_mem hm
      rw [Function.update_self, Function.update_self, h.openuser _ ht,
        List.length_erase_of_mem hm]
      omega
    · rw [Function.update_of_ne htt, Function.update_of_ne htt]
      exact h.openuser t' ht'
  · show _ ↔ x ∈ v.devs ∧ v.tagOf x = t' ∧ Function.update v.opn d 0 x ≠ 0
    by_cases hxd : x = d
    · subst hxd
      rw [Function.update_self]
      simp only [ne_eq, not_true_eq_false, and_false, iff_false]
      exact notMem_update_erase h.rings ht hm t' ht'
    · rw [Function.update_of_ne hxd, ← h.mem t' ht' x]
      by_cases htt : t' = v.tagOf d
      · subst htt
        rw [Function.update_self]
        exact List.mem_erase_of_ne hxd
      · rw [Function.update_of_ne htt]

end Lists

/-! ## Slots -/

section Slots
variable {v v' : View}

theorem SlotInv.opened (h : SlotInv v) (t d : ℤ) (L : Links ℤ ℤ) : SlotInv (v.opened t d L) := by
  refine ⟨fun t' ht' i x hx => ?_, h.bit⟩
  obtain ⟨h1, h2, h3, h4⟩ := h.slot t' ht' i x hx
  refine ⟨h1, h2, ?_, h4⟩
  show Function.update v.opn d 1 x ≠ 0
  by_cases hxd : x = d
  · subst hxd; rw [Function.update_self]; omega
  · rw [Function.update_of_ne hxd]; exact h3

theorem slot_update {sl : ℤ → Fin 8 → Option ℤ} {t t' : ℤ} {i j : Fin 8} {o : Option ℤ} :
    Function.update sl t (Function.update (sl t) i o) t' j =
      if t' = t ∧ j = i then o else sl t' j := by
  by_cases htt : t' = t
  · subst htt
    rw [Function.update_self]
    by_cases hj : j = i
    · subst hj; simp
    · rw [Function.update_of_ne hj]; simp [hj]
  · rw [Function.update_of_ne htt]; simp [htt]

theorem SlotInv.seated (h : SlotInv v) {d : ℤ} (hd : d ∈ v.devs) (ht : v.tagOf d ∈ v.tags)
    (ho : v.opn d ≠ 0) (hs : v.Seated v' (v.tagOf d) d) : SlotInv v' := by
  rcases hs with ⟨-, rfl⟩ | ⟨i, hbit, hfree, rfl⟩
  · exact h
  have hne : ∀ t' ∈ v.tags, ∀ j x, v.slot t' j = some x → x ≠ d := by
    rintro t' ht' j x hx rfl
    have := (h.slot t' ht' j x hx).2.2.2
    rw [hbit] at this
    exact absurd this.symm (by positivity)
  constructor
  · intro t' ht' j x hx
    have hx : (if t' = v.tagOf d ∧ j = i then some d else v.slot t' j) = some x := by
      rw [← slot_update]; exact hx
    split at hx
    · rename_i hij
      cases hx
      refine ⟨hd, hij.1.symm, ho, ?_⟩
      rw [hij.2]
      exact Function.update_self ..
    · obtain ⟨h1, h2, h3, h4⟩ := h.slot t' ht' j x hx
      refine ⟨h1, h2, h3, ?_⟩
      exact (Function.update_of_ne (hne t' ht' j x hx) ..).trans h4
  · intro x hx hbx
    by_cases hxd : x = d
    · subst hxd
      refine ⟨i, ?_⟩
      show Function.update v.slot _ (Function.update (v.slot _) i _) (v.tagOf x) i = _
      rw [slot_update, if_pos ⟨rfl, rfl⟩]
    · have hbx' : v.mixbit x ≠ 0 := by
        rwa [show (v.take (v.tagOf d) i d).mixbit x = v.mixbit x from
          Function.update_of_ne hxd ..] at hbx
      obtain ⟨j, hj⟩ := h.bit x hx hbx'
      refine ⟨j, ?_⟩
      show Function.update v.slot _ (Function.update (v.slot _) i _) (v.tagOf x) j = _
      rw [slot_update, if_neg, hj]
      rintro ⟨h1, rfl⟩
      rw [h1, hfree] at hj
      cases hj

/-- The device closes and gives its slot back. -/
theorem SlotInv.closed (h : SlotInv v) {d : ℤ} (hd : d ∈ v.devs) (ht : v.tagOf d ∈ v.tags)
    {L : Links ℤ ℤ} (hs : (v.closed (v.tagOf d) d L).Unseated v' (v.tagOf d) d) : SlotInv v' := by
  obtain ⟨o, hsome, hnone, rfl⟩ := hs
  -- the slots that are left, and that none of them is the device's
  have hleft : ∀ t' ∈ v.tags, ∀ j x,
      ((v.closed (v.tagOf d) d L).drop (v.tagOf d) o d).slot t' j = some x →
        v.slot t' j = some x ∧ x ≠ d := by
    intro t' ht' j x hx
    cases o with
    | none =>
      have hx : v.slot t' j = some x := hx
      refine ⟨hx, ?_⟩
      rintro rfl
      have htx := (h.slot t' ht' j x hx).2.1
      exact hnone rfl j (htx ▸ hx)
    | some i =>
      replace hx : (if t' = v.tagOf d ∧ j = i then none else v.slot t' j) = some x := by
        rw [← slot_update]; exact hx
      split at hx
      · cases hx
      · rename_i hij
        refine ⟨hx, ?_⟩
        rintro rfl
        obtain ⟨-, htag, -, hj⟩ := h.slot t' ht' j x ‹_›
        obtain ⟨-, -, -, hi⟩ := h.slot _ ht i x (hsome i rfl)
        have hji : j.val = i.val := Nat.pow_right_injective le_rfl (hj.symm.trans hi)
        exact hij ⟨htag.symm, Fin.ext hji⟩
  constructor
  · intro t' ht' j x hx
    obtain ⟨hx', hxd⟩ := hleft t' ht' j x hx
    obtain ⟨h1, h2, h3, h4⟩ := h.slot t' ht' j x hx'
    refine ⟨h1, h2, ?_, ?_⟩
    · show Function.update v.opn d 0 x ≠ 0
      rwa [Function.update_of_ne hxd]
    · show Function.update v.mixbit d 0 x = _
      rwa [Function.update_of_ne hxd]
  · intro x hx hbx
    obtain ⟨hxd, hbx⟩ := ne_of_update (f := v.mixbit) hbx
    obtain ⟨j, hj⟩ := h.bit x hx hbx
    refine ⟨j, ?_⟩
    cases o with
    | none => exact hj
    | some i =>
      show Function.update v.slot _ (Function.update (v.slot _) i none) (v.tagOf x) j = _
      rw [slot_update, if_neg, hj]
      rintro ⟨h1, rfl⟩
      have h2 : v.slot (v.tagOf d) j = some d := hsome j rfl
      rw [h1, h2] at hj
      exact hxd (Option.some.inj hj).symm

end Slots

/-! ## The camera list -/

section Camera
variable {s : Server} {pl : List ℤ}

theorem isPushed_iff (h : PtcInv s.ptc.links pl) (d : ℤ) : isPushed s d = true ↔ d ∈ pl := by
  unfold isPushed
  rw [Bool.and_eq_true, Option.isSome_iff_ne_none, Option.isSome_iff_ne_none]
  constructor
  · rintro ⟨h1, h2⟩
    by_contra hd
    rcases h.free d hd with h' | h'
    · exact h1 h'
    · exact h2 h'
  · intro hd
    exact ((h.rings.ring () trivial).entry_linked hd).symm

/-- **`ptc_put`** moves the device to the front. -/
theorem ptcPut_inv (h : PtcInv s.ptc.links pl) (d : ℤ) :
    ∃ s' L, ptcPut s d = some s' ∧ view s' = { view s with ptcL := L } ∧
      PtcInv L (d :: pl.erase d) := by
  have key : ∃ L, (if isPushed s d then listMove s.ptc.links (.entry d) (.head ())
      else listAdd s.ptc.links (.entry d) (.head ())) = some L ∧ PtcInv L (d :: pl.erase d) := by
    by_cases hd : d ∈ pl
    · obtain ⟨L, hL, hr, hk⟩ := listMove_rings h.rings (h := ()) trivial hd
      refine ⟨L, by rw [if_pos ((isPushed_iff h d).mpr hd), hL], ?_, fun y hy => ?_⟩
      · rwa [Function.update_eq_const_of_subsingleton] at hr
      · obtain ⟨hyd, hy⟩ := not_or.mp (fun h' => hy (List.mem_cons.mpr h'))
        have hy' : y ∉ pl := fun h' => hy ((List.mem_erase_of_ne hyd).mpr h')
        rw [(hk y hyd fun _ _ => hy').1, (hk y hyd fun _ _ => hy').2]
        exact h.free y hy'
    · obtain ⟨L, hL, hr, hk⟩ := listAdd_rings h.rings (h := ()) trivial fun _ _ => hd
      rw [List.erase_of_not_mem hd]
      refine ⟨L, ?_, ?_, fun y hy => ?_⟩
      · rw [if_neg (fun h' => hd ((isPushed_iff h d).mp h')), hL]
      · rwa [Function.update_eq_const_of_subsingleton] at hr
      · obtain ⟨hyd, hy'⟩ := not_or.mp (fun h' => hy (List.mem_cons.mpr h'))
        rw [(hk y hyd fun _ _ => hy').1, (hk y hyd fun _ _ => hy').2]
        exact h.free y hy'
  obtain ⟨L, hL, hinv⟩ := key
  refine ⟨setCurr (setLinks s L) (some d), L, ?_, by rw [view_setCurr, view_setLinks], hinv⟩
  unfold ptcPut
  rw [hL, Option.map_some]

/-- **`ptc_push`**. -/
theorem ptcPush_inv (h : PtcInv s.ptc.links pl) (d : ℤ) :
    ∃ s' L, ptcPush s d = some s' ∧ view s' = { view s with ptcL := L } ∧
      PtcInv L (d :: pl.erase d) := by
  obtain ⟨s₁, L, h1, hv, hinv⟩ := ptcPut_inv h d
  refine ⟨ptcSend s₁ d, L, ?_, (view_ptcSend s₁ d).trans hv, hinv⟩
  unfold ptcPush
  rw [h1, Option.map_some]

/-- **`ptc_remove`**. -/
theorem ptcRemove_inv (h : PtcInv s.ptc.links pl) (d : ℤ) :
    ∃ s' L, ptcRemove s d = some s' ∧ view s' = { view s with ptcL := L } ∧
      PtcInv L (pl.erase d) := by
  unfold ptcRemove
  by_cases hd : d ∈ pl
  · rw [if_pos ((isPushed_iff h d).mpr hd)]
    obtain ⟨L, hL, hr, hk, hn, -⟩ := listDel_rings h.rings (h := ()) trivial hd
    rw [Function.update_eq_const_of_subsingleton] at hr
    have hinv : PtcInv L (pl.erase d) := by
      refine ⟨hr, fun y hy => ?_⟩
      by_cases hyd : y = d
      · subst hyd; exact Or.inr hn
      · have hy' : y ∉ pl := fun h' => hy ((List.mem_erase_of_ne hyd).mpr h')
        rw [(hk y hyd fun _ _ => hy').1, (hk y hyd fun _ _ => hy').2]
        exact h.free y hy'
    simp only [hL, Option.bind_eq_bind, Option.bind_some]
    split
    · exact ⟨_, L, rfl, by rw [view_setCurr, view_ptcDefault, view_setLinks], hinv⟩
    · rename_i hne
      split
      · -- a ring that is not empty leads to an entry
        obtain ⟨d', l, hl⟩ : ∃ d' l, pl.erase d = d' :: l := by
          cases hpl : pl.erase d with
          | nil => exact absurd ((listEmpty_rings hr (h := ()) trivial).mpr hpl) hne
          | cons d' l => exact ⟨d', l, rfl⟩
        have hnext : L.next (.head ()) = some (.entry d') := by
          have := (hr.ring () trivial).head_next
          rwa [hl] at this
        simp only [hnext, listEntry, Option.map_some]
        exact ⟨_, L, rfl, by rw [view_ptcSend, view_setCurr, view_setLinks], hinv⟩
      · exact ⟨_, L, rfl, view_setLinks s L, hinv⟩
  · rw [if_neg (fun h' => hd ((isPushed_iff h d).mp h')), List.erase_of_not_mem hd]
    exact ⟨s, s.ptc.links, rfl, rfl, h⟩

end Camera

/-! ## Opening and closing a microphone -/

section Mic
variable {s : Server} {ls : ℤ → List ℤ} {pl : List ℤ} {d : ℤ}

theorem Inv.ptcL {v : View} (h : Inv v ls pl) {L : Links Unit ℤ} {pl' : List ℤ}
    (hL : PtcInv L pl') : Inv { v with ptcL := L } ls pl' :=
  ⟨⟨h.opens.nodup, h.opens.tagOf, h.opens.flag, h.opens.rings, h.opens.openuser, h.opens.mem,
    h.opens.interp⟩, ⟨h.slots.slot, h.slots.bit⟩, hL⟩

/-- **`add_open`** of a closed microphone. -/
theorem addOpen_inv (h : Inv (view s) ls pl) (hd : d ∈ s.devs)
    (ho : (s.dev d).discussOpen = 0) :
    ∃ s' L, addOpen s (s.dev d).tag d = some s' ∧
      ((view s).opened (s.dev d).tag d L).Seated (view s') (s.dev d).tag d ∧
      Inv (view s') (Function.update ls (s.dev d).tag (ls (s.dev d).tag ++ [d])) pl := by
  obtain ⟨L, hL, hopens⟩ := h.opens.opened hd ho
  replace hL : listAddTail s.openL (.entry d) (.head (s.dev d).tag) = some L := hL
  rcases addOpen_view s (s.dev d).tag d with ⟨hnone, -⟩ | ⟨L', s', hL', hs', hseat⟩
  · rw [hL] at hnone
    cases hnone
  rw [hL] at hL'
  cases hL'
  have hopn : ((view s).opened (s.dev d).tag d L).opn d ≠ 0 := by
    show Function.update (view s).opn d 1 d ≠ 0
    rw [Function.update_self]
    omega
  have hslots := (h.slots.opened (s.dev d).tag d L).seated hd (h.opens.tagOf d hd) hopn hseat
  refine ⟨s', L, hs', hseat, ?_⟩
  obtain ⟨sl, mb, hv⟩ := seated_eq hseat
  rw [hv] at hslots ⊢
  exact ⟨hopens.slots_bits sl mb, hslots, h.ptc⟩

/-- **`del_open`** of an open microphone. -/
theorem delOpen_inv (h : Inv (view s) ls pl) (hd : d ∈ s.devs)
    (ho : (s.dev d).discussOpen ≠ 0) :
    ∃ s' L, delOpen s (s.dev d).tag d = some s' ∧
      ((view s).closed (s.dev d).tag d L).Unseated (view s') (s.dev d).tag d ∧
      Inv (view s') (Function.update ls (s.dev d).tag ((ls (s.dev d).tag).erase d)) pl := by
  obtain ⟨L, hL, hopens⟩ := h.opens.closed hd ho
  replace hL : listDel s.openL (.entry d) = some L := hL
  rcases delOpen_view s (s.dev d).tag d with ⟨hnone, -⟩ | ⟨L', s', hL', hs', hun⟩
  · rw [hL] at hnone
    cases hnone
  rw [hL] at hL'
  cases hL'
  have hslots := h.slots.closed hd (h.opens.tagOf d hd) hun
  refine ⟨s', L, hs', hun, ?_⟩
  obtain ⟨sl, mb, hv⟩ := unseated_eq hun
  rw [hv] at hslots ⊢
  exact ⟨hopens.slots_bits sl mb, hslots, h.ptc⟩

/-- **A closed microphone is opened and put on the camera.** -/
theorem openit_inv (h : Inv (view s) ls pl) (hd : d ∈ s.devs) (ho : (s.dev d).discussOpen = 0) :
    ∃ s' v L P, openit s (s.dev d).tag d = some s' ∧
      ((view s).opened (s.dev d).tag d L).Seated v (s.dev d).tag d ∧
      view s' = { v with ptcL := P } ∧
      Inv (view s') (Function.update ls (s.dev d).tag (ls (s.dev d).tag ++ [d]))
        (d :: pl.erase d) := by
  obtain ⟨s₁, L, h1, hseat, hinv⟩ := addOpen_inv h hd ho
  obtain ⟨s', P, h2, hv, hptc⟩ := ptcPush_inv hinv.ptc d
  refine ⟨s', view s₁, L, P, by simp only [openit, h1]; exact h2, hseat, hv, ?_⟩
  rw [hv]
  exact hinv.ptcL hptc

/-- **An open microphone is closed and taken off the camera.** -/
theorem closeit_inv (h : Inv (view s) ls pl) (hd : d ∈ s.devs) (ho : (s.dev d).discussOpen ≠ 0) :
    ∃ s' v L P, closeit s (s.dev d).tag d = some s' ∧
      ((view s).closed (s.dev d).tag d L).Unseated v (s.dev d).tag d ∧
      view s' = { v with ptcL := P } ∧
      Inv (view s') (Function.update ls (s.dev d).tag ((ls (s.dev d).tag).erase d))
        (pl.erase d) := by
  obtain ⟨s₁, L, h1, hun, hinv⟩ := delOpen_inv h hd ho
  obtain ⟨s', P, h2, hv, hptc⟩ := ptcRemove_inv hinv.ptc d
  refine ⟨s', view s₁, L, P, by simp only [closeit, h1]; exact h2, hun, hv, ?_⟩
  rw [hv]
  exact hinv.ptcL hptc

end Mic

/-! ## Admission -/

section Admission
variable {s : Server} {ls : ℤ → List ℤ} {pl : List ℤ} {t d : ℤ}

/-- The search ends with a device of the list, or with the candidate it started with. -/
theorem scan_mem (s : Server) (t : ℤ) (l : List ℤ) (b : Option ℤ × ℤ) :
    (∀ k, foldExit (scanStep s t) b l = .inr (.dead k) → k ∈ l) ∧
      ∀ k n, foldExit (scanStep s t) b l = .inl (some k, n) → k ∈ l ∨ b.1 = some k := by
  induction l generalizing b with
  | nil =>
    refine ⟨fun k h => by simp [foldExit] at h, fun k n h => Or.inr ?_⟩
    simp only [foldExit, Sum.inl.injEq] at h
    rw [h]
  | cons a l ih =>
    simp only [foldExit, List.mem_cons]
    cases hstep : scanStep s t b a with
    | inr e =>
      refine ⟨fun k h => Or.inl ?_, fun k n h => by simp at h⟩
      simp only [Sum.inr.injEq] at h
      subst h
      simp only [scanStep] at hstep
      split_ifs at hstep
      · cases hstep
      · cases hstep; rfl
    | inl b' =>
      obtain ⟨ih1, ih2⟩ := ih b'
      refine ⟨fun k h => Or.inr (ih1 k h), fun k n h => ?_⟩
      rcases ih2 k n h with h' | h'
      · exact Or.inl (Or.inr h')
      · simp only [scanStep] at hstep
        split_ifs at hstep
        · cases hstep; exact Or.inr h'
        · cases hstep
          cases hb : b.1 with
          | none => rw [hb] at h'; left; left; exact (Option.some.inj h').symm
          | some k' => rw [hb] at h'; right; exact h'

/-- **The admission of a request is decided, and a device that is kicked is in the list.** -/
theorem admission_total (h : Inv (view s) ls pl) (ht : t ∈ s.tags) (d : ℤ) :
    ∃ r, admission s t d = some r ∧ ∀ k, r = .kick k → k ∈ ls t := by
  unfold admission
  split
  · exact ⟨_, rfl, fun k hk => by cases hk⟩
  split
  · exact ⟨_, rfl, fun k hk => by cases hk⟩
  have hlen : (ls t).length ≤ scanRounds s t := by
    have h1 : (ls t).length ≤ s.devs.length := h.opens.length_le ht
    have h2 : s.devs.length + 1 ≤ scanRounds s t :=
      Nat.le_mul_of_pos_right _ (by omega)
    omega
  have heach := (h.opens.rings.ring t ht).forEach_eq (scanStep s t) _ hlen
    (none, (s.tag t).openuser)
  rw [show (view s).openL = s.openL from rfl] at heach
  rw [heach]
  obtain ⟨hdead, hcand⟩ := scan_mem s t (ls t) (none, (s.tag t).openuser)
  cases hr : foldExit (scanStep s t) (none, (s.tag t).openuser) (ls t) with
  | inr e =>
    cases e with
    | openit => exact ⟨_, rfl, fun k hk => by cases hk⟩
    | dead k' => exact ⟨_, rfl, fun k hk => by cases hk; exact hdead _ hr⟩
  | inl b =>
    obtain ⟨o, n⟩ := b
    cases o with
    | none => exact ⟨_, rfl, fun k hk => by cases hk⟩
    | some k' =>
      refine ⟨_, rfl, fun k hk => ?_⟩
      split at hk
      · cases hk
        rcases hcand _ n hr with h' | h'
        · exact h'
        · cases h'
      · cases hk

end Admission

/-! ## Devices and tags -/

section Devices
variable {v : View} {ls : ℤ → List ℤ} {pl : List ℤ} {d tid : ℤ}

/-- A new tag has an empty list and no slot taken. -/
theorem Inv.create (h : Inv v ls pl) (ht : tid ∉ v.tags) :
    Inv (v.create tid) (Function.update ls tid []) pl := by
  have hmem : ∀ t, t ∈ (v.create tid).tags → t ≠ tid → t ∈ v.tags := by
    intro t h1 h2
    rcases List.mem_append.mp h1 with h' | h'
    · exact h'
    · exact absurd (List.mem_singleton.mp h') h2
  have htag : ∀ x ∈ v.devs, v.tagOf x ≠ tid := by
    rintro x hx rfl
    exact ht (h.opens.tagOf x hx)
  refine ⟨⟨h.opens.nodup, fun x hx => ?_, h.opens.flag, ?_, fun t h1 => ?_, fun t h1 x => ?_,
    fun t h1 => ?_⟩, ⟨fun t h1 i x hx => ?_, fun x hx hb => ?_⟩, h.ptc⟩
  · exact List.mem_append.mpr (Or.inl (h.opens.tagOf x hx))
  · exact h.opens.rings.init tid hmem
  · show Function.update v.openuser tid 0 t = _
    by_cases e : t = tid
    · subst e; simp
    · rw [Function.update_of_ne e, Function.update_of_ne e]
      exact h.opens.openuser t (hmem t h1 e)
  · by_cases e : t = tid
    · subst e
      rw [Function.update_self]
      simp only [List.not_mem_nil, false_iff]
      rintro ⟨hx, hx', -⟩
      exact htag x hx hx'
    · rw [Function.update_of_ne e]
      exact h.opens.mem t (hmem t h1 e) x
  · show Function.update v.interpMode tid interpNo t = _
    by_cases e : t = tid
    · subst e; rw [Function.update_self]
    · rw [Function.update_of_ne e]
      exact h.opens.interp t (hmem t h1 e)
  · replace hx : Function.update v.slot tid (fun _ => none) t i = some x := hx
    by_cases e : t = tid
    · subst e
      rw [Function.update_self] at hx
      cases hx
    · rw [Function.update_of_ne e] at hx
      exact h.slots.slot t (hmem t h1 e) i x hx
  · obtain ⟨i, hi⟩ := h.slots.bit x hx hb
    refine ⟨i, ?_⟩
    show Function.update v.slot tid (fun _ => none) (v.tagOf x) i = _
    rw [Function.update_of_ne (htag x hx)]
    exact hi

theorem Inv.request (h : Inv v ls pl) (tid : ℤ) : ∃ ls', Inv (v.request tid) ls' pl := by
  unfold View.request
  split
  · exact ⟨ls, h⟩
  · rename_i ht
    exact ⟨_, h.create ht⟩

/-- A new device is closed and has no slot. -/
theorem Inv.register (h : Inv v ls pl) (hd : d ∉ v.devs) (ht : tid ∈ v.tags) :
    Inv (v.register d tid) ls pl := by
  have hne : ∀ x ∈ v.devs, x ≠ d := fun x hx e => hd (e ▸ hx)
  have hold : ∀ x, x ∈ (v.register d tid).devs → x ≠ d → x ∈ v.devs := by
    intro x h1 h2
    rcases List.mem_append.mp h1 with h' | h'
    · exact h'
    · exact absurd (List.mem_singleton.mp h') h2
  refine ⟨⟨?_, fun x hx => ?_, fun x hx => ?_, h.opens.rings, h.opens.openuser, fun t h1 x => ?_,
    h.opens.interp⟩, ⟨fun t h1 i x hx => ?_, fun x hx hb => ?_⟩, h.ptc⟩
  · refine List.Nodup.append h.opens.nodup (List.nodup_singleton d) ?_
    rw [List.disjoint_singleton]
    exact hd
  · show Function.update v.tagOf d tid x ∈ v.tags
    by_cases e : x = d
    · subst e; rwa [Function.update_self]
    · rw [Function.update_of_ne e]; exact h.opens.tagOf x (hold x hx e)
  · show Function.update v.opn d 0 x = 0 ∨ Function.update v.opn d 0 x = 1
    by_cases e : x = d
    · subst e; left; rw [Function.update_self]
    · rw [Function.update_of_ne e]; exact h.opens.flag x (hold x hx e)
  · rw [h.opens.mem t h1 x]
    show _ ↔ x ∈ v.devs ++ [d] ∧ Function.update v.tagOf d tid x = t ∧
      Function.update v.opn d 0 x ≠ 0
    by_cases e : x = d
    · subst e; simp [hd]
    · simp [e]
  · obtain ⟨h2, h3, h4, h5⟩ := h.slots.slot t h1 i x hx
    have e := hne x h2
    refine ⟨List.mem_append.mpr (Or.inl h2), ?_, ?_, ?_⟩
    · exact (Function.update_of_ne e ..).trans h3
    · show Function.update v.opn d 0 x ≠ 0
      rwa [Function.update_of_ne e]
    · exact (Function.update_of_ne e ..).trans h5
  · obtain ⟨e, hb⟩ := ne_of_update (f := v.mixbit) hb
    obtain ⟨i, hi⟩ := h.slots.bit x (hold x hx e) hb
    refine ⟨i, ?_⟩
    show v.slot (Function.update v.tagOf d tid x) i = some x
    rwa [Function.update_of_ne e]

/-- A closed device may change its tag. -/
theorem Inv.move (h : Inv v ls pl) (hd : d ∈ v.devs) (ho : v.opn d = 0) (ht : tid ∈ v.tags) :
    Inv (v.move d tid) ls pl := by
  have hnone : ∀ t ∈ v.tags, ∀ i, v.slot t i ≠ some d := fun t h1 i h2 =>
    (h.slots.slot t h1 i d h2).2.2.1 ho
  refine ⟨⟨h.opens.nodup, fun x hx => ?_, h.opens.flag, h.opens.rings, h.opens.openuser,
    fun t h1 x => ?_, h.opens.interp⟩, ⟨fun t h1 i x hx => ?_, fun x hx hb => ?_⟩, h.ptc⟩
  · show Function.update v.tagOf d tid x ∈ v.tags
    by_cases e : x = d
    · subst e; rwa [Function.update_self]
    · rw [Function.update_of_ne e]; exact h.opens.tagOf x hx
  · rw [h.opens.mem t h1 x]
    show _ ↔ x ∈ v.devs ∧ Function.update v.tagOf d tid x = t ∧ v.opn x ≠ 0
    by_cases e : x = d
    · subst e; simp [ho]
    · rw [Function.update_of_ne e]
  · obtain ⟨h2, h3, h4, h5⟩ := h.slots.slot t h1 i x hx
    have e : x ≠ d := by
      rintro rfl
      exact hnone t h1 i hx
    exact ⟨h2, (Function.update_of_ne e ..).trans h3, h4, h5⟩
  · obtain ⟨i, hi⟩ := h.slots.bit x hx hb
    have e : x ≠ d := by
      rintro rfl
      exact hnone _ (h.opens.tagOf x hx) i hi
    refine ⟨i, ?_⟩
    show v.slot (Function.update v.tagOf d tid x) i = some x
    rwa [Function.update_of_ne e]

end Devices

/-! ## Start-up -/

section Startup
variable {s : Server} {ls : ℤ → List ℤ} {pl : List ℤ} {d : ℤ}

/-- The invariant for some lists, and the tag 1, which the manager device is in. -/
def Good (s : Server) : Prop := (1 : ℤ) ∈ s.tags ∧ ∃ ls pl, Inv (view s) ls pl

theorem one_mem_of_view {s' : Server} {v : View} (hv : view s' = v) (h : (1 : ℤ) ∈ v.tags) :
    (1 : ℤ) ∈ s'.tags := by
  rw [← hv] at h
  exact h

theorem Good.of_view {s' : Server} (h : Good s) (hv : view s' = view s) : Good s' := by
  obtain ⟨h1, ls, pl, hI⟩ := h
  exact ⟨one_mem_of_view hv h1, ls, pl, hv ▸ hI⟩

theorem Good.tag_mem (h : Good s) (hd : d ∈ s.devs) : (s.dev d).tag ∈ s.tags := by
  obtain ⟨-, ls, pl, hI⟩ := h
  exact hI.opens.tagOf d hd

/-- **`dev_register`** of a new device. -/
theorem devRegister_inv (h : Inv (view s) ls pl) (hd : d ∉ s.devs) (type : ℤ)
    (h1 : (1 : ℤ) ∈ s.tags ∨ (s.row d).tagid = 1) :
    (1 : ℤ) ∈ (devRegister s d type).tags ∧ (∃ ls', Inv (view (devRegister s d type)) ls' pl) ∧
      d ∈ (devRegister s d type).devs ∧ ((devRegister s d type).dev d).discussOpen = 0 := by
  obtain ⟨ls₁, hI⟩ := h.request (s.row d).tagid
  have hreg := hI.register (d := d) (by rw [request_devs]; exact hd) (request_tags_mem _ _)
  have hone : (1 : ℤ) ∈ (((view s).request (s.row d).tagid).register d (s.row d).tagid).tags := by
    rcases h1 with h1 | h1
    · exact request_tags_mono _ _ h1
    · rw [h1]; exact request_tags_mem _ _
  have hdev : d ∈ (((view s).request (s.row d).tagid).register d (s.row d).tagid).devs :=
    List.mem_append.mpr (Or.inr (List.mem_singleton.mpr rfl))
  have hopn : (((view s).request (s.row d).tagid).register d (s.row d).tagid).opn d = 0 :=
    Function.update_self ..
  rcases view_devRegister s d type hd with hv | hv
  · refine ⟨one_mem_of_view hv hone, ⟨ls₁, hv ▸ hreg⟩, ?_, ?_⟩
    · rw [← hv] at hdev; exact hdev
    · rw [← hv] at hopn; exact hopn
  · obtain ⟨ls₂, hI₂⟩ := hreg.request 1
    rw [← request_devs _ 1, ← hv] at hdev
    rw [← request_opn _ 1, ← hv] at hopn
    exact ⟨one_mem_of_view hv (request_tags_mem _ _), ⟨ls₂, hv ▸ hI₂⟩, hdev, hopn⟩

/-- **`restore_sub`** may create tags. -/
theorem restoreSub_inv (h : Inv (view s) ls pl) (h1 : (1 : ℤ) ∈ s.tags) (d : ℤ) :
    (1 : ℤ) ∈ (restoreSub s d).tags ∧ (∃ ls', Inv (view (restoreSub s d)) ls' pl) ∧
      (restoreSub s d).devs = s.devs ∧ (view (restoreSub s d)).opn = (view s).opn := by
  unfold restoreSub
  generalize [(s.row d).sub1, (s.row d).sub2] = l
  induction l generalizing s ls with
  | nil => exact ⟨h1, ⟨ls, h⟩, rfl, rfl⟩
  | cons tid l ih =>
    rw [List.foldl_cons]
    split
    · exact ih h h1
    · have hv : view (devSubscribe (requestTag s tid) d tid) = (view s).request tid := by
        rw [view_devSubscribe, view_requestTag]
      obtain ⟨ls₁, hI⟩ := h.request tid
      obtain ⟨h2, h3, h4, h5⟩ := ih (hv ▸ hI) (one_mem_of_view hv (request_tags_mono _ _ h1))
      refine ⟨h2, h3, h4.trans ?_, h5.trans ?_⟩
      · show (view _).devs = (view s).devs
        rw [hv, request_devs]
      · rw [hv, request_opn]

/-- **`restore_discuss`** of a closed device. -/
theorem restoreDiscuss_inv (h : Inv (view s) ls pl) (h1 : (1 : ℤ) ∈ s.tags) (hd : d ∈ s.devs)
    (ho : (s.dev d).discussOpen = 0) : ∃ s', restoreDiscuss s d = some s' ∧ Good s' := by
  have hptc : view (if isPtc s d then addPtc s d else s) = view s := by
    split
    · exact view_addPtc s d
    · rfl
  unfold restoreDiscuss
  generalize (if isPtc s d then addPtc s d else s) = s₀ at hptc
  rw [← hptc] at h
  replace hd : d ∈ s₀.devs := by
    show d ∈ (view s₀).devs
    rwa [hptc]
  replace ho : (s₀.dev d).discussOpen = 0 := by
    show (view s₀).opn d = 0
    rwa [hptc]
  replace h1 := one_mem_of_view hptc h1
  simp only []
  split
  · obtain ⟨s₁, L, hs₁, hseat, hI⟩ := addOpen_inv h hd ho
    obtain ⟨s₂, P, hs₂, hv, hptc'⟩ := ptcPut_inv hI.ptc d
    refine ⟨s₂, by rw [hs₁]; exact hs₂, ?_, _, _, hv ▸ hI.ptcL hptc'⟩
    obtain ⟨sl, mb, hv₁⟩ := seated_eq hseat
    refine one_mem_of_view hv ?_
    rw [hv₁]
    exact h1
  · exact ⟨s₀, rfl, h1, ls, pl, h⟩

theorem recoverDev_good {s' : Server} (h : Good s) (hs : recoverDev s d = some s') : Good s' := by
  obtain ⟨h1, ls, pl, hI⟩ := h
  unfold recoverDev at hs
  split at hs
  · cases hs
    exact ⟨h1, ls, pl, hI⟩
  split at hs
  · cases hs
  rename_i hd
  obtain ⟨h2, ⟨ls₂, hI₂⟩, hd₂, ho₂⟩ := devRegister_inv
    (s := s.setRow d fun r => { r with online := 0 }) (d := d) hI hd
    ((s.setRow d fun r => { r with online := 0 }).row d).type (Or.inl h1)
  obtain ⟨h3, ⟨ls₃, hI₃⟩, hdevs, hopn⟩ := restoreSub_inv hI₂ h2 d
  obtain ⟨s'', hs'', hgood⟩ := restoreDiscuss_inv (d := d) hI₃ h3 (hdevs ▸ hd₂)
    ((congrFun hopn d).trans ho₂)
  rw [hs''] at hs
  cases hs
  exact hgood

/-- The memory before the first device. -/
theorem boot_inv (db : Db) : Inv (view (boot db)) (fun _ => []) [] := by
  have hptc : Rings (boot db).ptc.links (fun _ => True) fun _ : Unit => ([] : List ℤ) :=
    ⟨fun _ _ => ring_init _ (), fun _ _ _ _ _ _ _ => rfl⟩
  refine ⟨⟨List.nodup_nil, ?_, ?_, ⟨?_, ?_⟩, ?_, ?_, ?_⟩, ⟨?_, ?_⟩, hptc, fun d _ => ?_⟩
  · intro d hd; cases hd
  · intro d hd; cases hd
  · intro t ht; cases ht
  · intro t t' a ht; cases ht
  · intro t ht; cases ht
  · intro t ht; cases ht
  · intro t ht; cases ht
  · intro t ht; cases ht
  · intro d hd; cases hd
  · left; rfl

theorem view_groupSetupDiscuss {s s' : Server} {r : DbDiscuss}
    (h : groupSetupDiscuss s r = some s') : view s' = view s :=
  groupSetupDiscuss_same view_setGrp h

theorem groupCreate_view {s s' : Server} (h : groupCreate s = some s') :
    view s' = view s :=
  groupCreate_same view_setGrp h

theorem addManagerDev_good (h : Inv (view s) ls pl) (hd : (0 : ℤ) ∉ s.devs) :
    Good (addManagerDev s) := by
  have key : ∀ r : DbDevice, r.tagid = 1 →
      Good (devRegister (s.setRow 0 fun _ => r) 0 devtypeNone) := by
    intro r hr
    have hrow : (s.setRow 0 fun _ => r).row 0 = r := by
      show Function.update s.row 0 r 0 = r
      rw [Function.update_self]
    obtain ⟨h1, ⟨ls', hI⟩, -⟩ := devRegister_inv (s := s.setRow 0 fun _ => r) h hd devtypeNone
      (Or.inr (by rw [hrow, hr]))
    exact ⟨h1, ls', pl, hI⟩
  exact key _ rfl

theorem recoverDevs_good {s' : Server} (l : List ℤ) (h : Good s)
    (hs : l.foldlM recoverDev s = some s') : Good s' :=
  of_run (fun _ _ _ h _ hs => recoverDev_good h hs) h (guarded_true ..) hs

/-- **The server is good when it has started.** -/
theorem recoverServer_good {db : Db} (h : recoverServer db = some s) : Good s := by
  obtain ⟨s₀, s₁, hs₀, hs₁, rfl⟩ := recoverServer_some h
  have hboot : Inv (view s₀) (fun _ => []) [] := groupCreate_view hs₀ ▸ boot_inv db
  have hdevs : (0 : ℤ) ∉ s₀.devs := by
    show (0 : ℤ) ∉ (view s₀).devs
    rw [groupCreate_view hs₀]
    exact List.not_mem_nil
  obtain ⟨h1, ls, pl, hI⟩ := recoverDevs_good _ (addManagerDev_good hboot hdevs) hs₁
  exact ⟨one_mem_of_view (view_ptcGoCurrent s₁) h1, ls, pl, view_ptcGoCurrent s₁ ▸ hI⟩

end Startup

end GSConferencing.Serv.Mics
