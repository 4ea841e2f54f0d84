import GSConferencing.Lib.Run
import GSConferencing.Lib.Slots
import GSConferencing.Serv.MixFrame
import GSConferencing.Serv.OpenRuns

/-!
# Outstanding devices

The mix slots of one tag, which `tag_add_outstanding` and `tag_rm_outstanding` fill and clear, also
from the middle of the mixing loops.  `SlotsOk s t`: the counter, the bits of the devices and the
reference slot agree with the slots.

* `view_add`, `view_rm`: what the two operations do to a tag.
* `mixStep_run`: a step of the mixing thread does nothing else to the slots.
* `slotsOk_always`: along every run of these operations.
-/

namespace GSConferencing.Serv.Outstanding

open GSConferencing.Lib.Run GSConferencing.Lib.Slots GSConferencing.Include.Cfifo
open GSConferencing.Serv.Dev GSConferencing.Serv.Tag GSConferencing.Serv.Packet
open GSConferencing.Serv.Devctl GSConferencing.Serv.Frame GSConferencing.Serv.MixFrame
open GSConferencing.Serv.Mixing
open GSConferencing.Serv.OpenView (ne_of_update)

/-! ## What the operations see of a tag -/

/-- The slots of a tag, and of the devices their bits and whether they are in the tag. -/
@[ext] structure View where
  slot : Fin 8 → Option ℤ
  count : ℤ
  ref : Fin 8
  bit : ℤ → ℕ
  mine : ℤ → Prop

def view (s : Server) (t : ℤ) : View where
  slot := (s.tag t).mixDevs
  count := (s.tag t).mixCount
  ref := (s.tag t).mixRef
  bit d := (s.dev d).mixbit
  mine d := (s.dev d).tag = t

namespace View

variable (v : View)

/-- The device `d` takes the slot `i`. -/
def take (d : ℤ) (i : Fin 8) : View :=
  { v with
    slot := Function.update v.slot i (some d)
    count := v.count + 1
    ref := if Function.update v.slot i (some d) v.ref = none then i else v.ref
    bit := Function.update v.bit d (2 ^ i.val) }

/-- The slot that is the reference once the slot `i` is cleared. -/
def refWithout (i : Fin 8) : Fin 8 :=
  if v.ref = i then
    ((List.finRange 8).find? fun j => j ≠ i && (v.slot j).isSome).getD v.ref
  else v.ref

/-- The slot `i` of the device `d` is cleared. -/
def clear (d : ℤ) (i : Fin 8) : View :=
  { v with
    slot := Function.update v.slot i none
    count := v.count - 1
    ref := v.refWithout i
    bit := Function.update v.bit d 0 }

/-- The device `d` has no bit. -/
def unmark (d : ℤ) : View := { v with bit := Function.update v.bit d 0 }

end View

theorem view_setDev (s : Server) (t d : ℤ) {f : Device → Device}
    (hbit : (f (s.dev d)).mixbit = (s.dev d).mixbit)
    (htag : (f (s.dev d)).tag = (s.dev d).tag) : view (s.setDev d f) t = view s t := by
  have hdev : ∀ x, ((s.setDev d f).dev x).mixbit = (s.dev x).mixbit ∧
      ((s.setDev d f).dev x).tag = (s.dev x).tag := by
    intro x
    by_cases hx : x = d
    · rw [hx]
      simp [Server.setDev, hbit, htag]
    · simp [Server.setDev, hx]
  ext x
  · rfl
  · rfl
  · rfl
  · exact (hdev x).1
  · exact eq_iff_iff.mp (congrArg (· = t) (hdev x).2)

theorem view_mixOpenDev (s : Server) (t d : ℤ) : view (mixOpenDev s d) t = view s t :=
  mixOpenDev_same (v := fun s => view s t) (fun _ d _ _ _ => view_setDev _ t d rfl rfl) s d

theorem view_mixCloseDev (s : Server) (t d : ℤ) : view (mixCloseDev s d) t = view s t :=
  mixCloseDev_same (v := fun s => view s t) (fun _ d _ _ _ => view_setDev _ t d rfl rfl) s d

/-- **`tag_add_outstanding`:** a device without a bit takes a free slot, if there is one. -/
theorem view_add (s : Server) (t d : ℤ) :
    ((view s t).bit d ≠ 0 ∧ view (tagAddOutstanding s t d) t = view s t) ∨
    ((view s t).bit d = 0 ∧ (∀ i, (view s t).slot i ≠ none) ∧
      view (tagAddOutstanding s t d) t = view s t) ∨
    ∃ i, (view s t).bit d = 0 ∧ (view s t).slot i = none ∧
      view (tagAddOutstanding s t d) t = (view s t).take d i := by
  unfold tagAddOutstanding
  by_cases hbit : (s.dev d).mixbit ≠ 0
  · rw [if_pos hbit]
    exact .inl ⟨hbit, rfl⟩
  rw [if_neg hbit]
  replace hbit : (view s t).bit d = 0 := not_not.mp hbit
  split
  · rename_i hfind
    refine .inr (.inl ⟨hbit, fun i hi => ?_, rfl⟩)
    replace hi : (s.tag t).mixDevs i = none := hi
    exact List.find?_eq_none.mp hfind i (List.mem_finRange i) (by simpa using hi)
  · rename_i i hfind
    have hfree : (s.tag t).mixDevs i = none := by simpa using List.find?_some hfind
    refine .inr (.inr ⟨i, hbit, hfree, ?_⟩)
    rw [view_mixOpenDev]
    ext x
    · simp [view, View.take, Server.setTag, Server.setDev]
    · simp [view, View.take, Server.setTag, Server.setDev]
    · simp [view, View.take, Server.setTag, Server.setDev]
      congr
    · by_cases hx : x = d
      · simp [view, View.take, Server.setTag, Server.setDev, hx]
      · simp [view, View.take, Server.setTag, Server.setDev, hx]
    · by_cases hx : x = d
      · simp [view, View.take, Server.setTag, Server.setDev, hx]
      · simp [view, View.take, Server.setTag, Server.setDev, hx]

/-- **`tag_rm_outstanding`:** the slot of the device is cleared, if it has one. -/
theorem view_rm (s : Server) (t d : ℤ) :
    ((∀ i, (view s t).slot i ≠ some d) ∧
      view (tagRmOutstanding s t d) t = (view s t).unmark d) ∨
    ∃ i, (view s t).slot i = some d ∧ view (tagRmOutstanding s t d) t = (view s t).clear d i := by
  simp only [tagRmOutstanding, view_mixCloseDev]
  split
  · rename_i hfind
    refine .inl ⟨fun i hi => ?_, ?_⟩
    · replace hi : (s.tag t).mixDevs i = some d := hi
      exact List.find?_eq_none.mp hfind i (List.mem_finRange i) (by simpa using hi)
    · ext x
      · rfl
      · rfl
      · rfl
      · by_cases hx : x = d <;> simp [view, View.unmark, Server.setDev, hx]
      · by_cases hx : x = d <;> simp [view, View.unmark, Server.setDev, hx]
  · rename_i i hfind
    have hslot : (s.tag t).mixDevs i = some d := by simpa using List.find?_some hfind
    refine .inr ⟨i, hslot, ?_⟩
    ext x
    · simp [view, View.clear, Server.setTag, Server.setDev]
    · simp [view, View.clear, Server.setTag, Server.setDev]
    · simp [view, View.clear, View.refWithout, Server.setTag, Server.setDev]
    · by_cases hx : x = d <;> simp [view, View.clear, Server.setTag, Server.setDev, hx]
    · by_cases hx : x = d <;> simp [view, View.clear, Server.setTag, Server.setDev, hx]

/-! ## The invariant -/

/-- Counter, bits and reference agree with the slots. -/
structure Inv (v : View) : Prop where
  count : v.count = occupied (· ≠ none) v.slot
  slot : ∀ i d, v.slot i = some d → v.mine d ∧ v.bit d = 2 ^ i.val
  bit : ∀ d, v.mine d → v.bit d ≠ 0 → ∃ i, v.slot i = some d
  ref : 0 < v.count → v.slot v.ref ≠ none

section Inv
variable {v : View} {d : ℤ} {i : Fin 8}

theorem two_pow_ne_zero (i : Fin 8) : (2 : ℕ) ^ i.val ≠ 0 := by positivity

theorem two_pow_inj {i j : Fin 8} (h : (2 : ℕ) ^ i.val = 2 ^ j.val) : i = j :=
  Fin.ext (Nat.pow_right_injective le_rfl h)

/-- No device has two slots. -/
theorem Inv.apart (h : Inv v) : Apart (· ≠ none) v.slot := by
  intro i j hi hij
  obtain ⟨d, hd⟩ := Option.ne_none_iff_exists'.mp hi
  exact two_pow_inj ((h.slot i d hd).2.symm.trans (h.slot j d (hij ▸ hd)).2)

theorem Inv.take (h : Inv v) (hd : v.mine d) (hbit : v.bit d = 0) (hi : v.slot i = none) :
    Inv (v.take d i) where
  count := by
    show v.count + 1 = (occupied (· ≠ none) (Function.update v.slot i (some d)) : ℤ)
    rw [occupied_take (p := (· ≠ none)) (not_not.mpr hi) (Option.some_ne_none d), h.count]
    push_cast
    rfl
  slot j x hj := by
    replace hj : Function.update v.slot i (some d) j = some x := hj
    show v.mine x ∧ Function.update v.bit d (2 ^ i.val) x = 2 ^ j.val
    by_cases hji : j = i
    · rw [hji, Function.update_self, Option.some.injEq] at hj
      rw [← hj, Function.update_self, hji]
      exact ⟨hd, rfl⟩
    · rw [Function.update_of_ne hji] at hj
      obtain ⟨hx, hb⟩ := h.slot j x hj
      have hxd : x ≠ d := by
        rintro rfl
        exact two_pow_ne_zero j (hb.symm.trans hbit)
      rw [Function.update_of_ne hxd]
      exact ⟨hx, hb⟩
  bit x hx hb := by
    replace hb : Function.update v.bit d (2 ^ i.val) x ≠ 0 := hb
    by_cases hxd : x = d
    · exact ⟨i, by rw [hxd]; exact Function.update_self ..⟩
    · rw [Function.update_of_ne hxd] at hb
      obtain ⟨j, hj⟩ := h.bit x hx hb
      have hji : j ≠ i := by
        rintro rfl
        rw [hi] at hj
        cases hj
      exact ⟨j, (Function.update_of_ne hji ..).trans hj⟩
  ref _ := by
    show Function.update v.slot i (some d)
      (if Function.update v.slot i (some d) v.ref = none then i else v.ref) ≠ none
    split
    · rw [Function.update_self]
      exact Option.some_ne_none d
    · assumption

/-- A device that is in no slot has no bit to lose. -/
theorem Inv.unmark (h : Inv v) (hd : ∀ i, v.slot i ≠ some d) : Inv (v.unmark d) where
  count := h.count
  slot j x hj := by
    show v.mine x ∧ Function.update v.bit d 0 x = 2 ^ j.val
    have hxd : x ≠ d := by
      rintro rfl
      exact hd j hj
    rw [Function.update_of_ne hxd]
    exact h.slot j x hj
  bit x hx hb := by
    exact h.bit x hx (ne_of_update (f := v.bit) hb).2
  ref := h.ref

/-- Where a slot is left, the reference is one of those that are left. -/
theorem refWithout_spec (h : Inv v) (hj : ∃ j, j ≠ i ∧ v.slot j ≠ none) :
    v.refWithout i ≠ i ∧ v.slot (v.refWithout i) ≠ none := by
  obtain ⟨j, hji, hj⟩ := hj
  unfold View.refWithout
  split
  · have hsome : ((List.finRange 8).find? fun j => j ≠ i && (v.slot j).isSome).isSome := by
      rw [List.find?_isSome]
      exact ⟨j, List.mem_finRange j, by simpa [Option.isSome_iff_ne_none] using ⟨hji, hj⟩⟩
    obtain ⟨r, hr⟩ := Option.isSome_iff_exists.mp hsome
    have := List.find?_some hr
    rw [hr, Option.getD_some]
    simpa [Option.isSome_iff_ne_none] using this
  · have hpos : 0 < v.count := by
      rw [h.count]
      exact_mod_cast occupied_pos.mpr ⟨j, hj⟩
    exact ⟨by assumption, h.ref hpos⟩

theorem Inv.clear (h : Inv v) (hi : v.slot i = some d) : Inv (v.clear d i) := by
  have hocc : occupied (· ≠ none) (Function.update v.slot i none) + 1 =
      occupied (· ≠ none) v.slot :=
    occupied_release (by rw [hi]; exact Option.some_ne_none d) (not_not.mpr rfl)
  have hcount : v.count - 1 = (occupied (· ≠ none) (Function.update v.slot i none) : ℤ) := by
    rw [h.count, ← hocc]
    push_cast
    ring
  -- the device was in no other slot
  have hother : ∀ j, j ≠ i → v.slot j ≠ some d := fun j hji hj =>
    hji (h.apart j i (by rw [hj]; exact Option.some_ne_none d) (hj.trans hi.symm))
  refine ⟨hcount, fun j x hj => ?_, fun x hx hb => ?_, fun hpos => ?_⟩
  · replace hj : Function.update v.slot i none j = some x := hj
    show v.mine x ∧ Function.update v.bit d 0 x = 2 ^ j.val
    have hji : j ≠ i := by
      rintro rfl
      rw [Function.update_self] at hj
      cases hj
    rw [Function.update_of_ne hji] at hj
    have hxd : x ≠ d := by
      rintro rfl
      exact hother j hji hj
    rw [Function.update_of_ne hxd]
    exact h.slot j x hj
  · obtain ⟨hxd, hb⟩ := ne_of_update (f := v.bit) hb
    obtain ⟨j, hj⟩ := h.bit x hx hb
    have hji : j ≠ i := by
      rintro rfl
      rw [hi, Option.some.injEq] at hj
      exact hxd hj.symm
    exact ⟨j, (Function.update_of_ne hji ..).trans hj⟩
  · replace hpos : 0 < v.count - 1 := hpos
    rw [hcount] at hpos
    obtain ⟨j, hj⟩ := (occupied_pos (p := (· ≠ none))).mp (Int.natCast_pos.mp hpos)
    have hji : j ≠ i := by
      rintro rfl
      exact hj (Function.update_self ..)
    rw [Function.update_of_ne hji] at hj
    obtain ⟨hri, hr⟩ := refWithout_spec h ⟨j, hji, hj⟩
    show Function.update v.slot i none (v.refWithout i) ≠ none
    rwa [Function.update_of_ne hri]

end Inv

/-! ## Runs -/

/-- What is done to the slots of the tag; `empty` tells which queues are empty at that time. -/
inductive Event where
  | add (d : ℤ)
  | rm (d : ℤ)
  /-- A turn of the loop of `tag_update_dev_timeouts`. -/
  | devTimeouts (empty : ℤ → Bool) (i : Fin 8)
  /-- A turn of the loop of `wait_ref_queue`, which waits for `d`, or what follows it. -/
  | waitRef (empty : ℤ → Bool) (d : ℤ)
  /-- A packet of `d` is picked. -/
  | picked (d : ℤ)

/-- A silent device is counted, and removed when it has been silent for too long. -/
def hung (s : Server) (t d : ℤ) : Server :=
  let s := s.setDev d fun D => { D with timeouts := D.timeouts + 1 }
  if 300 < (s.dev d).timeouts then tagRmOutstanding s t d else s

/-- `d->timeouts = 0`. -/
def heard (s : Server) (d : ℤ) : Server := s.setDev d fun D => { D with timeouts := 0 }

def step (t : ℤ) (s : Server) : Event → Option Server
  | .add d => some (tagAddOutstanding s t d)
  | .rm d => some (tagRmOutstanding s t d)
  | .devTimeouts empty i => some <|
    match (s.tag t).mixDevs i with
    | none => s
    | some d => if empty d then hung s t d else heard s d
  | .waitRef empty d => some <|
    if empty d then if (s.dev d).mixbit = 0 then s else hung s t d else heard s d
  | .picked d => some (heard s d)

/-- The device that an event names is one of `devs`. -/
def Event.Names (devs : ℤ → Prop) : Event → Prop
  | .add d => devs d
  | .rm d => devs d
  | .devTimeouts _ _ => True
  | .waitRef _ d => devs d
  | .picked d => devs d

section Steps
variable {s s' : Server} {t d : ℤ}

theorem mine_rm (s : Server) (t d : ℤ) :
    (view (tagRmOutstanding s t d) t).mine = (view s t).mine := by
  rcases view_rm s t d with ⟨-, hv⟩ | ⟨i, -, hv⟩ <;> (rw [hv]; rfl)

theorem rm_inv (h : Inv (view s t)) (d : ℤ) : Inv (view (tagRmOutstanding s t d) t) := by
  rcases view_rm s t d with ⟨hno, hv⟩ | ⟨i, hi, hv⟩ <;> rw [hv]
  · exact h.unmark hno
  · exact h.clear hi

theorem mine_add (s : Server) (t d : ℤ) :
    (view (tagAddOutstanding s t d) t).mine = (view s t).mine := by
  rcases view_add s t d with ⟨-, hv⟩ | ⟨-, -, hv⟩ | ⟨i, -, -, hv⟩
  · rw [hv]
  · rw [hv]
  · rw [hv]
    rfl

theorem add_inv (h : Inv (view s t)) (hd : (s.dev d).tag = t) :
    Inv (view (tagAddOutstanding s t d) t) := by
  rcases view_add s t d with ⟨-, hv⟩ | ⟨-, -, hv⟩ | ⟨i, hbit, hi, hv⟩ <;> rw [hv]
  · exact h
  · exact h
  · exact h.take hd hbit hi

theorem view_heard (s : Server) (t d : ℤ) : view (heard s d) t = view s t :=
  view_setDev s t d rfl rfl

/-- A silent device stays, or is removed. -/
theorem hung_inv (h : Inv (view s t)) (d : ℤ) :
    Inv (view (hung s t d) t) ∧ (view (hung s t d) t).mine = (view s t).mine := by
  have hv : view (s.setDev d fun D => { D with timeouts := D.timeouts + 1 }) t = view s t :=
    view_setDev s t d rfl rfl
  simp only [hung]
  split
  · rw [mine_rm, hv]
    exact ⟨rm_inv (hv.symm ▸ h) d, rfl⟩
  · rw [hv]
    exact ⟨h, rfl⟩

/-- **One step.** -/
theorem step_inv (h : Inv (view s t)) {e : Event} (he : e.Names fun d => (s.dev d).tag = t)
    (hs : step t s e = some s') :
    Inv (view s' t) ∧ (view s' t).mine = (view s t).mine := by
  cases e <;> (simp only [step, Option.some.injEq] at hs; subst hs)
  case add d => exact ⟨add_inv h he, mine_add s t d⟩
  case rm d => exact ⟨rm_inv h d, mine_rm s t d⟩
  case devTimeouts empty i =>
    split
    · exact ⟨h, rfl⟩
    · split
      · exact hung_inv h _
      · rw [view_heard]
        exact ⟨h, rfl⟩
  case waitRef empty d =>
    split
    · split
      · exact ⟨h, rfl⟩
      · exact hung_inv h d
    · rw [view_heard]
      exact ⟨h, rfl⟩
  case picked d =>
    rw [view_heard]
    exact ⟨h, rfl⟩

end Steps

/-! ## The mixing thread -/

section Thread
variable {k : ℕ} {s s' : State k} {t d : ℤ}

theorem srv_packFree {o : Option (Buf k)} (h : s.packFree o = some s') : s'.srv = s.srv :=
  packFree_same (v := State.srv) (fun _ _ => rfl) h

theorem srv_flushAllQueues {is : List (Fin 8)} (h : flushAllQueues t is s = some s') :
    s'.srv = s.srv :=
  flushAllQueues_same (v := State.srv) (fun _ _ => rfl) (fun _ _ _ => rfl) h

theorem srv_flushSlot {i : Fin 8} (h : flushSlot s t i = some s') : s'.srv = s.srv :=
  flushSlot_same (v := State.srv) (fun _ _ => rfl) (fun _ _ _ => rfl) (fun _ _ _ => rfl) h

/-- The loop of `tag_update_dev_timeouts` is a run. -/
theorem tagUpdateDevTimeouts_run (fifo : ℤ → Fifo (Option (Buf k)) 5) (t : ℤ) (is : List (Fin 8))
    (srv : Server) :
    run (step t) srv (is.map (.devTimeouts fun d => (fifo d).empty)) =
      some (tagUpdateDevTimeouts fifo t is srv) := by
  induction is generalizing srv with
  | nil => rfl
  | cons i is ih =>
    rw [List.map_cons, run_cons, tagUpdateDevTimeouts, ← ih]
    simp only [step, Option.bind_some]
    congr 1
    cases (srv.tag t).mixDevs i with
    | none => rfl
    | some d =>
      simp only [decide_eq_true_eq]
      rfl

theorem srv_mixGet (s : State k) (t : ℤ) : (mixGet s t).srv = s.srv := by
  unfold mixGet
  split
  · rfl
  · split_ifs <;> rfl

/-- The operations but for additions. -/
def Event.Removes : Event → Prop
  | .add _ => False
  | _ => True

theorem waitTurn_run (s : State k) (t : ℤ) (n : ℕ) :
    ∃ es, (∀ e ∈ es, e.Removes) ∧ run (step t) s.srv es = some (waitTurn s t n).srv := by
  have hnil : ∀ e ∈ ([] : List Event), e.Removes := List.forall_mem_nil _
  unfold waitTurn
  split
  · split
    · exact ⟨[], hnil, rfl⟩
    · refine ⟨allSlots.map (.devTimeouts fun d => (s.fifo d).empty), ?_, ?_⟩
      · exact List.forall_mem_map.mpr fun _ _ => trivial
      · rw [tagUpdateDevTimeouts_run]
        simp only []
        split <;> rfl
  · split <;> exact ⟨[], hnil, rfl⟩
  · split <;> exact ⟨[], hnil, rfl⟩

theorem waitRefTurn_run (h : waitRefTurn s t d = some s') :
    run (step t) s.srv [.waitRef (fun d => (s.fifo d).empty) d] = some s'.srv := by
  simp only [run_cons, run_nil, step, Option.bind_some, Option.some.injEq, decide_eq_true_eq]
  unfold waitRefTurn at h
  split at h
  · next hempty =>
    rw [if_pos hempty]
    split at h
    · next hbit =>
      rw [if_pos hbit]
      cases h
      rfl
    · next hbit =>
      rw [if_neg hbit, hung]
      simp only [] at h ⊢
      split at h
      · next hlong =>
        rw [if_pos hlong]
        obtain ⟨s₁, hs₁, rfl⟩ := Option.map_eq_some_iff.mp h
        exact (srv_flushAllQueues hs₁).symm
      · next hlong =>
        rw [if_neg hlong]
        cases h
        rfl
  · next hempty =>
    rw [if_neg hempty]
    cases h
    rfl

theorem srv_pickSlot {i : Fin 8} {is : List (Fin 8)} {pp : List (Buf k)}
    (h : pickSlot s t i is pp = some s') : s'.srv = s.srv ∨ ∃ d, s'.srv = heard s.srv d := by
  rcases pickSlot_cases h with ⟨-, rfl⟩ | ⟨d, b, r, -, -, -, rfl, ⟨-, s₁, hs₁, rfl⟩ | ⟨-, rfl⟩⟩
  · exact .inl rfl
  · have e := srv_packFree hs₁
    exact .inr ⟨d, e⟩
  · exact .inr ⟨d, rfl⟩

theorem srv_checkSilence {p : Buf k} {silent : Bool} (h : checkSilence s t p silent = some s') :
    s'.srv = s.srv := by
  rcases checkSilence_cases h with ⟨-, n, s₁, hs₁, rfl⟩ | ⟨-, n, rfl⟩
  · have e := srv_packFree hs₁
    exact e
  · rfl

theorem srv_outdatePack {p : Buf k} (h : outdatePack s t p = some s') : s'.srv = s.srv := by
  unfold outdatePack at h
  split at h
  · cases h
    rfl
  · have e := srv_packFree h
    exact e

/-- **A step of the mixing thread** does to the slots what a run of removals does. -/
theorem mixStep_run {silent : Bool} (h : mixStep s t silent = some s') :
    ∃ es, (∀ e ∈ es, e.Removes) ∧ run (step t) s.srv es = some s'.srv := by
  have hsame : s'.srv = s.srv →
      ∃ es, (∀ e ∈ es, e.Removes) ∧ run (step t) s.srv es = some s'.srv := fun e =>
    ⟨[], List.forall_mem_nil _, by rw [e]; rfl⟩
  unfold mixStep at h
  split at h
  · cases h
    exact hsame (srv_mixGet s t)
  · cases h
    exact hsame rfl
  · obtain ⟨s₁, hs₁, rfl⟩ := Option.map_eq_some_iff.mp h
    have e := srv_flushSlot hs₁
    exact hsame e
  · cases h
    exact waitTurn_run s t _
  · refine ⟨_, fun e he => ?_, waitRefTurn_run h⟩
    rw [List.mem_singleton.mp he]
    trivial
  · rcases srv_pickSlot h with e | ⟨d, e⟩
    · exact hsame e
    · refine ⟨[.picked d], fun e he => ?_, by rw [e]; rfl⟩
      rw [List.mem_singleton.mp he]
      trivial
  · cases h
    exact hsame rfl
  · cases h
    exact hsame rfl
  · obtain ⟨s₁, hs₁, rfl⟩ := Option.map_eq_some_iff.mp h
    have e := srv_packFree hs₁
    exact hsame e
  · exact hsame (srv_checkSilence h)
  · obtain ⟨s₁, hs₁, rfl⟩ := Option.map_eq_some_iff.mp h
    have e := srv_outdatePack hs₁
    exact hsame e

/-! ### What removals leave of the slots -/

theorem tag_rm {t' : ℤ} {srv : Server} (h : t' ≠ t) (d : ℤ) :
    (tagRmOutstanding srv t d).tag t' = srv.tag t' := by
  have hclose : ∀ x : Server, (mixCloseDev x d).tag = x.tag := fun x => by
    unfold mixCloseDev netmxCloseDev
    split
    · rfl
    · split <;> rfl
  simp only [tagRmOutstanding, hclose]
  split
  · rfl
  · exact Function.update_of_ne h ..

/-- A removal leaves a slot as it is, or clears it. -/
theorem slot_rm (srv : Server) (t d : ℤ) (i : Fin 8) :
    ((tagRmOutstanding srv t d).tag t).mixDevs i = (srv.tag t).mixDevs i ∨
      ((tagRmOutstanding srv t d).tag t).mixDevs i = none := by
  show (view _ t).slot i = (view srv t).slot i ∨ (view _ t).slot i = none
  rcases view_rm srv t d with ⟨-, hv⟩ | ⟨j, -, hv⟩
  · rw [hv]
    exact .inl rfl
  · rw [hv]
    by_cases hij : i = j
    · exact .inr (hij ▸ Function.update_self ..)
    · exact .inl (Function.update_of_ne hij ..)

/-- What the removals of the tag `t` leave of the tags: the others, and of its own slots those that
are not cleared. -/
structure Cleared (t : ℤ) (srv srv' : Server) : Prop where
  other : ∀ t', t' ≠ t → srv'.tag t' = srv.tag t'
  slot : ∀ i, (srv'.tag t).mixDevs i = (srv.tag t).mixDevs i ∨ (srv'.tag t).mixDevs i = none

theorem cleared_of_tag {srv srv' : Server} (h : srv'.tag = srv.tag) : Cleared t srv srv' where
  other t' _ := congrFun h t'
  slot i := .inl (by rw [h])

theorem Cleared.trans {srv srv₁ srv₂ : Server} (h : Cleared t srv srv₁) (h' : Cleared t srv₁ srv₂) :
    Cleared t srv srv₂ where
  other t' ht' := (h'.other t' ht').trans (h.other t' ht')
  slot i := (h'.slot i).elim (fun e => (h.slot i).imp e.trans e.trans) .inr

theorem cleared_hung (srv : Server) (t d : ℤ) : Cleared t srv (hung srv t d) := by
  simp only [hung]
  split
  · exact ⟨fun t' ht' => tag_rm ht' d, slot_rm _ t d⟩
  · exact cleared_of_tag rfl

theorem cleared_step {srv srv' : Server} {e : Event} (he : e.Removes)
    (h : step t srv e = some srv') : Cleared t srv srv' := by
  cases e <;> (simp only [step, Option.some.injEq] at h; subst h)
  case add d => exact he.elim
  case rm d => exact ⟨fun t' ht' => tag_rm ht' d, slot_rm srv t d⟩
  case devTimeouts empty i =>
    split
    · exact cleared_of_tag rfl
    · split
      · exact cleared_hung ..
      · exact cleared_of_tag rfl
  case waitRef empty d =>
    split
    · split
      · exact cleared_of_tag rfl
      · exact cleared_hung ..
    · exact cleared_of_tag rfl
  case picked d => exact cleared_of_tag rfl

/-- The same of a step of the mixing thread. -/
theorem cleared_mixStep {silent : Bool} (h : mixStep s t silent = some s') :
    Cleared t s.srv s'.srv := by
  obtain ⟨es, hes, hrun⟩ := mixStep_run h
  exact of_run_forall (I := fun srv => Cleared t s.srv srv)
    (fun _ _ _ hc he hs => hc.trans (cleared_step he hs)) (cleared_of_tag rfl) hes hrun

end Thread

/-- Counter, bits and reference agree with the slots, and an addition fails only when every slot is
taken. -/
structure SlotsOk (s : Server) (t : ℤ) : Prop where
  count : (s.tag t).mixCount = occupied (· ≠ none) (s.tag t).mixDevs
  apart : Apart (· ≠ none) (s.tag t).mixDevs
  bit : ∀ d, (s.dev d).tag = t → ∀ i : Fin 8,
    (s.dev d).mixbit = 2 ^ i.val ↔ (s.tag t).mixDevs i = some d
  zero : ∀ d, (s.dev d).tag = t →
    ((s.dev d).mixbit = 0 ↔ ∀ i, (s.tag t).mixDevs i ≠ some d)
  ref : 0 < (s.tag t).mixCount → (s.tag t).mixDevs (s.tag t).mixRef ≠ none
  full : ∀ d, (s.dev d).tag = t → ((tagAddOutstanding s t d).dev d).mixbit = 0 →
    ∀ i, (s.tag t).mixDevs i ≠ none

section Always
variable {s : Server} {t : ℤ}

theorem slotsOk_of_inv (h : Inv (view s t)) : SlotsOk s t where
  count := h.count
  apart := h.apart
  bit d hd i := by
    refine ⟨fun hb => ?_, fun hi => (h.slot i d hi).2⟩
    have hbit : (view s t).bit d ≠ 0 := by
      rw [show (view s t).bit d = 2 ^ i.val from hb]
      exact two_pow_ne_zero i
    obtain ⟨j, hj⟩ := h.bit d hd hbit
    rw [two_pow_inj (hb.symm.trans (h.slot j d hj).2)]
    exact hj
  zero d hd := by
    refine ⟨fun hb i hi => two_pow_ne_zero i ((h.slot i d hi).2.symm.trans hb), fun hno => ?_⟩
    by_contra hb
    obtain ⟨i, hi⟩ := h.bit d hd hb
    exact hno i hi
  ref := h.ref
  full d hd hb := by
    replace hb : (view (tagAddOutstanding s t d) t).bit d = 0 := hb
    rcases view_add s t d with ⟨hbit, hv⟩ | ⟨-, hfull, -⟩ | ⟨i, -, -, hv⟩
    · rw [hv] at hb
      exact absurd hb hbit
    · exact hfull
    · rw [hv] at hb
      exact absurd ((Function.update_self ..).symm.trans hb) (two_pow_ne_zero i)

/-- A tag that has just been created, with no device that brings a bit. -/
structure Fresh (s : Server) (t : ℤ) : Prop where
  slot : ∀ i, (s.tag t).mixDevs i = none
  count : (s.tag t).mixCount = 0
  bit : ∀ d, (s.dev d).tag = t → (s.dev d).mixbit = 0

theorem Fresh.inv (h : Fresh s t) : Inv (view s t) where
  count := by
    have hno : occupied (· ≠ none) (view s t).slot = 0 :=
      occupied_eq_zero.mpr fun i => not_not.mpr (h.slot i)
    rw [show (view s t).count = 0 from h.count, hno]
    rfl
  slot i d hi := by
    rw [show (view s t).slot i = none from h.slot i] at hi
    cases hi
  bit d hd hb := absurd (h.bit d hd) hb
  ref hpos := by
    rw [show (view s t).count = 0 from h.count] at hpos
    exact absurd hpos (lt_irrefl 0)

/-- **Along every run** of the operations on devices that keep the tag. -/
theorem slotsOk_always (h : Fresh s t) {es : List Event}
    (hes : ∀ e ∈ es, e.Names fun d => (s.dev d).tag = t) :
    Always (step t) (SlotsOk · t) s es := by
  refine always_of_guarded (G := fun _ _ => True)
    (I := fun s' => Inv (view s' t) ∧ (view s' t).mine = (view s t).mine)
    (fun _ hI => slotsOk_of_inv hI.1) (fun s₁ e hI he _ => ?_) ⟨h.inv, rfl⟩ hes
    (guarded_true s es)
  have hnames : e.Names fun d => (s₁.dev d).tag = t := by
    rw [show (fun d => (s₁.dev d).tag = t) = (view s t).mine from hI.2]
    exact he
  obtain ⟨s₂, hs₂⟩ : ∃ s₂, step t s₁ e = some s₂ := by cases e <;> exact ⟨_, rfl⟩
  obtain ⟨hI₂, hmine⟩ := step_inv hI.1 hnames hs₂
  exact ⟨s₂, hs₂, hI₂, hmine.trans hI.2⟩

theorem fresh_tagCreate (h : ∀ d, (s.dev d).tag = t → (s.dev d).mixbit = 0) :
    Fresh (tagCreate s t) t where
  slot i := by simp [tagCreate, newTag]
  count := by simp [tagCreate, newTag]
  bit := h

/-- The tag 1 has just been created, and every device is put there. -/
def hall : Server :=
  tagCreate { Server.boot OpenRuns.twoClients with dev := fun _ => { newDev 0 with tag := 1 } } 1

theorem slotsOk_always_hall : Always (step 1) (SlotsOk · 1) hall
    [.add 101, .add 102, .devTimeouts (fun _ => true) 0, .rm 101, .waitRef (fun _ => false) 102] :=
  slotsOk_always (fresh_tagCreate fun _ _ => rfl) (by simp [Event.Names, tagCreate])

end Always

end GSConferencing.Serv.Outstanding
