import GSConferencing.Lib.CyclicList

/-!
# `list.h`

The intrusive lists of `include/list.h`: every operation is the sequence of reads and writes of
the source on the link fields, and has no result where it would follow a null pointer.  On a family
of rings (`CyclicList.Rings`) the operations are the ones their names promise; on anything else
(an entry that is linked already, a list that was reinitialised under its entries) they do what the
pointers say.
-/

namespace GSConferencing.Include.ListHead

open GSConferencing.Lib.CyclicList

variable {η α : Type*} [DecidableEq η] [DecidableEq α]

/-- `list_add`: after the head. -/
def listAdd (L : Links η α) (new head : Node η α) : Option (Links η α) := do
  let next ← L.next head
  some (L.link new head next)

/-- `list_add_tail`: before the head. -/
def listAddTail (L : Links η α) (new head : Node η α) : Option (Links η α) := do
  let prev ← L.prev head
  some (L.link new prev head)

/-- `list_del`. -/
def listDel (L : Links η α) (entry : Node η α) : Option (Links η α) := do
  let prev ← L.prev entry
  let next ← L.next entry
  some (((L.unlink prev next).setNext entry none).setPrev entry none)

/-- `list_move`. -/
def listMove (L : Links η α) (list head : Node η α) : Option (Links η α) := do
  let prev ← L.prev list
  let next ← L.next list
  listAdd (L.unlink prev next) list head

/-- `list_empty`. -/
def listEmpty (L : Links η α) (head : Node η α) : Bool := L.next head = some head

/-! ## On rings -/

section Rings
variable {L : Links η α} {live : η → Prop} {ls : η → List α} {h : η}

/-- The entries other than `x` that are in no list keep their links. -/
def FreeKept (L L' : Links η α) (live : η → Prop) (ls : η → List α) (x : α) : Prop :=
  ∀ y, y ≠ x → (∀ h', live h' → y ∉ ls h') →
    L'.next (.entry y) = L.next (.entry y) ∧ L'.prev (.entry y) = L.prev (.entry y)

omit [DecidableEq η] [DecidableEq α] in
theorem entry_ne_of_free {l : List α} {y : α} (hy : y ∉ l) {z : Node η α} (hz : z ∈ front h l) :
    (.entry y : Node η α) ≠ z := by
  rintro rfl
  rcases mem_front.mp hz with h₁ | ⟨a, ha, h₁⟩ <;> cases h₁
  exact hy ha

theorem freeKept_link (hl : live h) {l₁ l₂ : List α} (hls : ls h = l₁ ++ l₂) (x : α) :
    FreeKept L (L.link (.entry x) (pred h l₁) (succ h l₂)) live ls x := by
  intro y hyx hy
  have hp := entry_ne_of_free (hls ▸ hy h hl) (pred_mem_append h l₁ l₂)
  have hs := entry_ne_of_free (hls ▸ hy h hl) (succ_mem_append h l₁ l₂)
  simp [Links.link, hp, hs, hyx]

/-- An entry that is in no list is added at the end. -/
theorem listAddTail_ring {l : List α} (hr : Ring L h l) {x : α} (hx : x ∉ l) :
    ∃ L', listAddTail L (.entry x) (.head h) = some L' ∧ Ring L' h (l ++ [x]) := by
  have hr' : Ring L h (l ++ []) := (List.append_nil l).symm ▸ hr
  exact ⟨_, by rw [listAddTail, hr.head_prev]; rfl, hr'.link ((List.append_nil l).symm ▸ hx)⟩

theorem listAddTail_rings (hr : Rings L live ls) (hl : live h) {x : α}
    (hx : ∀ h', live h' → x ∉ ls h') :
    ∃ L', listAddTail L (.entry x) (.head h) = some L' ∧
      Rings L' live (Function.update ls h (ls h ++ [x])) ∧ FreeKept L L' live ls x :=
  ⟨_, by simp only [listAddTail, (hr.ring h hl).head_prev]; rfl,
    hr.link hl (List.append_nil _).symm hx,
    freeKept_link hl (List.append_nil _).symm x⟩

theorem listAdd_rings (hr : Rings L live ls) (hl : live h) {x : α}
    (hx : ∀ h', live h' → x ∉ ls h') :
    ∃ L', listAdd L (.entry x) (.head h) = some L' ∧
      Rings L' live (Function.update ls h (x :: ls h)) ∧ FreeKept L L' live ls x :=
  ⟨_, by simp only [listAdd, (hr.ring h hl).head_next]; rfl,
    hr.link hl (List.nil_append _).symm hx, freeKept_link hl (List.nil_append _).symm x⟩

theorem notMem_update_erase (hr : Rings L live ls) (hl : live h) {x : α} (hx : x ∈ ls h) :
    ∀ h', live h' → x ∉ Function.update ls h ((ls h).erase x) h' := by
  intro h' hl'
  by_cases e : h' = h
  · subst e
    rw [Function.update_self]
    exact (hr.ring h' hl').nodup.not_mem_erase
  · rw [Function.update_of_ne e]
    exact fun hx' => e (hr.disj h' h x hl' hl hx' hx)

omit [DecidableEq η] in
theorem erase_split {l₁ l₂ : List α} {x : α} (hn : (l₁ ++ x :: l₂).Nodup) :
    (l₁ ++ x :: l₂).erase x = l₁ ++ l₂ := by
  have hx : x ∉ l₁ := fun hx => (List.nodup_append.mp hn).2.2 x hx x (by simp) rfl
  rw [List.erase_append_right _ hx, List.erase_cons_head]

/-- The nodes around an entry, and the list after they are joined. -/
theorem unlink_rings (hr : Rings L live ls) (hl : live h) {x : α} (hx : x ∈ ls h) :
    ∃ p n, L.prev (.entry x) = some p ∧ L.next (.entry x) = some n ∧
      Rings (L.unlink p n) live (Function.update ls h ((ls h).erase x)) ∧
      p ∈ front h (ls h) ∧ n ∈ front h (ls h) := by
  obtain ⟨l₁, l₂, hls⟩ := List.append_of_mem hx
  have hring : Ring L h (l₁ ++ x :: l₂) := hls ▸ hr.ring h hl
  refine ⟨_, _, hring.entry_prev, hring.entry_next, ?_, ?_, ?_⟩
  · have := hr.unlink hl hls
    rwa [← erase_split hring.nodup, ← hls] at this
  · exact hls ▸ pred_mem_append h l₁ (x :: l₂)
  · have := succ_mem_append h (l₁ ++ [x]) l₂
    rwa [List.append_assoc, List.singleton_append, ← hls] at this

theorem listDel_rings (hr : Rings L live ls) (hl : live h) {x : α} (hx : x ∈ ls h) :
    ∃ L', listDel L (.entry x) = some L' ∧
      Rings L' live (Function.update ls h ((ls h).erase x)) ∧ FreeKept L L' live ls x ∧
      L'.next (.entry x) = none ∧ L'.prev (.entry x) = none := by
  obtain ⟨p, n, hp, hn, hr', hpm, hnm⟩ := unlink_rings hr hl hx
  refine ⟨_, by simp only [listDel, hp, hn]; rfl, ?_, ?_, by simp, by simp⟩
  · exact hr'.of_free (notMem_update_erase hr hl hx) fun y hy => by simp [hy]
  · intro y hyx hy
    have h₁ := entry_ne_of_free (hy h hl) hpm
    have h₂ := entry_ne_of_free (hy h hl) hnm
    simp [Links.unlink, h₁, h₂, hyx]

/-- `list_move` within one list, to its front. -/
theorem listMove_rings (hr : Rings L live ls) (hl : live h) {x : α} (hx : x ∈ ls h) :
    ∃ L', listMove L (.entry x) (.head h) = some L' ∧
      Rings L' live (Function.update ls h (x :: (ls h).erase x)) ∧ FreeKept L L' live ls x := by
  obtain ⟨p, n, hp, hn, hr', hpm, hnm⟩ := unlink_rings hr hl hx
  have hfree := notMem_update_erase hr hl hx
  obtain ⟨L', hL', hr'', hk⟩ := listAdd_rings hr' hl hfree
  refine ⟨L', by simp only [listMove, hp, hn]; exact hL', ?_, fun y hyx hy => ?_⟩
  · simpa using hr''
  · have hy' : ∀ h', live h' → y ∉ Function.update ls h ((ls h).erase x) h' := by
      intro h' hl'
      by_cases e : h' = h
      · subst e
        rw [Function.update_self]
        exact fun hm => hy h' hl' (List.mem_of_mem_erase hm)
      · rw [Function.update_of_ne e]
        exact hy h' hl'
    obtain ⟨h₁, h₂⟩ := hk y hyx hy'
    have h₃ := entry_ne_of_free (hy h hl) hpm
    have h₄ := entry_ne_of_free (hy h hl) hnm
    rw [h₁, h₂]
    simp [Links.unlink, h₃, h₄]

theorem listEmpty_rings (hr : Rings L live ls) (hl : live h) :
    listEmpty L (.head h) = true ↔ ls h = [] := by
  rw [listEmpty, decide_eq_true_eq, (hr.ring h hl).head_next]
  cases ls h <;> simp [succ]

end Rings

end GSConferencing.Include.ListHead
