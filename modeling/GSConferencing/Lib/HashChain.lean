import Mathlib

/-!
# Chains of a hash table

The memory of a table of singly linked chains, whose nodes know where the pointer to them is.  A
`Slot` is such a place: the first pointer of a chain, or the next pointer of a node.  `Chain C s l`
says that the pointers lead from the slot `s` through the nodes `l` to the null pointer, and that
each node knows its slot.

* `Chain.of_agree`: a chain whose fields keep their values.
* `Buckets.pushFront`, `Buckets.unlink`: what the writes do to a table whose chains share no node.
* `Chain.search_eq`, `Chain.walk_eq`: a loop along the pointers is a loop over the list.
-/

namespace GSConferencing.Lib.HashChain

/-- A place that holds a pointer to a node. -/
inductive Slot (κ α : Type*) where
  | first (k : κ)
  | next (a : α)
  deriving DecidableEq

/-- The pointers in all slots, and the slot that each node knows. -/
structure Chains (κ α : Type*) where
  ptr : Slot κ α → Option α
  pprev : α → Option (Slot κ α)

variable {κ α : Type*}

namespace Chains

section Writes
variable [DecidableEq α] (C : Chains κ α)

def setPprev (a : α) (s : Slot κ α) : Chains κ α :=
  { C with pprev := Function.update C.pprev a (some s) }

/-- A node, if there is one, gets another slot. -/
def setPprevOf (n : Option α) (s : Slot κ α) : Chains κ α := n.elim C fun b => C.setPprev b s

@[simp] theorem setPprev_pprev (a b : α) (s : Slot κ α) :
    (C.setPprev a s).pprev b = if b = a then some s else C.pprev b := by
  simp only [setPprev, Function.update_apply]

@[simp] theorem setPprev_ptr (a : α) (s : Slot κ α) : (C.setPprev a s).ptr = C.ptr := rfl

@[simp] theorem setPprevOf_ptr (n : Option α) (s : Slot κ α) : (C.setPprevOf n s).ptr = C.ptr := by
  cases n <;> rfl

@[simp] theorem setPprevOf_pprev (n : Option α) (s : Slot κ α) (b : α) :
    (C.setPprevOf n s).pprev b = if n = some b then some s else C.pprev b := by
  cases n with
  | none => rfl
  | some a =>
    simp only [setPprevOf, Option.elim_some, setPprev_pprev, Option.some.injEq, eq_comm]

variable [DecidableEq κ]

def setPtr (s : Slot κ α) (v : Option α) : Chains κ α := { C with ptr := Function.update C.ptr s v }

@[simp] theorem setPtr_ptr (s t : Slot κ α) (v : Option α) :
    (C.setPtr s v).ptr t = if t = s then v else C.ptr t := by
  simp only [setPtr, Function.update_apply]

@[simp] theorem setPtr_pprev (s : Slot κ α) (v : Option α) : (C.setPtr s v).pprev = C.pprev := rfl

/-- The node `a` is put in front of the chain `k`. -/
def pushFront (k : κ) (a : α) : Chains κ α :=
  let n := C.ptr (.first k)
  (((C.setPtr (.next a) n).setPprevOf n (.next a)).setPtr (.first k) (some a)).setPprev a (.first k)

/-- The node `a`, which is in the slot `s`, is taken out of its chain. -/
def unlink (a : α) (s : Slot κ α) : Chains κ α :=
  let n := C.ptr (.next a)
  (C.setPprevOf n s).setPtr s n

end Writes

/-- The search from a pointer on for a node that passes a test, in at most `n` nodes; a test may
have no result. -/
def search (C : Chains κ α) (test : α → Option Bool) : ℕ → Option α → Option (Option α)
  | _, none => some none
  | 0, some _ => none
  | n + 1, some a => (test a).bind fun b =>
    if b then some (some a) else search C test n (C.ptr (.next a))

/-- The nodes from a pointer on, if there are no more than `n`. -/
def walk (C : Chains κ α) : ℕ → Option α → Option (List α)
  | _, none => some []
  | 0, some _ => none
  | n + 1, some a => (walk C n (C.ptr (.next a))).map fun l => a :: l

end Chains

theorem next_ne {a b : α} (h : b ≠ a) : (.next b : Slot κ α) ≠ .next a := fun h' =>
  h (Slot.next.inj h')

theorem next_ne_first (a : α) (k : κ) : (.next a : Slot κ α) ≠ .first k := nofun

theorem first_ne_next (k : κ) (a : α) : (.first k : Slot κ α) ≠ .next a := nofun

/-! ## Chains -/

/-- The pointers lead from the slot through the nodes of the list, and each node knows its slot. -/
def Chain (C : Chains κ α) : Slot κ α → List α → Prop
  | s, [] => C.ptr s = none
  | s, a :: l => C.ptr s = some a ∧ C.pprev a = some s ∧ Chain C (.next a) l

variable {C C' : Chains κ α} {s : Slot κ α} {l : List α} {a : α}

theorem Chain.ptr_eq (h : Chain C s l) : C.ptr s = l.head? := by
  cases l with
  | nil => exact h
  | cons a l => exact h.1

/-- **A chain** whose fields keep their values. -/
theorem Chain.of_agree (h : Chain C s l) (hs : C'.ptr s = C.ptr s)
    (hnext : ∀ a ∈ l, C'.ptr (.next a) = C.ptr (.next a))
    (hpprev : ∀ a ∈ l, C'.pprev a = C.pprev a) : Chain C' s l := by
  induction l generalizing s with
  | nil => exact hs.trans h
  | cons a l ih =>
    refine ⟨hs.trans h.1, (hpprev a List.mem_cons_self).trans h.2.1, ?_⟩
    exact ih h.2.2 (hnext a List.mem_cons_self) (fun b hb => hnext b (List.mem_cons_of_mem a hb))
      fun b hb => hpprev b (List.mem_cons_of_mem a hb)

/-- The slot of a node is the one that the chain starts from, or one of a node before it. -/
theorem Chain.pprev_mem (h : Chain C s l) (ha : a ∈ l) :
    ∃ t, C.pprev a = some t ∧ C.ptr t = some a ∧ (t = s ∨ ∃ b ∈ l, t = .next b) := by
  induction l generalizing s with
  | nil => exact absurd ha List.not_mem_nil
  | cons b l ih =>
    rcases List.mem_cons.mp ha with rfl | ha
    · exact ⟨s, h.2.1, h.1, .inl rfl⟩
    · obtain ⟨t, ht, hptr, rfl | ⟨c, hc, rfl⟩⟩ := ih h.2.2 ha
      · exact ⟨_, ht, hptr, .inr ⟨b, List.mem_cons_self, rfl⟩⟩
      · exact ⟨_, ht, hptr, .inr ⟨c, List.mem_cons_of_mem b hc, rfl⟩⟩

/-- The node behind a node of the chain. -/
theorem Chain.next_mem (h : Chain C s l) (ha : a ∈ l) {b : α} (hb : C.ptr (.next a) = some b) :
    b ∈ l := by
  induction l generalizing s with
  | nil => exact absurd ha List.not_mem_nil
  | cons c l ih =>
    rcases List.mem_cons.mp ha with rfl | ha
    · have hhead := h.2.2.ptr_eq
      rw [hb] at hhead
      exact List.mem_cons_of_mem _ (List.mem_of_mem_head? hhead.symm)
    · exact List.mem_cons_of_mem c (ih h.2.2 ha)

/-- **A search** along the pointers is a search in the list. -/
theorem Chain.search_eq {test : α → Option Bool} {p : α → Bool} (h : Chain C s l)
    (htest : ∀ a ∈ l, test a = some (p a)) {n : ℕ} (hn : l.length ≤ n) :
    C.search test n (C.ptr s) = some (l.find? p) := by
  induction l generalizing s n with
  | nil =>
    rw [h.ptr_eq, List.head?_nil]
    cases n <;> rfl
  | cons a l ih =>
    obtain ⟨n, rfl⟩ : ∃ m, n = m + 1 := ⟨n - 1, by rw [List.length_cons] at hn; omega⟩
    rw [h.1, Chains.search, htest a List.mem_cons_self, Option.bind_some]
    cases hp : p a with
    | true => rw [if_pos rfl, List.find?_cons_of_pos hp]
    | false =>
      rw [if_neg Bool.false_ne_true, List.find?_cons_of_neg (by rw [hp]; exact Bool.false_ne_true)]
      exact ih h.2.2 (fun b hb => htest b (List.mem_cons_of_mem a hb)) (Nat.le_of_succ_le_succ hn)

theorem Chain.walk_eq (h : Chain C s l) {n : ℕ} (hn : l.length ≤ n) :
    C.walk n (C.ptr s) = some l := by
  induction l generalizing s n with
  | nil =>
    rw [h.ptr_eq, List.head?_nil]
    cases n <;> rfl
  | cons a l ih =>
    obtain ⟨n, rfl⟩ : ∃ m, n = m + 1 := ⟨n - 1, by rw [List.length_cons] at hn; omega⟩
    rw [h.1, Chains.walk, ih h.2.2 (Nat.le_of_succ_le_succ hn)]
    rfl

/-! ## Tables -/

/-- Every chain of the table is well formed, and no node is in two chains. -/
structure Buckets (C : Chains κ α) (ls : κ → List α) : Prop where
  chain : ∀ k, Chain C (.first k) (ls k)
  nodup : ∀ k, (ls k).Nodup
  disj : ∀ k k' a, a ∈ ls k → a ∈ ls k' → k = k'

/-- A table of null pointers. -/
theorem Buckets.of_null (h : ∀ k, C.ptr (.first k) = none) : Buckets C fun _ => [] where
  chain := h
  nodup _ := List.nodup_nil
  disj _ _ _ ha _ := absurd ha List.not_mem_nil

section Writes
variable [DecidableEq κ] [DecidableEq α] {ls : κ → List α} {k : κ} {t : Slot κ α}

theorem pushFront_ptr (C : Chains κ α) (k : κ) (a : α) (t : Slot κ α) :
    (C.pushFront k a).ptr t =
      if t = .first k then some a else if t = .next a then C.ptr (.first k) else C.ptr t := by
  simp only [Chains.pushFront, Chains.setPprev_ptr, Chains.setPtr_ptr, Chains.setPprevOf_ptr]

theorem pushFront_pprev (C : Chains κ α) (k : κ) (a b : α) :
    (C.pushFront k a).pprev b = if b = a then some (.first k)
      else if C.ptr (.first k) = some b then some (.next a) else C.pprev b := by
  simp only [Chains.pushFront, Chains.setPprev_pprev, Chains.setPtr_pprev, Chains.setPprevOf_pprev]

theorem unlink_ptr (C : Chains κ α) (a : α) (s t : Slot κ α) :
    (C.unlink a s).ptr t = if t = s then C.ptr (.next a) else C.ptr t := by
  simp only [Chains.unlink, Chains.setPtr_ptr, Chains.setPprevOf_ptr]

theorem unlink_pprev (C : Chains κ α) (a b : α) (s : Slot κ α) :
    (C.unlink a s).pprev b = if C.ptr (.next a) = some b then some s else C.pprev b := by
  simp only [Chains.unlink, Chains.setPtr_pprev, Chains.setPprevOf_pprev]

/-- **A new node** in front of a chain. -/
theorem Chain.pushFront (h : Chain C (.first k) l) (hnd : l.Nodup) (ha : a ∉ l) :
    Chain (C.pushFront k a) (.first k) (a :: l) := by
  have hne : ∀ b ∈ l, b ≠ a := fun b hb hba => ha (hba ▸ hb)
  refine ⟨by rw [pushFront_ptr, if_pos rfl], by rw [pushFront_pprev, if_pos rfl], ?_⟩
  have hnext : (C.pushFront k a).ptr (.next a) = C.ptr (.first k) := by
    rw [pushFront_ptr, if_neg (next_ne_first a k), if_pos rfl]
  cases l with
  | nil => exact hnext.trans h
  | cons b l =>
    obtain ⟨hb, -⟩ := List.nodup_cons.mp hnd
    have hother : ∀ x ∈ b :: l, (C.pushFront k a).ptr (.next x) = C.ptr (.next x) := fun x hx => by
      rw [pushFront_ptr, if_neg (next_ne_first x k), if_neg (next_ne (hne x hx))]
    refine ⟨hnext.trans h.1, ?_, h.2.2.of_agree (hother b List.mem_cons_self)
      (fun x hx => hother x (List.mem_cons_of_mem b hx)) fun x hx => ?_⟩
    · rw [pushFront_pprev, if_neg (hne b List.mem_cons_self), if_pos h.1]
    · have hxb : ¬ C.ptr (.first k) = some x := by
        intro h'
        obtain rfl : b = x := Option.some.inj (h.1.symm.trans h')
        exact hb hx
      rw [pushFront_pprev, if_neg (hne x (List.mem_cons_of_mem b hx)), if_neg hxb]

/-- **A node is taken out** of a chain. -/
theorem Chain.unlink (h : Chain C s l) (hnd : l.Nodup) (hs : ∀ b ∈ l, s ≠ .next b) (ha : a ∈ l)
    (ht : C.pprev a = some t) : Chain (C.unlink a t) s (l.erase a) := by
  induction l generalizing s with
  | nil => exact absurd ha List.not_mem_nil
  | cons b l ih =>
    obtain ⟨hb, hl⟩ := List.nodup_cons.mp hnd
    by_cases hab : a = b
    · subst hab
      obtain rfl : s = t := Option.some.inj (h.2.1.symm.trans ht)
      rw [List.erase_cons_head]
      have hfirst : (C.unlink a s).ptr s = C.ptr (.next a) := by rw [unlink_ptr, if_pos rfl]
      cases l with
      | nil => exact hfirst.trans h.2.2
      | cons c l =>
        obtain ⟨hc, -⟩ := List.nodup_cons.mp hl
        have hother : ∀ x ∈ c :: l, (C.unlink a s).ptr (.next x) = C.ptr (.next x) := fun x hx => by
          rw [unlink_ptr, if_neg (hs x (List.mem_cons_of_mem _ hx)).symm]
        refine ⟨hfirst.trans h.2.2.1, by rw [unlink_pprev, if_pos h.2.2.1],
          h.2.2.2.2.of_agree (hother c List.mem_cons_self)
            (fun x hx => hother x (List.mem_cons_of_mem c hx)) fun x hx => ?_⟩
        have hxc : ¬ C.ptr (.next a) = some x := by
          intro h'
          obtain rfl : c = x := Option.some.inj (h.2.2.1.symm.trans h')
          exact hc hx
        rw [unlink_pprev, if_neg hxc]
    · have hal : a ∈ l := (List.mem_cons.mp ha).resolve_left hab
      have hst : s ≠ t := by
        obtain ⟨t', ht', -, hmem⟩ := h.2.2.pprev_mem hal
        obtain rfl : t' = t := Option.some.inj (ht'.symm.trans ht)
        rcases hmem with rfl | ⟨c, hc, rfl⟩
        · exact hs b List.mem_cons_self
        · exact hs c (List.mem_cons_of_mem b hc)
      have hnot : ¬ C.ptr (.next a) = some b := fun h' => hb (h.2.2.next_mem hal h')
      rw [List.erase_cons_tail (by simpa using Ne.symm hab)]
      refine ⟨by rw [unlink_ptr, if_neg hst]; exact h.1,
        by rw [unlink_pprev, if_neg hnot]; exact h.2.1, ih h.2.2 hl (fun c hc => ?_) hal⟩
      exact next_ne fun hbc => hb (hbc ▸ hc)

/-- **A new node** in front of a chain leaves the other chains as they are. -/
theorem Buckets.pushFront (h : Buckets C ls) (ha : ∀ k, a ∉ ls k) (k : κ) :
    Buckets (C.pushFront k a) (Function.update ls k (a :: ls k)) := by
  refine ⟨fun k' => ?_, fun k' => ?_, fun k₁ k₂ b h₁ h₂ => ?_⟩
  · by_cases hk : k' = k
    · subst hk
      rw [Function.update_self]
      exact (h.chain k').pushFront (h.nodup k') (ha k')
    · rw [Function.update_of_ne hk]
      have hne : ∀ b ∈ ls k', b ≠ a := fun b hb hba => ha k' (hba ▸ hb)
      refine (h.chain k').of_agree ?_ (fun b hb => ?_) fun b hb => ?_
      · rw [pushFront_ptr, if_neg fun h' => hk (Slot.first.inj h'),
          if_neg (first_ne_next k' a)]
      · rw [pushFront_ptr, if_neg (next_ne_first b k), if_neg (next_ne (hne b hb))]
      · have hfirst : ¬ C.ptr (.first k) = some b := fun h' => by
          rw [(h.chain k).ptr_eq] at h'
          exact hk (h.disj k' k b hb (List.mem_of_mem_head? h'))
        rw [pushFront_pprev, if_neg (hne b hb), if_neg hfirst]
  · by_cases hk : k' = k
    · subst hk
      rw [Function.update_self]
      exact List.nodup_cons.mpr ⟨ha k', h.nodup k'⟩
    · rw [Function.update_of_ne hk]
      exact h.nodup k'
  · have hmem : ∀ k', b ∈ Function.update ls k (a :: ls k) k' → b = a ∧ k' = k ∨ b ∈ ls k' := by
      intro k' hb
      by_cases hk : k' = k
      · subst hk
        rw [Function.update_self] at hb
        exact (List.mem_cons.mp hb).imp (fun hba => ⟨hba, rfl⟩) id
      · rw [Function.update_of_ne hk] at hb
        exact .inr hb
    rcases hmem k₁ h₁ with ⟨hba, rfl⟩ | hold₁ <;> rcases hmem k₂ h₂ with ⟨hba', rfl⟩ | hold₂
    · rfl
    · exact absurd (hba ▸ hold₂) (ha k₂)
    · exact absurd (hba' ▸ hold₁) (ha k₁)
    · exact h.disj k₁ k₂ b hold₁ hold₂

/-- **A node is taken out** of its chain, and the other chains stay as they are. -/
theorem Buckets.unlink (h : Buckets C ls) (ha : a ∈ ls k) :
    ∃ t, C.pprev a = some t ∧
      Buckets (C.unlink a t) (Function.update ls k ((ls k).erase a)) := by
  obtain ⟨t, ht, -, hmem⟩ := (h.chain k).pprev_mem ha
  have hsub : ∀ k' b, b ∈ Function.update ls k ((ls k).erase a) k' → b ∈ ls k' := by
    intro k' b hb
    by_cases hk : k' = k
    · subst hk
      rw [Function.update_self] at hb
      exact List.mem_of_mem_erase hb
    · rwa [Function.update_of_ne hk] at hb
  refine ⟨t, ht, fun k' => ?_, fun k' => ?_, fun k₁ k₂ b h₁ h₂ => h.disj k₁ k₂ b (hsub k₁ b h₁)
    (hsub k₂ b h₂)⟩
  · by_cases hk : k' = k
    · subst hk
      rw [Function.update_self]
      exact (h.chain k').unlink (h.nodup k') (fun b _ => first_ne_next k' b) ha ht
    · rw [Function.update_of_ne hk]
      refine (h.chain k').of_agree ?_ (fun b hb => ?_) fun b hb => ?_
      · refine (unlink_ptr ..).trans (if_neg ?_)
        rcases hmem with rfl | ⟨c, -, rfl⟩
        · exact fun h' => hk (Slot.first.inj h')
        · exact first_ne_next k' c
      · refine (unlink_ptr ..).trans (if_neg ?_)
        rcases hmem with rfl | ⟨c, hc, rfl⟩
        · exact next_ne_first b k
        · exact next_ne fun hbc => hk (h.disj k' k b hb (hbc ▸ hc))
      · refine (unlink_pprev ..).trans (if_neg fun h' => hk ?_)
        exact h.disj k' k b hb ((h.chain k).next_mem ha h')
  · by_cases hk : k' = k
    · subst hk
      rw [Function.update_self]
      exact (h.nodup k').erase a
    · rw [Function.update_of_ne hk]
      exact h.nodup k'

end Writes

end GSConferencing.Lib.HashChain
