import Mathlib

/-!
# Searching and sorting by a comparison

What the C library promises of `bsearch` and `qsort`, for a comparison that is an order on the
elements it is used for.

* `Consistent cmp l`: `cmp` orders the elements of `l`; `Consistent.of_sub`: as a difference does.
* `Stdlib`: a `bsearch` and a `qsort` that do what is promised.
* `Consistent.parted`: what is sorted may be searched.
* `stdlib`: binary search and insertion sort are such functions.
-/

namespace GSConferencing.Lib.Sorting

variable {α : Type*}

section Order
variable (cmp : α → α → ℤ)

/-- The comparison is an order on the elements of the list. -/
structure Consistent (l : List α) : Prop where
  antisymm : ∀ a ∈ l, ∀ b ∈ l, cmp a b < 0 ↔ 0 < cmp b a
  trans : ∀ a ∈ l, ∀ b ∈ l, ∀ c ∈ l, cmp a b ≤ 0 → cmp b c ≤ 0 → cmp a c ≤ 0

def Ascending (l : List α) : Prop := l.Pairwise fun a b => cmp a b ≤ 0

/-- The elements less than the key, those equal to it and those greater follow each other. -/
def Parted (key : α) (l : List α) : Prop :=
  l.Pairwise fun a b => (0 < cmp key b → 0 < cmp key a) ∧ (cmp key a < 0 → cmp key b < 0)

/-- An element that is equal to the key is found if there is one. -/
def Finds (key : α) (l : List α) : Option α → Prop
  | some a => a ∈ l ∧ cmp key a = 0
  | none => ∀ a ∈ l, cmp key a ≠ 0

end Order

/-- **`bsearch` and `qsort`** of a C library. -/
structure Stdlib (α : Type*) where
  bsearch : (α → α → ℤ) → α → List α → Option α
  qsort : (α → α → ℤ) → List α → List α
  bsearch_spec : ∀ cmp key l, Parted cmp key l → Finds cmp key l (bsearch cmp key l)
  qsort_spec : ∀ cmp l, Consistent cmp l → (qsort cmp l).Perm l ∧ Ascending cmp (qsort cmp l)

variable {cmp : α → α → ℤ} {key : α} {l l' : List α}

theorem Consistent.subset (h : Consistent cmp l) (hl : l' ⊆ l) : Consistent cmp l' where
  antisymm := fun a ha b hb => h.antisymm a (hl ha) b (hl hb)
  trans := fun a ha b hb c hc => h.trans a (hl ha) b (hl hb) c (hl hc)

/-- A difference of numbers is consistent. -/
theorem Consistent.of_sub {f : α → ℤ} (h : ∀ a ∈ l, ∀ b ∈ l, cmp a b = f a - f b) :
    Consistent cmp l where
  antisymm := fun a ha b hb => by
    rw [h a ha b hb, h b hb a ha]
    omega
  trans := fun a ha b hb c hc => by
    rw [h a ha b hb, h b hb c hc, h a ha c hc]
    omega

/-- **What is sorted may be searched** for anything that fits in the order. -/
theorem Consistent.parted (h : Consistent cmp (key :: l)) (hl : Ascending cmp l) :
    Parted cmp key l := by
  refine hl.imp_of_mem fun {a b} ha hb hab => ?_
  have hk : key ∈ key :: l := List.mem_cons_self
  replace ha := List.mem_cons_of_mem key ha
  replace hb := List.mem_cons_of_mem key hb
  constructor
  · intro hpos
    by_contra hn
    have := h.trans key hk a ha b hb (not_lt.mp hn) hab
    omega
  · intro hneg
    refine (h.antisymm key hk b hb).mpr ?_
    by_contra hn
    have hle := h.trans a ha b hb key hk hab (not_lt.mp hn)
    have hlt := (h.antisymm key hk a ha).mp hneg
    omega

/-! ## Binary search -/

/-- The loop of `bsearch` between the places `lo` and `hi`. -/
def searchLoop (cmp : α → α → ℤ) (key : α) (l : List α) : ℕ → ℕ → ℕ → Option α
  | 0, _, _ => none
  | fuel + 1, lo, hi =>
    if lo < hi then
      let i := (lo + hi) / 2
      match l[i]? with
      | none => none
      | some a =>
        if cmp key a < 0 then searchLoop cmp key l fuel lo i
        else if 0 < cmp key a then searchLoop cmp key l fuel (i + 1) hi
        else some a
    else none

def binarySearch (cmp : α → α → ℤ) (key : α) (l : List α) : Option α :=
  searchLoop cmp key l (l.length + 1) 0 l.length

/-- What is equal to the key is between `lo` and `hi`. -/
theorem searchLoop_spec (hp : Parted cmp key l) {fuel lo hi : ℕ} (hhi : hi ≤ l.length)
    (hfuel : hi - lo < fuel)
    (hin : ∀ i a, l[i]? = some a → cmp key a = 0 → lo ≤ i ∧ i < hi) :
    Finds cmp key l (searchLoop cmp key l fuel lo hi) := by
  induction fuel generalizing lo hi with
  | zero => omega
  | succ fuel ih =>
    unfold searchLoop
    split_ifs with hlt
    swap
    · intro a ha heq
      obtain ⟨i, hi⟩ := List.mem_iff_getElem?.mp ha
      have := hin i a hi heq
      omega
    have hmid : (lo + hi) / 2 < l.length := by omega
    have hget := List.getElem?_eq_getElem hmid
    have hpair := List.pairwise_iff_getElem.mp hp
    simp only [hget]
    -- a place on the wrong side of the middle is not equal to the key
    split_ifs with hneg hpos
    · refine ih (by omega) (by omega) fun i a hi heq => ?_
      obtain ⟨h, rfl⟩ := List.getElem?_eq_some_iff.mp hi
      have hlo := (hin i _ hi heq).1
      refine ⟨hlo, ?_⟩
      by_contra hge
      rcases Nat.lt_or_eq_of_le (not_lt.mp hge) with hlt' | rfl
      · have := (hpair _ _ hmid h hlt').2 hneg
        omega
      · omega
    · refine ih hhi (by omega) fun i a hi heq => ?_
      obtain ⟨h, rfl⟩ := List.getElem?_eq_some_iff.mp hi
      refine ⟨?_, (hin i _ hi heq).2⟩
      by_contra hlt'
      rcases Nat.lt_or_eq_of_le (Nat.le_of_lt_succ (not_le.mp hlt')) with hlt' | rfl
      · have := (hpair _ _ h hmid hlt').1 hpos
        omega
      · omega
    · exact ⟨List.getElem_mem hmid, by omega⟩

theorem binarySearch_spec (hp : Parted cmp key l) : Finds cmp key l (binarySearch cmp key l) :=
  searchLoop_spec hp le_rfl (by omega) fun _ _ hi _ =>
    ⟨Nat.zero_le _, (List.getElem?_eq_some_iff.mp hi).1⟩

/-! ## Insertion sort -/

def sortBy (cmp : α → α → ℤ) (l : List α) : List α := l.insertionSort fun a b => cmp a b ≤ 0

theorem ascending_insert {a : α} (h : Consistent cmp (a :: l)) (hl : Ascending cmp l) :
    Ascending cmp (l.orderedInsert (fun a b => cmp a b ≤ 0) a) := by
  induction l with
  | nil => exact List.pairwise_singleton _ _
  | cons b l ih =>
    have ha : a ∈ a :: b :: l := List.mem_cons_self
    have hb : b ∈ a :: b :: l := List.mem_cons_of_mem a List.mem_cons_self
    obtain ⟨hfirst, hrest⟩ := List.pairwise_cons.mp hl
    rw [List.orderedInsert]
    split_ifs with hle
    · refine List.pairwise_cons.mpr ⟨fun c hc => ?_, hl⟩
      rcases List.mem_cons.mp hc with rfl | hc
      · exact hle
      · exact h.trans a ha b hb c (List.mem_cons_of_mem a (List.mem_cons_of_mem b hc)) hle
          (hfirst c hc)
    · have hsub : a :: l ⊆ a :: b :: l :=
        List.cons_subset_cons a (List.subset_cons_self b l)
      refine List.pairwise_cons.mpr ⟨fun c hc => ?_, ih (h.subset hsub) hrest⟩
      rcases List.mem_cons.mp ((List.perm_orderedInsert _ a l).mem_iff.mp hc) with rfl | hc
      · exact ((h.antisymm b hb c ha).mpr (not_le.mp hle)).le
      · exact hfirst c hc

theorem sortBy_spec (h : Consistent cmp l) :
    (sortBy cmp l).Perm l ∧ Ascending cmp (sortBy cmp l) := by
  refine ⟨List.perm_insertionSort _ l, ?_⟩
  induction l with
  | nil => exact List.Pairwise.nil
  | cons a l ih =>
    have hperm : (sortBy cmp l).Perm l := List.perm_insertionSort _ l
    refine ascending_insert (h.subset ?_) (ih (h.subset (List.subset_cons_self a l)))
    exact List.cons_subset_cons a hperm.subset

/-- **A library** of binary search and insertion sort. -/
def stdlib : Stdlib α where
  bsearch := binarySearch
  qsort := sortBy
  bsearch_spec := fun _ _ _ h => binarySearch_spec h
  qsort_spec := fun _ _ h => sortBy_spec h

end GSConferencing.Lib.Sorting
