import GSConferencing.Lib.Run
import GSConferencing.Lib.Sorting

/-!
# The broadcast addresses of a tag

`tag_add_bcast` of `tag.c` searches a sorted array with `bsearch`, and sorts it with `qsort` when
an address is new.  The comparison `sincmp` subtracts addresses modulo `2 ^ 32`, so it orders
addresses on an arc of less than half of the circle, and no others.

* `sincmp_arc`: on an arc the comparison is a difference of numbers; `consistent_iff`.
* `add_inv`: one call, as long as there is such an arc.
* `listed_always`: the list is free of duplicates and complete along every run on an arc.
* `second_copy`: six addresses around the circle.
-/

namespace GSConferencing.Serv.Bcasts

open GSConferencing.Lib.Run GSConferencing.Lib.Sorting

variable {P : Type*}

/-- Room in `bcasts`. -/
def maxBcasts : ℕ := 64

section Source
variable (C : Stdlib P) (sAddr : P → BitVec 32)

/-- `sincmp`: the difference of the addresses as an `int`. -/
def sincmp (p q : P) : ℤ := (sAddr p - sAddr q).toInt

/-- `tag_add_bcast`, for a pointer to an address that is not modified; `bcasts` has `bcast_size`
elements. -/
def tagAddBcast (bcasts : List P) (bcast : P) : List P :=
  if maxBcasts ≤ bcasts.length then bcasts
  else match C.bsearch (sincmp sAddr) bcast bcasts with
    | some _ => bcasts
    | none => C.qsort (sincmp sAddr) (bcasts ++ [bcast])

/-- The list, and what was added to it, newest first. -/
structure BcastList (P : Type*) where
  bcasts : List P
  added : List P

def init : BcastList P := ⟨[], []⟩

def step (s : BcastList P) (bcast : P) : Option (BcastList P) :=
  some ⟨tagAddBcast C sAddr s.bcasts bcast, bcast :: s.added⟩

/-- The addresses of some pointers. -/
def addrs (l : List P) : Finset (BitVec 32) := (l.map sAddr).toFinset

/-- **No address is there twice,** and up to 64 addresses all are there. -/
structure Listed (s : BcastList P) : Prop where
  nodup : (s.bcasts.map sAddr).Nodup
  complete : ∀ early, early <:+ s.added → (addrs sAddr early).card ≤ maxBcasts →
    ∀ b ∈ early, sAddr b ∈ s.bcasts.map sAddr

/-- The addresses are among the `2 ^ 31` from `base` on, around the circle. -/
def OnArc (l : List P) : Prop := ∃ base, ∀ p ∈ l, (sAddr p - base).toNat < 2 ^ 31

/-- As long as there is room the address and those before it are on an arc. -/
def Fits (s : BcastList P) (bcast : P) : Prop :=
  (addrs sAddr s.added).card < maxBcasts → OnArc sAddr (bcast :: s.added)

end Source

/-! ## The comparison -/

section Compare
variable {sAddr : P → BitVec 32} {l : List P} {p q : P}

/-- On an arc the comparison is the difference of the distances from its start. -/
theorem sincmp_arc {base : BitVec 32} (hp : (sAddr p - base).toNat < 2 ^ 31)
    (hq : (sAddr q - base).toNat < 2 ^ 31) :
    sincmp sAddr p q = ((sAddr p - base).toNat : ℤ) - (sAddr q - base).toNat := by
  have hsub : sAddr p - sAddr q = (sAddr p - base) - (sAddr q - base) :=
    (sub_sub_sub_cancel_right _ _ _).symm
  rw [sincmp, hsub, BitVec.toInt_sub, BitVec.toInt_eq_toNat_of_lt (by omega),
    BitVec.toInt_eq_toNat_of_lt (by omega)]
  exact Int.bmod_eq_of_le (by omega) (by omega)

/-- Only equal addresses compare equal. -/
theorem sincmp_eq_zero : sincmp sAddr p q = 0 ↔ sAddr p = sAddr q := by
  rw [sincmp, ← sub_eq_zero (a := sAddr p)]
  exact ⟨fun h => BitVec.eq_of_toInt_eq (h.trans BitVec.toInt_zero.symm), fun h => by rw [h]; rfl⟩

/-- **The comparison is an order** on the addresses of an arc, and on no others. -/
theorem consistent_iff : Consistent (sincmp sAddr) l ↔ OnArc sAddr l := by
  constructor
  · intro h
    obtain ⟨hperm, hasc⟩ := sortBy_spec h
    cases hl : sortBy (sincmp sAddr) l with
    | nil =>
      rw [hl] at hperm
      exact ⟨0, fun p hp => absurd (hperm.mem_iff.mpr hp) List.not_mem_nil⟩
    | cons a l' =>
      -- the arc starts at the least address
      rw [hl] at hperm hasc
      have ha : a ∈ l := hperm.mem_iff.mp List.mem_cons_self
      refine ⟨sAddr a, fun p hp => ?_⟩
      have hpos : 0 ≤ sincmp sAddr p a := by
        rcases List.mem_cons.mp (hperm.mem_iff.mpr hp) with rfl | hp'
        · exact (sincmp_eq_zero.mpr rfl).ge
        · have hle := (List.pairwise_cons.mp hasc).1 p hp'
          have := h.antisymm p hp a ha
          omega
      rw [sincmp, BitVec.toInt_eq_toNat_cond] at hpos
      split_ifs at hpos <;> omega
  · rintro ⟨base, hbase⟩
    exact Consistent.of_sub (f := fun p => ((sAddr p - base).toNat : ℤ))
      fun a ha b hb => sincmp_arc (hbase a ha) (hbase b hb)

end Compare

/-! ## One call -/

section Calls
variable {C : Stdlib P} {sAddr : P → BitVec 32} {s : BcastList P} {b : P}

/-- The list is sorted, and has all addresses as long as there is room. -/
structure Inv (sAddr : P → BitVec 32) (s : BcastList P) : Prop where
  listed : Listed sAddr s
  sub : ∀ b ∈ s.bcasts, b ∈ s.added
  all : s.bcasts.length < maxBcasts → ∀ b ∈ s.added, sAddr b ∈ s.bcasts.map sAddr
  size : s.bcasts.length ≤ maxBcasts
  ascending : s.bcasts.length < maxBcasts → Ascending (sincmp sAddr) s.bcasts

theorem inv_init : Inv sAddr init where
  listed := ⟨List.nodup_nil, fun early he _ b hb => by
    rw [List.suffix_nil.mp he] at hb
    cases hb⟩
  sub := fun b hb => absurd hb List.not_mem_nil
  all := fun _ b hb => absurd hb List.not_mem_nil
  size := Nat.zero_le _
  ascending := fun _ => List.Pairwise.nil

theorem mem_addrs {l : List P} {a : BitVec 32} : a ∈ addrs sAddr l ↔ a ∈ l.map sAddr :=
  List.mem_toFinset

theorem Inv.card (h : Inv sAddr s) : (addrs sAddr s.bcasts).card = s.bcasts.length := by
  rw [addrs, List.toFinset_card_of_nodup h.listed.nodup, List.length_map]

theorem Inv.addrs_subset (h : Inv sAddr s) : addrs sAddr s.bcasts ⊆ addrs sAddr s.added := by
  intro a ha
  obtain ⟨b, hb, rfl⟩ := List.mem_map.mp (mem_addrs.mp ha)
  exact mem_addrs.mpr (List.mem_map_of_mem (h.sub b hb))

/-- With room left there have been no more addresses than there are in the list. -/
theorem Inv.card_added (h : Inv sAddr s) (hroom : s.bcasts.length < maxBcasts) :
    (addrs sAddr s.added).card < maxBcasts := by
  refine lt_of_le_of_lt (Finset.card_le_card fun a ha => ?_) (h.card ▸ hroom)
  obtain ⟨b, hb, rfl⟩ := List.mem_map.mp (mem_addrs.mp ha)
  exact mem_addrs.mpr (h.all hroom b hb)

/-- A list that has everything is complete. -/
theorem complete_of_all {bcasts added : List P} (h : ∀ b ∈ added, sAddr b ∈ bcasts.map sAddr) :
    ∀ early, early <:+ added → (addrs sAddr early).card ≤ maxBcasts →
      ∀ b ∈ early, sAddr b ∈ bcasts.map sAddr :=
  fun _ he _ b hb => h b (he.subset hb)

/-- A full list stays as it is. -/
theorem Inv.full (h : Inv sAddr s) (hfull : maxBcasts ≤ s.bcasts.length) (b : P) :
    Inv sAddr ⟨s.bcasts, b :: s.added⟩ where
  listed := {
    nodup := h.listed.nodup
    complete := fun early he hcard c hc => by
      rcases List.suffix_cons_iff.mp he with rfl | he
      · -- no more than 64 addresses, so they are those in the list
        have hsub : addrs sAddr s.bcasts ⊆ addrs sAddr (b :: s.added) := fun a ha => by
          obtain ⟨x, hx, hax⟩ := List.mem_map.mp (mem_addrs.mp (h.addrs_subset ha))
          exact mem_addrs.mpr (hax ▸ List.mem_map_of_mem (List.mem_cons_of_mem b hx))
        have heq := Finset.eq_of_subset_of_card_le hsub (by rw [h.card]; omega)
        exact mem_addrs.mp (heq ▸ mem_addrs.mpr (List.mem_map_of_mem hc))
      · exact h.listed.complete early he hcard c hc }
  sub := fun c hc => List.mem_cons_of_mem b (h.sub c hc)
  all := fun hlt => absurd hfull (not_le.mpr hlt)
  size := h.size
  ascending := fun hlt => absurd hfull (not_le.mpr hlt)

/-- An address that is in the list is not added. -/
theorem Inv.known (h : Inv sAddr s) (hroom : s.bcasts.length < maxBcasts) {a : P}
    (ha : a ∈ s.bcasts) (heq : sAddr b = sAddr a) : Inv sAddr ⟨s.bcasts, b :: s.added⟩ := by
  have hall : ∀ c ∈ b :: s.added, sAddr c ∈ s.bcasts.map sAddr := by
    intro c hc
    rcases List.mem_cons.mp hc with rfl | hc
    · rw [heq]
      exact List.mem_map_of_mem ha
    · exact h.all hroom c hc
  exact ⟨⟨h.listed.nodup, complete_of_all hall⟩, fun c hc => List.mem_cons_of_mem b (h.sub c hc),
    fun _ => hall, h.size, h.ascending⟩

/-- **A new address** is added, and the list is put in order. -/
theorem Inv.new (h : Inv sAddr s) (hroom : s.bcasts.length < maxBcasts)
    (hnew : sAddr b ∉ s.bcasts.map sAddr) {l : List P} (hperm : l.Perm (s.bcasts ++ [b]))
    (hasc : Ascending (sincmp sAddr) l) : Inv sAddr ⟨l, b :: s.added⟩ := by
  have hmem : ∀ c, c ∈ l ↔ c ∈ s.bcasts ∨ c = b := fun c => by
    rw [hperm.mem_iff, List.mem_append, List.mem_singleton]
  have hall : ∀ c ∈ b :: s.added, sAddr c ∈ l.map sAddr := by
    intro c hc
    rcases List.mem_cons.mp hc with rfl | hc
    · exact List.mem_map_of_mem ((hmem c).mpr (Or.inr rfl))
    · obtain ⟨a, ha, heq⟩ := List.mem_map.mp (h.all hroom c hc)
      exact heq ▸ List.mem_map_of_mem ((hmem a).mpr (Or.inl ha))
  refine ⟨⟨?_, complete_of_all hall⟩, fun c hc => ?_, fun _ => hall, ?_, fun _ => hasc⟩
  · refine (hperm.map sAddr).nodup_iff.mpr ?_
    rw [List.map_append, List.map_singleton]
    exact List.Nodup.append h.listed.nodup (List.nodup_singleton _)
      (List.disjoint_singleton.mpr hnew)
  · rcases (hmem c).mp hc with hc | rfl
    · exact List.mem_cons_of_mem b (h.sub c hc)
    · exact List.mem_cons_self
  · show l.length ≤ maxBcasts
    rw [hperm.length_eq, List.length_append, List.length_singleton]
    omega

/-- **One call.** -/
theorem add_inv (h : Inv sAddr s) (hfit : Fits sAddr s b) :
    Inv sAddr ⟨tagAddBcast C sAddr s.bcasts b, b :: s.added⟩ := by
  unfold tagAddBcast
  split_ifs with hfull
  · exact h.full hfull b
  have hroom : s.bcasts.length < maxBcasts := not_le.mp hfull
  have hcons : Consistent (sincmp sAddr) (b :: s.bcasts) :=
    (consistent_iff.mpr (hfit (h.card_added hroom))).subset
      (List.cons_subset_cons b fun c hc => h.sub c hc)
  have hfinds := C.bsearch_spec _ b s.bcasts (hcons.parted (h.ascending hroom))
  cases hsearch : C.bsearch (sincmp sAddr) b s.bcasts with
  | some a =>
    rw [hsearch] at hfinds
    obtain ⟨ha, hzero⟩ := hfinds
    exact h.known hroom ha (sincmp_eq_zero.mp hzero)
  | none =>
    rw [hsearch] at hfinds
    obtain ⟨hperm, hasc⟩ := C.qsort_spec (sincmp sAddr) (s.bcasts ++ [b])
      (hcons.subset fun c hc => by simpa [or_comm] using hc)
    have hnew : sAddr b ∉ s.bcasts.map sAddr := by
      intro hmem
      obtain ⟨a, ha, heq⟩ := List.mem_map.mp hmem
      exact hfinds a ha (sincmp_eq_zero.mpr heq.symm)
    exact h.new hroom hnew hperm hasc

end Calls

/-- **The list is right** along every run in which, as long as there is room, the addresses are on
an arc. -/
theorem listed_always (C : Stdlib P) (sAddr : P → BitVec 32) (bs : List P)
    (h : Guarded (step C sAddr) (Fits sAddr) init bs) :
    Always (step C sAddr) (Listed sAddr) init bs :=
  always_of_guarded (I := Inv sAddr) (E := fun _ => True) (fun _ hI => hI.listed)
    (fun _ _ hI _ hg => ⟨_, rfl, add_inv hI hg⟩) inv_init (fun _ _ => trivial) h

/-! ## Around the circle -/

/-- The broadcast address `10.0.0.n`, in network order. -/
def tenNet (n : ℕ) : BitVec 32 := BitVec.ofNat 32 (n * 2 ^ 24 + 10)

/-- Addresses of subnets up to `10.0.0.127`; the second one is added again. -/
theorem listed_tenNet :
    Always (step stdlib tenNet) (Listed tenNet) init [15, 47, 127, 47] := by
  refine listed_always stdlib tenNet _ (guarded_of_forall
    (I := fun s => ∀ n ∈ s.added, n < 128) (E := fun n => n < 128) ?_ ?_ ?_ ?_)
  · intro s n s' hs hn hstep m hm
    cases hstep
    rcases List.mem_cons.mp hm with rfl | hm
    · exact hn
    · exact hs m hm
  · intro s n hs hn _
    refine ⟨0, fun m hm => ?_⟩
    have hm' : m < 128 := by
      rcases List.mem_cons.mp hm with rfl | hm
      · exact hn
      · exact hs m hm
    rw [tenNet, sub_zero, BitVec.toNat_ofNat]
    omega
  · intro n hn
    cases hn
  · decide

/-- The address `10.0.0.239` is added a second time: `10.0.0.79` is in the middle of the list and
more than half of the circle away, so it is searched for on the wrong side. -/
theorem second_copy :
    ¬ Always (step stdlib tenNet) (Listed tenNet) init [15, 47, 79, 207, 239, 239] := by
  intro h
  have hrun : (run (step stdlib tenNet) init [15, 47, 79, 207, 239, 239]).map
      (fun s => s.bcasts) = some [15, 47, 79, 207, 239, 239] := by decide +kernel
  obtain ⟨t, hL, ht⟩ := h.observed hrun
  have hnd := hL.nodup
  rw [ht] at hnd
  exact absurd hnd (by decide)

end GSConferencing.Serv.Bcasts
