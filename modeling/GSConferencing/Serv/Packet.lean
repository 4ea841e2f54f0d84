import GSConferencing.Lib.Places
import GSConferencing.Lib.Ring

/-!
# Packet buffers

`packet.c`: the buffers of the packets come from two pools of `2 ^ k` each, a cache for the thread
that receives datagrams and a pool of blocks (`block.c`) for the others.

* `packGetNew_perm`, `packGetFast_perm`: a buffer that is handed out was free.
* `packFree_perm`: a buffer that is given back is free again.
-/

namespace GSConferencing.Serv.Packet

open GSConferencing.Lib.Ring GSConferencing.Lib.Places

variable {k : ℕ}

/-- `PACK_COUNT` is `2 ^ packOrder`. -/
def packOrder : ℕ := 10

/-- A buffer of the cache, or a block of the pool. -/
inductive Buf (k : ℕ) where
  | cache (i : Fin (2 ^ k))
  | block (i : Fin (2 ^ k))
  deriving DecidableEq

/-- The static variables of `packet.c`; `freeList` is the list of `free_pool`. -/
structure Pools (k : ℕ) where
  cacheUse : Fin (2 ^ k) → Bool
  cachePos : Fin (2 ^ k)
  freeList : List (Fin (2 ^ k))

/-- `init_pack_pool`. -/
def Pools.init (k : ℕ) : Pools k where
  cacheUse := fun _ => false
  cachePos := place k 0
  freeList := List.finRange (2 ^ k)

namespace Pools

variable (P : Pools k)

/-- The cache buffer `i` is handed out. -/
def useCache (i : Fin (2 ^ k)) : Buf k × Pools k :=
  (.cache i, { P with
    cacheUse := Function.update P.cacheUse i true
    cachePos := place k (i.val + 1) })

/-- The places that `pack_get_cache` looks at after the current one. -/
def others : List (Fin (2 ^ k)) :=
  (List.range (2 ^ k - 1)).map fun i => place k (P.cachePos.val + 1 + i)

/-- `pack_get_cache`; `pack_get_fast` tries again as long as there is none. -/
def packGetFast : Option (Buf k × Pools k) :=
  if P.cacheUse P.cachePos = false then some (P.useCache P.cachePos)
  else (P.others.find? fun i => P.cacheUse i = false).map P.useCache

/-- `alloc_block` of the limited pool; `pack_get_new` tries again as long as there is none. -/
def packGetNew : Option (Buf k × Pools k) :=
  match P.freeList with
  | [] => none
  | i :: l => some (.block i, { P with freeList := l })

/-- `pack_free` of a buffer that is not free. -/
def giveBack : Buf k → Pools k
  | .cache i => { P with cacheUse := Function.update P.cacheUse i false, cachePos := i }
  | .block i => { P with freeList := i :: P.freeList }

/-- The buffer is free. -/
def IsFree : Buf k → Prop
  | .cache i => P.cacheUse i = false
  | .block i => i ∈ P.freeList

instance : ∀ b, Decidable (P.IsFree b)
  | .cache i => inferInstanceAs (Decidable (P.cacheUse i = false))
  | .block i => inferInstanceAs (Decidable (i ∈ P.freeList))

/-- `pack_free`; to free a buffer that is free has no result. -/
def packFree (b : Buf k) : Option (Pools k) := if P.IsFree b then none else some (P.giveBack b)

/-- The cache buffer `i`, if it is free. -/
def freeCache (i : Fin (2 ^ k)) : Option (Buf k) := if P.cacheUse i then none else some (.cache i)

/-- The free buffers. -/
def free : List (Buf k) := P.freeList.map .block ++ slots P.freeCache

end Pools

variable {P P' : Pools k} {b : Buf k}

theorem mem_free : b ∈ P.free ↔ P.IsFree b := by
  unfold Pools.free
  rw [List.mem_append, List.mem_map, mem_slots]
  cases b with
  | block i =>
    constructor
    · rintro (⟨j, hj, h⟩ | ⟨j, h⟩)
      · cases h
        exact hj
      · unfold Pools.freeCache at h
        split at h <;> cases h
    · exact fun h => .inl ⟨i, h, rfl⟩
  | cache i =>
    constructor
    · rintro (⟨j, hj, h⟩ | ⟨j, h⟩)
      · cases h
      · unfold Pools.freeCache at h
        split at h
        · cases h
        · rename_i hu
          cases h
          exact Bool.eq_false_iff.mpr hu
    · intro h
      refine .inr ⟨i, ?_⟩
      rw [Pools.freeCache, show P.cacheUse i = false from h]
      rfl

/-- The cache after the use of one buffer has changed. -/
theorem freeCache_update (i : Fin (2 ^ k)) (u : Bool) (pos : Fin (2 ^ k)) :
    ({ P with cacheUse := Function.update P.cacheUse i u, cachePos := pos } : Pools k).freeCache =
      Function.update P.freeCache i (if u then none else some (.cache i)) := by
  funext j
  unfold Pools.freeCache
  by_cases hj : j = i
  · subst hj
    simp only [Function.update_self]
  · simp only [Function.update_of_ne hj]

/-- A cache buffer that is not in use is free, and no more when it is handed out. -/
theorem useCache_perm {i : Fin (2 ^ k)} (h : P.cacheUse i = false) :
    ((P.useCache i).1 :: (P.useCache i).2.free).Perm P.free := by
  have hi : P.freeCache i = some (.cache i) := by
    rw [Pools.freeCache, h]
    rfl
  have hslots := slots_update P.freeCache i (P.freeCache i)
  rw [Function.update_eq_self, hi] at hslots
  unfold Pools.free Pools.useCache
  rw [freeCache_update i true, if_pos rfl]
  exact List.perm_middle.symm.trans (hslots.symm.append_left _)

theorem packGetFast_perm (h : P.packGetFast = some (b, P')) : (b :: P'.free).Perm P.free := by
  unfold Pools.packGetFast at h
  split at h
  · rename_i hpos
    cases h
    exact useCache_perm hpos
  · obtain ⟨i, hi, hx⟩ := Option.map_eq_some_iff.mp h
    have huse : P.cacheUse i = false := by simpa using List.find?_some hi
    cases hx
    exact useCache_perm huse

theorem packGetNew_perm (h : P.packGetNew = some (b, P')) : (b :: P'.free).Perm P.free := by
  unfold Pools.packGetNew at h
  split at h
  · cases h
  · rename_i i l hl
    cases h
    unfold Pools.free Pools.freeCache
    rw [hl]
    exact List.Perm.refl _

theorem giveBack_perm (h : ¬ P.IsFree b) : (P.giveBack b).free.Perm (b :: P.free) := by
  cases b with
  | block i => exact List.Perm.refl _
  | cache i =>
    have hi : P.freeCache i = none := by
      rw [Pools.freeCache, if_pos (by simpa [Pools.IsFree] using h)]
    have hslots := slots_update P.freeCache i (some (.cache i))
    rw [← hi, Function.update_eq_self] at hslots
    unfold Pools.free Pools.giveBack
    simp only [freeCache_update i false, Bool.false_eq_true, if_false]
    exact (hslots.append_left _).trans List.perm_middle

/-- **A buffer that was in use** is free again. -/
theorem packFree_perm (h : b ∉ P.free) :
    ∃ P', P.packFree b = some P' ∧ P'.free.Perm (b :: P.free) := by
  rw [mem_free] at h
  exact ⟨P.giveBack b, if_neg h, giveBack_perm h⟩

/-- At the start every buffer is free. -/
theorem free_init (b : Buf k) : (Pools.init k).free.count b = 1 := by
  have hblocks : ((Pools.init k).freeList.map Buf.block).Nodup :=
    (List.nodup_finRange _).map fun i j h => Buf.block.inj h
  have hslots : slots (Pools.init k).freeCache = (List.finRange (2 ^ k)).map Buf.cache := by
    rw [slots, ← List.filterMap_eq_map]
    rfl
  have hnd : (Pools.init k).free.Nodup := by
    rw [Pools.free, hslots]
    refine List.Nodup.append hblocks ((List.nodup_finRange _).map fun i j h => Buf.cache.inj h) ?_
    intro x hx hx'
    obtain ⟨i, -, rfl⟩ := List.mem_map.mp hx
    obtain ⟨j, -, hj⟩ := List.mem_map.mp hx'
    cases hj
  refine List.count_eq_one_of_mem hnd (mem_free.mpr ?_)
  cases b with
  | block i => exact List.mem_finRange i
  | cache i => rfl

/-- The first requests are met. -/
theorem packGetFast_init (k : ℕ) : ∃ r, (Pools.init k).packGetFast = some r := ⟨_, if_pos rfl⟩

theorem packGetNew_init (k : ℕ) : ∃ r, (Pools.init k).packGetNew = some r := by
  have hlen : (Pools.init k).freeList.length = 2 ^ k := List.length_finRange
  unfold Pools.packGetNew
  split
  · rename_i hnil
    rw [hnil, List.length_nil] at hlen
    exact absurd hlen (Nat.two_pow_pos k).ne
  · exact ⟨_, rfl⟩

end GSConferencing.Serv.Packet
