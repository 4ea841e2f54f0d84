import GSConferencing.Lib.Run
import GSConferencing.Serv.Packet

/-!
# The addresses of packet buffers

`packet.c` and `block.c` down to the addresses: a packet is a pointer, `pack_free` finds out from
the pointer alone which of the two allocators it belongs to, and `pack_get_cache` goes round the
ring of the cache.

* `packGetCache_eq`: the ring has been gone round once at most, and every place has been looked at.
* `packFree_cache`, `packFree_block`: a pointer goes back to where it came from.
* `always_sound`: so it is along every run that frees what is outstanding.
* `packGetCache_pools`, `packFree_pools`: the buffers are those of `Packet.Pools`.
-/

namespace GSConferencing.Serv.PackCache

open GSConferencing.Lib.Run GSConferencing.Lib.Ring GSConferencing.Serv.Packet

/-- `PACK_SHIFT`. -/
def packShift : ℕ := 11

/-- `PACK_SIZE`. -/
def packSize : ℕ := 1 <<< packShift

/-- `PACK_COUNT`. -/
abbrev packCount : ℕ := 2 ^ packOrder

/-- `CACHE_SIZE`. -/
def cacheSize : ℕ := packCount <<< packShift

/-- Where the memory is: `cache_base`, the area that `init_block_pool` gets from `calloc`, and the
offset of `data` in a `struct block`.  Two objects of C do not overlap. -/
structure Layout where
  cacheBase : ℕ
  poolBase : ℕ
  dataOffset : ℕ
  dataOffset_lt : dataOffset < packSize
  apart : poolBase + packCount * packSize ≤ cacheBase ∨ cacheBase + cacheSize ≤ poolBase

/-- The static variables; `freeList` has the addresses of the blocks in the list of `free_pool`. -/
structure Mem where
  cacheUse : Fin packCount → Bool
  cachePos : Fin packCount
  freeList : List ℕ

/-- The places from `i` on, up to the place `pos`, are looked at for one that is not in use; `none`:
there are more than `n`. -/
def findFree {k : ℕ} (use : Fin (2 ^ k) → Bool) (pos : Fin (2 ^ k)) :
    ℕ → Fin (2 ^ k) → Option (Option (Fin (2 ^ k)))
  | 0, i => if i = pos then some none else none
  | n + 1, i =>
    if i = pos then some none
    else if use i = false then some (some i)
    else findFree use pos n (place k (i.val + 1))

namespace Layout

variable (L : Layout)

/-- `PACK_IS_CACHE`. -/
def packIsCache (p : ℕ) : Prop := L.cacheBase ≤ p ∧ p < L.cacheBase + cacheSize

instance (p : ℕ) : Decidable (L.packIsCache p) :=
  inferInstanceAs (Decidable (L.cacheBase ≤ p ∧ p < L.cacheBase + cacheSize))

/-- `CACHE_OFFSET`. -/
def cacheOffset (p : ℕ) : ℕ := (p - L.cacheBase) >>> packShift

/-- `CACHE_GET`. -/
def cacheGet (off : ℕ) : ℕ := L.cacheBase + off <<< packShift

/-- The block `i` of the area. -/
def block (i : ℕ) : ℕ := L.poolBase + i * packSize

/-- `block_data`. -/
def blockData (b : ℕ) : ℕ := b + L.dataOffset

/-- `block_entry`. -/
def blockEntry (buf : ℕ) : ℕ := buf - L.dataOffset

/-- `init_pack_pool`. -/
def init : Mem where
  cacheUse := fun _ => false
  cachePos := place packOrder 0
  freeList := (List.range packCount).map L.block

/-- The cache buffer `i` is handed out. -/
def useCache (m : Mem) (i : Fin packCount) : ℕ × Mem :=
  (L.cacheGet i, { m with
    cacheUse := Function.update m.cacheUse i true
    cachePos := place packOrder (i.val + 1) })

/-- `pack_get_cache`; no result: it goes round the ring for longer than a turn. -/
def packGetCache (m : Mem) : Option (Option ℕ × Mem) :=
  let pos := m.cachePos
  if m.cacheUse pos = false then
    let r := L.useCache m pos
    some (some r.1, r.2)
  else
    (findFree m.cacheUse pos (packCount - 1) (place packOrder (pos.val + 1))).map fun
      | none => (none, m)
      | some i => let r := L.useCache m i
        (some r.1, r.2)

/-- `alloc_block` of the limited pool. -/
def allocBlock (m : Mem) : Option ℕ × Mem :=
  match m.freeList with
  | [] => (none, m)
  | b :: l => (some (L.blockData b), { m with freeList := l })

/-- `pack_free_cache`; an index beyond the end of `cache_use` has no result. -/
def packFreeCache (m : Mem) (p : ℕ) : Option Mem :=
  if h : L.cacheOffset p < packCount then
    some { m with
      cacheUse := Function.update m.cacheUse ⟨L.cacheOffset p, h⟩ false
      cachePos := ⟨L.cacheOffset p, h⟩ }
  else none

/-- `free_block`. -/
def freeBlock (m : Mem) (buf : ℕ) : Mem := { m with freeList := L.blockEntry buf :: m.freeList }

/-- `pack_free`. -/
def packFree (m : Mem) (p : ℕ) : Option Mem :=
  if L.packIsCache p then L.packFreeCache m p else some (L.freeBlock m p)

end Layout

/-! ## Runs -/

/-- The calls. -/
inductive Call where
  | getCache
  | getNew
  | free (p : ℕ)

/-- The memory beside the pointers that are outstanding: those that `pack_get_cache` has returned,
and those that `alloc_block` has. -/
structure State where
  mem : Mem
  fromCache : List ℕ
  fromPool : List ℕ

def State.start (L : Layout) : State := ⟨L.init, [], []⟩

def step (L : Layout) (s : State) : Call → Option State
  | .getCache => (L.packGetCache s.mem).map fun r =>
    { s with mem := r.2, fromCache := r.1.toList ++ s.fromCache }
  | .getNew =>
    let r := L.allocBlock s.mem
    some { s with mem := r.2, fromPool := r.1.toList ++ s.fromPool }
  | .free p => (L.packFree s.mem p).map fun m =>
    ⟨m, s.fromCache.erase p, s.fromPool.erase p⟩

/-- **The guard:** what is freed is outstanding. -/
def Outstanding (s : State) : Call → Prop
  | .free p => p ∈ s.fromCache ∨ p ∈ s.fromPool
  | _ => True

instance (s : State) : ∀ c, Decidable (Outstanding s c)
  | .getCache => .isTrue trivial
  | .getNew => .isTrue trivial
  | .free p => inferInstanceAs (Decidable (p ∈ s.fromCache ∨ p ∈ s.fromPool))

/-- **The property:** what the next call does. -/
structure Sound (L : Layout) (s : State) : Prop where
  /-- No buffer is outstanding twice. -/
  nodup : (s.fromCache ++ s.fromPool).Nodup
  /-- `pack_get_cache` returns within one turn. -/
  get : ∃ r, L.packGetCache s.mem = some r ∧ (r.1 = none ↔ s.fromCache.length = packCount) ∧
    ∀ p, r.1 = some p → p ∉ s.fromCache ∧ p ∉ s.fromPool
  new : ((L.allocBlock s.mem).1 = none ↔ s.fromPool.length = packCount) ∧
    ∀ p, (L.allocBlock s.mem).1 = some p → p ∉ s.fromCache ∧ p ∉ s.fromPool
  /-- `pack_free` gives a buffer of the cache back to the cache. -/
  freeCache : ∀ p ∈ s.fromCache, ∃ i, p = L.cacheGet i.val ∧ s.mem.cacheUse i = true ∧
    L.packFree s.mem p =
      some { s.mem with cacheUse := Function.update s.mem.cacheUse i false, cachePos := i }
  /-- `pack_free` gives a block back to the pool. -/
  freePool : ∀ p ∈ s.fromPool, ∃ i < packCount, p = L.blockData (L.block i) ∧
    L.block i ∉ s.mem.freeList ∧
    L.packFree s.mem p = some { s.mem with freeList := L.block i :: s.mem.freeList }

/-! ## The ring -/

section Search
variable {k : ℕ} {use : Fin (2 ^ k) → Bool} {pos : Fin (2 ^ k)}

/-- **The loop** comes back to `pos` after a turn, and what it finds is what a search through the
places after `pos` finds. -/
theorem findFree_eq (use : Fin (2 ^ k) → Bool) (pos : Fin (2 ^ k)) {n j : ℕ}
    (hn : n + j + 1 = 2 ^ k) : findFree use pos n (place k (pos.val + 1 + j)) =
      some (((List.range' j n).map fun i => place k (pos.val + 1 + i)).find?
        fun i => use i = false) := by
  induction n generalizing j with
  | zero =>
    have hturn : place k (pos.val + 1 + j) = pos := by
      rw [Nat.add_assoc, show 1 + j = 2 ^ k by omega]
      exact place_turn pos
    rw [findFree, if_pos hturn]
    rfl
  | succ n ih =>
    have hne : place k (pos.val + 1 + j) ≠ pos := by
      rw [Nat.add_assoc]
      exact place_add_ne pos (by omega) (by omega)
    rw [findFree, if_neg hne, List.range'_succ, List.map_cons]
    by_cases huse : use (place k (pos.val + 1 + j)) = false
    · rw [if_pos huse, List.find?_cons_of_pos (by simpa using huse)]
    · rw [if_neg huse, List.find?_cons_of_neg (by simpa using huse), place_succ]
      exact ih (j := j + 1) (by omega)

end Search

variable {L : Layout} {m : Mem} {s : State} {p : ℕ} {i : Fin packCount}

/-- The buffers of `Packet.Pools` at their addresses. -/
def ofPools (L : Layout) (P : Pools packOrder) : Mem where
  cacheUse := P.cacheUse
  cachePos := P.cachePos
  freeList := P.freeList.map fun i => L.block i.val

/-- The pointer to a buffer. -/
def pointer (L : Layout) : Buf packOrder → ℕ
  | .cache i => L.cacheGet i.val
  | .block i => L.blockData (L.block i.val)

/-- **`pack_get_cache`** is over after one turn; it is what it is in `Packet`. -/
theorem packGetCache_pools (L : Layout) (P : Pools packOrder) :
    L.packGetCache (ofPools L P) = some (match P.packGetFast with
      | none => (none, ofPools L P)
      | some r => (some (pointer L r.1), ofPools L r.2)) := by
  have hpos := Nat.two_pow_pos packOrder
  have hloop := findFree_eq P.cacheUse P.cachePos (n := 2 ^ packOrder - 1) (j := 0) (by omega)
  rw [← List.range_eq_range', Nat.add_zero] at hloop
  unfold Layout.packGetCache Pools.packGetFast
  by_cases huse : P.cacheUse P.cachePos = false
  · rw [if_pos huse]
    exact if_pos huse
  · rw [if_neg huse]
    refine (if_neg huse).trans ((congrArg (Option.map _) hloop).trans ?_)
    rw [Option.map_some, Option.some.injEq]
    unfold Pools.others
    cases ((List.range (2 ^ packOrder - 1)).map fun i =>
      place packOrder (P.cachePos.val + 1 + i)).find? fun i => P.cacheUse i = false <;> rfl

/-- `alloc_block` is what it is in `Packet`. -/
theorem allocBlock_pools (L : Layout) (P : Pools packOrder) :
    L.allocBlock (ofPools L P) = match P.packGetNew with
      | none => (none, ofPools L P)
      | some r => (some (pointer L r.1), ofPools L r.2) := by
  unfold Layout.allocBlock Pools.packGetNew ofPools
  cases P.freeList <;> rfl

/-! ## The addresses -/

theorem cacheOffset_cacheGet (L : Layout) (i : ℕ) : L.cacheOffset (L.cacheGet i) = i := by
  unfold Layout.cacheOffset Layout.cacheGet
  rw [Nat.add_sub_cancel_left, Nat.shiftLeft_shiftRight]

/-- A buffer of the cache is in the cache. -/
theorem packIsCache_cacheGet (L : Layout) (i : Fin packCount) :
    L.packIsCache (L.cacheGet i.val) := by
  refine ⟨Nat.le_add_right _ _, Nat.add_lt_add_left ?_ _⟩
  unfold cacheSize
  rw [Nat.shiftLeft_eq, Nat.shiftLeft_eq]
  exact Nat.mul_lt_mul_of_pos_right i.isLt (Nat.two_pow_pos packShift)

/-- A block is not in the cache, for it is in the other area. -/
theorem not_packIsCache_block (L : Layout) (i : Fin packCount) :
    ¬ L.packIsCache (L.blockData (L.block i.val)) := by
  rintro ⟨hle, hlt⟩
  have hend : (i.val + 1) * packSize ≤ packCount * packSize := Nat.mul_le_mul_right _ i.isLt
  have hoff := L.dataOffset_lt
  unfold Layout.blockData Layout.block at hle hlt
  rw [Nat.succ_mul] at hend
  rcases L.apart with hpool | hcache <;> omega

theorem cacheGet_inj {i j : Fin packCount} (h : L.cacheGet i.val = L.cacheGet j.val) : i = j := by
  have hoff := congrArg L.cacheOffset h
  rw [cacheOffset_cacheGet, cacheOffset_cacheGet] at hoff
  exact Fin.ext hoff

theorem block_inj {i j : ℕ} (h : L.block i = L.block j) : i = j :=
  Nat.eq_of_mul_eq_mul_right (Nat.lt_of_le_of_lt (Nat.zero_le _) L.dataOffset_lt)
    (Nat.add_left_cancel h)

theorem blockData_inj {i j : Fin packCount}
    (h : L.blockData (L.block i.val) = L.blockData (L.block j.val)) : i = j :=
  Fin.ext (block_inj (Nat.add_right_cancel h))

/-- **`pack_free` of a buffer of the cache** gives it back to the cache. -/
theorem packFree_cache (L : Layout) (m : Mem) (i : Fin packCount) :
    L.packFree m (L.cacheGet i.val) =
      some { m with cacheUse := Function.update m.cacheUse i false, cachePos := i } := by
  unfold Layout.packFree Layout.packFreeCache
  rw [if_pos (packIsCache_cacheGet L i)]
  simp only [cacheOffset_cacheGet]
  exact dif_pos i.isLt

/-- **`pack_free` of a block** gives it back to the pool. -/
theorem packFree_block (L : Layout) (m : Mem) (i : Fin packCount) :
    L.packFree m (L.blockData (L.block i.val)) =
      some { m with freeList := L.block i.val :: m.freeList } := by
  unfold Layout.packFree Layout.freeBlock Layout.blockEntry
  rw [if_neg (not_packIsCache_block L i), Layout.blockData, Nat.add_sub_cancel]

/-- `pack_free` is what it is in `Packet`. -/
theorem packFree_pools (L : Layout) (P : Pools packOrder) (b : Buf packOrder) :
    L.packFree (ofPools L P) (pointer L b) = some (ofPools L (P.giveBack b)) := by
  cases b with
  | cache i => exact packFree_cache L _ i
  | block i => exact packFree_block L _ i

/-! ## What is outstanding -/

/-- **The invariant:** the buffers that are outstanding are those that are not free. -/
structure Inv (L : Layout) (s : State) (P : Pools packOrder) (cs bs : List (Fin packCount)) :
    Prop where
  mem : s.mem = ofPools L P
  fromCache : s.fromCache = cs.map fun i => L.cacheGet i.val
  fromPool : s.fromPool = bs.map fun i => L.blockData (L.block i.val)
  perm : (cs.map Buf.cache ++ bs.map Buf.block ++ P.free).Perm (Pools.init packOrder).free

section Invariant
variable {P : Pools packOrder} {cs bs : List (Fin packCount)}

theorem Inv.nodup_all (h : Inv L s P cs bs) :
    (cs.map Buf.cache ++ bs.map Buf.block ++ P.free).Nodup := by
  rw [List.nodup_iff_count_le_one]
  intro b
  rw [h.perm.count_eq, free_init]

theorem Inv.mem_all (h : Inv L s P cs bs) (b : Buf packOrder) :
    b ∈ cs.map Buf.cache ++ bs.map Buf.block ∨ P.IsFree b := by
  have hb : b ∈ cs.map Buf.cache ++ bs.map Buf.block ++ P.free := by
    rw [← List.count_pos_iff, h.perm.count_eq, free_init]
    exact Nat.one_pos
  exact (List.mem_append.mp hb).imp id mem_free.mp

theorem Inv.not_free (h : Inv L s P cs bs) {b : Buf packOrder}
    (hb : b ∈ cs.map Buf.cache ++ bs.map Buf.block) : ¬ P.IsFree b := fun hfree =>
  List.disjoint_of_nodup_append h.nodup_all hb (mem_free.mpr hfree)

theorem Inv.nodup_cs (h : Inv L s P cs bs) : cs.Nodup :=
  (h.nodup_all.of_append_left.of_append_left).of_map _

theorem Inv.nodup_bs (h : Inv L s P cs bs) : bs.Nodup :=
  (h.nodup_all.of_append_left.of_append_right).of_map _

/-- **What is outstanding** is what is not free. -/
theorem Inv.mem_out (h : Inv L s P cs bs) (b : Buf packOrder) :
    b ∈ cs.map Buf.cache ++ bs.map Buf.block ↔ ¬ P.IsFree b :=
  ⟨h.not_free, (h.mem_all b).resolve_right⟩

theorem cache_mem_out : Buf.cache i ∈ cs.map Buf.cache ++ bs.map Buf.block ↔ i ∈ cs := by simp

theorem block_mem_out : Buf.block i ∈ cs.map Buf.cache ++ bs.map Buf.block ↔ i ∈ bs := by simp

theorem Inv.mem_cs (h : Inv L s P cs bs) : i ∈ cs ↔ P.cacheUse i = true := by
  have hout : i ∈ cs ↔ ¬ P.cacheUse i = false := cache_mem_out.symm.trans (h.mem_out (.cache i))
  rwa [Bool.not_eq_false] at hout

theorem Inv.mem_bs (h : Inv L s P cs bs) : i ∈ bs ↔ i ∉ P.freeList :=
  block_mem_out.symm.trans (h.mem_out (.block i))

/-- A list without repetitions that is as long as there are places has all of them. -/
theorem length_eq_iff_forall_mem {n : ℕ} {l : List (Fin n)} (hl : l.Nodup) :
    l.length = n ↔ ∀ i, i ∈ l := by
  have hcard := Finset.card_eq_iff_eq_univ l.toFinset
  rw [Fintype.card_fin, List.toFinset_card_of_nodup hl, Finset.eq_univ_iff_forall] at hcard
  exact hcard.trans (forall_congr' fun i => List.mem_toFinset)

theorem Inv.fromCache_notMem_pool (h : Inv L s P cs bs) (i : Fin packCount) :
    L.cacheGet i.val ∉ s.fromPool := by
  rw [h.fromPool]
  intro hp
  obtain ⟨j, -, hj⟩ := List.mem_map.mp hp
  exact not_packIsCache_block L j (hj ▸ packIsCache_cacheGet L i)

theorem Inv.fromPool_notMem_cache (h : Inv L s P cs bs) (i : Fin packCount) :
    L.blockData (L.block i.val) ∉ s.fromCache := by
  rw [h.fromCache]
  intro hp
  obtain ⟨j, -, hj⟩ := List.mem_map.mp hp
  exact not_packIsCache_block L i (hj ▸ packIsCache_cacheGet L j)

/-- **`NULL`** is returned only if every place of the ring is in use. -/
theorem packGetFast_none {k : ℕ} (P : Pools k) :
    P.packGetFast = none ↔ ∀ i, P.cacheUse i = true := by
  unfold Pools.packGetFast
  by_cases huse : P.cacheUse P.cachePos = false
  · rw [if_pos huse]
    exact ⟨nofun, fun hall => by cases huse.symm.trans (hall P.cachePos)⟩
  · rw [if_neg huse, Option.map_eq_none_iff, List.find?_eq_none]
    constructor
    · intro hothers i
      by_cases hi : P.cachePos = i
      · exact hi ▸ Bool.eq_true_of_not_eq_false huse
      · obtain ⟨j, hj, rfl⟩ := exists_place hi
        have hlook := hothers _ (List.mem_map_of_mem (List.mem_range.mpr hj))
        simpa using hlook
    · intro hall i _
      rw [hall i]
      exact Bool.false_ne_true

/-- A buffer that `pack_get_cache` hands out was not in use. -/
theorem packGetFast_some {k : ℕ} {P P' : Pools k} {b : Buf k}
    (h : P.packGetFast = some (b, P')) : ∃ i, b = .cache i ∧ P.cacheUse i = false := by
  unfold Pools.packGetFast at h
  split at h
  · next huse =>
    cases h
    exact ⟨_, rfl, huse⟩
  · obtain ⟨i, hi, hx⟩ := Option.map_eq_some_iff.mp h
    cases hx
    exact ⟨i, rfl, by simpa using List.find?_some hi⟩

theorem packGetNew_some {k : ℕ} {P P' : Pools k} {b : Buf k}
    (h : P.packGetNew = some (b, P')) : ∃ i, b = .block i ∧ i ∈ P.freeList := by
  unfold Pools.packGetNew at h
  split at h
  · cases h
  · next i l hl =>
    cases h
    exact ⟨i, rfl, hl ▸ List.mem_cons_self⟩

/-- **What the next call does.** -/
theorem sound_of_inv (h : Inv L s P cs bs) : Sound L s where
  nodup := by
    rw [h.fromCache, h.fromPool]
    refine (h.nodup_cs.map fun i j => cacheGet_inj).append
      (h.nodup_bs.map fun i j => blockData_inj) ?_
    intro p hc hb
    obtain ⟨i, -, rfl⟩ := List.mem_map.mp hc
    exact h.fromCache_notMem_pool i (h.fromPool ▸ hb)
  get := by
    rw [h.mem, packGetCache_pools]
    refine ⟨_, rfl, ?_, ?_⟩
    · have hlen : s.fromCache.length = packCount ↔ P.packGetFast = none := by
        rw [h.fromCache, List.length_map, length_eq_iff_forall_mem h.nodup_cs, packGetFast_none]
        exact forall_congr' fun i => h.mem_cs
      rw [hlen]
      cases P.packGetFast <;> simp
    · intro p hp
      cases hget : P.packGetFast with
      | none => rw [hget] at hp; cases hp
      | some r =>
        obtain ⟨b, P'⟩ := r
        obtain ⟨i, rfl, huse⟩ := packGetFast_some hget
        rw [hget] at hp
        cases hp
        refine ⟨?_, h.fromCache_notMem_pool i⟩
        rw [h.fromCache]
        intro hmem
        obtain ⟨j, hj, hji⟩ := List.mem_map.mp hmem
        rw [cacheGet_inj hji] at hj
        cases huse.symm.trans (h.mem_cs.mp hj)
  new := by
    rw [h.mem, allocBlock_pools]
    constructor
    · have hlen : s.fromPool.length = packCount ↔ P.freeList = [] := by
        rw [h.fromPool, List.length_map, length_eq_iff_forall_mem h.nodup_bs,
          List.eq_nil_iff_forall_not_mem]
        exact forall_congr' fun i => h.mem_bs
      rw [hlen]
      unfold Pools.packGetNew
      cases P.freeList <;> simp
    · intro p hp
      cases hget : P.packGetNew with
      | none => rw [hget] at hp; cases hp
      | some r =>
        obtain ⟨b, P'⟩ := r
        obtain ⟨i, rfl, hfree⟩ := packGetNew_some hget
        rw [hget] at hp
        cases hp
        refine ⟨h.fromPool_notMem_cache i, ?_⟩
        rw [h.fromPool]
        intro hmem
        obtain ⟨j, hj, hji⟩ := List.mem_map.mp hmem
        rw [blockData_inj hji] at hj
        exact h.mem_bs.mp hj hfree
  freeCache p hp := by
    rw [h.fromCache] at hp
    obtain ⟨i, hi, rfl⟩ := List.mem_map.mp hp
    refine ⟨i, rfl, ?_, packFree_cache L s.mem i⟩
    rw [h.mem]
    exact h.mem_cs.mp hi
  freePool p hp := by
    rw [h.fromPool] at hp
    obtain ⟨i, hi, rfl⟩ := List.mem_map.mp hp
    refine ⟨i.val, i.isLt, rfl, ?_, packFree_block L s.mem i⟩
    rw [h.mem]
    intro hmem
    obtain ⟨j, hj, hji⟩ := List.mem_map.mp hmem
    rw [Fin.ext (block_inj hji)] at hj
    exact h.mem_bs.mp hi hj

/-! ## Steps -/

/-- `pack_get_cache` hands a free buffer out, or none. -/
theorem inv_getCache (h : Inv L s P cs bs) :
    ∃ s' P' cs', step L s .getCache = some s' ∧ Inv L s' P' cs' bs := by
  have hget := packGetCache_pools L P
  rw [← h.mem] at hget
  cases hfast : P.packGetFast with
  | none =>
    rw [hfast] at hget
    exact ⟨_, P, cs, congrArg (Option.map _) hget, ⟨h.mem ▸ rfl, h.fromCache, h.fromPool, h.perm⟩⟩
  | some r =>
    obtain ⟨b, P'⟩ := r
    obtain ⟨i, rfl, -⟩ := packGetFast_some hfast
    rw [hfast] at hget
    refine ⟨_, P', i :: cs, congrArg (Option.map _) hget, ⟨rfl, ?_, h.fromPool, ?_⟩⟩
    · show L.cacheGet i.val :: s.fromCache = _
      rw [h.fromCache, List.map_cons]
    · rw [List.map_cons, List.cons_append, List.cons_append]
      exact (List.perm_middle.symm.trans ((packGetFast_perm hfast).append_left _)).trans h.perm

/-- `alloc_block` hands a free block out, or none. -/
theorem inv_getNew (h : Inv L s P cs bs) :
    ∃ s' P' bs', step L s .getNew = some s' ∧ Inv L s' P' cs bs' := by
  have hget := allocBlock_pools L P
  rw [← h.mem] at hget
  cases hnew : P.packGetNew with
  | none =>
    rw [hnew] at hget
    refine ⟨_, P, bs, rfl, ⟨?_, h.fromCache, ?_, h.perm⟩⟩
    · exact (congrArg Prod.snd hget).trans h.mem
    · show (L.allocBlock s.mem).1.toList ++ s.fromPool = _
      rw [hget]
      exact h.fromPool
  | some r =>
    obtain ⟨b, P'⟩ := r
    obtain ⟨i, rfl, -⟩ := packGetNew_some hnew
    rw [hnew] at hget
    refine ⟨_, P', i :: bs, rfl, ⟨congrArg Prod.snd hget, h.fromCache, ?_, ?_⟩⟩
    · show (L.allocBlock s.mem).1.toList ++ s.fromPool = _
      rw [hget, h.fromPool, List.map_cons]
      rfl
    · refine List.Perm.trans ?_ h.perm
      rw [List.map_cons, List.append_assoc, List.append_assoc, List.cons_append]
      refine List.Perm.append_left _ ?_
      exact List.perm_middle.symm.trans ((packGetNew_perm hnew).append_left _)

/-- `pack_free` of a buffer of the cache. -/
theorem inv_freeCache (h : Inv L s P cs bs) (hi : i ∈ cs) :
    ∃ s' P', step L s (.free (L.cacheGet i.val)) = some s' ∧ Inv L s' P' (cs.erase i) bs := by
  have hfree := packFree_pools L P (.cache i)
  rw [← h.mem] at hfree
  have hnot := h.not_free (cache_mem_out.mpr hi)
  refine ⟨_, _, congrArg (Option.map _) hfree, ⟨rfl, ?_, ?_, ?_⟩⟩
  · show s.fromCache.erase (L.cacheGet i.val) = _
    rw [h.fromCache, List.map_erase fun i j => cacheGet_inj]
  · exact (List.erase_of_not_mem (h.fromCache_notMem_pool i)).trans h.fromPool
  · refine ((giveBack_perm hnot).append_left _).trans (List.perm_middle.trans ?_)
    refine List.Perm.trans ?_ h.perm
    rw [← List.cons_append, ← List.cons_append, ← List.map_cons]
    exact (((List.perm_cons_erase hi).symm.map _).append_right _).append_right _

/-- `pack_free` of a block. -/
theorem inv_freePool (h : Inv L s P cs bs) (hi : i ∈ bs) :
    ∃ s' P', step L s (.free (L.blockData (L.block i.val))) = some s' ∧
      Inv L s' P' cs (bs.erase i) := by
  have hfree := packFree_pools L P (.block i)
  rw [← h.mem] at hfree
  have hnot := h.not_free (block_mem_out.mpr hi)
  refine ⟨_, _, congrArg (Option.map _) hfree, ⟨rfl, ?_, ?_, ?_⟩⟩
  · exact (List.erase_of_not_mem (h.fromPool_notMem_cache i)).trans h.fromCache
  · show s.fromPool.erase (L.blockData (L.block i.val)) = _
    rw [h.fromPool, List.map_erase fun i j => blockData_inj]
  · refine ((giveBack_perm hnot).append_left _).trans (List.perm_middle.trans ?_)
    refine List.Perm.trans ?_ h.perm
    rw [← List.cons_append]
    refine List.Perm.append_right _ (List.perm_middle.symm.trans ?_)
    rw [← List.map_cons]
    exact ((List.perm_cons_erase hi).symm.map _).append_left _

theorem inv_step (h : Inv L s P cs bs) {c : Call} (hG : Outstanding s c) :
    ∃ s' P' cs' bs', step L s c = some s' ∧ Inv L s' P' cs' bs' := by
  cases c with
  | getCache =>
    obtain ⟨s', P', cs', hs', hI⟩ := inv_getCache h
    exact ⟨s', P', cs', bs, hs', hI⟩
  | getNew =>
    obtain ⟨s', P', bs', hs', hI⟩ := inv_getNew h
    exact ⟨s', P', cs, bs', hs', hI⟩
  | free p =>
    rcases hG with hp | hp
    · rw [h.fromCache] at hp
      obtain ⟨i, hi, rfl⟩ := List.mem_map.mp hp
      obtain ⟨s', P', hs', hI⟩ := inv_freeCache h hi
      exact ⟨s', P', _, bs, hs', hI⟩
    · rw [h.fromPool] at hp
      obtain ⟨i, hi, rfl⟩ := List.mem_map.mp hp
      obtain ⟨s', P', hs', hI⟩ := inv_freePool h hi
      exact ⟨s', P', cs, _, hs', hI⟩

end Invariant

theorem inv_start (L : Layout) : Inv L (.start L) (.init packOrder) [] [] := by
  refine ⟨?_, rfl, rfl, ?_⟩
  · have hblocks : ∀ n, (List.range n).map L.block =
        (List.finRange n).map fun i => L.block i.val := by
      intro n
      rw [← List.map_coe_finRange_eq_range, List.map_map]
      rfl
    show L.init = ofPools L (.init packOrder)
    unfold Layout.init ofPools Pools.init
    rw [hblocks]
  · rw [List.map_nil, List.map_nil, List.nil_append, List.nil_append]

/-- **`pack_get_cache`** returns no buffer that is outstanding, and `NULL` exactly when all of them
are; it returns after one turn of the ring at most; **`pack_free`** gives a buffer back to where it
came from: along every run in which only what is outstanding is freed. -/
theorem always_sound (L : Layout) {cs : List Call}
    (hg : Guarded (step L) Outstanding (.start L) cs) :
    Always (step L) (Sound L) (.start L) cs := by
  refine always_of_guarded (I := fun s => ∃ P is js, Inv L s P is js) (E := fun _ => True) ?_ ?_
    ⟨_, _, _, inv_start L⟩ (fun _ _ => trivial) hg
  · rintro s ⟨P, is, js, hI⟩
    exact sound_of_inv hI
  · rintro s c ⟨P, is, js, hI⟩ - hG
    obtain ⟨s', P', is', js', hs', hI'⟩ := inv_step hI hG
    exact ⟨s', hs', P', is', js', hI'⟩

/-- The blocks right behind the cache. -/
def behind : Layout := ⟨4096, 4096 + cacheSize, 16, by decide, .inr le_rfl⟩

/-- Buffers of the cache and a block, which are freed in another order. -/
theorem always_sound_behind : Always (step behind) (Sound behind) (.start behind)
    [.getCache, .getCache, .getNew, .free (4096 + 2048), .free (4096 + cacheSize + 16),
      .getCache] :=
  always_sound behind (by decide +kernel)

end GSConferencing.Serv.PackCache
