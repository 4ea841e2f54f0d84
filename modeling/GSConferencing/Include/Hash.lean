import GSConferencing.Lib.HashChain

/-!
# `hash.h`

The intrusive hash table of `include/hash.h`, keyed by an `int`.  Every macro is the sequence of
reads and writes of the source, and has no result where it would follow a pointer that was never
set.

* `hashMemb_buckets`, `unhash_buckets`: what the macros do to a table that is well formed.
-/

namespace GSConferencing.Include.Hash

open GSConferencing.Lib.HashChain

/-- `HASH_SZ`. -/
abbrev hashSz : ℕ := 4096 >>> 2

/-- `hashfn`, of an `int`; the shift keeps the sign and the mask takes it away. -/
def hashfn (x : ℤ) : Fin hashSz :=
  ⟨(((BitVec.ofInt 32 x).sshiftRight 8 ^^^ BitVec.ofInt 32 x) &&& 1023#32).toNat, by
    rw [BitVec.toNat_and]
    exact Nat.lt_succ_of_le Nat.and_le_right⟩

/-- `HASH(name, type)`, with the link fields of the nodes. -/
abbrev Table (α : Type*) := Chains (Fin hashSz) α

variable {α : Type*} [DecidableEq α] (H : Table α)

/-- `hash_memb`, of a node with the value `x`. -/
def hashMemb (x : ℤ) (p : α) : Table α := H.pushFront (hashfn x) p

/-- `unhash`. -/
def unhash (p : α) : Option (Table α) := (H.pprev p).map fun s => H.unlink p s

/-- `find_by_memb`: `equal` reads the member of a node; no chain has more than `n` nodes. -/
def findByMemb (equal : α → Option Bool) (n : ℕ) (x : ℤ) : Option (Option α) :=
  H.search equal n (H.ptr (.first (hashfn x)))

/-- `memset(hash, 0, sizeof hash)`. -/
def clearTable : Table α where
  ptr := fun s => match s with
    | .first _ => none
    | .next a => H.ptr (.next a)
  pprev := H.pprev

variable {H} {ls : Fin hashSz → List α} {x : ℤ} {p : α}

theorem hashMemb_buckets (h : Buckets H ls) (hp : ∀ k, p ∉ ls k) (x : ℤ) :
    Buckets (hashMemb H x p) (Function.update ls (hashfn x) (p :: ls (hashfn x))) :=
  h.pushFront hp (hashfn x)

theorem unhash_buckets (h : Buckets H ls) (hp : p ∈ ls (hashfn x)) :
    ∃ H', unhash H p = some H' ∧
      Buckets H' (Function.update ls (hashfn x) ((ls (hashfn x)).erase p)) := by
  obtain ⟨t, ht, hb⟩ := h.unlink hp
  refine ⟨_, ?_, hb⟩
  unfold unhash
  rw [ht, Option.map_some]

omit [DecidableEq α] in
theorem clearTable_buckets : Buckets (clearTable H) fun _ => [] := Buckets.of_null fun _ => rfl

end GSConferencing.Include.Hash
