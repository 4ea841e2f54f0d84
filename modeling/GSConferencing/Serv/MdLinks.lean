import GSConferencing.Include.Hash
import GSConferencing.Include.ListHead
import GSConferencing.Lib.Run
import GSConferencing.Serv.Md

/-!
# The links of a table

`md.c`, for one table, down to the pointers: a record is in a cyclic list and in a chain of the hash
table, and there is a count.  `malloc` gives any address that is not in use, so that an address may
come back.

* `inv_add`, `inv_del`, `inv_clear`: what the operations do to the two structures.
* `consistent_of_inv`: what the structures hold, as the functions that read them see it.
* `always_consistent`: so it is along every run.
* `rows_eq`: the records are those of `Md.Table`.
-/

namespace GSConferencing.Serv.MdLinks

open GSConferencing.Lib.Run GSConferencing.Lib.CyclicList GSConferencing.Lib.HashChain
open GSConferencing.Include.ListHead GSConferencing.Include.Hash

/-! ## The table -/

/-- `struct md_<type>`, apart from its links. -/
structure Node (ρ : Type*) where
  id : ℤ
  data : ρ

/-- The static variables of a table, the nodes that are allocated, and the links of the nodes. -/
structure Mem (ρ : Type*) where
  node : ℕ → Option (Node ρ)
  list : Links Unit ℕ
  hash : Table ℕ
  n : ℕ

variable {ρ : Type*} (key : ρ → ℤ)

/-- The start: `LIST_HEAD`, a table of null pointers, and nothing allocated. -/
def Mem.start : Mem ρ where
  node := fun _ => none
  list := (⟨fun _ => none, fun _ => none⟩ : Links Unit ℕ).init (.head ())
  hash := ⟨fun _ => none, fun _ => none⟩
  n := 0

namespace Mem

variable (m : Mem ρ)

/-- `_add_<type>`; `a` is the address that `malloc` gives. -/
def add (a : ℕ) (p : ρ) : Option (Mem ρ) :=
  if (m.node a).isSome then none
  else (listAddTail m.list (.entry a) (.head ())).map fun L =>
    { node := Function.update m.node a (some ⟨key p, p⟩)
      list := L
      hash := hashMemb m.hash (key p) a
      n := m.n + 1 }

/-- `p->id == id`; a node that is not allocated cannot be read. -/
def equal (id : ℤ) (a : ℕ) : Option Bool := (m.node a).map fun d => decide (d.id = id)

/-- `find_by_id`. -/
def findById (id : ℤ) : Option (Option ℕ) := findByMemb m.hash (m.equal id) m.n id

/-- `_del_<type>`. -/
def del (id : ℤ) : Option (Mem ρ) :=
  (m.findById id).bind fun r => match r with
    | none => some m
    | some a => (listDel m.list (.entry a)).bind fun L => (unhash m.hash a).map fun H =>
      { node := Function.update m.node a none, list := L, hash := H, n := m.n - 1 }

/-- `free` of a node; `list_for_each_safe` has read the link to the next one. -/
def freeNode (node : ℕ → Option (Node ρ)) (a : ℕ) : (ℕ → Option (Node ρ)) ⊕ Unit :=
  if (node a).isSome then .inl (Function.update node a none) else .inr ()

/-- `_clear_<type>`. -/
def clear : Option (Mem ρ) :=
  match m.list.forEach () freeNode m.n (m.list.next (.head ())) m.node with
  | some (.inl node) =>
    some { node := node, list := m.list.init (.head ()), hash := clearTable m.hash, n := 0 }
  | _ => none

/-- `md_find_<type>`: the address of the record. -/
def find (id : ℤ) : Option (Option ℕ) := m.findById id

/-- `md_get_<type>_count`. -/
def getCount : ℕ := m.n

/-- A round of `_list_to_array_<type>`. -/
def addToArray (array : List ℕ) (a : ℕ) : List ℕ ⊕ Unit :=
  if (m.node a).isSome then .inl (array ++ [a]) else .inr ()

/-- `md_get_array_<type>`: the addresses of the records, without the ending `NULL`. -/
def getArray : Option (List ℕ) :=
  match m.list.forEach () m.addToArray m.n (m.list.next (.head ())) [] with
  | some (.inl array) => some array
  | _ => none

/-- `md_iterate_<type>_next`: the address of the record, and the iterator. -/
def iterateNext (it : Option ℕ) : Option (Option ℕ × Option ℕ) :=
  if it.any fun a => (m.node a).isNone then none
  else match m.list.next (it.elim (.head ()) .entry) with
    | none => none
    | some (.head _) => some (none, it)
    | some (.entry a) => some (some a, some a)

/-- The records that `md_iterate_<type>_next` returns up to `NULL`, `n` of them at most. -/
def iterate : ℕ → Option ℕ → Option (List ℕ)
  | 0, it => (m.iterateNext it).bind fun r => if r.1.isSome then none else some []
  | n + 1, it => (m.iterateNext it).bind fun r => match r.1 with
    | none => some []
    | some a => (iterate n r.2).map fun l => a :: l

/-- The nodes of the chain `k`. -/
def chain (k : Fin hashSz) : Option (List ℕ) := m.hash.walk m.n (m.hash.ptr (.first k))

end Mem

/-! ## The records -/

/-- The records with their addresses, in the order of their addition. -/
abbrev Live (ρ : Type*) := List (ℕ × ρ)

/-- The calls; the database has done its part. -/
inductive Event (ρ : Type*) where
  | add (a : ℕ) (p : ρ)
  | del (id : ℤ)
  | clear

/-- What becomes of the records. -/
def Live.step (l : Live ρ) : Event ρ → Live ρ
  | .add a p => l ++ [(a, p)]
  | .del id => l.filter fun e => key e.2 ≠ id
  | .clear => []

/-- What becomes of the table. -/
def Mem.step (m : Mem ρ) : Event ρ → Option (Mem ρ)
  | .add a p => m.add key a p
  | .del id => m.del id
  | .clear => m.clear

/-- The table beside its records. -/
structure State (ρ : Type*) where
  mem : Mem ρ
  live : Live ρ

def State.start : State ρ := ⟨.start, []⟩

def step (s : State ρ) (e : Event ρ) : Option (State ρ) :=
  (s.mem.step key e).map fun m => ⟨m, s.live.step key e⟩

/-- **The guard:** `malloc` gives an address that is not in use, and the id is not in the table. -/
def Fresh (s : State ρ) : Event ρ → Prop
  | .add a p => a ∉ s.live.map Prod.fst ∧ key p ∉ s.live.map fun e => key e.2
  | _ => True

instance (s : State ρ) : ∀ e, Decidable (Fresh key s e)
  | .add a p => inferInstanceAs
      (Decidable (a ∉ s.live.map Prod.fst ∧ key p ∉ s.live.map fun e => key e.2))
  | .del _ => .isTrue trivial
  | .clear => .isTrue trivial

/-- **The property:** the list, the hash chains and the count hold the records. -/
structure Consistent (s : State ρ) : Prop where
  /-- A record is stored at its address. -/
  node : ∀ e ∈ s.live, s.mem.node e.1 = some ⟨key e.2, e.2⟩
  count : s.mem.getCount = s.live.length
  nodup : (s.live.map Prod.fst).Nodup
  array : s.mem.getArray = some (s.live.map Prod.fst)
  iterate : s.mem.iterate s.live.length none = some (s.live.map Prod.fst)
  chain : ∀ k, ∃ l, s.mem.chain k = some l ∧
    l.Perm ((s.live.filter fun e => hashfn (key e.2) = k).map Prod.fst)
  find : ∀ id, s.mem.find id = some ((s.live.find? fun e => key e.2 = id).map Prod.fst)
  /-- Every record is found by its id. -/
  reach : ∀ e ∈ s.live, s.mem.find (key e.2) = some (some e.1)

/-! ## The invariant -/

/-- The chain `k`: the nodes with this hash index, the newest one first. -/
def bucket (l : Live ρ) (k : Fin hashSz) : List ℕ :=
  ((l.filter fun e => hashfn (key e.2) = k).map Prod.fst).reverse

/-- **The invariant:** the list is a ring through the nodes, the chains are those of the hash
indices, and what is allocated is in use. -/
structure Inv (s : State ρ) : Prop where
  node : ∀ e ∈ s.live, s.mem.node e.1 = some ⟨key e.2, e.2⟩
  free : ∀ a, a ∉ s.live.map Prod.fst → s.mem.node a = none
  count : s.mem.n = s.live.length
  keys : (s.live.map fun e => key e.2).Nodup
  ring : Ring s.mem.list () (s.live.map Prod.fst)
  buckets : Buckets s.mem.hash (bucket key s.live)

variable {key} {s : State ρ} {l : Live ρ} {a : ℕ} {k : Fin hashSz}

theorem Inv.addrs (h : Inv key s) : (s.live.map Prod.fst).Nodup := h.ring.nodup

theorem mem_bucket : a ∈ bucket key l k ↔ ∃ e ∈ l, hashfn (key e.2) = k ∧ e.1 = a := by
  unfold bucket
  simp only [List.mem_reverse, List.mem_map, List.mem_filter, decide_eq_true_eq, and_assoc]

theorem length_bucket_le (key : ρ → ℤ) (l : Live ρ) (k : Fin hashSz) :
    (bucket key l k).length ≤ l.length := by
  unfold bucket
  rw [List.length_reverse, List.length_map]
  exact List.length_filter_le _ l

/-- The one element that passes the test is found. -/
theorem find?_eq_of_unique {α : Type*} {p : α → Bool} {l : List α} {x : α} (hx : x ∈ l)
    (hp : p x = true) (hone : ∀ y ∈ l, p y = true → y = x) : l.find? p = some x := by
  obtain ⟨y, hy⟩ := Option.isSome_iff_exists.mp (List.find?_isSome.mpr ⟨x, hx, hp⟩)
  rw [hy, hone y (List.mem_of_find?_eq_some hy) (List.find?_some hy)]

/-! ## What is read -/

/-- **`find_by_id`** finds the record in its chain. -/
theorem Inv.findById (h : Inv key s) (id : ℤ) :
    s.mem.findById id = some ((s.live.find? fun e => key e.2 = id).map Prod.fst) := by
  let p : ℕ → Bool := fun a => ((s.mem.node a).map fun d => decide (d.id = id)).getD false
  have hp : ∀ e ∈ s.live, p e.1 = decide (key e.2 = id) := fun e he => by
    simp only [p, h.node e he, Option.map_some, Option.getD_some]
  have htest : ∀ a ∈ bucket key s.live (hashfn id), s.mem.equal id a = some (p a) := by
    intro a ha
    obtain ⟨e, he, -, rfl⟩ := mem_bucket.mp ha
    rw [hp e he, Mem.equal, h.node e he, Option.map_some]
  have hlen := length_bucket_le key s.live (hashfn id)
  unfold Mem.findById findByMemb
  rw [(h.buckets.chain (hashfn id)).search_eq htest (h.count ▸ hlen), Option.some.injEq]
  cases hfind : s.live.find? fun e => key e.2 = id with
  | none =>
    refine List.find?_eq_none.mpr fun a ha => ?_
    obtain ⟨e, he, -, rfl⟩ := mem_bucket.mp ha
    rw [hp e he]
    exact List.find?_eq_none.mp hfind e he
  | some e =>
    have he := List.mem_of_find?_eq_some hfind
    have hid : key e.2 = id := by simpa using List.find?_some hfind
    have hmem : e.1 ∈ bucket key s.live (hashfn id) := mem_bucket.mpr ⟨e, he, by rw [hid], rfl⟩
    refine find?_eq_of_unique hmem (by rw [hp e he]; exact decide_eq_true hid) fun a ha hpa => ?_
    obtain ⟨e', he', -, rfl⟩ := mem_bucket.mp ha
    rw [hp e' he', decide_eq_true_eq] at hpa
    rw [List.inj_on_of_nodup_map h.keys he' he (hpa.trans hid.symm)]

theorem Inv.alloc (h : Inv key s) : ∀ a ∈ s.live.map Prod.fst, (s.mem.node a).isSome = true := by
  intro a ha
  obtain ⟨e, he, rfl⟩ := List.mem_map.mp ha
  rw [h.node e he]
  rfl

/-- **`md_get_array`** goes through the list. -/
theorem Inv.getArray (h : Inv key s) : s.mem.getArray = some (s.live.map Prod.fst) := by
  have hloop : ∀ (l array : List ℕ), (∀ a ∈ l, (s.mem.node a).isSome = true) →
      foldExit s.mem.addToArray array l = .inl (array ++ l) := by
    intro l
    induction l with
    | nil => exact fun array _ => congrArg Sum.inl (List.append_nil array).symm
    | cons a l ih =>
      intro array hl
      have hround : s.mem.addToArray array a = .inl (array ++ [a]) :=
        if_pos (hl a List.mem_cons_self)
      rw [foldExit, hround]
      simp only []
      rw [ih (array ++ [a]) fun b hb => hl b (List.mem_cons_of_mem a hb), List.append_assoc,
        List.singleton_append]
  have hlen : (s.live.map Prod.fst).length ≤ s.mem.n := by rw [List.length_map, h.count]
  unfold Mem.getArray
  rw [h.ring.forEach_eq _ _ hlen, hloop _ _ h.alloc]
  rfl

/-- A call of `md_iterate_next`, with the iterator behind the records `l₁`. -/
theorem Inv.iterateNext (h : Inv key s) {l₁ l₂ : List ℕ} (hl : s.live.map Prod.fst = l₁ ++ l₂) :
    s.mem.iterateNext l₁.getLast? =
      some (l₂.head?, if l₂ = [] then l₁.getLast? else l₂.head?) := by
  have hlive : ¬ (l₁.getLast?.any fun a => (s.mem.node a).isNone) = true := by
    cases hlast : l₁.getLast? with
    | none => exact Bool.false_ne_true
    | some b =>
      have hb := h.alloc b (hl ▸ List.mem_append_left _ (List.mem_of_getLast? hlast))
      rw [Option.any_some, Option.isNone_iff_eq_none]
      exact fun hnone => by rw [hnone] at hb; cases hb
  have hnext : s.mem.list.next (l₁.getLast?.elim (.head ()) .entry) = some (succ () l₂) :=
    (Ring.adj (hl ▸ h.ring)).1
  unfold Mem.iterateNext
  rw [if_neg hlive, hnext]
  cases l₂ with
  | nil => rfl
  | cons a l₂ => rfl

/-- **`md_iterate_next`,** again and again, returns the records behind the iterator. -/
theorem Inv.iterate (h : Inv key s) {l₁ l₂ : List ℕ} (hl : s.live.map Prod.fst = l₁ ++ l₂) :
    s.mem.iterate l₂.length l₁.getLast? = some l₂ := by
  induction l₂ generalizing l₁ with
  | nil =>
    rw [List.length_nil, Mem.iterate, h.iterateNext hl]
    rfl
  | cons a l₂ ih =>
    have hbehind : s.live.map Prod.fst = (l₁ ++ [a]) ++ l₂ := by
      rw [hl, List.append_assoc, List.singleton_append]
    have hrest := ih hbehind
    rw [List.getLast?_concat] at hrest
    rw [List.length_cons, Mem.iterate, h.iterateNext hl]
    show (s.mem.iterate l₂.length (some a)).map (fun l => a :: l) = some (a :: l₂)
    rw [hrest]
    rfl

/-- **What the functions see** is what the records are. -/
theorem consistent_of_inv (h : Inv key s) : Consistent key s where
  node := h.node
  count := h.count
  nodup := h.addrs
  array := h.getArray
  iterate := by
    have hall : s.mem.iterate (s.live.map Prod.fst).length none = some (s.live.map Prod.fst) :=
      h.iterate (List.nil_append _).symm
    rwa [List.length_map] at hall
  chain k := by
    have hlen := length_bucket_le key s.live k
    exact ⟨_, (h.buckets.chain k).walk_eq (h.count ▸ hlen), List.reverse_perm _⟩
  find := h.findById
  reach e he := by
    have hone : s.live.find? (fun e' => key e'.2 = key e.2) = some e :=
      find?_eq_of_unique he (decide_eq_true rfl) fun e' he' hk =>
        List.inj_on_of_nodup_map h.keys he' he (of_decide_eq_true hk)
    have hfind := h.findById (key e.2)
    rwa [hone] at hfind

/-! ## What the operations do -/

/-- One list alone is a family of lists. -/
theorem rings_of_ring {L : Links Unit ℕ} {l : List ℕ} (h : Ring L () l) :
    Rings L (fun _ => True) fun _ => l :=
  ⟨fun _ _ => h, fun _ _ _ _ _ _ _ => rfl⟩

/-- **`_add`** puts a node at the end of the list and in front of a chain. -/
theorem inv_add (h : Inv key s) {p : ρ} (ha : a ∉ s.live.map Prod.fst)
    (hp : key p ∉ s.live.map fun e => key e.2) :
    ∃ m, s.mem.add key a p = some m ∧ Inv key ⟨m, s.live ++ [(a, p)]⟩ := by
  obtain ⟨L, hL, hrings, -⟩ :=
    listAddTail_rings (rings_of_ring h.ring) (h := ()) trivial fun _ _ => ha
  have hbucket : ∀ k, a ∉ bucket key s.live k := by
    intro k hk
    obtain ⟨e, he, -, rfl⟩ := mem_bucket.mp hk
    exact ha (List.mem_map_of_mem he)
  have hchains : bucket key (s.live ++ [(a, p)]) =
      Function.update (bucket key s.live) (hashfn (key p))
        (a :: bucket key s.live (hashfn (key p))) := by
    funext k
    unfold bucket
    rw [List.filter_append, List.map_append, List.reverse_append, Function.update_apply]
    by_cases hk : k = hashfn (key p)
    · rw [if_pos hk, hk, List.filter_singleton, decide_eq_true rfl]
      rfl
    · rw [if_neg hk, List.filter_singleton, decide_eq_false (Ne.symm hk)]
      rfl
  refine ⟨_, by rw [Mem.add, if_neg (by rw [h.free a ha]; exact Bool.false_ne_true), hL]; rfl, ?_⟩
  refine ⟨fun e he => ?_, fun b hb => ?_, ?_, ?_, ?_, ?_⟩
  · rcases List.mem_append.mp he with he | he
    · have hne : e.1 ≠ a := fun hea => ha (hea ▸ List.mem_map_of_mem he)
      exact (Function.update_of_ne hne _ _).trans (h.node e he)
    · rw [List.mem_singleton.mp he]
      exact Function.update_self ..
  · rw [List.map_append, List.mem_append, not_or] at hb
    have hne : b ≠ a := fun hba => hb.2 (List.mem_singleton.mpr hba)
    exact (Function.update_of_ne hne _ _).trans (h.free b hb.1)
  · show s.mem.n + 1 = _
    rw [h.count, List.length_append, List.length_singleton]
  · rw [List.map_append, List.map_singleton, ← List.concat_eq_append]
    exact h.keys.concat hp
  · rw [List.map_append]
    have hring := hrings.ring () trivial
    rwa [Function.update_self] at hring
  · rw [hchains]
    exact hashMemb_buckets h.buckets hbucket (key p)

/-- The chains without one record. -/
theorem bucket_erase {l₁ l₂ : Live ρ} {e : ℕ × ρ}
    (hnd : (bucket key (l₁ ++ e :: l₂) (hashfn (key e.2))).Nodup) :
    bucket key (l₁ ++ l₂) = Function.update (bucket key (l₁ ++ e :: l₂)) (hashfn (key e.2))
      ((bucket key (l₁ ++ e :: l₂) (hashfn (key e.2))).erase e.1) := by
  have hwith : bucket key (l₁ ++ e :: l₂) (hashfn (key e.2)) =
      bucket key l₂ (hashfn (key e.2)) ++ e.1 :: bucket key l₁ (hashfn (key e.2)) := by
    unfold bucket
    rw [List.filter_append, List.filter_cons_of_pos (by simp), List.map_append, List.map_cons,
      List.reverse_append, List.reverse_cons, List.append_assoc, List.singleton_append]
  have happ : ∀ k, bucket key (l₁ ++ l₂) k = bucket key l₂ k ++ bucket key l₁ k := by
    intro k
    unfold bucket
    rw [List.filter_append, List.map_append, List.reverse_append]
  funext k
  rw [Function.update_apply]
  by_cases hk : k = hashfn (key e.2)
  · rw [hwith] at hnd ⊢
    rw [if_pos hk, erase_split hnd, hk, happ]
  · rw [if_neg hk, happ]
    unfold bucket
    rw [List.filter_append, List.filter_cons_of_neg (by simpa using Ne.symm hk), List.map_append,
      List.reverse_append]

/-- What one record has and no other one. -/
theorem ne_of_nodup_middle {β : Type*} {f : ℕ × ρ → β} {l₁ l₂ : Live ρ} {e : ℕ × ρ}
    (h : ((l₁ ++ e :: l₂).map f).Nodup) : ∀ e' ∈ l₁ ++ l₂, f e' ≠ f e := by
  rw [List.map_append, List.map_cons] at h
  intro e' he' heq
  refine (List.nodup_cons.mp (List.nodup_middle.mp h)).1 ?_
  rw [← List.map_append, ← heq]
  exact List.mem_map_of_mem he'

/-- The records without the one that has the id. -/
theorem filter_middle {l₁ l₂ : Live ρ} {e : ℕ × ρ}
    (h : ((l₁ ++ e :: l₂).map fun e' => key e'.2).Nodup) :
    ((l₁ ++ e :: l₂).filter fun e' => key e'.2 ≠ key e.2) = l₁ ++ l₂ := by
  rw [List.filter_append, List.filter_cons_of_neg (by simp), ← List.filter_append]
  exact List.filter_eq_self.mpr fun e' he' => decide_eq_true (ne_of_nodup_middle h e' he')

/-- **`_del`** takes one node out of the list and of its chain, and leaves the others alone. -/
theorem inv_del (h : Inv key s) (id : ℤ) :
    ∃ m, s.mem.del id = some m ∧ Inv key ⟨m, s.live.filter fun e => key e.2 ≠ id⟩ := by
  cases hfind : s.live.find? fun e => key e.2 = id with
  | none =>
    have hall : (s.live.filter fun e => key e.2 ≠ id) = s.live :=
      List.filter_eq_self.mpr fun e he => by simpa using List.find?_eq_none.mp hfind e he
    refine ⟨s.mem, ?_, by rw [hall]; exact h⟩
    rw [Mem.del, h.findById, hfind]
    rfl
  | some e =>
    have hid : key e.2 = id := by simpa using List.find?_some hfind
    have hdel := h.findById id
    rw [hfind, Option.map_some] at hdel
    obtain ⟨l₁, l₂, hl⟩ := List.append_of_mem (List.mem_of_find?_eq_some hfind)
    obtain ⟨m, live⟩ := s
    subst hl hid
    simp only at h hdel ⊢
    have haddrs := h.addrs
    have hkeys := h.keys
    have hbnd := h.buckets.nodup (hashfn (key e.2))
    have hmem : e ∈ l₁ ++ e :: l₂ := List.mem_append_right _ List.mem_cons_self
    obtain ⟨L, hL, hrings, -⟩ := listDel_rings (rings_of_ring h.ring) (h := ()) trivial
      (x := e.1) (List.mem_map_of_mem hmem)
    obtain ⟨H, hH, hbuckets⟩ := unhash_buckets h.buckets (x := key e.2) (p := e.1)
      (mem_bucket.mpr ⟨e, hmem, rfl, rfl⟩)
    refine ⟨{ node := Function.update m.node e.1 none, list := L, hash := H, n := m.n - 1 }, ?_, ?_⟩
    · rw [Mem.del, hdel, Option.bind_some]
      show (listDel m.list (.entry e.1)).bind _ = _
      rw [hL, Option.bind_some, hH]
      rfl
    · rw [filter_middle hkeys]
      have hnot : ∀ e' ∈ l₁ ++ l₂, e'.1 ≠ e.1 := ne_of_nodup_middle haddrs
      rw [List.map_append, List.map_cons] at haddrs hkeys
      have hsub : ∀ e' ∈ l₁ ++ l₂, e' ∈ l₁ ++ e :: l₂ := fun e' he' => by
        rcases List.mem_append.mp he' with he' | he'
        · exact List.mem_append_left _ he'
        · exact List.mem_append_right _ (List.mem_cons_of_mem e he')
      refine ⟨fun e' he' => ?_, fun b hb => ?_, ?_, ?_, ?_, ?_⟩
      · exact (Function.update_of_ne (hnot e' he') _ _).trans (h.node e' (hsub e' he'))
      · by_cases hbe : b = e.1
        · rw [hbe]
          exact Function.update_self ..
        · refine (Function.update_of_ne hbe _ _).trans (h.free b fun hb' => hb ?_)
          rw [List.map_append, List.map_cons] at hb'
          rw [List.map_append]
          exact (List.mem_cons.mp (List.perm_middle.mem_iff.mp hb')).resolve_left hbe
      · have hcount : m.n = (l₁ ++ e :: l₂).length := h.count
        show m.n - 1 = _
        rw [hcount, List.length_append, List.length_append, List.length_cons]
        omega
      · rw [List.map_append]
        exact (List.nodup_cons.mp (List.nodup_middle.mp hkeys)).2
      · have hring := hrings.ring () trivial
        rw [Function.update_self, List.map_append, List.map_cons, erase_split haddrs,
          ← List.map_append] at hring
        exact hring
      · rw [bucket_erase hbnd]
        exact hbuckets

/-- The loop of `_clear` frees the nodes of the list. -/
theorem foldExit_freeNode (l : List ℕ) (node : ℕ → Option (Node ρ)) (hnd : l.Nodup)
    (hl : ∀ a ∈ l, (node a).isSome = true) :
    ∃ node', foldExit Mem.freeNode node l = .inl node' ∧
      ∀ a, node' a = if a ∈ l then none else node a := by
  induction l generalizing node with
  | nil => exact ⟨node, rfl, fun a => (if_neg List.not_mem_nil).symm⟩
  | cons a l ih =>
    obtain ⟨ha, hnd⟩ := List.nodup_cons.mp hnd
    have hne : ∀ b ∈ l, b ≠ a := fun b hb hba => ha (hba ▸ hb)
    obtain ⟨node', hfold, hnode'⟩ := ih (Function.update node a none) hnd fun b hb => by
      rw [Function.update_of_ne (hne b hb)]
      exact hl b (List.mem_cons_of_mem a hb)
    have hround : Mem.freeNode node a = .inl (Function.update node a none) :=
      if_pos (hl a List.mem_cons_self)
    refine ⟨node', by rw [foldExit, hround]; exact hfold, fun b => ?_⟩
    rw [hnode', Function.update_apply]
    by_cases hba : b = a
    · rw [if_pos hba, hba, if_pos List.mem_cons_self, ite_self]
    · rw [if_neg hba]
      exact if_congr (List.mem_cons.trans (or_iff_right hba)).symm rfl rfl

/-- **`_clear`** frees every node, and resets the list and the chains. -/
theorem inv_clear (h : Inv key s) : ∃ m, s.mem.clear = some m ∧ Inv key ⟨m, []⟩ := by
  have hlen : (s.live.map Prod.fst).length ≤ s.mem.n := by rw [List.length_map, h.count]
  obtain ⟨node, hfold, hnode⟩ := foldExit_freeNode _ s.mem.node h.addrs h.alloc
  refine ⟨⟨node, s.mem.list.init (.head ()), clearTable s.mem.hash, 0⟩, ?_, ?_⟩
  · unfold Mem.clear
    rw [h.ring.forEach_eq _ _ hlen, hfold]
  · have hfree : ∀ a, node a = none := by
      intro a
      rw [hnode]
      by_cases ha : a ∈ s.live.map Prod.fst
      · exact if_pos ha
      · exact (if_neg ha).trans (h.free a ha)
    exact ⟨fun e he => absurd he List.not_mem_nil, fun a _ => hfree a, rfl, List.nodup_nil,
      ring_init _ (), clearTable_buckets⟩

theorem inv_start : Inv key (.start : State ρ) where
  node _ he := absurd he List.not_mem_nil
  free _ _ := rfl
  count := rfl
  keys := List.nodup_nil
  ring := ring_init _ ()
  buckets := Buckets.of_null fun _ => rfl

theorem inv_step (h : Inv key s) {e : Event ρ} (hG : Fresh key s e) :
    ∃ s', step key s e = some s' ∧ Inv key s' := by
  obtain ⟨m, hm, hI⟩ : ∃ m, s.mem.step key e = some m ∧ Inv key ⟨m, s.live.step key e⟩ := by
    cases e with
    | add a p => exact inv_add h hG.1 hG.2
    | del id => exact inv_del h id
    | clear => exact inv_clear h
  exact ⟨_, by rw [step, hm]; rfl, hI⟩

/-! ## Runs -/

/-- **The list, the hash chains and the count** hold the same records all along: the records are
found by their ids, and both loops go through them in the order of their addition. -/
theorem always_consistent {es : List (Event ρ)} (hg : Guarded (step key) (Fresh key) .start es) :
    Always (step key) (Consistent key) .start es :=
  always_of_guarded (I := Inv key) (E := fun _ => True) (fun _ => consistent_of_inv)
    (fun _ _ hI _ hG => inv_step hI hG) inv_start (fun _ _ => trivial) hg

/-- Two records in one chain, the older one with a negative id; it is deleted, its address is used
again, and the table is cleared. -/
theorem always_consistent_run :
    Always (step fun x : ℤ => x) (Consistent fun x : ℤ => x) .start
      [.add 0 (-1), .add 1 0, .add 2 5, .del (-1), .add 0 (-7), .clear, .del 3, .add 1 (-7)] :=
  always_consistent (by decide +kernel)

/-! ## The records of a table -/

/-- The calls, for `Md.Table`, which knows no links and has addresses of its own. -/
def tableStep (key : ρ → ℤ) (m : Md.Table ρ) : Event ρ → Md.Table ρ
  | .add _ p => m.add key p
  | .del id => m.del id
  | .clear => m.clear

theorem keyed_tableStep {m : Md.Table ρ} (h : m.Keyed key) (e : Event ρ) :
    (tableStep key m e).Keyed key := by
  cases e with
  | add a p => exact h.add p
  | del id => exact h.del id
  | clear => exact fun n hn => absurd hn List.not_mem_nil

theorem rows_tableStep {m : Md.Table ρ} (hkeyed : m.Keyed key) (hI : Inv key s)
    (hrows : m.rows = s.live.map Prod.snd) (e : Event ρ) :
    (tableStep key m e).rows = (s.live.step key e).map Prod.snd := by
  cases e with
  | add a p =>
    show (m.add key p).rows = (s.live ++ [(a, p)]).map Prod.snd
    rw [Md.Table.rows_add, hrows, List.map_append, List.map_singleton]
  | del id =>
    have hnd : (m.rows.map key).Nodup := by
      rw [hrows, List.map_map]
      exact hI.keys
    show (m.del id).rows = (s.live.filter fun e => key e.2 ≠ id).map Prod.snd
    rw [Md.Table.rows_del hkeyed hnd, hrows, List.filter_map]
    rfl
  | clear => rfl

/-- **The records** are those of `Md.Table` after the same calls. -/
theorem rows_eq {es : List (Event ρ)} (hg : Guarded (step key) (Fresh key) .start es)
    (hrun : run (step key) .start es = some s) :
    (es.foldl (tableStep key) .empty).rows = s.live.map Prod.snd := by
  have hall : ∀ (es : List (Event ρ)) (m : Md.Table ρ) (s₀ : State ρ), m.Keyed key → Inv key s₀ →
      m.rows = s₀.live.map Prod.snd → Guarded (step key) (Fresh key) s₀ es →
      run (step key) s₀ es = some s → (es.foldl (tableStep key) m).rows = s.live.map Prod.snd := by
    intro es
    induction es with
    | nil =>
      intro m s₀ _ _ hrows _ hrun
      rw [run_nil, Option.some.injEq] at hrun
      exact hrun ▸ hrows
    | cons e es ih =>
      intro m s₀ hkeyed hI hrows hg hrun
      obtain ⟨s₁, hs₁, hI₁⟩ := inv_step hI hg.1
      have hlive : s₁.live = s₀.live.step key e := by
        obtain ⟨mem, -, rfl⟩ := Option.map_eq_some_iff.mp hs₁
        rfl
      rw [run_cons, hs₁, Option.bind_some] at hrun
      refine ih _ s₁ (keyed_tableStep hkeyed e) hI₁ ?_ (hg.2 s₁ hs₁) hrun
      rw [hlive]
      exact rows_tableStep hkeyed hI hrows e
  exact hall es .empty .start (fun n hn => absurd hn List.not_mem_nil) inv_start rfl hg hrun

end GSConferencing.Serv.MdLinks
