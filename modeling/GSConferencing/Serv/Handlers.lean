import GSConferencing.Include.Hash
import GSConferencing.Serv.CmdHandler

/-!
# The table of handlers

`cmd_handler.c`: the handlers of the commands are registered under their names, in a hash table
whose hash function is that of `strhash.h`; a command goes to the handler of its name.

* `Registered`: the table has the entries of a list, in the chains of their names.
* `registered_foldlM`: what is in the table after a sequence of calls of `register_cmd_handler`.
* `handlers_eq`: whatever is registered, the chains are in order, and the handler of a name is the
  first one that was registered under it.
-/

namespace GSConferencing.Serv.Handlers

open GSConferencing.Lib.HashChain GSConferencing.Include.Hash GSConferencing.Serv.Strutil

theorem mask_lt (x : BitVec 32) : (x &&& 1023#32).toNat < hashSz := by
  rw [BitVec.toNat_and]
  exact Nat.lt_succ_of_le Nat.and_le_right

/-- One turn of the loop of `djbhash`; a `char` has a sign. -/
def djbStep (hash : BitVec 32) (c : Char) : BitVec 32 :=
  hash + ((hash <<< 5) + (BitVec.ofNat 8 c.toNat).signExtend 32)

/-- `djbhash`. -/
def djbhash (str : Str) : Fin hashSz := ⟨_, mask_lt (str.foldl djbStep 5381#32)⟩

variable {α : Type*} {id : α → Str}

/-- `cmdhandler_hash`, and how many entries are in it. -/
structure Table (α : Type*) where
  hash : Include.Hash.Table α
  count : ℕ

/-- `find_by_id`, where `id` is the member of that name; `equal` compares with `strcmp`. -/
def findById (id : α → Str) (T : Table α) (name : Str) : Option (Option α) :=
  T.hash.search (fun e => some (id e = name)) T.count (T.hash.ptr (.first (djbhash name)))

section Register
variable [DecidableEq α]

/-- `register_cmd_handler`: a name that is there already is refused. -/
def registerCmdHandler (id : α → Str) (T : Table α) (ent : α) : Option (Table α) :=
  (findById id T (id ent)).map fun
    | some _ => T
    | none => ⟨T.hash.pushFront (djbhash (id ent)) ent, T.count + 1⟩

end Register

/-- The static array before the calls of `initcall`. -/
def emptyTable : Table α := ⟨⟨fun _ => none, fun _ => none⟩, 0⟩

/-- The entries `l` are in the chains of their names. -/
structure Registered (id : α → Str) (T : Table α) (l : List α) : Prop where
  buckets : Buckets T.hash fun k => l.filter fun e => djbhash (id e) = k
  count : l.length = T.count

theorem registered_empty : Registered id (emptyTable : Table α) [] :=
  ⟨Buckets.of_null fun _ => rfl, rfl⟩

variable {T : Table α} {l : List α}

/-- **A name is looked up** in its chain, and found if it is anywhere. -/
theorem findById_eq (h : Registered id T l) (name : Str) :
    findById id T name = some (l.find? fun e => id e = name) := by
  have hlen : (l.filter fun e => djbhash (id e) = djbhash name).length ≤ T.count :=
    h.count ▸ List.length_filter_le _ l
  unfold findById
  rw [(h.buckets.chain (djbhash name)).search_eq (p := fun e => id e = name) (fun _ _ => rfl) hlen,
    List.find?_filter, Option.some.injEq]
  congr 1
  funext e
  by_cases he : id e = name
  · simp [he]
  · simp [he]

section Register
variable [DecidableEq α]

theorem registered_push (h : Registered id T l) {e : α} (he : e ∉ l) :
    Registered id ⟨T.hash.pushFront (djbhash (id e)) e, T.count + 1⟩ (e :: l) := by
  refine ⟨?_, congrArg (· + 1) h.count⟩
  have hpush := h.buckets.pushFront (fun k hk => he (List.mem_filter.mp hk).1) (djbhash (id e))
  have hchains : Function.update (fun k => l.filter fun x => djbhash (id x) = k) (djbhash (id e))
      (e :: l.filter fun x => djbhash (id x) = djbhash (id e)) =
        fun k => (e :: l).filter fun x => djbhash (id x) = k := by
    funext k
    by_cases hk : k = djbhash (id e)
    · subst hk
      rw [Function.update_self, List.filter_cons_of_pos (by simp)]
    · rw [Function.update_of_ne hk, List.filter_cons_of_neg (by simpa using Ne.symm hk)]
  exact hchains ▸ hpush

/-- **One entry is registered.** -/
theorem registerCmdHandler_eq (h : Registered id T l) (ent : α) :
    ∃ T', registerCmdHandler id T ent = some T' ∧
      Registered id T' (if (l.find? fun e => id e = id ent).isSome then l else ent :: l) := by
  unfold registerCmdHandler
  rw [findById_eq h, Option.map_some]
  cases hfind : l.find? fun e => id e = id ent with
  | some e => exact ⟨T, rfl, h⟩
  | none =>
    have hnot : ent ∉ l := fun hmem => by
      have hne := List.find?_eq_none.mp hfind ent hmem
      simp at hne
    exact ⟨_, rfl, registered_push h hnot⟩

/-- **A sequence of registrations:** among the entries in the table, which have different names, one
is found as among all of them. -/
theorem registered_foldlM (id : α → Str) (ents : List α) :
    ∃ T l, ents.foldlM (registerCmdHandler id) emptyTable = some T ∧ Registered id T l ∧
      l ⊆ ents ∧ (l.map id).Nodup ∧
      ∀ name, (l.find? fun e => id e = name) = ents.find? fun e => id e = name := by
  induction ents using List.reverseRecOn with
  | nil =>
    exact ⟨_, [], rfl, registered_empty, List.nil_subset _, List.nodup_nil, fun _ => rfl⟩
  | append_singleton ents ent ih =>
    obtain ⟨T, l, hT, hl, hsub, hnd, hfind⟩ := ih
    obtain ⟨T', hT', hl'⟩ := registerCmdHandler_eq hl ent
    refine ⟨T', _, by rw [List.foldlM_append, hT]; simpa using hT', hl', ?_, ?_, fun name => ?_⟩
    · split_ifs
      · exact List.subset_append_of_subset_left _ hsub
      · refine List.cons_subset.mpr ⟨List.mem_append_right _ List.mem_cons_self, ?_⟩
        exact List.subset_append_of_subset_left _ hsub
    · split_ifs with hold
      · exact hnd
      · refine List.nodup_cons.mpr ⟨fun hmem => hold ?_, hnd⟩
        obtain ⟨e, he, heq⟩ := List.mem_map.mp hmem
        exact List.find?_isSome.mpr ⟨e, he, by simpa using heq⟩
    · rw [List.find?_append, ← hfind name]
      by_cases hname : id ent = name
      · subst hname
        cases hold : l.find? fun e => id e = id ent with
        | some e => simp [hold]
        | none => simp
      · cases hold : l.find? fun e => id e = id ent with
        | some e => simp [hname]
        | none => simp [hname]

/-- **The handler of a name:** the table is in order, with entries of different names, and the first
entry with a name that was registered is the one found. -/
theorem handlers_eq (id : α → Str) (ents : List α) :
    ∃ T l, ents.foldlM (registerCmdHandler id) emptyTable = some T ∧
      (Registered id T l ∧ l ⊆ ents ∧ (l.map id).Nodup) ∧
      ∀ name, findById id T name = some (ents.find? fun e => id e = name) := by
  obtain ⟨T, l, hT, hl, hsub, hnd, hfind⟩ := registered_foldlM id ents
  exact ⟨T, l, hT, ⟨hl, hsub, hnd⟩, fun name => by rw [findById_eq hl, hfind]⟩

end Register

end GSConferencing.Serv.Handlers
