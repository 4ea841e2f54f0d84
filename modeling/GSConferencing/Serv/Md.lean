import Mathlib

/-!
# Data in memory

`md.c`, for one table: the list of nodes in the order of their addition, with the hash table that
finds a node by the id it had when it was added.  A node is known by its address; addresses are
never used again, so that a pointer to a node that has been freed stays recognizable.

* `mem_del`: `_del_<type>` frees one node and leaves the others where they are.
* `rows_load`: what `md_load_all` makes of the rows of the database.
-/

namespace GSConferencing.Serv.Md

/-- `struct md_<type>`. -/
structure Node (ρ : Type*) where
  addr : ℕ
  id : ℤ
  data : ρ

/-- The list of a table; `next` is the next address. -/
structure Table (ρ : Type*) where
  nodes : List (Node ρ)
  next : ℕ
  nodup : (nodes.map Node.addr).Nodup
  below : ∀ n ∈ nodes, n.addr < next

namespace Table

variable {ρ : Type*} (key : ρ → ℤ) (m : Table ρ)

def empty : Table ρ where
  nodes := []
  next := 0
  nodup := List.nodup_nil
  below _ hn := absurd hn List.not_mem_nil

/-- `_add_<type>`. -/
def add (p : ρ) : Table ρ where
  nodes := m.nodes ++ [⟨m.next, key p, p⟩]
  next := m.next + 1
  nodup := by
    rw [List.map_append, List.nodup_append]
    refine ⟨m.nodup, List.nodup_singleton _, ?_⟩
    rintro a ha b hb rfl
    obtain ⟨n, hn, rfl⟩ := List.mem_map.mp ha
    have hlt := m.below n hn
    simp only [List.map_cons, List.map_nil, List.mem_singleton] at hb
    omega
  below n hn := by
    rcases List.mem_append.mp hn with hn | hn
    · have := m.below n hn
      omega
    · rw [List.mem_singleton.mp hn]
      exact Nat.lt_succ_self _

/-- `find_by_id`: a chain of the hash table begins with the node that was added last. -/
def find (id : ℤ) : Option (Node ρ) := m.nodes.reverse.find? fun n => n.id = id

/-- The node at the address is freed. -/
def free (a : ℕ) : Table ρ where
  nodes := m.nodes.filter fun n => n.addr ≠ a
  next := m.next
  nodup := m.nodup.sublist (List.filter_sublist.map _)
  below n hn := m.below n (List.mem_filter.mp hn).1

/-- `_del_<type>`. -/
def del (id : ℤ) : Table ρ :=
  match m.find id with
  | some n => m.free n.addr
  | none => m

/-- `_clear_<type>`. -/
def clear : Table ρ where
  nodes := []
  next := m.next
  nodup := List.nodup_nil
  below _ hn := absurd hn List.not_mem_nil

/-- The data at an address is written in place. -/
def write (a : ℕ) (p : ρ) : Table ρ where
  nodes := m.nodes.map fun n => if n.addr = a then { n with data := p } else n
  next := m.next
  nodup := by
    have haddr : Node.addr ∘ (fun n : Node ρ => if n.addr = a then { n with data := p } else n) =
        Node.addr := by
      funext n
      simp only [Function.comp_apply]
      split <;> rfl
    rw [List.map_map, haddr]
    exact m.nodup
  below n hn := by
    obtain ⟨n', hn', rfl⟩ := List.mem_map.mp hn
    have := m.below n' hn'
    split <;> exact this

/-- `md_get_array_<type>`, without the ending `NULL`. -/
def getArray : List ℕ := m.nodes.map Node.addr

/-- What is read through a pointer; nothing can be said of a node that has been freed. -/
def read (a : ℕ) : Option ρ := (m.nodes.find? fun n => n.addr = a).map Node.data

/-- The records in memory. -/
def rows : List ρ := m.nodes.map Node.data

/-- `LOAD` of `md_load_all`. -/
def load (l : List ρ) : Table ρ := l.foldl (add key) empty

variable {m}

/-! ## Nodes -/

theorem eq_of_addr_eq {n n' : Node ρ} (hn : n ∈ m.nodes) (hn' : n' ∈ m.nodes)
    (h : n.addr = n'.addr) : n = n' :=
  List.inj_on_of_nodup_map m.nodup hn hn' h

theorem mem_getArray {a : ℕ} : a ∈ m.getArray ↔ ∃ n ∈ m.nodes, n.addr = a := List.mem_map

theorem read_isSome {a : ℕ} : (m.read a).isSome ↔ a ∈ m.getArray := by
  rw [read, Option.isSome_map, List.find?_isSome, mem_getArray]
  simp

theorem find_some {id : ℤ} {n : Node ρ} (h : m.find id = some n) : n ∈ m.nodes ∧ n.id = id := by
  have hmem := List.mem_of_find?_eq_some h
  have hid := List.find?_some h
  exact ⟨List.mem_reverse.mp hmem, of_decide_eq_true hid⟩

theorem find_none {id : ℤ} (h : m.find id = none) : ∀ n ∈ m.nodes, n.id ≠ id := by
  intro n hn hid
  have := List.find?_eq_none.mp h n (List.mem_reverse.mpr hn)
  exact this (decide_eq_true hid)

/-- A snapshot of the table stays good when a record is added. -/
theorem getArray_add (p : ρ) : (m.add key p).getArray = m.getArray ++ [m.next] := by
  simp [getArray, add]

theorem mem_free {a b : ℕ} : b ∈ (m.free a).getArray ↔ b ∈ m.getArray ∧ b ≠ a := by
  simp only [mem_getArray, free, List.mem_filter, decide_eq_true_eq]
  constructor
  · rintro ⟨n, ⟨hn, hne⟩, rfl⟩
    exact ⟨⟨n, hn, rfl⟩, hne⟩
  · rintro ⟨⟨n, hn, rfl⟩, hne⟩
    exact ⟨n, ⟨hn, hne⟩, rfl⟩

/-- **`_del_<type>`** frees one node and leaves the others where they are. -/
theorem mem_del {id : ℤ} {b : ℕ} : b ∈ (m.del id).getArray ↔
    b ∈ m.getArray ∧ ∀ n, m.find id = some n → b ≠ n.addr := by
  unfold del
  split
  · next n hn =>
    rw [mem_free, hn]
    simp
  · next hn =>
    rw [hn]
    simp

/-! ## Records -/

@[simp] theorem rows_empty : (empty : Table ρ).rows = [] := rfl

@[simp] theorem rows_add (p : ρ) : (m.add key p).rows = m.rows ++ [p] := by
  simp [rows, add]

@[simp] theorem rows_clear : m.clear.rows = [] := rfl

/-- **`md_load_all`:** the records are the rows of the database. -/
@[simp] theorem rows_load (l : List ρ) : (load key l).rows = l := by
  have h : ∀ (l : List ρ) (m : Table ρ), (l.foldl (add key) m).rows = m.rows ++ l := by
    intro l
    induction l with
    | nil => intro m; simp
    | cons p l ih => intro m; rw [List.foldl_cons, ih, rows_add, List.append_assoc]; rfl
  exact (h l empty).trans (List.nil_append l)

/-- A write in place changes one record. -/
theorem rows_write {n : Node ρ} (hn : n ∈ m.nodes) : ∃ l₁ l₂, m.rows = l₁ ++ n.data :: l₂ ∧
    ∀ p, (m.write n.addr p).rows = l₁ ++ p :: l₂ := by
  obtain ⟨k₁, k₂, hk⟩ := List.append_of_mem hn
  have hother : ∀ n' ∈ k₁ ++ k₂, n'.addr ≠ n.addr := by
    have hnd := m.nodup
    rw [hk, List.map_append, List.map_cons, List.nodup_middle, List.nodup_cons] at hnd
    intro n' hn' heq
    rw [← List.map_append] at hnd
    exact hnd.1 (heq ▸ List.mem_map_of_mem hn')
  have hsame : ∀ (p : ρ) (l : List (Node ρ)), (∀ n' ∈ l, n'.addr ≠ n.addr) →
      (l.map fun n' => if n'.addr = n.addr then { n' with data := p } else n').map Node.data =
        l.map Node.data := by
    intro p l hl
    rw [List.map_map]
    refine List.map_congr_left fun n' hn' => ?_
    rw [Function.comp_apply, if_neg (hl n' hn')]
  refine ⟨k₁.map Node.data, k₂.map Node.data, by rw [rows, hk, List.map_append, List.map_cons],
    fun p => ?_⟩
  unfold rows write
  simp only [hk]
  rw [List.map_append, List.map_append, List.map_cons, List.map_cons, if_pos rfl,
    hsame p k₁ fun n' h => hother n' (List.mem_append_left _ h),
    hsame p k₂ fun n' h => hother n' (List.mem_append_right _ h)]

/-- The hash table knows every record by its id. -/
def Keyed (m : Table ρ) : Prop := ∀ n ∈ m.nodes, n.id = key n.data

variable {key}

theorem Keyed.add (h : m.Keyed key) (p : ρ) : (m.add key p).Keyed key := by
  intro n hn
  rcases List.mem_append.mp hn with hn | hn
  · exact h n hn
  · rw [List.mem_singleton.mp hn]

theorem Keyed.write (h : m.Keyed key) {a : ℕ} {p : ρ}
    (hp : ∀ n ∈ m.nodes, n.addr = a → n.id = key p) : (m.write a p).Keyed key := by
  intro n hn
  obtain ⟨n', hn', rfl⟩ := List.mem_map.mp hn
  by_cases ha : n'.addr = a
  · rw [if_pos ha]
    exact hp n' hn' ha
  · rw [if_neg ha]
    exact h n' hn'

theorem Keyed.del (h : m.Keyed key) (id : ℤ) : (m.del id).Keyed key := by
  unfold Table.del
  split
  · exact fun n hn => h n (List.mem_filter.mp hn).1
  · exact h

theorem keyed_load (l : List ρ) : (load key l).Keyed key := by
  have hfold : ∀ (l : List ρ) (m : Table ρ), m.Keyed key → (l.foldl (add key) m).Keyed key := by
    intro l
    induction l with
    | nil => exact fun _ hm => hm
    | cons p l ih => exact fun m hm => ih _ (hm.add p)
  exact hfold l empty fun n hn => absurd hn List.not_mem_nil

/-- Where ids are distinct, a node is known by the id of its record. -/
theorem addr_eq_iff (hnd : (m.rows.map key).Nodup) {n n' : Node ρ} (hn : n ∈ m.nodes)
    (hn' : n' ∈ m.nodes) : n'.addr = n.addr ↔ key n'.data = key n.data := by
  rw [rows, List.map_map] at hnd
  constructor
  · intro heq
    rw [eq_of_addr_eq hn' hn heq]
  · intro heq
    rw [List.inj_on_of_nodup_map hnd hn' hn heq]

/-- A write in place changes the record with the id. -/
theorem rows_write_eq (hnd : (m.rows.map key).Nodup) {n : Node ρ} (hn : n ∈ m.nodes) (p : ρ) :
    (m.write n.addr p).rows = m.rows.map fun q => if key q = key n.data then p else q := by
  rw [rows, rows, write, List.map_map, List.map_map]
  refine List.map_congr_left fun n' hn' => ?_
  have hiff := addr_eq_iff hnd hn hn'
  rw [Function.comp_apply, Function.comp_apply]
  by_cases ha : n'.addr = n.addr
  · rw [if_pos ha, if_pos (hiff.mp ha)]
  · rw [if_neg ha, if_neg fun hk => ha (hiff.mpr hk)]

/-- **`_del_<type>`** takes the record with the id away, if ids are distinct. -/
theorem rows_del (h : m.Keyed key) (hnd : (m.rows.map key).Nodup) (id : ℤ) :
    (m.del id).rows = m.rows.filter fun p => key p ≠ id := by
  have hfilter : (m.rows.filter fun p => key p ≠ id) =
      (m.nodes.filter fun n => key n.data ≠ id).map Node.data := by
    rw [rows, List.filter_map]
    rfl
  rw [hfilter]
  unfold del
  split
  · next n hn =>
    obtain ⟨hmem, hid⟩ := find_some hn
    refine congrArg (List.map Node.data) (List.filter_congr fun n' hn' => ?_)
    rw [decide_eq_decide, not_iff_not, addr_eq_iff hnd hmem hn', ← h n hmem, hid]
  · next hn =>
    rw [List.filter_eq_self.mpr fun n' hn' => ?_]
    · rfl
    · exact decide_eq_true (h n' hn' ▸ find_none hn n' hn')

end Table

end GSConferencing.Serv.Md
