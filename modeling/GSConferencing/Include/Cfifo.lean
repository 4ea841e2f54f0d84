import GSConferencing.Lib.Ring

/-!
# Circular fifos

`cfifo.h`: a ring of `2 ^ k` elements, of which one is always free.  `contents` are the elements
that wait, oldest first; `contents_put`, `contents_out` and `contents_clear` say what the
operations make of them.
-/

namespace GSConferencing.Include.Cfifo

open GSConferencing.Lib.Ring

variable {α : Type*} {k : ℕ}

/-- `struct cfifo`: the elements, and the places `in` and `out`. -/
structure Fifo (α : Type*) (k : ℕ) where
  data : Fin (2 ^ k) → α
  inn : Fin (2 ^ k)
  out : Fin (2 ^ k)

namespace Fifo

variable (cf : Fifo α k)

/-- `STATIC_CFIFO`, `cfifo_init`: an empty ring; `z` is in its memory. -/
def new (z : α) : Fifo α k where
  data := fun _ => z
  inn := ⟨0, Nat.two_pow_pos k⟩
  out := ⟨0, Nat.two_pow_pos k⟩

/-- `cfifo_len`. -/
def len : ℕ := (place k (cf.inn.val + 2 ^ k - cf.out.val)).val

/-- `cfifo_full`. -/
def full : Prop := place k (cf.inn.val + 1) = cf.out

/-- `cfifo_empty`. -/
def empty : Prop := cf.out = cf.inn

instance : Decidable cf.full := inferInstanceAs (Decidable (_ = _))

instance : Decidable cf.empty := inferInstanceAs (Decidable (_ = _))

/-- `cfifo_clear`. -/
def clear : Fifo α k := { cf with out := cf.inn }

/-- An element is written to `cfifo_get_in`. -/
def write (x : α) : Fifo α k := { cf with data := Function.update cf.data cf.inn x }

/-- `cfifo_in`. -/
def putIn : Fifo α k := { cf with inn := place k (cf.inn.val + 1) }

/-- The element at `cfifo_get_out`. -/
def getOut : α := cf.data cf.out

/-- An element is written to `cfifo_get_out`. -/
def writeOut (x : α) : Fifo α k := { cf with data := Function.update cf.data cf.out x }

/-- `cfifo__out`, which `cfifo_out` calls if the ring is not empty. -/
def takeOut : Fifo α k := { cf with out := place k (cf.out.val + 1) }

/-- The elements that wait, oldest first. -/
def contents : List α := (List.range cf.len).map fun i => cf.data (place k (cf.out.val + i))

end Fifo

variable {cf : Fifo α k}

theorem len_eq : cf.len = dist (2 ^ k) cf.out cf.inn := place_val k _

@[simp] theorem length_contents : cf.contents.length = cf.len := by
  unfold Fifo.contents
  rw [List.length_map, List.length_range]

theorem len_lt : cf.len < 2 ^ k := by
  rw [len_eq]
  exact dist_lt (Nat.two_pow_pos k)

theorem full_iff : cf.full ↔ (cf.inn.val + 1) % 2 ^ k = cf.out.val := by
  unfold Fifo.full
  rw [Fin.ext_iff, place_val]

/-- The ring is empty exactly if nothing waits. -/
theorem empty_iff : cf.empty ↔ cf.contents = [] := by
  rw [← List.length_eq_zero_iff, length_contents, len_eq]
  constructor
  · intro h
    rw [show cf.out = cf.inn from h]
    exact dist_self cf.inn.isLt
  · intro h
    by_contra hne
    have := dist_pos cf.out.isLt cf.inn.isLt fun h' => hne (Fin.ext h')
    omega

theorem contents_new (z : α) : (Fifo.new z : Fifo α k).contents = [] :=
  empty_iff.mp rfl

@[simp] theorem contents_clear : cf.clear.contents = [] :=
  empty_iff.mp rfl

/-- **An element that is put in** waits after the others, which stay as they are. -/
theorem contents_put (h : ¬ cf.full) (x : α) :
    ((cf.write x).putIn).contents = cf.contents ++ [x] := by
  rw [full_iff] at h
  have hlen : ((cf.write x).putIn).len = cf.len + 1 := by
    rw [len_eq, len_eq]
    show dist (2 ^ k) cf.out (place k (cf.inn.val + 1)) = _
    rw [place_val]
    exact dist_succ cf.out.isLt cf.inn.isLt h
  unfold Fifo.contents
  rw [hlen, List.range_succ, List.map_append, List.map_singleton]
  congr 1
  · refine List.map_congr_left fun i hi => ?_
    rw [List.mem_range, len_eq] at hi
    refine Function.update_of_ne (fun heq => ?_) ..
    exact add_ne cf.out.isLt cf.inn.isLt hi ((place_val k _).symm.trans (congrArg Fin.val heq))
  · have hplace : place k (cf.out.val + cf.len) = cf.inn := by
      refine Fin.ext ?_
      rw [place_val, len_eq]
      exact add_dist cf.out.isLt cf.inn.isLt
    show [Function.update cf.data cf.inn x (place k (cf.out.val + cf.len))] = [x]
    rw [hplace, Function.update_self]

/-- **The element that is taken out** is the oldest one. -/
theorem contents_out (h : ¬ cf.empty) : cf.contents = cf.getOut :: cf.takeOut.contents := by
  have hne : cf.out.val ≠ cf.inn.val := fun h' => h (Fin.ext h')
  have hlen : cf.len = cf.takeOut.len + 1 := by
    rw [len_eq, len_eq]
    show _ = dist (2 ^ k) (place k (cf.out.val + 1)) cf.inn + 1
    rw [place_val]
    exact (dist_pred cf.out.isLt cf.inn.isLt hne).symm
  unfold Fifo.contents
  rw [hlen, List.range_succ_eq_map, List.map_cons, List.map_map]
  congr 1
  · show cf.data (place k cf.out.val) = cf.data cf.out
    rw [place_self]
  · refine List.map_congr_left fun i _ => ?_
    show cf.data (place k (cf.out.val + (i + 1))) =
      cf.data (place k ((place k (cf.out.val + 1)).val + i))
    congr 1
    refine Fin.ext ?_
    rw [place_val, place_val, place_val, Nat.mod_add_mod, Nat.add_right_comm, Nat.add_assoc]

/-- What is written over the oldest element is not among the others. -/
theorem contents_writeOut (x : α) : (cf.writeOut x).takeOut.contents = cf.takeOut.contents := by
  refine List.map_congr_left fun i hi => Function.update_of_ne (fun heq => ?_) ..
  have hlt : i < 2 ^ k - 1 :=
    Nat.lt_of_lt_of_le (List.mem_range.mp hi) (Nat.le_sub_one_of_lt len_lt)
  have hval : ((cf.out.val + 1) % 2 ^ k + i) % 2 ^ k = cf.out.val :=
    calc ((cf.out.val + 1) % 2 ^ k + i) % 2 ^ k = ((place k (cf.out.val + 1)).val + i) % 2 ^ k := by
          rw [place_val]
      _ = cf.out.val := (place_val k _).symm.trans (congrArg Fin.val heq)
  have hout := cf.out.isLt
  rw [Nat.mod_add_mod, mod_turn (by omega)] at hval
  split_ifs at hval <;> omega

/-- A full ring has all but one of its places in use. -/
theorem full_iff_len : cf.full ↔ cf.len + 1 = 2 ^ k := by
  have hin := cf.inn.isLt
  have hout := cf.out.isLt
  rw [full_iff, len_eq]
  constructor
  · intro h
    rw [dist_eq hout hin]
    rw [mod_turn (by omega)] at h
    split_ifs at h ⊢ <;> omega
  · intro h
    by_contra hne
    have hlt := dist_lt (a := cf.out.val) (b := (cf.inn.val + 1) % 2 ^ k)
      (Nat.two_pow_pos k)
    rw [dist_succ hout hin hne] at hlt
    omega

theorem not_empty_of_full (hk : 0 < k) (h : cf.full) : ¬ cf.empty := by
  intro he
  rw [full_iff_len] at h
  rw [empty_iff, ← List.length_eq_zero_iff, length_contents] at he
  have hn : 1 < 2 ^ k := Nat.one_lt_two_pow hk.ne'
  omega

end GSConferencing.Include.Cfifo
