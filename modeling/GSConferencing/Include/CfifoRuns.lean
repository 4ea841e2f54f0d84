import GSConferencing.Include.Cfifo

/-!
# One reader and one writer

`cfifo.h` without locks: a writer pushes (`cfifo_full`, `cfifo_get_in`, a write through the pointer,
`cfifo_in`) and a reader pops (`cfifo_empty`, `cfifo_get_out`, a read through the pointer,
`cfifo_out`), and each of these steps may be followed by one of the other side.

* `contents_write`, `contents_putIn`, `contents_out`: what a step makes of the elements that wait.
* `inv_writer`, `inv_reader`: what the steps of one side leave true for the other side.
* `bounded_queue`: the ring is a bounded queue, whatever the order of the steps.
-/

namespace GSConferencing.Include.CfifoRuns

open GSConferencing.Lib.Ring GSConferencing.Include.Cfifo

variable {α : Type*} {k : ℕ}

/-! ## The two sides -/

/-- Where a side is: it has done the check, it has the pointer to a slot, or it has written or read
the element. -/
inductive Side (α : Type*) (k : ℕ) where
  | idle
  | checked
  | holding (p : Fin (2 ^ k))
  | moved (p : Fin (2 ^ k)) (x : α)

/-- The slot that a side has the pointer to. -/
def Side.slot : Side α k → Option (Fin (2 ^ k))
  | .idle => none
  | .checked => none
  | .holding p => some p
  | .moved p _ => some p

/-- The ring and the two sides, beside the queue it stands for and the elements written and read. -/
structure State (α : Type*) (k : ℕ) where
  cf : Fifo α k
  writer : Side α k
  reader : Side α k
  queue : List α
  written : List α
  got : List α

/-- The start; `z` is in the memory of the ring. -/
def State.start (z : α) : State α k := ⟨.new z, .idle, .idle, [], [], []⟩

/-- The next step of a side; the writer has `x` to write, if it comes to that. -/
inductive Event (α : Type*) where
  | writer (x : α)
  | reader

/-- The next step of the writer. -/
def State.writerStep (s : State α k) (x : α) : State α k :=
  match s.writer with
  | .idle => if s.cf.full then s else { s with writer := .checked }
  | .checked => { s with writer := .holding s.cf.inn }
  | .holding p => { s with
      cf := { s.cf with data := Function.update s.cf.data p x }
      writer := .moved p x
      written := s.written ++ [x] }
  | .moved _ y => { s with
      cf := s.cf.putIn
      writer := .idle
      queue := s.queue ++ [y] }

/-- The next step of the reader. -/
def State.readerStep (s : State α k) : State α k :=
  match s.reader with
  | .idle => if s.cf.empty then s else { s with reader := .checked }
  | .checked => { s with reader := .holding s.cf.out }
  | .holding p => { s with
      reader := .moved p (s.cf.data p)
      got := s.got ++ [s.cf.data p] }
  | .moved _ _ =>
    -- `cfifo_out` makes the check again
    if s.cf.empty then { s with reader := .idle }
    else { s with
      cf := s.cf.takeOut
      reader := .idle
      queue := s.queue.tail }

def step (s : State α k) : Event α → State α k
  | .writer x => s.writerStep x
  | .reader => s.readerStep

/-- The slots of the elements that wait. -/
def queuedSlots (cf : Fifo α k) : List (Fin (2 ^ k)) :=
  (List.range cf.len).map fun i => place k (cf.out.val + i)

/-- The element that has been written and is not yet in the queue. -/
def State.pending (s : State α k) : List α :=
  match s.writer with
  | .moved _ x => [x]
  | _ => []

/-- The elements of the queue that have not been read. -/
def State.unread (s : State α k) : List α :=
  match s.reader with
  | .moved _ _ => s.queue.tail
  | _ => s.queue

/-- **The property.** -/
structure Bounded (s : State α k) : Prop where
  /-- The ring holds the queue. -/
  contents : s.cf.contents = s.queue
  len : s.cf.len = s.queue.length
  le : s.cf.len ≤ 2 ^ k - 1
  /-- The reader gets what was written, in order. -/
  order : s.written = s.got ++ s.unread ++ s.pending
  /-- The slot that is written does not wait, and is not read. -/
  apart : ∀ p, s.writer.slot = some p → p ∉ queuedSlots s.cf ∧ s.reader.slot ≠ some p

/-! ## Single steps on the ring -/

section Ring
variable {cf : Fifo α k}

/-- The slot `in` does not wait. -/
theorem inn_notMem_queuedSlots (cf : Fifo α k) : cf.inn ∉ queuedSlots cf := by
  unfold queuedSlots
  rw [List.mem_map]
  rintro ⟨i, hi, heq⟩
  rw [List.mem_range, len_eq] at hi
  exact add_ne cf.out.isLt cf.inn.isLt hi ((place_val k _).symm.trans (congrArg Fin.val heq))

theorem contents_eq_map (cf : Fifo α k) : cf.contents = (queuedSlots cf).map cf.data := by
  unfold queuedSlots
  rw [List.map_map]
  rfl

/-- **A write** to the slot `in` changes nothing that waits. -/
theorem contents_write (cf : Fifo α k) (x : α) : (cf.write x).contents = cf.contents := by
  rw [contents_eq_map, contents_eq_map]
  refine List.map_congr_left fun p hp => Function.update_of_ne (fun heq => ?_) ..
  exact inn_notMem_queuedSlots cf (heq ▸ hp)

/-- **`cfifo_in`** puts the element of the slot `in` behind the others. -/
theorem contents_putIn (h : ¬ cf.full) : cf.putIn.contents = cf.contents ++ [cf.data cf.inn] := by
  have hsame : cf.write (cf.data cf.inn) = cf := by
    unfold Fifo.write
    rw [Function.update_eq_self]
  have hput := contents_put h (cf.data cf.inn)
  rwa [hsame] at hput

theorem not_empty_putIn (h : ¬ cf.full) : ¬ cf.putIn.empty := by
  rw [empty_iff, contents_putIn h]
  exact List.append_ne_nil_of_right_ne_nil _ (List.cons_ne_nil _ _)

/-- An element less: the ring is not full. -/
theorem not_full_takeOut (h : ¬ cf.empty) : ¬ cf.takeOut.full := by
  have hlen := congrArg List.length (contents_out h)
  rw [List.length_cons, length_contents, length_contents] at hlen
  have hlt : cf.len < 2 ^ k := len_lt
  rw [full_iff_len]
  omega

end Ring

/-! ## The invariant -/

/-- What is true of the writer: the ring has not become full since the check, and the pointer is to
the slot `in`. -/
def WriterAt (cf : Fifo α k) : Side α k → Prop
  | .idle => True
  | .checked => ¬ cf.full
  | .holding p => ¬ cf.full ∧ p = cf.inn
  | .moved p x => ¬ cf.full ∧ p = cf.inn ∧ cf.data p = x

/-- What is true of the reader: the ring has not become empty since the check, and the pointer is to
the slot `out`. -/
def ReaderAt (cf : Fifo α k) : Side α k → Prop
  | .idle => True
  | .checked => ¬ cf.empty
  | .holding p => ¬ cf.empty ∧ p = cf.out
  | .moved p x => ¬ cf.empty ∧ p = cf.out ∧ cf.data p = x

/-- **The invariant.** -/
structure Inv (s : State α k) : Prop where
  contents : s.cf.contents = s.queue
  order : s.written = s.got ++ s.unread ++ s.pending
  writer : WriterAt s.cf s.writer
  reader : ReaderAt s.cf s.reader

variable {s : State α k}

theorem slot_of_writerAt {cf : Fifo α k} {w : Side α k} (h : WriterAt cf w) {p : Fin (2 ^ k)}
    (hp : w.slot = some p) : p = cf.inn := by
  cases w with
  | idle => cases hp
  | checked => cases hp
  | holding q => exact (Option.some.inj hp).symm.trans h.2
  | moved q x => exact (Option.some.inj hp).symm.trans h.2.1

theorem slot_of_readerAt {cf : Fifo α k} {r : Side α k} (h : ReaderAt cf r) {p : Fin (2 ^ k)}
    (hp : r.slot = some p) : ¬ cf.empty ∧ p = cf.out := by
  cases r with
  | idle => cases hp
  | checked => cases hp
  | holding q => exact ⟨h.1, (Option.some.inj hp).symm.trans h.2⟩
  | moved q x => exact ⟨h.1, (Option.some.inj hp).symm.trans h.2.1⟩

theorem bounded_of_inv (h : Inv s) : Bounded s where
  contents := h.contents
  len := by rw [← h.contents, length_contents]
  le := Nat.le_sub_one_of_lt len_lt
  order := h.order
  apart p hp := by
    obtain rfl := slot_of_writerAt h.writer hp
    refine ⟨inn_notMem_queuedSlots s.cf, fun hr => ?_⟩
    obtain ⟨hne, heq⟩ := slot_of_readerAt h.reader hr
    exact hne heq.symm

/-- The reader does not see a write to the slot `in`. -/
theorem readerAt_write {cf : Fifo α k} {r : Side α k} (h : ReaderAt cf r) (x : α) :
    ReaderAt (cf.write x) r := by
  cases r with
  | idle => trivial
  | checked => exact h
  | holding p => exact h
  | moved p y =>
    obtain ⟨hne, rfl, hy⟩ := h
    exact ⟨hne, rfl, (Function.update_of_ne hne _ _).trans hy⟩

/-- The reader does not see that an element is put in. -/
theorem readerAt_putIn {cf : Fifo α k} {r : Side α k} (hfull : ¬ cf.full) (h : ReaderAt cf r) :
    ReaderAt cf.putIn r := by
  cases r with
  | idle => trivial
  | checked => exact not_empty_putIn hfull
  | holding p => exact ⟨not_empty_putIn hfull, h.2⟩
  | moved p y => exact ⟨not_empty_putIn hfull, h.2⟩

/-- The writer does not see that an element is taken out. -/
theorem writerAt_takeOut {cf : Fifo α k} {w : Side α k} (hne : ¬ cf.empty) (h : WriterAt cf w) :
    WriterAt cf.takeOut w := by
  cases w with
  | idle => trivial
  | checked => exact not_full_takeOut hne
  | holding p => exact ⟨not_full_takeOut hne, h.2⟩
  | moved p y => exact ⟨not_full_takeOut hne, h.2⟩

/-! ## Steps -/

/-- **A step of the writer.** -/
theorem inv_writer (h : Inv s) (x : α) : Inv (s.writerStep x) := by
  obtain ⟨cf, writer, reader, queue, written, got⟩ := s
  obtain ⟨hcontents, horder, hwriter, hreader⟩ := h
  simp only at hcontents hwriter hreader
  cases writer with
  | idle =>
    unfold State.writerStep
    by_cases hfull : cf.full
    · simp only [if_pos hfull]
      exact ⟨hcontents, horder, hwriter, hreader⟩
    · simp only [if_neg hfull]
      exact ⟨hcontents, horder, hfull, hreader⟩
  | checked => exact ⟨hcontents, horder, ⟨hwriter, rfl⟩, hreader⟩
  | holding p =>
    obtain ⟨hfull, rfl⟩ := hwriter
    refine ⟨(contents_write cf x).trans hcontents, ?_, ⟨hfull, rfl, Function.update_self ..⟩,
      readerAt_write hreader x⟩
    exact congrArg (· ++ [x]) (horder.trans (List.append_nil _))
  | moved p y =>
    obtain ⟨hfull, rfl, rfl⟩ := hwriter
    refine ⟨?_, ?_, trivial, readerAt_putIn hfull hreader⟩
    · exact (contents_putIn hfull).trans (congrArg (· ++ [cf.data cf.inn]) hcontents)
    · -- the element goes over from what is pending to what is unread
      set s₀ : State α k := ⟨cf, .moved cf.inn (cf.data cf.inn), reader, queue, written, got⟩
      have hunread : (s₀.writerStep x).unread = s₀.unread ++ [cf.data cf.inn] := by
        cases reader with
        | idle => rfl
        | checked => rfl
        | holding q => rfl
        | moved q y =>
          have hne : queue ≠ [] := fun hnil => hreader.1 (empty_iff.mpr (hcontents.trans hnil))
          exact List.tail_append_of_ne_nil hne
      show written = got ++ (s₀.writerStep x).unread ++ []
      rw [hunread, List.append_nil, ← List.append_assoc]
      exact horder

/-- **A step of the reader.** -/
theorem inv_reader (h : Inv s) : Inv s.readerStep := by
  obtain ⟨cf, writer, reader, queue, written, got⟩ := s
  obtain ⟨hcontents, horder, hwriter, hreader⟩ := h
  simp only at hcontents hwriter hreader
  cases reader with
  | idle =>
    unfold State.readerStep
    by_cases hempty : cf.empty
    · simp only [if_pos hempty]
      exact ⟨hcontents, horder, hwriter, hreader⟩
    · simp only [if_neg hempty]
      exact ⟨hcontents, horder, hwriter, hempty⟩
  | checked => exact ⟨hcontents, horder, hwriter, ⟨hreader, rfl⟩⟩
  | holding p =>
    obtain ⟨hempty, rfl⟩ := hreader
    refine ⟨hcontents, ?_, hwriter, ⟨hempty, rfl, rfl⟩⟩
    -- what is read is the oldest element
    have hqueue : queue = cf.data cf.out :: queue.tail := by
      rw [← hcontents, contents_out hempty]
      rfl
    have hread : got ++ queue = got ++ [cf.data cf.out] ++ queue.tail := by
      rw [List.append_assoc, List.singleton_append, ← hqueue]
    exact horder.trans (congrArg (· ++ State.pending _) hread)
  | moved p y =>
    obtain ⟨hempty, rfl, -⟩ := hreader
    unfold State.readerStep
    simp only [if_neg hempty]
    refine ⟨?_, horder, writerAt_takeOut hempty hwriter, trivial⟩
    rw [← hcontents, contents_out hempty]
    rfl

theorem inv_step (h : Inv s) (e : Event α) : Inv (step s e) := by
  cases e with
  | writer x => exact inv_writer h x
  | reader => exact inv_reader h

theorem inv_start (z : α) : Inv (.start z : State α k) := ⟨contents_new z, rfl, trivial, trivial⟩

/-- **The ring is a bounded queue,** for every size and every order of the steps of one writer and
one reader: it holds `2 ^ k - 1` elements at most, the reader gets what was written, in order and
once, and the slot that is written neither waits nor is read. -/
theorem bounded_queue (z : α) (es : List (Event α)) :
    Bounded (es.foldl step (.start z : State α k)) :=
  bounded_of_inv (List.foldlRecOn (motive := Inv) es step (inv_start z) fun _ h e _ => inv_step h e)

/-- A ring of two slots: the second element has to wait until the first one has been taken out. -/
example : ([.writer 7, .writer 7, .writer 7, .writer 7, .writer 8, .reader, .reader, .reader,
    .writer 8, .reader, .writer 8, .writer 8, .writer 8, .writer 8].foldl step
      (.start 0 : State ℕ 1)).cf.contents = [8] := by decide +kernel

end GSConferencing.Include.CfifoRuns
