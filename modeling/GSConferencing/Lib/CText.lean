import GSConferencing.Lib.Memory

/-!
# Texts in memory

A text in a block of memory ends with a cell that holds `nul`.  The cells of a block are `none` as
long as nobody has written them.

* `text_eq_some_iff`: the text of a block is what stands before the first `nul`.
* `take_realloc`: a block that is made larger keeps what it begins with.
* `sprintf_append`: what is printed behind a text makes it longer.
-/

namespace GSConferencing.Lib.CText

open GSConferencing.Lib.Memory

variable {α : Type*}

/-- `realloc`: what the block holds, cut to the new size or with unwritten cells behind it. -/
def realloc (mem : List (Option α)) (n : ℕ) : List (Option α) :=
  mem.take n ++ List.replicate (n - mem.length) none

theorem length_realloc (mem : List (Option α)) (n : ℕ) : (realloc mem n).length = n := by
  rw [realloc, List.length_append, List.length_take, List.length_replicate]
  omega

theorem realloc_of_le {mem : List (Option α)} {n : ℕ} (h : mem.length ≤ n) :
    realloc mem n = mem ++ List.replicate (n - mem.length) none := by
  rw [realloc, List.take_of_length_le h]

theorem take_realloc {mem : List (Option α)} {n k : ℕ} (h : mem.length ≤ n) (hk : k ≤ mem.length) :
    (realloc mem n).take k = mem.take k := by
  rw [realloc_of_le h, List.take_append_of_le_length hk]

/-- `sprintf(mem + off, ..)` of a text, with its `nul`; it has no result if it does not fit. -/
def sprintf (nul : α) (mem : List (Option α)) (off : ℕ) (s : List α) : Option (List (Option α)) :=
  if off + (s.length + 1) ≤ mem.length then some (overwrite mem off ((s ++ [nul]).map some))
  else none

theorem length_sprintf {nul : α} {mem mem' : List (Option α)} {off : ℕ} {s : List α}
    (h : sprintf nul mem off s = some mem') : mem'.length = mem.length := by
  unfold sprintf at h
  split at h
  · next hfit =>
    cases h
    exact length_overwrite (by simpa using hfit)
  · cases h

variable [DecidableEq α]

/-- The text at the beginning of a block, if there is one. -/
def text (nul : α) : List (Option α) → Option (List α)
  | [] => none
  | none :: _ => none
  | some c :: mem => if c = nul then some [] else (text nul mem).map (c :: ·)

/-- `strlen`. -/
def strlen (nul : α) (mem : List (Option α)) : Option ℕ := (text nul mem).map List.length

variable {nul : α} {mem : List (Option α)} {s t : List α}

/-- **The text of a block** stands before its first `nul`. -/
theorem text_eq_some_iff :
    text nul mem = some s ↔ nul ∉ s ∧ ∃ rest, mem = s.map some ++ some nul :: rest := by
  induction mem generalizing s with
  | nil => simp [text]
  | cons cell mem ih =>
    rcases cell with - | c
    · rw [text]
      refine iff_of_false (Option.some_ne_none s).symm ?_
      rintro ⟨-, rest, h⟩
      rcases s with - | ⟨a, s⟩ <;> simp at h
    · rw [text]
      split
      · next hc =>
        subst hc
        constructor
        · rintro h
          cases h
          exact ⟨List.not_mem_nil, mem, rfl⟩
        · rintro ⟨hnul, rest, h⟩
          rcases s with - | ⟨a, s⟩
          · rfl
          · rw [List.map_cons, List.cons_append, List.cons.injEq, Option.some.injEq] at h
            exact absurd (h.1 ▸ List.mem_cons_self) hnul
      · next hc =>
        rw [Option.map_eq_some_iff]
        constructor
        · rintro ⟨s, hs, rfl⟩
          obtain ⟨hnul, rest, rfl⟩ := ih.mp hs
          exact ⟨List.not_mem_cons_of_ne_of_not_mem (Ne.symm hc) hnul, rest, rfl⟩
        · rintro ⟨hnul, rest, h⟩
          rcases s with - | ⟨a, s⟩
          · rw [List.map_nil, List.nil_append, List.cons.injEq, Option.some.injEq] at h
            exact absurd h.1 hc
          · rw [List.map_cons, List.cons_append, List.cons.injEq, Option.some.injEq] at h
            obtain ⟨rfl, h⟩ := h
            exact ⟨s, ih.mpr ⟨List.not_mem_of_not_mem_cons hnul, rest, h⟩, rfl⟩

theorem strlen_of_text (h : text nul mem = some s) : strlen nul mem = some s.length := by
  rw [strlen, h, Option.map_some]

theorem notMem_of_text (h : text nul mem = some s) : nul ∉ s := (text_eq_some_iff.mp h).1

/-- The text stands at the beginning. -/
theorem take_of_text (h : text nul mem = some s) : mem.take s.length = s.map some := by
  obtain ⟨-, rest, rfl⟩ := text_eq_some_iff.mp h
  rw [← List.length_map (f := some), List.take_left]

/-- **What is printed behind a text** makes it longer. -/
theorem sprintf_append (ht : mem.take t.length = t.map some) (hnul : nul ∉ t) (hs : nul ∉ s)
    (hfit : t.length + (s.length + 1) ≤ mem.length) :
    ∃ mem', sprintf nul mem t.length s = some mem' ∧ text nul mem' = some (t ++ s) := by
  refine ⟨_, if_pos hfit, text_eq_some_iff.mpr ⟨?_, mem.drop (t.length + (s.length + 1)), ?_⟩⟩
  · rw [List.mem_append]
    exact fun h => h.elim hnul hs
  · rw [overwrite, ht, List.length_map, List.length_append, List.length_singleton, List.map_append,
      List.map_append, List.append_assoc, List.append_assoc, List.append_assoc]
    rfl

end GSConferencing.Lib.CText
