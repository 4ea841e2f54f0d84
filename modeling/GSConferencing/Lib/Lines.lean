import Mathlib

/-!
# The lines of a stream

A line ends with `nl`, which belongs to it; what is behind the last `nl` of a stream is no line.

* `lines_cons`: the first line, and the lines of the rest.
* `lines_eq_nil`: a stream without `nl` has no line.
-/

namespace GSConferencing.Lib.Lines

variable {α : Type*} [DecidableEq α] {nl : α}

/-- The lines of a stream, after the beginning `cur` of a line. -/
def linesFrom (nl : α) : List α → List α → List (List α)
  | _, [] => []
  | cur, b :: bs =>
    if b = nl then (cur ++ [b]) :: linesFrom nl [] bs else linesFrom nl (cur ++ [b]) bs

/-- The lines of a stream. -/
def lines (nl : α) (s : List α) : List (List α) := linesFrom nl [] s

theorem linesFrom_eq_nil {s : List α} (h : nl ∉ s) (cur : List α) : linesFrom nl cur s = [] := by
  induction s generalizing cur with
  | nil => rfl
  | cons b bs ih =>
    rw [List.mem_cons, not_or] at h
    rw [linesFrom, if_neg (Ne.symm h.1), ih h.2]

theorem lines_eq_nil {s : List α} (h : nl ∉ s) : lines nl s = [] := linesFrom_eq_nil h []

theorem linesFrom_append {s : List α} (h : nl ∉ s) (cur rest : List α) :
    linesFrom nl cur (s ++ nl :: rest) = (cur ++ s ++ [nl]) :: lines nl rest := by
  induction s generalizing cur with
  | nil => rw [List.nil_append, linesFrom, if_pos rfl, List.append_nil, lines]
  | cons b bs ih =>
    rw [List.mem_cons, not_or] at h
    rw [List.cons_append, linesFrom, if_neg (Ne.symm h.1), ih h.2, List.append_assoc cur [b] bs,
      List.singleton_append]

/-- **The first line.** -/
theorem lines_cons {s : List α} (h : nl ∉ s) (rest : List α) :
    lines nl (s ++ nl :: rest) = (s ++ [nl]) :: lines nl rest := by
  rw [lines, linesFrom_append h, List.nil_append]

/-- What is before the first `nl`, and what is behind it. -/
theorem split_first {s : List α} (h : nl ∈ s) :
    nl ∉ s.take (s.idxOf nl) ∧
      s = s.take (s.idxOf nl) ++ nl :: s.drop (s.idxOf nl + 1) := by
  have hlt : s.idxOf nl < s.length := List.idxOf_lt_length_iff.mpr h
  refine ⟨fun hn => ?_, ?_⟩
  · have hidx := (List.mem_take_iff_idxOf_lt h).mp hn
    exact lt_irrefl _ hidx
  · calc s = s.take (s.idxOf nl) ++ s.drop (s.idxOf nl) := (List.take_append_drop _ s).symm
      _ = s.take (s.idxOf nl) ++ nl :: s.drop (s.idxOf nl + 1) := by
        rw [List.drop_eq_getElem_cons hlt, List.getElem_idxOf]

/-- **The first line** of a stream that has one, up to the first `nl`. -/
theorem lines_first {s : List α} (h : nl ∈ s) (rest : List α) :
    lines nl (s ++ rest) =
      s.take (s.idxOf nl + 1) :: lines nl (s.drop (s.idxOf nl + 1) ++ rest) := by
  obtain ⟨hn, hs⟩ := split_first h
  have htake : s.take (s.idxOf nl + 1) = s.take (s.idxOf nl) ++ [nl] := by
    have hlt : s.idxOf nl < s.length := List.idxOf_lt_length_iff.mpr h
    rw [List.take_succ_eq_append_getElem hlt, List.getElem_idxOf]
  calc lines nl (s ++ rest)
      = lines nl (s.take (s.idxOf nl) ++ nl :: (s.drop (s.idxOf nl + 1) ++ rest)) := by
        rw [← List.cons_append, ← List.append_assoc, ← hs]
    _ = s.take (s.idxOf nl + 1) :: lines nl (s.drop (s.idxOf nl + 1) ++ rest) := by
        rw [lines_cons hn, htake]

end GSConferencing.Lib.Lines
