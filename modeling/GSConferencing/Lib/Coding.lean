import Mathlib

/-!
# Coders

A coder is a step function `f : σ → α → β × σ`: it turns letters into letters and keeps a state.
`code f s l` are the letters it makes of `l`, and its state afterwards.  `packed` puts two letters
into one.

* `code_lockstep`: a decoder that follows every step of a coder follows it along the whole list.
* `unpacked_packed`: pairs are taken apart again.
-/

namespace GSConferencing.Lib.Coding

variable {σ α β γ : Type*}

/-- The coder `f`, from the state `s` on. -/
def code (f : σ → α → β × σ) : σ → List α → List β × σ
  | s, [] => ([], s)
  | s, a :: l => ((f s a).1 :: (code f (f s a).2 l).1, (code f (f s a).2 l).2)

@[simp] theorem code_nil (f : σ → α → β × σ) (s : σ) : code f s [] = ([], s) := rfl

theorem code_cons (f : σ → α → β × σ) (s : σ) (a : α) (l : List α) :
    code f s (a :: l) = ((f s a).1 :: (code f (f s a).2 l).1, (code f (f s a).2 l).2) := rfl

@[simp] theorem length_code (f : σ → α → β × σ) (s : σ) (l : List α) :
    (code f s l).1.length = l.length := by
  induction l generalizing s with
  | nil => rfl
  | cons a l ih => rw [code_cons, List.length_cons, List.length_cons, ih]

/-- **Lockstep:** if the decoder `g` takes each step of the coder `f` along, and makes `out` of it,
then so it does with a list. -/
theorem code_lockstep {f : σ → α → β × σ} {g : σ → β → γ × σ} {out : σ → α → γ}
    (h : ∀ s a, g s (f s a).1 = (out s a, (f s a).2)) (s : σ) (l : List α) :
    code g s (code f s l).1 = code (fun s a => (out s a, (f s a).2)) s l := by
  induction l generalizing s with
  | nil => rfl
  | cons a l ih =>
    rw [code_cons, code_cons, code_cons, h, ih]

/-- Outputs do not matter to the state. -/
theorem code_state (f : σ → α → β × σ) (out : σ → α → γ) (s : σ) (l : List α) :
    (code (fun s a => (out s a, (f s a).2)) s l).2 = (code f s l).2 := by
  induction l generalizing s with
  | nil => rfl
  | cons a l ih => exact ih _

/-- What is done to each letter is done to the list. -/
theorem map_code (f : σ → α → β × σ) (g : β → γ) (s : σ) (l : List α) :
    (code f s l).1.map g = (code (fun s a => (g (f s a).1, (f s a).2)) s l).1 := by
  induction l generalizing s with
  | nil => rfl
  | cons a l ih => rw [code_cons, code_cons, List.map_cons, ih]

/-! ## Pairs -/

variable (join : α → α → β) (z : α) (hi lo : β → α)

/-- Two letters are put into one; a last one that is left over is put together with `z`. -/
def packed : List α → List β
  | [] => []
  | [a] => [join a z]
  | a :: b :: l => join a b :: packed l

/-- The letters are taken apart. -/
def unpacked (l : List β) : List α := l.flatMap fun b => [hi b, lo b]

theorem unpacked_cons (b : β) (l : List β) :
    unpacked hi lo (b :: l) = hi b :: lo b :: unpacked hi lo l := rfl

variable {join z hi lo}

theorem unpacked_packed (hhi : ∀ a b, hi (join a b) = a) (hlo : ∀ a b, lo (join a b) = b) :
    ∀ {l : List α}, Even l.length → unpacked hi lo (packed join z l) = l
  | [], _ => rfl
  | [_], h => absurd h Nat.not_even_one
  | a :: b :: l, h => by
    have hl : Even l.length := by
      rw [List.length_cons, List.length_cons, Nat.even_add_one, Nat.even_add_one, not_not] at h
      exact h
    rw [packed, unpacked_cons, hhi, hlo, unpacked_packed hhi hlo hl]

theorem length_packed : ∀ l : List α, (packed join z l).length = (l.length + 1) / 2
  | [] => by simp [packed]
  | [_] => by simp [packed]
  | a :: b :: l => by
    rw [packed, List.length_cons, length_packed l, List.length_cons, List.length_cons]
    omega

end GSConferencing.Lib.Coding
