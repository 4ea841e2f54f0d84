import Mathlib

/-!
# The tokens of a text

`tokens p l` are the longest pieces of `l` without a separator, a letter that meets `p`; a run of
separators counts as one, and pieces are not empty.  A `Word` is what a token can be.

* `word_of_mem`: tokens are words.
* `tokens_append`: a separator cuts a text into two.
* `tokens_cons`, `tokens_intercalate`: the words that a text was put together from.
* `word_intercalate`: words are put together to one word.
* `next_spec`: the tokens are found one after the other.
-/

namespace GSConferencing.Lib.Tokens

variable {α : Type*} {p : α → Bool}

/-- The tokens of a text. -/
def tokens (p : α → Bool) (l : List α) : List (List α) := (l.splitOnP p).filter (· ≠ [])

/-- What a token can be. -/
def Word (p : α → Bool) (w : List α) : Prop := w ≠ [] ∧ ∀ c ∈ w, p c = false

instance (w : List α) : Decidable (Word p w) := inferInstanceAs (Decidable (_ ∧ _))

@[simp] theorem tokens_nil : tokens p ([] : List α) = [] := rfl

/-- **A separator** cuts a text into two. -/
theorem tokens_append {s : α} (hs : p s = true) (a b : List α) :
    tokens p (a ++ s :: b) = tokens p a ++ tokens p b := by
  unfold tokens
  rw [List.splitOnP_append_cons a b hs, List.filter_append]

theorem tokens_append_sep {s : α} (hs : p s = true) (a : List α) :
    tokens p (a ++ [s]) = tokens p a := by
  rw [tokens_append hs, tokens_nil, List.append_nil]

theorem tokens_word {w : List α} (hw : Word p w) : tokens p w = [w] := by
  unfold tokens
  rw [List.splitOnP_eq_singleton hw.2]
  exact List.filter_eq_self.mpr fun l hl => decide_eq_true (List.mem_singleton.mp hl ▸ hw.1)

/-- The first word of a text. -/
theorem tokens_cons {w : List α} (hw : Word p w) {s : α} (hs : p s = true) (b : List α) :
    tokens p (w ++ s :: b) = w :: tokens p b := by
  rw [tokens_append hs, tokens_word hw, List.singleton_append]

/-- The letters of a piece. -/
theorem pieces_letters {l w : List α} (h : w ∈ l.splitOnP p) : ∀ c ∈ w, p c = false ∧ c ∈ l := by
  induction l generalizing w with
  | nil =>
    intro c hc
    rw [List.splitOnP_nil, List.mem_singleton] at h
    exact absurd (h ▸ hc) List.not_mem_nil
  | cons a l ih =>
    have hlater : ∀ w ∈ l.splitOnP p, ∀ c ∈ w, p c = false ∧ c ∈ a :: l := fun w hw c hc =>
      ⟨(ih hw c hc).1, List.mem_cons_of_mem _ (ih hw c hc).2⟩
    intro c hc
    rw [List.splitOnP_cons_eq_if_modifyHead] at h
    obtain ⟨w₀, ws, hsplit⟩ := List.exists_cons_of_ne_nil (List.splitOnP_ne_nil p l)
    rw [hsplit] at h hlater
    split at h
    · rcases List.mem_cons.mp h with rfl | h
      · exact absurd hc List.not_mem_nil
      · exact hlater w h c hc
    · next ha =>
      rcases List.mem_cons.mp (show w ∈ (a :: w₀) :: ws from h) with rfl | h
      · rcases List.mem_cons.mp hc with rfl | hc
        · exact ⟨Bool.eq_false_iff.mpr ha, List.mem_cons_self⟩
        · exact hlater w₀ List.mem_cons_self c hc
      · exact hlater w (List.mem_cons_of_mem _ h) c hc

/-- **Tokens are words.** -/
theorem word_of_mem {l w : List α} (h : w ∈ tokens p l) : Word p w := by
  obtain ⟨hmem, hne⟩ := List.mem_filter.mp h
  exact ⟨of_decide_eq_true hne, fun c hc => (pieces_letters hmem c hc).1⟩

/-- The letters of a token are letters of the text. -/
theorem mem_of_mem_tokens {l w : List α} (h : w ∈ tokens p l) {c : α} (hc : c ∈ w) : c ∈ l :=
  (pieces_letters (List.mem_filter.mp h).1 c hc).2

/-- A text that begins with a word begins with a token that begins with it. -/
theorem tokens_prefix {a : List α} (ha : Word p a) (b : List α) :
    ∃ b' ts, tokens p (a ++ b) = (a ++ b') :: ts := by
  have hword : Word p (a ++ b.takeWhile fun c => !p c) := by
    refine ⟨List.append_ne_nil_of_left_ne_nil ha.1 _, fun c hc => ?_⟩
    rcases List.mem_append.mp hc with hc | hc
    · exact ha.2 c hc
    · have hnot := List.mem_takeWhile_imp hc
      simpa only [Bool.not_eq_eq_eq_not, Bool.not_true] using hnot
  rw [← List.takeWhile_append_dropWhile (p := fun c => !p c) (l := b), ← List.append_assoc]
  cases hdrop : b.dropWhile fun c => !p c with
  | nil =>
    rw [List.append_nil, tokens_word hword]
    exact ⟨_, [], rfl⟩
  | cons s t =>
    have hs : p s = true := by
      have hne : b.dropWhile (fun c => !p c) ≠ [] := by rw [hdrop]; exact List.cons_ne_nil _ _
      have := List.head_dropWhile_not (fun c => !p c) hne
      simpa only [hdrop, List.head_cons, Bool.not_eq_eq_eq_not, Bool.not_false] using this
    rw [tokens_cons hword hs]
    exact ⟨_, _, rfl⟩

/-- **Words with separators between them** are the tokens of the text. -/
theorem tokens_intercalate {s : α} (hs : p s = true) {ws : List (List α)}
    (hws : ∀ w ∈ ws, Word p w) : tokens p ([s].intercalate ws) = ws := by
  induction ws with
  | nil => rfl
  | cons w ws ih =>
    have hw := hws w List.mem_cons_self
    cases ws with
    | nil => rw [List.intercalate_singleton, tokens_word hw]
    | cons w' ws =>
      rw [List.intercalate_cons_cons, List.append_assoc, List.singleton_append, tokens_cons hw hs,
        ih fun w'' h => hws w'' (List.mem_cons_of_mem w h)]

theorem Word.append {v w : List α} (hv : Word p v) (hw : ∀ c ∈ w, p c = false) :
    Word p (v ++ w) := by
  refine ⟨List.append_ne_nil_of_left_ne_nil hv.1 w, fun c hc => ?_⟩
  rcases List.mem_append.mp hc with hc | hc
  · exact hv.2 c hc
  · exact hw c hc

/-- Words with something else between them are one word. -/
theorem word_intercalate {s : α} (hs : p s = false) {ws : List (List α)} (hne : ws ≠ [])
    (hws : ∀ w ∈ ws, Word p w) : Word p ([s].intercalate ws) := by
  induction ws with
  | nil => exact absurd rfl hne
  | cons w ws ih =>
    have hw := hws w List.mem_cons_self
    cases ws with
    | nil => rwa [List.intercalate_singleton]
    | cons w' ws =>
      have hrest := ih (List.cons_ne_nil w' ws) fun w'' h => hws w'' (List.mem_cons_of_mem w h)
      rw [List.intercalate_cons_cons, List.append_assoc, List.singleton_append]
      exact hw.append (List.forall_mem_cons.mpr ⟨hs, hrest.2⟩)

/-! ## One after the other -/

/-- The first token of a text, and what is behind the separator that ends it. -/
def next (p : α → Bool) (l : List α) : Option (List α) × List α :=
  let l := l.dropWhile p
  (match l with
    | [] => none
    | _ :: _ => some (l.takeWhile fun c => !p c),
    (l.dropWhile fun c => !p c).tail)

/-- Separators in front of a text. -/
theorem tokens_dropWhile (l : List α) : tokens p (l.dropWhile p) = tokens p l := by
  induction l with
  | nil => rfl
  | cons a l ih =>
    by_cases ha : p a = true
    · rw [List.dropWhile_cons_of_pos ha, ih]
      exact (tokens_append ha [] l).symm
    · rw [List.dropWhile_cons_of_neg ha]

/-- **The next token** is the first one, and the others are behind it. -/
theorem next_spec (l : List α) :
    (next p l).1 = (tokens p l).head? ∧ tokens p (next p l).2 = (tokens p l).tail := by
  rw [← tokens_dropWhile l]
  unfold next
  cases hl : l.dropWhile p with
  | nil => exact ⟨rfl, rfl⟩
  | cons a t =>
    have ha : p a = false := by
      have hne : l.dropWhile p ≠ [] := hl ▸ List.cons_ne_nil a t
      have hhead := List.head_dropWhile_not p hne
      simpa only [hl, List.head_cons] using hhead
    have hword : Word p ((a :: t).takeWhile fun c => !p c) := by
      refine ⟨?_, fun c hc => ?_⟩
      · rw [List.takeWhile_cons_of_pos (by rw [ha]; rfl)]
        exact List.cons_ne_nil _ _
      · simpa using List.mem_takeWhile_imp hc
    have hcut := List.takeWhile_append_dropWhile (p := fun c => !p c) (l := a :: t)
    cases hrest : (a :: t).dropWhile fun c => !p c with
    | nil =>
      rw [hrest, List.append_nil] at hcut
      have htok := tokens_word hword
      rw [hcut] at htok hword
      rw [htok]
      refine ⟨congrArg some hcut, ?_⟩
      show tokens p ((a :: t).dropWhile fun c => !p c).tail = []
      rw [hrest]
      rfl
    | cons s r =>
      have hs : p s = true := by
        have hne : ((a :: t).dropWhile fun c => !p c) ≠ [] := hrest ▸ List.cons_ne_nil s r
        have hhead := List.head_dropWhile_not (fun c => !p c) hne
        simpa [hrest] using hhead
      have htok := tokens_cons hword hs r
      rw [← hrest, hcut] at htok
      rw [htok]
      refine ⟨rfl, ?_⟩
      show tokens p ((a :: t).dropWhile fun c => !p c).tail = tokens p r
      rw [hrest]
      rfl

/-- A token that is found leaves less of the text. -/
theorem length_next {l w : List α} (h : (next p l).1 = some w) :
    (next p l).2.length < l.length := by
  unfold next at h ⊢
  have hle := (List.dropWhile_sublist p (l := l)).length_le
  have htail := (List.dropWhile_sublist (fun c => !p c) (l := l.dropWhile p)).length_le
  cases hl : l.dropWhile p with
  | nil =>
    rw [hl] at h
    cases h
  | cons a t =>
    rw [hl] at hle htail
    show ((a :: t).dropWhile fun c => !p c).tail.length < _
    rw [List.length_tail]
    rw [List.length_cons] at hle htail
    omega

end GSConferencing.Lib.Tokens
