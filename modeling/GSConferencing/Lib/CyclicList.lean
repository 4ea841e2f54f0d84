import Mathlib

/-!
# Cyclic doubly linked lists

The memory of a family of cyclic doubly linked lists, as the link fields of their nodes.  A node is
the head of a list or an entry; the null pointer is `none`.  `Ring L h l` says that the list of the
head `h` is well formed and holds the entries `l`, in this order and without repetition.

* `Links.link x p n` and `Links.unlink p n`: the writes that put `x` between `p` and `n`, and that
  join `p` and `n`.
* `Ring.link`, `Ring.unlink`: what these writes do to the list they are meant for;
  `Ring.of_agree`: a list whose nodes keep their links is unchanged.
* `Ring.unique`: the links determine the entries; `Ring.next_ne_head` and friends say what the
  fields hold.
* `Links.forEach`: a loop along the links; on a ring it is the loop over the list of its entries
  (`Ring.forEach_eq`).
-/

namespace GSConferencing.Lib.CyclicList

/-- A node: the head of a list or an entry of one. -/
inductive Node (η α : Type*) where
  | head (h : η)
  | entry (a : α)
  deriving DecidableEq

/-- The link fields of all nodes. -/
structure Links (η α : Type*) where
  next : Node η α → Option (Node η α)
  prev : Node η α → Option (Node η α)

variable {η α : Type*}

/-! ## Chains -/

theorem isChain_imp {β : Type*} {R R' : β → β → Prop} {c : List β} (h : List.IsChain R c)
    (himp : ∀ y ∈ c.dropLast, ∀ z ∈ c.tail, R y z → R' y z) : List.IsChain R' c := by
  induction h with
  | nil => exact .nil
  | singleton a => exact .singleton a
  | @cons_cons a b l hab _ ih =>
    refine .cons_cons (himp a (by simp) b (by simp) hab) (ih fun y hy z hz => ?_)
    exact himp y (by simp [hy]) z (by simp only [List.tail_cons, List.mem_cons]; right; exact hz)

theorem notMem_dropLast_of_nodup {β : Type*} {c : List β} (hc : c.Nodup) {p : β}
    (hp : c.getLast? = some p) : p ∉ c.dropLast := by
  obtain ⟨c', rfl⟩ := List.getLast?_eq_some_iff.mp hp
  rw [List.dropLast_concat]
  have := List.nodup_append.mp hc
  intro hm
  exact this.2.2 p hm p (by simp) rfl

/-! ## Links -/

namespace Links

section Writes
variable [DecidableEq η] [DecidableEq α]

def setNext (L : Links η α) (x : Node η α) (v : Option (Node η α)) : Links η α :=
  { L with next := Function.update L.next x v }

def setPrev (L : Links η α) (x : Node η α) (v : Option (Node η α)) : Links η α :=
  { L with prev := Function.update L.prev x v }

@[simp] theorem setNext_next (L : Links η α) (x y : Node η α) (v : Option (Node η α)) :
    (L.setNext x v).next y = if y = x then v else L.next y := by
  simp [setNext, Function.update_apply]

@[simp] theorem setNext_prev (L : Links η α) (x : Node η α) (v : Option (Node η α)) :
    (L.setNext x v).prev = L.prev := rfl

@[simp] theorem setPrev_prev (L : Links η α) (x y : Node η α) (v : Option (Node η α)) :
    (L.setPrev x v).prev y = if y = x then v else L.prev y := by
  simp [setPrev, Function.update_apply]

@[simp] theorem setPrev_next (L : Links η α) (x : Node η α) (v : Option (Node η α)) :
    (L.setPrev x v).next = L.next := rfl

/-- Put `x` between `p` and `n`. -/
def link (L : Links η α) (x p n : Node η α) : Links η α :=
  (((L.setPrev n (some x)).setNext x (some n)).setPrev x (some p)).setNext p (some x)

/-- Join `p` and `n`. -/
def unlink (L : Links η α) (p n : Node η α) : Links η α :=
  (L.setPrev n (some p)).setNext p (some n)

/-- The empty list: the head points to itself. -/
def init (L : Links η α) (x : Node η α) : Links η α :=
  (L.setNext x (some x)).setPrev x (some x)

end Writes

/-- `y` follows `x`. -/
def Adj (L : Links η α) (x y : Node η α) : Prop := L.next x = some y ∧ L.prev y = some x

/-- `for_each` along the `next` fields from the node `p` up to the head `h`, with a body that may
leave the loop (`.inr`).  `none`: a null pointer, the head of another list, or more than `n`
rounds. -/
def forEach [DecidableEq η] {β γ : Type*} (L : Links η α) (h : η) (f : β → α → β ⊕ γ) :
    ℕ → Option (Node η α) → β → Option (β ⊕ γ)
  | _, none, _ => none
  | _, some (.head h'), b => if h' = h then some (.inl b) else none
  | 0, some (.entry _), _ => none
  | n + 1, some (.entry a), b =>
    match f b a with
    | .inl b' => forEach L h f n (L.next (.entry a)) b'
    | .inr c => some (.inr c)

end Links

/-- A loop over a list with a body that may leave the loop. -/
def foldExit {β γ : Type*} (f : β → α → β ⊕ γ) : β → List α → β ⊕ γ
  | b, [] => .inl b
  | b, a :: l =>
    match f b a with
    | .inl b' => foldExit f b' l
    | .inr c => .inr c

/-! ## Rings -/

/-- The nodes from the head up to the entries `l`. -/
def front (h : η) (l : List α) : List (Node η α) := .head h :: l.map .entry

/-- The nodes from the entries `l` on, back to the head. -/
def back (h : η) (l : List α) : List (Node η α) := l.map .entry ++ [.head h]

/-- The node before the entries that follow `l`. -/
def pred (h : η) (l : List α) : Node η α := l.getLast?.elim (.head h) .entry

/-- The node after the entries that precede `l`. -/
def succ (h : η) (l : List α) : Node η α := l.head?.elim (.head h) .entry

/-- **The list of the head `h` holds the entries `l`.** -/
structure Ring (L : Links η α) (h : η) (l : List α) : Prop where
  nodup : l.Nodup
  chain : List.IsChain L.Adj (front h l ++ [.head h])

theorem front_getLast? (h : η) (l : List α) : (front h l).getLast? = some (pred h l) := by
  rcases List.eq_nil_or_concat l with rfl | ⟨l', a, rfl⟩ <;>
    simp [front, pred, List.getLast?_cons]

theorem back_head? (h : η) (l : List α) : (back h l).head? = some (succ h l) := by
  cases l <;> simp [back, succ]

theorem front_nodup (h : η) {l : List α} (hl : l.Nodup) : (front h l).Nodup := by
  refine List.nodup_cons.mpr ⟨by simp, hl.map fun a b hab => ?_⟩
  cases hab
  rfl

theorem back_nodup (h : η) {l : List α} (hl : l.Nodup) : (back h l).Nodup := by
  refine List.Nodup.append (hl.map fun a b hab => ?_) (by simp) (by simp)
  cases hab
  rfl

theorem pred_mem_front (h : η) (l : List α) : pred h l ∈ front h l :=
  List.mem_of_getLast? (front_getLast? h l)

theorem succ_mem_back (h : η) (l : List α) : succ h l ∈ back h l :=
  List.mem_of_head? (back_head? h l)

theorem mem_front {h : η} {l : List α} {y : Node η α} :
    y ∈ front h l ↔ y = .head h ∨ ∃ a ∈ l, y = .entry a := by
  simp [front, eq_comm]

theorem mem_back {h : η} {l : List α} {y : Node η α} :
    y ∈ back h l ↔ y = .head h ∨ ∃ a ∈ l, y = .entry a := by
  simp only [back, List.mem_append, List.mem_map, List.mem_singleton]
  constructor
  · rintro (⟨a, ha, rfl⟩ | rfl)
    · exact Or.inr ⟨a, ha, rfl⟩
    · exact Or.inl rfl
  · rintro (rfl | ⟨a, ha, rfl⟩)
    · exact Or.inr rfl
    · exact Or.inl ⟨a, ha, rfl⟩

/-- A ring split at any place: the two halves are chains and the seam is linked. -/
theorem ring_append {L : Links η α} {h : η} {l₁ l₂ : List α} :
    Ring L h (l₁ ++ l₂) ↔ (l₁ ++ l₂).Nodup ∧ List.IsChain L.Adj (front h l₁) ∧
      List.IsChain L.Adj (back h l₂) ∧ L.Adj (pred h l₁) (succ h l₂) := by
  have hsplit : front h (l₁ ++ l₂) ++ [.head h] = front h l₁ ++ back h l₂ := by simp [front, back]
  constructor
  · rintro ⟨hn, hc⟩
    rw [hsplit, List.isChain_append] at hc
    exact ⟨hn, hc.1, hc.2.1, hc.2.2 _ (front_getLast? h l₁) _ (back_head? h l₂)⟩
  · rintro ⟨hn, hf, hb, hs⟩
    refine ⟨hn, ?_⟩
    rw [hsplit, List.isChain_append, front_getLast?, back_head?]
    refine ⟨hf, hb, fun x hx y hy => ?_⟩
    cases hx
    cases hy
    exact hs

theorem Ring.adj {L : Links η α} {h : η} {l₁ l₂ : List α} (hr : Ring L h (l₁ ++ l₂)) :
    L.Adj (pred h l₁) (succ h l₂) := (ring_append.mp hr).2.2.2

theorem ring_nil {L : Links η α} {h : η} : Ring L h [] ↔ L.Adj (.head h) (.head h) := by
  constructor
  · intro hr; exact Ring.adj (show Ring L h ([] ++ []) from hr)
  · intro ha; exact ⟨List.nodup_nil, .cons_cons ha (.singleton _)⟩

/-! ### What the fields hold -/

section Fields
variable {L : Links η α} {h : η} {l : List α}

theorem Ring.head_next (hr : Ring L h l) : L.next (.head h) = some (succ h l) :=
  (Ring.adj (show Ring L h ([] ++ l) from hr)).1

theorem Ring.head_prev (hr : Ring L h l) : L.prev (.head h) = some (pred h l) := by
  have hr' : Ring L h (l ++ []) := by rwa [List.append_nil]
  exact hr'.adj.2

theorem Ring.entry_next {l₁ l₂ : List α} {a : α} (hr : Ring L h (l₁ ++ a :: l₂)) :
    L.next (.entry a) = some (succ h l₂) := by
  have hr' : Ring L h ((l₁ ++ [a]) ++ l₂) := by simpa using hr
  have := hr'.adj.1
  simpa [pred] using this

theorem Ring.entry_prev {l₁ l₂ : List α} {a : α} (hr : Ring L h (l₁ ++ a :: l₂)) :
    L.prev (.entry a) = some (pred h l₁) := by
  have := hr.adj.2
  simpa [succ] using this

theorem Ring.entry_linked (hr : Ring L h l) {a : α} (ha : a ∈ l) :
    L.next (.entry a) ≠ none ∧ L.prev (.entry a) ≠ none := by
  obtain ⟨l₁, l₂, rfl⟩ := List.append_of_mem ha
  rw [hr.entry_next, hr.entry_prev]
  simp

/-- The links determine the entries. -/
theorem Ring.unique {l' : List α} (hr : Ring L h l) (hr' : Ring L h l') : l = l' := by
  have key : ∀ (m m' pre : List α), Ring L h (pre ++ m) → Ring L h (pre ++ m') → m = m' := by
    intro m
    induction m with
    | nil =>
      intro m' pre h1 h2
      have h3 := h1.adj.1
      rw [h2.adj.1] at h3
      cases m' with
      | nil => rfl
      | cons b m' => simp [succ] at h3
    | cons a m ih =>
      intro m' pre h1 h2
      have h3 := h1.adj.1
      rw [h2.adj.1] at h3
      cases m' with
      | nil => simp [succ] at h3
      | cons b m' =>
        have hab : b = a := by simpa [succ] using h3
        subst hab
        rw [ih m' (pre ++ [b]) (by simpa using h1) (by simpa using h2)]
  exact key l l' [] hr hr'

/-- A list whose nodes keep their links is unchanged. -/
theorem Ring.of_agree {L' : Links η α} (hr : Ring L h l)
    (hnext : ∀ y ∈ front h l, L'.next y = L.next y)
    (hprev : ∀ y ∈ back h l, L'.prev y = L.prev y) : Ring L' h l := by
  refine ⟨hr.nodup, isChain_imp hr.chain fun y hy z hz hyz => ?_⟩
  rw [List.dropLast_concat] at hy
  have hz' : z ∈ back h l := by simpa [front, back] using hz
  exact ⟨(hnext y hy).trans hyz.1, (hprev z hz').trans hyz.2⟩

end Fields

/-! ### Writes to a ring -/

section Writes
variable [DecidableEq η] [DecidableEq α] {L : Links η α} {h : η}

theorem ring_init (L : Links η α) (h : η) : Ring (L.init (.head h)) h [] := by
  rw [ring_nil]
  simp [Links.init, Links.Adj]

omit [DecidableEq η] [DecidableEq α] in
/-- Away from the seam nothing changes: the two halves stay chains under links that agree except
for the `next` of the node before the seam and the `prev` of the node after it. -/
theorem halves_of_agree (L' : Links η α) {l₁ l₂ : List α} (hn : (l₁ ++ l₂).Nodup)
    (hf : List.IsChain L.Adj (front h l₁)) (hb : List.IsChain L.Adj (back h l₂))
    (hnext : ∀ y, y ≠ pred h l₁ → y ∈ front h l₁ ∨ y ∈ back h l₂ → L'.next y = L.next y)
    (hprev : ∀ y, y ≠ succ h l₂ → y ∈ front h l₁ ∨ y ∈ back h l₂ → L'.prev y = L.prev y) :
    List.IsChain L'.Adj (front h l₁) ∧ List.IsChain L'.Adj (back h l₂) := by
  have hdisj := List.nodup_append.mp hn
  have hpl := notMem_dropLast_of_nodup (front_nodup h hdisj.1) (front_getLast? h l₁)
  have hsl : succ h l₂ ∉ (back h l₂).tail := by
    have hbn := back_nodup h hdisj.2.1
    rw [List.eq_cons_of_mem_head? (back_head? h l₂)] at hbn
    exact (List.nodup_cons.mp hbn).1
  constructor
  · refine isChain_imp hf fun y hy z hz hyz => ?_
    have hzs : z ≠ succ h l₂ := by
      rintro rfl
      obtain ⟨a, ha, hza⟩ := List.mem_map.mp (show _ ∈ l₁.map Node.entry from hz)
      rcases mem_back.mp (succ_mem_back h l₂) with h' | ⟨b, hb', h'⟩
      · rw [← hza] at h'; cases h'
      · rw [← hza] at h'; cases h'; exact hdisj.2.2 a ha a hb' rfl
    exact ⟨(hnext y (fun e => hpl (e ▸ hy)) (Or.inl (List.mem_of_mem_dropLast hy))).trans hyz.1,
      (hprev z hzs (Or.inl (List.mem_of_mem_tail hz))).trans hyz.2⟩
  · refine isChain_imp hb fun y hy z hz hyz => ?_
    have hyp : y ≠ pred h l₁ := by
      rintro rfl
      rw [back, List.dropLast_concat] at hy
      obtain ⟨a, ha, hya⟩ := List.mem_map.mp hy
      rcases mem_front.mp (pred_mem_front h l₁) with h' | ⟨b, hb', h'⟩
      · rw [← hya] at h'; cases h'
      · rw [← hya] at h'; cases h'; exact hdisj.2.2 a hb' a ha rfl
    exact ⟨(hnext y hyp (Or.inr (List.mem_of_mem_dropLast hy))).trans hyz.1,
      (hprev z (fun e => hsl (e ▸ hz)) (Or.inr (List.mem_of_mem_tail hz))).trans hyz.2⟩

/-- **Insertion.** -/
theorem Ring.link {l₁ l₂ : List α} {x : α} (hr : Ring L h (l₁ ++ l₂)) (hx : x ∉ l₁ ++ l₂) :
    Ring (L.link (.entry x) (pred h l₁) (succ h l₂)) h (l₁ ++ x :: l₂) := by
  obtain ⟨hn, hf, hb, -⟩ := ring_append.mp hr
  have hxf : (.entry x : Node η α) ∉ front h l₁ := by
    simp only [mem_front]; rintro (h' | ⟨a, ha, h'⟩) <;> cases h'; exact hx (by simp [ha])
  have hxb : (.entry x : Node η α) ∉ back h l₂ := by
    simp only [mem_back]; rintro (h' | ⟨a, ha, h'⟩) <;> cases h'; exact hx (by simp [ha])
  have hne : ∀ y, y ∈ front h l₁ ∨ y ∈ back h l₂ → y ≠ .entry x := by
    rintro y (hy | hy) rfl
    · exact hxf hy
    · exact hxb hy
  obtain ⟨hf', hb'⟩ := halves_of_agree (L.link (.entry x) (pred h l₁) (succ h l₂)) hn hf hb
    (fun y hyp hy => by simp [Links.link, hyp, hne y hy])
    (fun y hys hy => by simp [Links.link, hys, hne y hy])
  have hpx : pred h l₁ ≠ .entry x := hne _ (Or.inl (pred_mem_front h l₁))
  have hsx : succ h l₂ ≠ .entry x := hne _ (Or.inr (succ_mem_back h l₂))
  refine ring_append.mpr ⟨?_, hf', ?_, ?_⟩
  · rw [List.nodup_middle]
    exact List.nodup_cons.mpr ⟨hx, hn⟩
  · show List.IsChain _ (.entry x :: back h l₂)
    refine List.isChain_cons.mpr ⟨fun y hy => ?_, hb'⟩
    rw [back_head?] at hy
    cases hy
    simp [Links.link, Links.Adj, hpx.symm, hsx]
  · simp [Links.link, Links.Adj, succ]

/-- **Removal.** -/
theorem Ring.unlink {l₁ l₂ : List α} {x : α} (hr : Ring L h (l₁ ++ x :: l₂)) :
    Ring (L.unlink (pred h l₁) (succ h l₂)) h (l₁ ++ l₂) := by
  obtain ⟨hn, hf, hb, -⟩ := ring_append.mp hr
  have hn' : (l₁ ++ l₂).Nodup := (List.nodup_cons.mp (List.nodup_middle.mp hn)).2
  have hb : List.IsChain L.Adj (back h l₂) := (show List.IsChain _ (_ :: back h l₂) from hb).tail
  obtain ⟨hf', hb'⟩ := halves_of_agree (L.unlink (pred h l₁) (succ h l₂)) hn' hf hb
    (fun y hyp _ => by simp [Links.unlink, hyp]) (fun y hys _ => by simp [Links.unlink, hys])
  exact ring_append.mpr ⟨hn', hf', hb', by simp [Links.unlink, Links.Adj]⟩

/-! ### Families of rings -/

/-- The live heads have rings, and no entry is in two of them. -/
structure Rings (L : Links η α) (live : η → Prop) (ls : η → List α) : Prop where
  ring : ∀ h, live h → Ring L h (ls h)
  disj : ∀ h h' a, live h → live h' → a ∈ ls h → a ∈ ls h' → h = h'

variable {live live' : η → Prop} {ls : η → List α}

omit [DecidableEq α] in
/-- **One list is replaced.**  The other lists keep their links, and the entries of the new list
are in none of them. -/
theorem Rings.replace {L' : Links η α} {l : List α} (hr : Rings L live ls) (hring : Ring L' h l)
    (hlive : ∀ h', live' h' → h' ≠ h → live h')
    (hmem : ∀ a ∈ l, ∀ h', live h' → a ∈ ls h' → h' = h)
    (hag : ∀ h', live h' → h' ≠ h → ∀ y ∈ front h' (ls h'),
      L'.next y = L.next y ∧ L'.prev y = L.prev y) :
    Rings L' live' (Function.update ls h l) := by
  refine ⟨fun h' hl' => ?_, fun h₁ h₂ a hl₁ hl₂ ha₁ ha₂ => ?_⟩
  · by_cases e : h' = h
    · subst e
      rwa [Function.update_self]
    · rw [Function.update_of_ne e]
      have hl := hlive h' hl' e
      exact (hr.ring h' hl).of_agree (fun y hy => (hag h' hl e y hy).1)
        (fun y hy => (hag h' hl e y (mem_front.mpr (mem_back.mp hy))).2)
  · by_cases e₁ : h₁ = h <;> by_cases e₂ : h₂ = h
    · rw [e₁, e₂]
    · subst e₁
      rw [Function.update_self] at ha₁
      rw [Function.update_of_ne e₂] at ha₂
      exact (hmem a ha₁ h₂ (hlive h₂ hl₂ e₂) ha₂).symm
    · subst e₂
      rw [Function.update_self] at ha₂
      rw [Function.update_of_ne e₁] at ha₁
      exact hmem a ha₂ h₁ (hlive h₁ hl₁ e₁) ha₁
    · rw [Function.update_of_ne e₁] at ha₁
      rw [Function.update_of_ne e₂] at ha₂
      exact hr.disj h₁ h₂ a (hlive h₁ hl₁ e₁) (hlive h₂ hl₂ e₂) ha₁ ha₂

omit [DecidableEq η] [DecidableEq α] in
/-- Two lists share no node. -/
theorem Rings.foreign (hr : Rings L live ls) {h' : η} (hl : live h) (hl' : live h') (e : h' ≠ h)
    {y z : Node η α} (hy : y ∈ front h' (ls h')) (hz : z ∈ front h (ls h)) : y ≠ z := by
  rintro rfl
  rcases mem_front.mp hy with rfl | ⟨a, ha, rfl⟩
  · rcases mem_front.mp hz with h₁ | ⟨b, -, h₁⟩ <;> cases h₁
    exact e rfl
  · rcases mem_front.mp hz with h₁ | ⟨b, hb, h₁⟩ <;> cases h₁
    exact e (hr.disj h' h a hl' hl ha hb)

omit [DecidableEq η] [DecidableEq α] in
theorem pred_mem_append (h : η) (l₁ l₂ : List α) : pred h l₁ ∈ front h (l₁ ++ l₂) := by
  rcases mem_front.mp (pred_mem_front h l₁) with h₁ | ⟨a, ha, h₁⟩
  · exact mem_front.mpr (Or.inl h₁)
  · exact mem_front.mpr (Or.inr ⟨a, by simp [ha], h₁⟩)

omit [DecidableEq η] [DecidableEq α] in
theorem succ_mem_append (h : η) (l₁ l₂ : List α) : succ h l₂ ∈ front h (l₁ ++ l₂) := by
  rcases mem_back.mp (succ_mem_back h l₂) with h₁ | ⟨a, ha, h₁⟩
  · exact mem_front.mpr (Or.inl h₁)
  · exact mem_front.mpr (Or.inr ⟨a, by simp [ha], h₁⟩)

theorem Rings.link (hr : Rings L live ls) (hl : live h) {l₁ l₂ : List α} (hls : ls h = l₁ ++ l₂)
    {x : α} (hx : ∀ h', live h' → x ∉ ls h') :
    Rings (L.link (.entry x) (pred h l₁) (succ h l₂)) live
      (Function.update ls h (l₁ ++ x :: l₂)) := by
  have hring : Ring L h (l₁ ++ l₂) := hls ▸ hr.ring h hl
  refine hr.replace (hring.link (hls ▸ hx h hl)) (fun h' hl' _ => hl') ?_ ?_
  · intro a ha h' hl' ha'
    rcases (by simpa using ha : a ∈ l₁ ∨ a = x ∨ a ∈ l₂) with ha | rfl | ha
    · exact hr.disj h' h a hl' hl ha' (by simp [hls, ha])
    · exact absurd ha' (hx h' hl')
    · exact hr.disj h' h a hl' hl ha' (by simp [hls, ha])
  · intro h' hl' e y hy
    have hyp := hr.foreign hl hl' e hy (hls ▸ pred_mem_append h l₁ l₂)
    have hys := hr.foreign hl hl' e hy (hls ▸ succ_mem_append h l₁ l₂)
    have hyx : y ≠ .entry x := by
      rintro rfl
      rcases mem_front.mp hy with h₁ | ⟨a, ha, h₁⟩ <;> cases h₁
      exact hx h' hl' ha
    simp [Links.link, hyp, hys, hyx]

theorem Rings.unlink (hr : Rings L live ls) (hl : live h) {l₁ l₂ : List α} {x : α}
    (hls : ls h = l₁ ++ x :: l₂) :
    Rings (L.unlink (pred h l₁) (succ h l₂)) live (Function.update ls h (l₁ ++ l₂)) := by
  have hring : Ring L h (l₁ ++ x :: l₂) := hls ▸ hr.ring h hl
  refine hr.replace hring.unlink (fun h' hl' _ => hl') ?_ ?_
  · intro a ha h' hl' ha'
    refine hr.disj h' h a hl' hl ha' ?_
    rw [hls, List.mem_append, List.mem_cons]
    rcases List.mem_append.mp ha with h₁ | h₁
    · exact Or.inl h₁
    · exact Or.inr (Or.inr h₁)
  · intro h' hl' e y hy
    have hp : pred h l₁ ∈ front h (ls h) := hls ▸ pred_mem_append h l₁ (x :: l₂)
    have hs : succ h l₂ ∈ front h (ls h) := by
      have := succ_mem_append h (l₁ ++ [x]) l₂
      rwa [List.append_assoc, List.singleton_append, ← hls] at this
    have hyp := hr.foreign hl hl' e hy hp
    have hys := hr.foreign hl hl' e hy hs
    simp [Links.unlink, hyp, hys]

omit [DecidableEq η] [DecidableEq α] in
/-- The fields of an entry that is in no list are free. -/
theorem Rings.of_free {L' : Links η α} (hr : Rings L live ls) {x : α}
    (hx : ∀ h', live h' → x ∉ ls h')
    (hag : ∀ y, y ≠ .entry x → L'.next y = L.next y ∧ L'.prev y = L.prev y) :
    Rings L' live ls := by
  refine ⟨fun h' hl' => ?_, hr.disj⟩
  have hne : ∀ y, y ∈ front h' (ls h') → y ≠ .entry x := by
    rintro y hy rfl
    rcases mem_front.mp hy with h₁ | ⟨a, ha, h₁⟩ <;> cases h₁
    exact hx h' hl' ha
  exact (hr.ring h' hl').of_agree (fun y hy => (hag y (hne y hy)).1)
    (fun y hy => (hag y (hne y (mem_front.mpr (mem_back.mp hy)))).2)

/-- A list is made empty: a new list, or an old one that is given up with its entries. -/
theorem Rings.init (hr : Rings L live ls) (h : η) (hlive : ∀ h', live' h' → h' ≠ h → live h') :
    Rings (L.init (.head h)) live' (Function.update ls h []) := by
  refine hr.replace (ring_init L h) hlive (by simp) fun h' hl' e y hy => ?_
  have hyh : y ≠ .head h := by
    rintro rfl
    rcases mem_front.mp hy with h₁ | ⟨a, ha, h₁⟩ <;> cases h₁
    exact e rfl
  simp [Links.init, hyh]

end Writes

/-! ### Loops over a ring -/

theorem Ring.forEach_eq [DecidableEq η] {β γ : Type*} {L : Links η α} {h : η} {l : List α}
    (hr : Ring L h l) (f : β → α → β ⊕ γ) (n : ℕ) (hn : l.length ≤ n) (b : β) :
    L.forEach h f n (L.next (.head h)) b = some (foldExit f b l) := by
  have key : ∀ (m pre : List α) (n : ℕ) (b : β), Ring L h (pre ++ m) → m.length ≤ n →
      L.forEach h f n (some (succ h m)) b = some (foldExit f b m) := by
    intro m
    induction m with
    | nil => intro pre n b _ _; cases n <;> simp [succ, Links.forEach, foldExit]
    | cons a m ih =>
      intro pre n b hr' hn'
      obtain ⟨n, rfl⟩ : ∃ k, n = k + 1 := ⟨n - 1, by simp at hn'; omega⟩
      simp only [succ, List.head?_cons, Option.elim_some, Links.forEach, foldExit]
      cases f b a with
      | inr c => rfl
      | inl b' =>
        rw [hr'.entry_next]
        exact ih (pre ++ [a]) n b' (by simpa using hr') (by simpa using hn')
  rw [hr.head_next]
  exact key l [] n b hr hn

/-! ### Following the `next` fields -/

section Leads
variable {L : Links η α} {h : η}

/-- From `p` the `next` fields lead through the entries `l` to the head `h`. -/
def Leads (L : Links η α) (h : η) : Option (Node η α) → List α → Prop
  | p, [] => p = some (.head h)
  | p, a :: l => p = some (.entry a) ∧ Leads L h (L.next (.entry a)) l

/-- On a ring they lead through its entries. -/
theorem Ring.leads {l : List α} (hr : Ring L h l) : Leads L h (L.next (.head h)) l := by
  have key : ∀ (m pre : List α), Ring L h (pre ++ m) → Leads L h (some (succ h m)) m := by
    intro m
    induction m with
    | nil => exact fun _ _ => rfl
    | cons a m ih =>
      intro pre hr'
      refine ⟨rfl, ?_⟩
      rw [hr'.entry_next]
      exact ih (pre ++ [a]) (by simpa using hr')
  rw [hr.head_next]
  exact key l [] hr

theorem Leads.unique {p : Option (Node η α)} {l l' : List α} (hl : Leads L h p l)
    (hl' : Leads L h p l') : l = l' := by
  induction l generalizing p l' with
  | nil =>
    cases l' with
    | nil => rfl
    | cons a l' =>
      rw [show p = some (.head h) from hl] at hl'
      cases hl'.1
  | cons a l ih =>
    cases l' with
    | nil =>
      rw [show p = some (.head h) from hl'] at hl
      cases hl.1
    | cons a' l' =>
      have ha : a = a' := by
        have := hl.1.symm.trans hl'.1
        rw [Option.some.injEq, Node.entry.injEq] at this
        exact this
      subst ha
      rw [ih hl.2 hl'.2]

theorem Leads.after {p : Option (Node η α)} {l₁ l₂ : List α} {a : α}
    (hl : Leads L h p (l₁ ++ a :: l₂)) : Leads L h (L.next (.entry a)) l₂ := by
  induction l₁ generalizing p with
  | nil => exact hl.2
  | cons b l₁ ih => exact ih hl.2

/-- A way that comes back to the head meets no entry twice. -/
theorem Leads.nodup {p : Option (Node η α)} {l : List α} (hl : Leads L h p l) : l.Nodup := by
  induction l generalizing p with
  | nil => exact List.nodup_nil
  | cons a l ih =>
    refine List.nodup_cons.mpr ⟨fun ha => ?_, ih hl.2⟩
    obtain ⟨l₁, l₂, rfl⟩ := List.append_of_mem ha
    have hlen := congrArg List.length (hl.2.unique hl.2.after)
    simp only [List.length_append, List.length_cons] at hlen
    omega

/-- The entries are where the `next` fields lead. -/
theorem Leads.mem {p : Option (Node η α)} {l : List α} (hl : Leads L h p l) {S : α → Prop}
    (hp : ∀ a, p = some (.entry a) → S a) (hS : ∀ y a, L.next y = some (.entry a) → S a) :
    ∀ a ∈ l, S a := by
  induction l generalizing p with
  | nil => exact fun a ha => absurd ha List.not_mem_nil
  | cons b l ih =>
    intro a ha
    rcases List.mem_cons.mp ha with rfl | ha
    · exact hp a hl.1
    · exact ih hl.2 (fun a' ha' => hS _ a' ha') a ha

/-- **A loop that collects the entries** ends with `l` exactly when the fields lead through `l`. -/
theorem forEach_collect_iff [DecidableEq η] {γ : Type*} {n : ℕ} {p : Option (Node η α)}
    {acc r : List α} :
    L.forEach h (fun l a => (.inl (l ++ [a]) : List α ⊕ γ)) n p acc = some (.inl r) ↔
      ∃ l, r = acc ++ l ∧ l.length ≤ n ∧ Leads L h p l := by
  induction n generalizing p acc with
  | zero =>
    constructor
    · intro hr
      rcases p with - | (h' | a)
      · simp [Links.forEach] at hr
      · unfold Links.forEach at hr
        split_ifs at hr with hh
        cases hr
        exact ⟨[], (List.append_nil _).symm, le_rfl, by rw [hh]; rfl⟩
      · simp [Links.forEach] at hr
    · rintro ⟨l, rfl, hlen, hl⟩
      obtain rfl := List.length_eq_zero_iff.mp (Nat.le_zero.mp hlen)
      rw [show p = some (.head h) from hl, List.append_nil]
      simp [Links.forEach]
  | succ n ih =>
    constructor
    · intro hr
      rcases p with - | (h' | a)
      · simp [Links.forEach] at hr
      · unfold Links.forEach at hr
        split_ifs at hr with hh
        cases hr
        exact ⟨[], (List.append_nil _).symm, Nat.zero_le _, by rw [hh]; rfl⟩
      · unfold Links.forEach at hr
        obtain ⟨l, rfl, hlen, hl⟩ := ih.mp hr
        exact ⟨a :: l, by simp, by simpa using hlen, rfl, hl⟩
    · rintro ⟨l, rfl, hlen, hl⟩
      cases l with
      | nil =>
        rw [show p = some (.head h) from hl, List.append_nil]
        simp [Links.forEach]
      | cons a l =>
        rw [hl.1]
        unfold Links.forEach
        exact ih.mpr ⟨l, by simp, by simpa using hlen, hl.2⟩

end Leads

end GSConferencing.Lib.CyclicList
