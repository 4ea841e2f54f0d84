import Mathlib

/-!
# Sessions with a master

A session is open or not, and some of its members carry a mark.  It begins with one member that is
marked; it ends with some marks taken away.

* `Ok`: at most one member is marked, and only while the session is open.
* `Move.ok`: a session stays so, if whenever it ends every mark is taken away (`Covered`).
* `Move.not_ok`: else it does not.
* `marked_update`, `unmarked_update`: marks that are kept in records.
-/

namespace GSConferencing.Lib.Sessions

variable {ι : Type*}

@[ext] structure Session (ι : Type*) where
  members : Set ι
  marked : Set ι
  isOpen : Prop

namespace Session

variable (S : Session ι)

/-- The members with a mark. -/
def masters : Set ι := S.members ∩ S.marked

/-- **At most one master,** and only while the session is open. -/
def Ok : Prop := S.masters.Subsingleton ∧ (S.masters.Nonempty → S.isOpen)

/-- The session begins with the master `d`. -/
def begins (d : ι) : Session ι := { S with marked := insert d S.marked, isOpen := True }

/-- The session ends, and `c` lose their marks. -/
def ends (c : Set ι) : Session ι := { S with marked := S.marked \ c, isOpen := False }

/-- What happens to a session; the index says who loses the mark when it ends. -/
inductive Move : Option (Set ι) → Session ι → Prop
  | same : Move none S
  | begins (d : ι) (h : ¬ S.isOpen) : Move none (S.begins d)
  | ends (c : Set ι) : Move (some c) (S.ends c)

/-- If the session ends, all masters lose the mark. -/
def Covered (c : Option (Set ι)) : Prop := ∀ m ∈ c, S.masters ⊆ m

variable {S} {S' : Session ι} {c : Option (Set ι)}

theorem covered_some {m : Set ι} : S.Covered (some m) ↔ S.masters ⊆ m :=
  ⟨fun h => h m rfl, fun h m' hm' => by (cases hm'; exact h)⟩

theorem covered_ite {p : Prop} [Decidable p] {m : Set ι} :
    S.Covered (if p then some m else none) ↔ (p → S.masters ⊆ m) := by
  by_cases hp : p
  · rw [if_pos hp, covered_some]
    exact ⟨fun h _ => h, fun h => h hp⟩
  · rw [if_neg hp]
    exact ⟨fun _ h => absurd h hp, fun _ m hm => by cases hm⟩

theorem ok_of_no_master (h : S.masters = ∅) : S.Ok := by
  unfold Ok
  rw [h]
  exact ⟨Set.subsingleton_empty, fun hne => absurd hne Set.not_nonempty_empty⟩

theorem Ok.begins (h : S.Ok) (hno : ¬ S.isOpen) (d : ι) : (S.begins d).Ok := by
  refine ⟨?_, fun _ => trivial⟩
  have hsub : (S.begins d).masters ⊆ {d} := by
    rintro x ⟨hx, rfl | hm⟩
    · rfl
    · exact absurd (h.2 ⟨x, hx, hm⟩) hno
  exact Set.subsingleton_singleton.anti hsub

theorem ends_ok_iff {m : Set ι} : (S.ends m).Ok ↔ S.masters ⊆ m := by
  constructor
  · intro h x hx
    by_contra hm
    exact h.2 ⟨x, hx.1, hx.2, hm⟩
  · intro h
    refine ok_of_no_master (Set.eq_empty_of_forall_notMem ?_)
    rintro x ⟨hx, hmark, hm⟩
    exact hm (h ⟨hx, hmark⟩)

/-- **The rule.** -/
theorem Move.ok (hmove : S.Move c S') (h : S.Ok) (hc : S.Covered c) : S'.Ok := by
  cases hmove with
  | same => exact h
  | begins d hno => exact h.begins hno d
  | ends m => exact ends_ok_iff.mpr (hc m rfl)

theorem Move.not_ok (hmove : S.Move c S') (hc : ¬ S.Covered c) : ¬ S'.Ok := by
  cases hmove with
  | same => exact absurd (fun m hm => by cases hm) hc
  | begins d hno => exact absurd (fun m hm => by cases hm) hc
  | ends m =>
    intro h
    refine hc fun m' hm' => ?_
    cases hm'
    exact ends_ok_iff.mp h

end Session

/-! ## Marks in records -/

section Records
variable {ρ : Type*} [DecidableEq ι] {row : ι → ρ} {d : ι} {r : ρ} (p : ρ → Prop)

theorem marked_update (hr : p r) :
    {x | p (Function.update row d r x)} = insert d {x | p (row x)} := by
  refine Set.ext fun x => ?_
  show p (Function.update row d r x) ↔ x = d ∨ p (row x)
  by_cases e : x = d
  · rw [e, Function.update_self]
    exact ⟨fun _ => .inl rfl, fun _ => hr⟩
  · rw [Function.update_of_ne e]
    exact ⟨.inr, fun h => h.resolve_left e⟩

theorem unmarked_update (hr : ¬ p r) :
    {x | p (Function.update row d r x)} = {x | p (row x)} \ {d} := by
  refine Set.ext fun x => ?_
  show p (Function.update row d r x) ↔ p (row x) ∧ x ≠ d
  by_cases e : x = d
  · rw [e, Function.update_self]
    exact ⟨fun h => absurd h hr, fun h => absurd rfl h.2⟩
  · rw [Function.update_of_ne e]
    exact ⟨fun h => ⟨h, e⟩, fun h => h.1⟩

end Records

end GSConferencing.Lib.Sessions
