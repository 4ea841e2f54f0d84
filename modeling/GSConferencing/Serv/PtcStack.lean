import GSConferencing.Lib.Recency
import GSConferencing.Serv.Camera

/-!
# The stack of pan-tilt control

`ptc.c`: devices are put on the list of `ptc_head`, moved to its front and taken out, and `curr`
is set beside it.

* `call_inv`: each call does to the list what it does to a stack with removal.
* `stacked_always`: after any calls the list is the stack of what was called, and `curr` its top.
-/

namespace GSConferencing.Serv.PtcStack

open GSConferencing.Lib.CyclicList GSConferencing.Lib.Recency GSConferencing.Lib.Run
open GSConferencing.Serv.Dev GSConferencing.Serv.Ptc GSConferencing.Serv.OpenView
open GSConferencing.Serv.Mics GSConferencing.Serv.Camera

/-- The functions of `ptc.c` that are called from outside. -/
inductive Call where
  | put (d : ℤ)
  | push (d : ℤ)
  | remove (d : ℤ)
  | goCurrent

/-- What a call asks of the list. -/
def Call.op : Call → Option (Op ℤ)
  | .put d => some (.put d)
  | .push d => some (.put d)
  | .remove d => some (.remove d)
  | .goCurrent => none

/-- The server, and what has been asked of the list, newest first. -/
structure Calls where
  srv : Server
  log : List (Op ℤ)

/-- What a call does to the server. -/
def call (s : Server) : Call → Option Server
  | .put d => ptcPut s d
  | .push d => ptcPush s d
  | .remove d => ptcRemove s d
  | .goCurrent => some (ptcGoCurrent s)

def step (x : Calls) (c : Call) : Option Calls :=
  (call x.srv c).map fun s => ⟨s, c.op.toList ++ x.log⟩

/-- No device is in the list yet: `LIST_HEAD(ptc_head)`, and the links of all devices are `NULL`. -/
def start (s : Server) : Calls where
  srv := { s with
    ptc := { s.ptc with
      links := Links.init ⟨fun _ => none, fun _ => none⟩ (.head ())
      curr := none } }
  log := []

/-- **The list is the stack** of what was called: `curr` is the device that was put last and not
removed since, and the first one of the list; every other device has no links. -/
structure Stacked (x : Calls) : Prop where
  list : ∃ pl, Ring x.srv.ptc.links () pl ∧ Stack x.log pl ∧ x.srv.ptc.curr = pl.head? ∧
    ∀ d, isPushed x.srv d = true ↔ d ∈ pl
  curr : ∀ d, x.srv.ptc.curr = some d ↔ Latest x.log d

/-- The list `pl` of the camera is the stack. -/
structure Inv (x : Calls) (pl : List ℤ) : Prop where
  ptc : PtcInv x.srv.ptc.links pl
  stack : Stack x.log pl
  curr : x.srv.ptc.curr = pl.head?

section Calls
variable {x : Calls} {s s' : Server} {pl : List ℤ} {d : ℤ}

theorem Inv.stacked (h : Inv x pl) : Stacked x where
  list := ⟨pl, h.ptc.rings.ring () trivial, h.stack, h.curr, isPushed_iff h.ptc⟩
  curr := fun d => by rw [h.curr, h.stack.head_iff]

theorem inv_start (s : Server) : Inv (start s) [] where
  ptc := ⟨⟨fun _ _ => ring_init _ (), fun _ _ _ _ _ _ _ => rfl⟩, fun _ _ => Or.inl rfl⟩
  stack := stack_nil
  curr := rfl

theorem links_of_view (hv : view s' = view s) : s'.ptc.links = s.ptc.links :=
  congrArg View.ptcL hv

/-- Commands to the camera leave the list alone. -/
theorem links_ptcGoCurrent (s : Server) :
    (ptcGoCurrent s).ptc.links = s.ptc.links ∧ (ptcGoCurrent s).ptc.curr = s.ptc.curr := by
  unfold ptcGoCurrent
  split
  · exact ⟨links_of_view (view_ptcSend s _), curr_ptcSend s _⟩
  · exact ⟨links_of_view (view_ptcDefault s), curr_ptcDefault s⟩

/-- A call that leaves the list of a stack behind. -/
theorem step_of_call {c : Call} {links : Links Unit ℤ} (hs : call x.srv c = some s')
    (hv : view s' = { view x.srv with ptcL := links }) (hlinks : PtcInv links pl)
    (hstack : Stack (c.op.toList ++ x.log) pl) (hcurr : s'.ptc.curr = pl.head?) :
    ∃ x' pl', step x c = some x' ∧ Inv x' pl' := by
  have hL : s'.ptc.links = links := congrArg View.ptcL hv
  refine ⟨⟨s', c.op.toList ++ x.log⟩, pl, ?_, hL.symm ▸ hlinks, hstack, hcurr⟩
  rw [step, hs, Option.map_some]

/-- **A call.** -/
theorem call_inv (h : Inv x pl) (c : Call) : ∃ x' pl', step x c = some x' ∧ Inv x' pl' := by
  cases c with
  | put d =>
    obtain ⟨s', links, hs', hv, hlinks⟩ := ptcPut_inv h.ptc d
    exact step_of_call hs' hv hlinks (h.stack.put d) (curr_ptcPut hs')
  | push d =>
    obtain ⟨s', links, hs', hv, hlinks⟩ := ptcPush_inv h.ptc d
    obtain ⟨s₁, hs₁, rfl⟩ := Option.map_eq_some_iff.mp hs'
    exact step_of_call hs' hv hlinks (h.stack.put d) ((curr_ptcSend s₁ d).trans (curr_ptcPut hs₁))
  | remove d =>
    obtain ⟨s', links, hs', hv, hlinks⟩ := ptcRemove_inv h.ptc d
    exact step_of_call hs' hv hlinks (h.stack.remove d) (curr_ptcRemove h.ptc h.curr hs')
  | goCurrent =>
    obtain ⟨hlinks, hcurr⟩ := links_ptcGoCurrent x.srv
    exact ⟨⟨ptcGoCurrent x.srv, x.log⟩, pl, rfl, hlinks ▸ h.ptc, h.stack, hcurr.trans h.curr⟩

end Calls

/-- **The stack:** after any calls on any devices the list is the stack of what was called. -/
theorem stacked_always (s : Server) (cs : List Call) : Always step Stacked (start s) cs :=
  always_of_guarded (I := fun x => ∃ pl, Inv x pl) (E := fun _ => True)
    (fun _ ⟨_, h⟩ => h.stacked) (fun _ c ⟨_, h⟩ _ _ => by
      obtain ⟨x', pl', hx', h'⟩ := call_inv h c
      exact ⟨x', hx', pl', h'⟩)
    ⟨[], inv_start s⟩ (fun _ _ => trivial) (guarded_true ..)

end GSConferencing.Serv.PtcStack
