import Mathlib
import GSConferencing.Lib.Run
import GSConferencing.Lib.Memory
import GSConferencing.Lib.Lines
import GSConferencing.Include.Pack
import GSConferencing.Serv.CmdHandler

/-!
# Lines from a manager

`cmd_manage.c`: `serv_manage` reads the lines of a manager with `recv_line` until that reports the
end of the stream.  The buffer of `recv_line` is static: what one session leaves in it is there when
the next one starts.

* `lines_framed`: the lines of every session are read, in order, if no session starts with bytes
  left over, and `recv` is not called without room while there is a line to come.
* `session_ends`: a session comes to its end.
* `not_framed_leftover`: after a session that was cut off the next one reads a wrong line.
-/

namespace GSConferencing.Serv.Manage

open GSConferencing.Lib.Run GSConferencing.Lib.Memory GSConferencing.Lib.Lines
open GSConferencing.Include.Pack GSConferencing.Serv.CmdHandler

/-- `'\n'`. -/
def nl : Byte := 10

/-- `BUFLEN` of `cmd_manage.c`. -/
def buflen : ℕ := cmdMax + 100

/-! ## The buffer -/

/-- The static variables of `recv_line`. -/
structure RecvBuf where
  recvbuf : List Byte
  start : ℕ
  len : ℕ

def RecvBuf.init : RecvBuf := { recvbuf := List.replicate buflen 0, start := 0, len := 0 }

/-- The bytes received and not returned yet. -/
def RecvBuf.held (b : RecvBuf) : List Byte := part b.recvbuf b.start b.len

/-- The branch of `recv_line` that finds a line: the line, and the buffer without it. -/
def RecvBuf.takeLine (b : RecvBuf) : List Byte × RecvBuf :=
  let l := b.held.idxOf nl + 1
  let start := b.start + l
  let len := b.len - l
  (part b.recvbuf b.start l, { b with start := if len = 0 then 0 else start, len := len })

/-- The size that `recv` is called with. -/
def RecvBuf.room (b : RecvBuf) : ℕ := buflen - (b.start + b.len) - 100

/-- `recv` has put `data` behind the bytes received. -/
def RecvBuf.put (b : RecvBuf) (data : List Byte) : RecvBuf :=
  { b with
    recvbuf := overwrite b.recvbuf (b.start + b.len) data
    len := b.len + data.length }

/-! ## Sessions -/

/-- The buffer, the stream of the current session, what is still to be received of it, the lines
that the calls of `recv_line` have returned, and whether it has reported the end. -/
structure System where
  buf : RecvBuf
  stream : List Byte
  unread : List Byte
  got : List (List Byte)
  closed : Bool

def System.init : System :=
  { buf := .init, stream := [], unread := [], got := [], closed := true }

/-- A manager logs in, whose client sends `stream` and closes; or one turn of the loop of
`recv_line`, where `recv`, if it is called, has `n` bytes or, for 0, times out. -/
inductive Event where
  | session (stream : List Byte)
  | turn (n : ℕ)

/-- `recv_line` calls `recv`, which yields 0 at the end of the stream and when it has no room.  The
size is unsigned: less than none would be very much. -/
def stepRecv (x : System) (n : ℕ) : Option System :=
  if buflen < x.buf.start + x.buf.len + 100 then none
  else if n = 0 then some x
  else
    let data := x.unread.take (min n x.buf.room)
    if data = [] then some { x with closed := true }
    else some { x with buf := x.buf.put data, unread := x.unread.drop data.length }

/-- One turn of the loop in `recv_line`; `serv_manage` calls it again after each line. -/
def stepTurn (x : System) (n : ℕ) : Option System :=
  if x.closed then some x
  else if nl ∈ x.buf.held then
    some { x with buf := x.buf.takeLine.2, got := x.got ++ [x.buf.takeLine.1] }
  else stepRecv x n

/-- A session waits for the end of the one before. -/
def stepSession (x : System) (stream : List Byte) : Option System :=
  if x.closed then some { x with stream := stream, unread := stream, got := [], closed := false }
  else some x

def step (x : System) : Event → Option System
  | .session stream => stepSession x stream
  | .turn n => stepTurn x n

/-- The lines returned are those of the stream, all of them when the end is reported. -/
def Framed (x : System) : Prop :=
  x.got <+: lines nl x.stream ∧ (x.closed → x.got = lines nl x.stream)

instance (x : System) : Decidable (Framed x) := inferInstanceAs (Decidable (_ ∧ _))

/-- A session that has a line starts without bytes left over from the one before; `recv` is called
with room, unless no line is to come. -/
def Clear (x : System) : Event → Prop
  | .session stream => x.buf.len = 0 ∨ nl ∉ stream
  | .turn _ => nl ∈ x.buf.held ∨ 0 < x.buf.room ∨ nl ∉ x.unread

instance (x : System) : ∀ e, Decidable (Clear x e)
  | .session stream => inferInstanceAs (Decidable (x.buf.len = 0 ∨ nl ∉ stream))
  | .turn _ => inferInstanceAs (Decidable (nl ∈ x.buf.held ∨ 0 < x.buf.room ∨ nl ∉ x.unread))

/-! ## What a turn does to the bytes -/

/-- The buffer keeps its last 100 bytes free. -/
structure RecvBuf.Fits (b : RecvBuf) : Prop where
  length : b.recvbuf.length = buflen
  le : b.start + b.len + 100 ≤ buflen

theorem fits_init : RecvBuf.init.Fits := ⟨List.length_replicate, by decide⟩

theorem RecvBuf.Fits.length_held {b : RecvBuf} (h : b.Fits) : b.held.length = b.len :=
  length_part (by rw [h.length]; exact (Nat.le_add_right _ _).trans h.le)

/-- The line is the first one held, and the rest stays. -/
theorem takeLine_eq {b : RecvBuf} (h : b.Fits) (hnl : nl ∈ b.held) :
    b.takeLine.1 = b.held.take (b.held.idxOf nl + 1) ∧
      b.takeLine.2.held = b.held.drop (b.held.idxOf nl + 1) ∧ b.takeLine.2.Fits := by
  have hlt : b.held.idxOf nl < b.len := by
    rw [← h.length_held]
    exact List.idxOf_lt_length_iff.mpr hnl
  have hle := h.le
  refine ⟨(part_take (by omega)).symm, ?_, ?_⟩
  · set l := b.held.idxOf nl + 1
    show part b.recvbuf (if b.len - l = 0 then 0 else b.start + l) (b.len - l) =
      (part b.recvbuf b.start b.len).drop l
    rw [part_drop]
    split_ifs with h0
    · rw [h0, part_zero, part_zero]
    · rfl
  · refine ⟨h.length, ?_⟩
    show (if b.len - (b.held.idxOf nl + 1) = 0 then 0 else _) + (b.len - (b.held.idxOf nl + 1)) +
      100 ≤ buflen
    split_ifs <;> omega

theorem put_eq {b : RecvBuf} (h : b.Fits) (data : List Byte) (hd : data.length ≤ b.room) :
    (b.put data).held = b.held ++ data ∧ (b.put data).Fits := by
  have hle := h.le
  have hlen := h.length
  unfold RecvBuf.room at hd
  refine ⟨part_overwrite (by omega), ⟨?_, ?_⟩⟩
  · show (overwrite b.recvbuf (b.start + b.len) data).length = buflen
    rw [length_overwrite (by omega), hlen]
  · show b.start + (b.len + data.length) + 100 ≤ buflen
    omega

/-! ## The invariant -/

structure Inv (x : System) : Prop where
  fits : x.buf.Fits
  done : x.closed → nl ∉ x.buf.held ∧ x.got = lines nl x.stream
  running : ¬ x.closed → lines nl x.stream = x.got ++ lines nl (x.buf.held ++ x.unread)

theorem inv_init : Inv System.init :=
  ⟨fits_init, fun _ => ⟨List.not_mem_nil, rfl⟩, fun h => absurd rfl h⟩

theorem Inv.framed {x : System} (h : Inv x) : Framed x := by
  refine ⟨?_, fun hc => (h.done hc).2⟩
  by_cases hc : x.closed = true
  · rw [(h.done hc).2]
  · rw [h.running hc]
    exact List.prefix_append _ _

theorem inv_session {x : System} (h : Inv x) {stream : List Byte}
    (hg : x.buf.len = 0 ∨ nl ∉ stream) : ∃ x', stepSession x stream = some x' ∧ Inv x' := by
  unfold stepSession
  split_ifs with hc
  · refine ⟨_, rfl, h.fits, Bool.noConfusion, fun _ => ?_⟩
    show lines nl stream = [] ++ lines nl (x.buf.held ++ stream)
    rw [List.nil_append]
    rcases hg with hlen | hnl
    · rw [RecvBuf.held, hlen, part_zero, List.nil_append]
    · rw [lines_eq_nil hnl, lines_eq_nil]
      rw [List.mem_append, not_or]
      exact ⟨(h.done hc).1, hnl⟩
  · exact ⟨x, rfl, h⟩

theorem inv_recv {x : System} (h : Inv x) {n : ℕ} (hc : ¬ x.closed) (hheld : nl ∉ x.buf.held)
    (hg : 0 < x.buf.room ∨ nl ∉ x.unread) : ∃ x', stepRecv x n = some x' ∧ Inv x' := by
  unfold stepRecv
  rw [if_neg (not_lt.mpr h.fits.le)]
  by_cases hn : n = 0
  · rw [if_pos hn]
    exact ⟨x, rfl, h⟩
  rw [if_neg hn]
  set data := x.unread.take (min n x.buf.room) with hdata
  have hsplit : data ++ x.unread.drop data.length = x.unread :=
    List.prefix_iff_eq_append.mp (List.take_prefix _ _)
  by_cases hd : data = []
  · -- the end is reported: nothing is left, or there was no room
    rw [if_pos hd]
    have hnl : nl ∉ x.unread := by
      rcases List.take_eq_nil_iff.mp (hdata.symm.trans hd) with h0 | h0
      · exact hg.resolve_left (by omega)
      · rw [h0]
        exact List.not_mem_nil
    refine ⟨_, rfl, h.fits, fun _ => ⟨hheld, ?_⟩, fun hn => absurd rfl hn⟩
    show x.got = lines nl x.stream
    rw [h.running hc, lines_eq_nil, List.append_nil]
    rw [List.mem_append, not_or]
    exact ⟨hheld, hnl⟩
  · rw [if_neg hd]
    obtain ⟨hput, hfits⟩ := put_eq h.fits data
      ((List.length_take_le _ _).trans (min_le_right _ _))
    refine ⟨_, rfl, hfits, fun h => absurd h hc, fun _ => ?_⟩
    show lines nl x.stream = x.got ++ lines nl ((x.buf.put data).held ++ x.unread.drop data.length)
    rw [hput, List.append_assoc, hsplit, h.running hc]

theorem inv_turn {x : System} (h : Inv x) {n : ℕ}
    (hg : nl ∈ x.buf.held ∨ 0 < x.buf.room ∨ nl ∉ x.unread) :
    ∃ x', stepTurn x n = some x' ∧ Inv x' := by
  unfold stepTurn
  by_cases hc : x.closed = true
  · rw [if_pos hc]
    exact ⟨x, rfl, h⟩
  rw [if_neg hc]
  by_cases hnl : nl ∈ x.buf.held
  · obtain ⟨hline, hrest, hfits⟩ := takeLine_eq h.fits hnl
    rw [if_pos hnl]
    refine ⟨_, rfl, hfits, fun h => absurd h hc, fun _ => ?_⟩
    show lines nl x.stream =
      x.got ++ [x.buf.takeLine.1] ++ lines nl (x.buf.takeLine.2.held ++ x.unread)
    rw [hline, hrest, h.running hc, lines_first hnl, List.append_assoc, List.singleton_append]
  · rw [if_neg hnl]
    exact inv_recv h hc hnl (hg.resolve_left hnl)

theorem inv_step {x : System} {e : Event} (h : Inv x) (hg : Clear x e) :
    ∃ x', step x e = some x' ∧ Inv x' := by
  cases e with
  | session stream => exact inv_session h hg
  | turn n => exact inv_turn h hg

/-! ## The end of a session -/

/-- The turns that are left: a byte is received once and returned once, and the end is reported. -/
def System.turns (x : System) : ℕ :=
  if x.closed then 0 else 2 * x.unread.length + x.buf.len + 1

/-- A turn in which `recv` does not time out leads on. -/
theorem turns_lt {x : System} (h : x.buf.Fits) {n : ℕ} (hn : n ≠ 0) (hc : ¬ x.closed) :
    ∃ x', stepTurn x n = some x' ∧ x'.buf.Fits ∧ x'.turns < x.turns := by
  unfold stepTurn
  rw [if_neg hc]
  by_cases hnl : nl ∈ x.buf.held
  · obtain ⟨-, hrest, hfits⟩ := takeLine_eq h hnl
    rw [if_pos hnl]
    refine ⟨_, rfl, hfits, ?_⟩
    have hlen := List.length_pos_of_mem hnl
    rw [h.length_held] at hlen
    have hless : x.buf.takeLine.2.len < x.buf.len := Nat.sub_lt hlen (Nat.succ_pos _)
    show (if x.closed then 0 else 2 * x.unread.length + x.buf.takeLine.2.len + 1) <
      if x.closed then 0 else 2 * x.unread.length + x.buf.len + 1
    rw [if_neg hc, if_neg hc]
    omega
  rw [if_neg hnl]
  unfold stepRecv
  rw [if_neg (not_lt.mpr h.le), if_neg hn]
  set data := x.unread.take (min n x.buf.room) with hdata
  by_cases hd : data = []
  · rw [if_pos hd]
    refine ⟨_, rfl, h, ?_⟩
    show 0 < x.turns
    rw [System.turns, if_neg hc]
    exact Nat.succ_pos _
  · rw [if_neg hd]
    obtain ⟨-, hfits⟩ := put_eq h data
      ((List.length_take_le _ _).trans (min_le_right _ _))
    refine ⟨_, rfl, hfits, ?_⟩
    have hpos := List.length_pos_iff.mpr hd
    have hle : data.length ≤ x.unread.length := List.length_take_le' _ _
    show (if x.closed then 0
        else 2 * (x.unread.drop data.length).length + (x.buf.len + data.length) + 1) <
      if x.closed then 0 else 2 * x.unread.length + x.buf.len + 1
    rw [if_neg hc, if_neg hc, List.length_drop]
    omega

/-- **A session ends,** whatever the pieces in which its bytes arrive. -/
theorem session_ends {x : System} (h : x.buf.Fits) {ns : List ℕ} (hns : ∀ n ∈ ns, n ≠ 0)
    (hlen : x.turns ≤ ns.length) :
    ∃ x', run step x (ns.map Event.turn) = some x' ∧ x'.closed := by
  induction ns generalizing x with
  | nil =>
    refine ⟨x, rfl, ?_⟩
    by_contra hc
    rw [System.turns, if_neg hc] at hlen
    exact Nat.not_succ_le_zero _ hlen
  | cons n ns ih =>
    rw [List.map_cons, run_cons]
    by_cases hc : x.closed = true
    · have hstep : step x (.turn n) = some x := if_pos hc
      rw [hstep, Option.bind_some]
      refine ih h (fun n' hn' => hns n' (List.mem_cons_of_mem n hn')) ?_
      rw [System.turns, if_pos hc]
      exact Nat.zero_le _
    · obtain ⟨x', hstep, hfits, hlt⟩ := turns_lt h (hns n List.mem_cons_self) hc
      rw [show step x (.turn n) = some x' from hstep, Option.bind_some]
      rw [List.length_cons] at hlen
      exact ih hfits (fun n' hn' => hns n' (List.mem_cons_of_mem n hn')) (by omega)

/-! ## All sessions -/

/-- **Line framing:** in every run of sessions that meets the condition, the lines that `recv_line`
returns in a session are those of its stream, in order, and all of them when it reports the end; and
it does report the end, once `recv` has yielded something often enough. -/
theorem lines_framed (es : List Event) (hg : Guarded step Clear System.init es) :
    Always step Framed System.init es ∧
      ∀ x, run step System.init es = some x → ∀ ns : List ℕ, (∀ n ∈ ns, n ≠ 0) →
        x.turns ≤ ns.length → ∃ x', run step x (ns.map Event.turn) = some x' ∧ x'.closed := by
  refine ⟨?_, fun x hx ns hns hlen => ?_⟩
  · exact always_of_guarded (I := Inv) (E := fun _ => True) (fun _ h => h.framed)
      (fun _ _ h _ hg => inv_step h hg) inv_init (fun _ _ => trivial) hg
  · have hinv : Inv x := of_run (G := Clear) (fun s e s' hs hg hstep => by
      obtain ⟨t, ht, hI⟩ := inv_step hs hg
      rw [hstep] at ht
      cases ht
      exact hI) inv_init hg hx
    exact session_ends hinv.fits hns hlen

/-- Two lines in three pieces, then another session. -/
theorem lines_framed_two :
    Always step Framed System.init
        [.session [97, 10, 98, 10], .turn 1, .turn 2, .turn 5, .turn 5, .turn 1, .turn 1,
          .session [99, 10], .turn 9, .turn 9, .turn 9] ∧
      ∀ x, run step System.init
          [.session [97, 10, 98, 10], .turn 1, .turn 2, .turn 5, .turn 5, .turn 1, .turn 1,
            .session [99, 10], .turn 9, .turn 9, .turn 9] = some x →
        ∀ ns : List ℕ, (∀ n ∈ ns, n ≠ 0) → x.turns ≤ ns.length →
          ∃ x', run step x (ns.map Event.turn) = some x' ∧ x'.closed :=
  lines_framed _ (by decide +kernel)

/-- A session sends `ab` and closes; the next one sends the line `c`, and gets the line `abc`. -/
def leftover : List Event :=
  [.session [97, 98], .turn 2, .turn 1, .session [99, 10], .turn 2, .turn 1]

theorem not_framed_leftover :
    ∃ x, run step System.init leftover = some x ∧ x.stream = [99, 10] ∧
      x.got = [[97, 98, 99, 10]] ∧ ¬ Framed x := by
  have h : (run step System.init leftover).map
      (fun x => (x.stream, x.got, decide (Framed x))) =
        some ([99, 10], [[97, 98, 99, 10]], false) := by
    decide +kernel
  obtain ⟨x, hx, hobs⟩ := Option.map_eq_some_iff.mp h
  rw [Prod.mk.injEq, Prod.mk.injEq] at hobs
  exact ⟨x, hx, hobs.1, hobs.2.1, of_decide_eq_false hobs.2.2⟩

end GSConferencing.Serv.Manage
