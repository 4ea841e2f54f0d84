import GSConferencing.Lib.Blocks
import GSConferencing.Serv.Buffers

/-!
# The blocks of an audio connection

`run_recv_audio` of `network.c` with its packet: `memcpy` by `memcpy`, and `pack_recv` by
`pack_recv`.  What `pack_recv` answers, what `pack_get_new` returns and what others do to the memory
is given from outside.

* `turn_inv`: one turn of the inner loop, for the bytes that it takes from `buf`.
* `rechunked`: whatever `recv` returns, `pack_recv` gets the blocks of the stream.
* `turn_conn`: a turn does to the block what `Buffers.repack` does.
-/

namespace GSConferencing.Serv.RecvAudio

open GSConferencing.Include.Pack GSConferencing.Lib.Blocks GSConferencing.Lib.Memory
open GSConferencing.Serv.Buffers GSConferencing.Serv.CmdHandler GSConferencing.Serv.Mixing

variable {P : Type*}

/-! ## The function -/

/-- What the thread does to packets. -/
inductive Effect (P : Type*) where
  /-- `pack_get_new` returns a packet. -/
  | get (pack : P)
  /-- `memcpy(pack->data+pos, .., l)`. -/
  | copy (pack : P) (pos l : ℕ)
  /-- `pack_recv(pack)`, for the `len` and the data of the packet; it is kept or consumed. -/
  | recv (pack : P) (len : ℕ) (data : List Byte) (kept : Bool)

/-- What comes of a call of `pack_recv`: its result, the memory afterwards, and the packet that
`pack_get_new` returns if the old one was consumed. -/
structure Answer (P : Type*) where
  kept : Bool
  mem : P → ℕ → Byte
  next : P

/-- What `recv` returns, and what others do to their packets up to then. -/
structure Piece (P : Type*) where
  bytes : List Byte
  pos : 0 < bytes.length
  le : bytes.length ≤ cmdMax
  others : P → ℕ → Byte

/-- The variables of `run_recv_audio`, with the data of all packets and what has been done. -/
structure Locals (P : Type*) where
  pack : P
  pklen : ℕ
  pkrem : ℕ
  mem : P → ℕ → Byte
  trace : List (Effect P)

/-- The calls of `pack_recv`, with the length and the data of their packets. -/
def calls : List (Effect P) → List (ℕ × List Byte)
  | [] => []
  | .recv _ len data _ :: es => (len, data) :: calls es
  | _ :: es => calls es

namespace Locals

/-- Up to the first `select`. -/
def start (pack : P) (mem : P → ℕ → Byte) : Locals P := ⟨pack, 0, pksize, mem, [.get pack]⟩

variable (answer : ℕ → Answer P) (s : Locals P)

/-- The packet is complete: `pack_recv`, and `pack_get_new` if need be. -/
def complete : Locals P :=
  let a := answer (calls s.trace).length
  let trace := s.trace ++ [.recv s.pack s.pklen (front (s.mem s.pack) s.pklen) a.kept]
  if a.kept then { pack := s.pack, pklen := 0, pkrem := pksize, mem := a.mem, trace := trace }
  else
    { pack := a.next, pklen := 0, pkrem := pksize, mem := a.mem, trace := trace ++ [.get a.next] }

variable [DecidableEq P]

/-- The copy of the next piece, and the counters behind it. -/
def copy (src : List Byte) : Locals P :=
  { s with
    mem := Function.update s.mem s.pack (store (s.mem s.pack) s.pklen src)
    pklen := s.pklen + src.length
    pkrem := s.pkrem - src.length
    trace := s.trace ++ [.copy s.pack s.pklen src.length] }

/-- A turn of the inner loop; `buf` is what is left of the piece. -/
def turn (buf : List Byte) : Locals P × List Byte :=
  let l := min buf.length s.pkrem
  let s' := s.copy (buf.take l)
  (if s'.pklen = pksize then s'.complete answer else s', buf.drop l)

end Locals

section Thread
variable [DecidableEq P] (answer : ℕ → Answer P)

/-- The inner loop. -/
def repackLoop : ℕ → Locals P → List Byte → Option (Locals P)
  | _, s, [] => some s
  | 0, _, _ :: _ => none
  | fuel + 1, s, b :: bs =>
    let r := s.turn answer (b :: bs)
    repackLoop fuel r.1 r.2

/-- A turn of the outer loop: others have left the packet of this thread alone. -/
def recvPiece (s : Locals P) (p : Piece P) : Option (Locals P) :=
  let mem := Function.update p.others s.pack (s.mem s.pack)
  repackLoop answer p.bytes.length { s with mem := mem } p.bytes

/-- `run_recv_audio`, up to the end of the connection. -/
def runRecvAudio (pack : P) (mem : P → ℕ → Byte) (pieces : List (Piece P)) : Option (Locals P) :=
  pieces.foldlM (recvPiece answer) (.start pack mem)

end Thread

/-- The bytes of the stream. -/
def stream (pieces : List (Piece P)) : List Byte := pieces.flatMap Piece.bytes

/-! ## What is asked of it -/

/-- Whether `p` is held after a step. -/
def holds (p : P) (held : Prop) : Effect P → Prop
  | .get q => held ∨ p = q
  | .copy _ _ _ => held
  | .recv q _ _ kept => held ∧ (p = q → kept = true)

/-- The packet was got, and has not been consumed since. -/
def Held (p : P) (done : List (Effect P)) : Prop := done.foldl (holds p) False

/-- A step of the thread that is all right after the steps `done`. -/
def Allowed (done : List (Effect P)) : Effect P → Prop
  | .get _ => True
  | .copy p pos l => Held p done ∧ pos + l ≤ pksize
  | .recv p _ _ _ => Held p done

/-- `pack_recv` was called for the blocks of the stream, what is left is held back, and packets were
touched only while they were held. -/
structure Rechunked (s : Locals P) (stream : List Byte) : Prop where
  calls : calls s.trace = (blocks pksize stream).map fun b => (pksize, b)
  rest : front (s.mem s.pack) s.pklen = rest pksize stream
  allowed : ∀ done e later, s.trace = done ++ e :: later → Allowed done e

/-! ## One turn -/

theorem pksize_pos : 0 < pksize := by decide

theorem calls_append (es es' : List (Effect P)) : calls (es ++ es') = calls es ++ calls es' := by
  induction es with
  | nil => rfl
  | cons e es ih => cases e <;> simp only [List.cons_append, calls, ih]

variable {p : P}

theorem held_append (done : List (Effect P)) (e : Effect P) :
    Held p (done ++ [e]) ↔ holds p (Held p done) e := by
  rw [Held, List.foldl_append]
  rfl

theorem held_get (done : List (Effect P)) : Held p (done ++ [.get p]) :=
  (held_append done _).mpr (Or.inr rfl)

theorem held_copy {done : List (Effect P)} {q : P} {pos n : ℕ} (h : Held p done) :
    Held p (done ++ [.copy q pos n]) :=
  (held_append done _).mpr h

theorem held_recv {done : List (Effect P)} {q : P} {n : ℕ} {data : List Byte} (h : Held p done) :
    Held p (done ++ [.recv q n data true]) :=
  (held_append done _).mpr ⟨h, fun _ => rfl⟩

/-- One more step that is all right. -/
theorem allowed_append {trace : List (Effect P)} {e : Effect P}
    (h : ∀ done e later, trace = done ++ e :: later → Allowed done e) (he : Allowed trace e) :
    ∀ done e' later, trace ++ [e] = done ++ e' :: later → Allowed done e' := by
  intro done e' later heq
  rcases List.eq_nil_or_concat later with rfl | ⟨later, x, rfl⟩
  · obtain ⟨rfl, rfl⟩ := List.append_singleton_inj.mp heq
    exact he
  · rw [List.concat_eq_append, ← List.cons_append, ← List.append_assoc] at heq
    exact h done e' later (List.append_singleton_inj.mp heq).1

/-- The first packet is there to begin with. -/
theorem allowed_get (p : P) (done : List (Effect P)) (e : Effect P) (later : List (Effect P))
    (h : [.get p] = done ++ e :: later) : Allowed done e := by
  have hnil : ∀ done e later, ([] : List (Effect P)) = done ++ e :: later → Allowed done e :=
    fun _ _ _ h => absurd h.symm (List.append_ne_nil_of_right_ne_nil _ nofun)
  exact allowed_append hnil (e := .get p) trivial done e later h

theorem calls_complete (answer : ℕ → Answer P) (s : Locals P) :
    calls (s.complete answer).trace =
      calls s.trace ++ [(s.pklen, front (s.mem s.pack) s.pklen)] := by
  unfold Locals.complete
  dsimp only
  split_ifs
  · rw [calls_append]
    rfl
  · rw [calls_append, calls_append, List.append_assoc]
    rfl

/-- Between two turns the counters add up and the packet is held and not complete. -/
structure Inv (s : Locals P) (l : List Byte) : Prop where
  done : Rechunked s l
  sum : s.pklen + s.pkrem = pksize
  room : 0 < s.pkrem
  held : Held s.pack s.trace

theorem inv_start (pack : P) (mem : P → ℕ → Byte) : Inv (.start pack mem) [] where
  done := {
    calls := rfl
    rest := rfl
    allowed := allowed_get pack }
  sum := rfl
  room := pksize_pos
  held := held_get []

section Steps
variable [DecidableEq P] {answer : ℕ → Answer P} {s : Locals P} {l : List Byte}

/-- What the packet has after a copy. -/
theorem front_copy (s : Locals P) (src : List Byte) :
    front ((s.copy src).mem s.pack) (s.copy src).pklen = front (s.mem s.pack) s.pklen ++ src := by
  rw [← front_store]
  unfold Locals.copy
  dsimp only
  rw [Function.update_self]

theorem calls_copy (s : Locals P) (src : List Byte) :
    calls (s.copy src).trace = calls s.trace := by
  unfold Locals.copy
  rw [calls_append]
  exact List.append_nil _

/-- Others write to their own packets. -/
theorem Inv.others (h : Inv s l) (others : P → ℕ → Byte) :
    Inv { s with mem := Function.update others s.pack (s.mem s.pack) } l where
  done := {
    calls := h.done.calls
    rest := by
      dsimp only
      rw [Function.update_self]
      exact h.done.rest
    allowed := h.done.allowed }
  sum := h.sum
  room := h.room
  held := h.held

/-- The copy of a piece that has room. -/
theorem allowed_copy (h : Inv s l) {src : List Byte} (hsrc : src.length ≤ s.pkrem) :
    ∀ done e later, (s.copy src).trace = done ++ e :: later → Allowed done e := by
  have hsum := h.sum
  exact allowed_append h.done.allowed ⟨h.held, by omega⟩

/-- A piece that does not complete the packet. -/
theorem Inv.copy (h : Inv s l) {src : List Byte} (hsrc : src.length < s.pkrem) :
    Inv (s.copy src) (l ++ src) := by
  have hsum := h.sum
  have hfront := front_copy s src
  rw [h.done.rest] at hfront
  have hlen : (rest pksize l ++ src).length < pksize := by
    rw [← hfront, length_front]
    show s.pklen + src.length < pksize
    omega
  obtain ⟨hblocks, hrest⟩ := blocks_short pksize_pos hlen
  refine ⟨⟨?_, ?_, allowed_copy h hsrc.le⟩, ?_, ?_, held_copy h.held⟩
  · rw [calls_copy, hblocks]
    exact h.done.calls
  · rw [hrest]
    exact hfront
  · show s.pklen + src.length + (s.pkrem - src.length) = pksize
    omega
  · show 0 < s.pkrem - src.length
    omega

/-- **The piece completes the packet,** which goes to `pack_recv`. -/
theorem Inv.complete (h : Inv s l) {src : List Byte} (hsrc : src.length = s.pkrem) :
    Inv ((s.copy src).complete answer) (l ++ src) := by
  have hsum := h.sum
  have hfull : (s.copy src).pklen = pksize := by
    show s.pklen + src.length = pksize
    omega
  have hfront := front_copy s src
  rw [h.done.rest] at hfront
  have hlen : (rest pksize l ++ src).length = pksize := by rw [← hfront, length_front, hfull]
  obtain ⟨hblocks, hrest⟩ := blocks_fill pksize_pos hlen
  have hcalls : calls ((s.copy src).complete answer).trace =
      (blocks pksize (l ++ src)).map fun b => (pksize, b) := by
    rw [calls_complete, calls_copy, h.done.calls, hblocks, List.map_append, ← hfront]
    show _ ++ [((s.copy src).pklen, front ((s.copy src).mem s.pack) (s.copy src).pklen)] = _
    rw [hfull]
    rfl
  have hheld : Held s.pack (s.copy src).trace := held_copy h.held
  have hallowed := allowed_copy h hsrc.le
  revert hcalls
  unfold Locals.complete
  dsimp only
  by_cases hkept : (answer (calls (s.copy src).trace).length).kept = true
  · rw [if_pos hkept]
    intro hcalls
    refine ⟨⟨hcalls, by rw [hrest]; rfl, allowed_append hallowed hheld⟩, rfl, pksize_pos, ?_⟩
    rw [hkept]
    exact held_recv hheld
  · rw [if_neg hkept]
    intro hcalls
    refine ⟨⟨hcalls, by rw [hrest]; rfl, ?_⟩, rfl, pksize_pos, held_get _⟩
    exact allowed_append (allowed_append hallowed hheld) trivial

/-- **One turn** of the inner loop, for the bytes it takes. -/
theorem turn_inv (h : Inv s l) (buf : List Byte) :
    Inv (s.turn answer buf).1 (l ++ buf.take (min buf.length s.pkrem)) := by
  have hsum := h.sum
  have htake : (buf.take (min buf.length s.pkrem)).length = min buf.length s.pkrem :=
    List.length_take_of_le (min_le_left _ _)
  unfold Locals.turn
  dsimp only
  split_ifs with hfull
  · replace hfull : s.pklen + (buf.take (min buf.length s.pkrem)).length = pksize := hfull
    exact h.complete (by omega)
  · replace hfull : ¬ s.pklen + (buf.take (min buf.length s.pkrem)).length = pksize := hfull
    have hle := min_le_right buf.length s.pkrem
    exact h.copy (by omega)

/-! ## The loops -/

theorem repackLoop_spec {fuel : ℕ} {buf : List Byte} (h : Inv s l) (hfuel : buf.length ≤ fuel) :
    ∃ t, repackLoop answer fuel s buf = some t ∧ Inv t (l ++ buf) := by
  induction fuel generalizing s l buf with
  | zero =>
    obtain rfl := List.eq_nil_of_length_eq_zero (Nat.le_zero.mp hfuel)
    exact ⟨s, rfl, by rwa [List.append_nil]⟩
  | succ fuel ih =>
    cases buf with
    | nil => exact ⟨s, rfl, by rwa [List.append_nil]⟩
    | cons b bs =>
      have hroom := h.room
      have hdrop : (s.turn answer (b :: bs)).2.length ≤ fuel := by
        show ((b :: bs).drop (min (b :: bs).length s.pkrem)).length ≤ fuel
        rw [List.length_drop]
        rw [List.length_cons] at hfuel ⊢
        omega
      obtain ⟨t, ht, hI⟩ := ih (turn_inv h (b :: bs)) hdrop
      refine ⟨t, ht, ?_⟩
      rwa [List.append_assoc, show (s.turn answer (b :: bs)).2 =
        (b :: bs).drop (min (b :: bs).length s.pkrem) from rfl, List.take_append_drop] at hI

theorem recvPiece_spec (answer : ℕ → Answer P) (h : Inv s l) (p : Piece P) :
    ∃ t, recvPiece answer s p = some t ∧ Inv t (l ++ p.bytes) :=
  repackLoop_spec (h.others p.others) le_rfl

theorem run_spec (answer : ℕ → Answer P) (h : Inv s l) (pieces : List (Piece P)) :
    ∃ t, pieces.foldlM (recvPiece answer) s = some t ∧ Inv t (l ++ stream pieces) := by
  induction pieces generalizing s l with
  | nil => exact ⟨s, rfl, by rwa [stream, List.flatMap_nil, List.append_nil]⟩
  | cons p pieces ih =>
    obtain ⟨u, hu, hI⟩ := recvPiece_spec answer h p
    obtain ⟨t, ht, hJ⟩ := ih hI
    refine ⟨t, ?_, by rwa [stream, List.flatMap_cons, ← List.append_assoc]⟩
    rw [List.foldlM_cons, hu]
    exact ht

/-! ## The block of `Buffers` -/

/-- The connection between two turns. -/
def conn {k : ℕ} (s : Locals (Packet.Buf k)) (buf : List Byte) : Conn k where
  pack := some s.pack
  block := front (s.mem s.pack) s.pklen
  rest := buf

/-- **A turn** fills the block, and gives it to `pack_recv` when it is full. -/
theorem turn_conn {k : ℕ} {answer : ℕ → Answer (Packet.Buf k)} {s : Locals (Packet.Buf k)}
    (hsum : s.pklen + s.pkrem = pksize) (buf : List Byte) :
    let C := conn s buf
    let r := s.turn answer buf
    let full := (filled C).length = pksize
    (conn r.1 r.2).rest = behind C ∧
      (conn r.1 r.2).block = (if full then [] else filled C) ∧
      calls r.1.trace = calls s.trace ++ if full then [(pksize, filled C)] else [] := by
  have hpiece : pieceLen (conn s buf) = min buf.length s.pkrem := by
    show min buf.length (pksize - (front (s.mem s.pack) s.pklen).length) = _
    rw [length_front, ← hsum, Nat.add_sub_cancel_left]
  have hfilled : filled (conn s buf) = front
      ((s.copy (buf.take (min buf.length s.pkrem))).mem s.pack)
      (s.copy (buf.take (min buf.length s.pkrem))).pklen := by
    rw [front_copy, filled, hpiece]
    rfl
  refine ⟨?_, ?_⟩
  · show buf.drop _ = buf.drop _
    rw [hpiece]
  · rw [hfilled, length_front]
    unfold Locals.turn
    dsimp only
    split_ifs with hfull
    · rw [calls_complete, calls_copy, hfull]
      refine ⟨?_, rfl⟩
      unfold conn Locals.complete
      dsimp only
      split <;> rfl
    · rw [calls_copy, List.append_nil]
      exact ⟨rfl, rfl⟩

end Steps

/-- **However the stream is cut** and whatever `pack_recv` answers, `run_recv_audio` gives the
blocks of the stream to `pack_recv`. -/
theorem rechunked [DecidableEq P] (answer : ℕ → Answer P) (pack : P) (mem : P → ℕ → Byte)
    (pieces : List (Piece P)) :
    ∃ s, runRecvAudio answer pack mem pieces = some s ∧ Rechunked s (stream pieces) := by
  obtain ⟨s, hs, hI⟩ := run_spec answer (inv_start pack mem) pieces
  exact ⟨s, hs, hI.done⟩

end GSConferencing.Serv.RecvAudio
