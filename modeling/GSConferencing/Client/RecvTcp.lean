import GSConferencing.Include.Encode
import GSConferencing.Lib.Run

/-!
# Command connections of a client

`run_recv_tcp` and `recv_all` of `net.c`, `handle_cmd` and `handle_file` of `client.c`.  Connections
are served one after the other.  `handle_cmd` is called with what a connection has sent, if it has
sent anything, and with socket 0 when it closes; it takes socket 0 for a close only while it knows
of a connection, and else for a connection that has opened.

* `recvAll_eq`: what is received of a connection.
* `step_handled`, `step_unhandled`: what a connection does to the calls of `__handle_cmd`.
* `handled_iff`: the connections that are handled as they are to be.
* `silent_connection`: a connection that sends nothing.
-/

namespace GSConferencing.Client.RecvTcp

open GSConferencing.Include.Pack GSConferencing.Include.Encode GSConferencing.Lib.Run

/-! ## Receiving -/

/-- `BUFLEN`. -/
def buflen : ℕ := 10240

/-- `recv_all` into a buffer of `size` bytes, of which `buf` have come; the remote sends the pieces
and closes the connection. -/
def recvAll (size : ℕ) (buf : List Byte) : List (List Byte) → List Byte
  | [] => buf
  | p :: ps =>
    let buf := buf ++ p.take (size - buf.length)
    if size ≤ buf.length then buf else recvAll size buf ps

/-- A connection from one of the two ports. -/
structure Conn where
  isfile : Bool
  sock : ℤ
  pieces : List (List Byte)

/-- What a connection sends. -/
def Conn.bytes (c : Conn) : List Byte := c.pieces.flatten

/-! ## The callback -/

inductive TcpType where
  | cmd
  | file
  | audio

/-- `contex.sock`, the data of `transfile`, and the calls of `__handle_cmd` with their buffers, of
the handler of `EVENT_FILE` and of `udp_recved`.  `contex.job` is never set. -/
structure Handler where
  sock : ℤ
  transfile : List Byte
  calls : List (Option (List Byte))
  files : List (List Byte)
  audio : List (Option (List Byte))

/-- `sizeof(transfile.data)`. -/
def transfileMax : ℕ := 1024 * 100

/-- `handle_file`. -/
def handleFile (s : Handler) (sock : ℤ) (buf : List Byte) : Handler :=
  if sock ≠ 0 then
    if transfileMax ≤ s.transfile.length + buf.length then s
    else { s with transfile := s.transfile ++ buf }
  else { s with files := s.files ++ [s.transfile], transfile := [] }

/-- `__handle_cmd` is called. -/
def Handler.call (s : Handler) (buf : Option (List Byte)) : Handler :=
  { s with calls := s.calls ++ [buf] }

/-- `handle_cmd`; `buf` is `none` for `NULL`. -/
def handleCmd (s : Handler) (sock : ℤ) (type : TcpType) (buf : Option (List Byte)) : Handler :=
  match type with
  | .audio => { s with audio := s.audio ++ [buf] }
  | .file => handleFile s sock (buf.getD [])
  | .cmd =>
    -- a new connection
    if s.sock = 0 then { s with sock := sock }.call buf
    else if s.sock = sock then s
    -- the connection is closing
    else if sock = 0 then { s with sock := 0 }
    else s.call buf

/-- The turn of the loop of `run_recv_tcp` for a connection. -/
def runRecvTcp (s : Handler) (c : Conn) : Handler :=
  let type := if c.isfile then TcpType.file else .cmd
  let l := recvAll buflen [] c.pieces
  let s := if l ≠ [] then handleCmd s c.sock type (some (if c.isfile then l else decode l)) else s
  handleCmd s 0 type none

/-- The client, and the connections it has had. -/
structure System where
  client : Handler
  conns : List Conn

def init : System := ⟨⟨0, [], [], [], []⟩, []⟩

def step (x : System) (c : Conn) : Option System :=
  some ⟨runRecvTcp x.client c, x.conns ++ [c]⟩

/-! ## What is handled -/

/-- A command connection that has sent data. -/
def Conn.Commands (c : Conn) : Prop := c.isfile = false ∧ c.bytes ≠ []

instance (c : Conn) : Decidable c.Commands := inferInstanceAs (Decidable (_ ∧ _))

/-- The calls of `__handle_cmd` that are due. -/
def due (cs : List Conn) : List (Option (List Byte)) :=
  (cs.filter fun c => c.Commands).map fun c => some (decode c.bytes)

/-- All calls were due, none is missing, none has `NULL`, and no connection is known. -/
structure Handled (x : System) : Prop where
  calls : x.client.calls = due x.conns
  notNull : none ∉ x.client.calls
  closed : x.client.sock = 0

/-- A command connection sends something that fits into the buffer, and its socket is not 0. -/
def Proper (c : Conn) : Prop :=
  c.isfile = false → c.sock ≠ 0 ∧ c.bytes ≠ [] ∧ c.bytes.length ≤ buflen

section Steps
variable {x x' : System} {c : Conn} {size : ℕ} {buf : List Byte}

/-- **What is received:** as much as there is room for. -/
theorem recvAll_eq (h : buf.length < size) (ps : List (List Byte)) :
    recvAll size buf ps = (buf ++ ps.flatten).take size := by
  induction ps generalizing buf with
  | nil => rw [recvAll, List.flatten_nil, List.append_nil, List.take_of_length_le h.le]
  | cons p ps ih =>
    have hcut : (buf ++ (p :: ps).flatten).take size =
        ((buf ++ p.take (size - buf.length)) ++ (p.drop (size - buf.length) ++ ps.flatten)).take
          size := by
      rw [List.flatten_cons, List.append_assoc, ← List.append_assoc (p.take _),
        List.take_append_drop]
    rw [hcut, recvAll]
    by_cases hfull : size ≤ (buf ++ p.take (size - buf.length)).length
    · have hle : (buf ++ p.take (size - buf.length)).length ≤ size := by
        rw [List.length_append, List.length_take]
        omega
      rw [if_pos hfull, List.take_append_of_le_length hfull, List.take_of_length_le hle]
    · have hall : p.length ≤ size - buf.length := by
        rw [List.length_append, List.length_take] at hfull
        omega
      rw [if_neg hfull, ih (Nat.not_le.mp hfull), List.drop_eq_nil_of_le hall, List.nil_append]

theorem recvAll_bytes (c : Conn) : recvAll buflen [] c.pieces = c.bytes.take buflen := by
  rw [recvAll_eq (by decide), List.nil_append]
  rfl

theorem due_append (cs : List Conn) (c : Conn) :
    due (cs ++ [c]) = due cs ++ if c.Commands then [some (decode c.bytes)] else [] := by
  unfold due
  rw [List.filter_append, List.map_append, List.filter_singleton]
  by_cases hc : c.Commands
  · rw [if_pos hc, decide_eq_true hc]
    rfl
  · rw [if_neg hc, decide_eq_false hc]
    rfl

theorem due_notNull (cs : List Conn) : none ∉ due cs := fun h => by
  obtain ⟨c, -, hc⟩ := List.mem_map.mp h
  cases hc

theorem length_decode (l : List Byte) : (decode l).length = l.length - 1 := by
  cases l with
  | nil => rfl
  | cons salt data => exact length_xorLoop _ 0 data

/-- A file connection is not handled as a command. -/
theorem runRecvTcp_file (s : Handler) (h : c.isfile = true) :
    (runRecvTcp s c).calls = s.calls ∧ (runRecvTcp s c).sock = s.sock := by
  have hfile : ∀ (s : Handler) (sock : ℤ) (b : Option (List Byte)),
      (handleCmd s sock .file b).calls = s.calls ∧ (handleCmd s sock .file b).sock = s.sock := by
    intro s sock b
    show (handleFile s sock (b.getD [])).calls = _ ∧ (handleFile s sock (b.getD [])).sock = _
    unfold handleFile
    split_ifs <;> exact ⟨rfl, rfl⟩
  unfold runRecvTcp
  simp only [h, if_true]
  rw [(hfile _ _ _).1, (hfile _ _ _).2]
  split_ifs
  · exact hfile _ _ _
  · exact ⟨rfl, rfl⟩

/-- **A command connection** is handled, and closed again, if its socket is not 0. -/
theorem runRecvTcp_cmd {s : Handler} (hs : s.sock = 0) (h : c.isfile = false)
    (hsent : c.bytes ≠ []) (hsock : c.sock ≠ 0) :
    (runRecvTcp s c).calls = s.calls ++ [some (decode (c.bytes.take buflen))] ∧
      (runRecvTcp s c).sock = 0 := by
  have hne : c.bytes.take buflen ≠ [] := fun e => by
    rcases List.take_eq_nil_iff.mp e with e | e
    · cases e
    · exact hsent e
  unfold runRecvTcp
  simp only [recvAll_bytes, h, Bool.false_eq_true, if_false, if_pos hne, handleCmd, if_pos hs,
    Handler.call, if_neg hsock, if_true, and_self]

/-- **Without data, or with socket 0,** the close is taken for a connection that has opened. -/
theorem runRecvTcp_null {s : Handler} (hs : s.sock = 0) (h : c.isfile = false)
    (hbad : c.bytes = [] ∨ c.sock = 0) : none ∈ (runRecvTcp s c).calls := by
  have hopen : ∀ s : Handler, s.sock = 0 → none ∈ (handleCmd s 0 .cmd none).calls := by
    intro s hs
    rw [handleCmd, if_pos hs]
    exact List.mem_append_right _ List.mem_cons_self
  unfold runRecvTcp
  simp only [recvAll_bytes, h, Bool.false_eq_true, if_false]
  refine hopen _ ?_
  split_ifs with hne
  · rcases hbad with hbad | hbad
    · exact absurd (by rw [hbad, List.take_nil]) hne
    · rw [handleCmd, if_pos hs]
      exact hbad
  · exact hs

theorem step_handled (h : Handled x) (hc : Proper c) :
    ∃ x', step x c = some x' ∧ Handled x' := by
  have hnext : ∀ x' : System, x'.client.calls = due x'.conns → x'.client.sock = 0 → Handled x' :=
    fun x' hcalls hsock => ⟨hcalls, hcalls ▸ due_notNull _, hsock⟩
  refine ⟨_, rfl, hnext _ ?_ ?_⟩
  · show (runRecvTcp x.client c).calls = due (x.conns ++ [c])
    rw [due_append, ← h.calls]
    cases hf : c.isfile with
    | true =>
      rw [(runRecvTcp_file _ hf).1, if_neg fun hn => Bool.false_ne_true (hn.1.symm.trans hf),
        List.append_nil]
    | false =>
      obtain ⟨hsock, hne, hlen⟩ := hc hf
      rw [(runRecvTcp_cmd h.closed hf hne hsock).1, if_pos ⟨hf, hne⟩, List.take_of_length_le hlen]
  · show (runRecvTcp x.client c).sock = 0
    cases hf : c.isfile with
    | true => rw [(runRecvTcp_file _ hf).2, h.closed]
    | false => exact (runRecvTcp_cmd h.closed hf (hc hf).2.1 (hc hf).1).2

theorem step_unhandled (h : Handled x) (hc : ¬ Proper c) (hs : step x c = some x') :
    ¬ Handled x' := by
  cases hs
  intro h'
  unfold Proper at hc
  push Not at hc
  obtain ⟨hf, hc⟩ := hc
  by_cases hbad : c.bytes = [] ∨ c.sock = 0
  · exact h'.notNull (runRecvTcp_null h.closed hf hbad)
  push Not at hbad
  have hlen : buflen < c.bytes.length := hc hbad.2 hbad.1
  have hcalls : (runRecvTcp x.client c).calls = due (x.conns ++ [c]) := h'.calls
  rw [(runRecvTcp_cmd h.closed hf hbad.1 hbad.2).1, due_append, if_pos ⟨hf, hbad.1⟩, ← h.calls,
    List.append_cancel_left_eq, List.singleton_inj, Option.some.injEq] at hcalls
  have hcut := congrArg List.length hcalls
  rw [length_decode, length_decode, List.length_take_of_le hlen.le] at hcut
  have hpos : 0 < buflen := by decide
  omega

end Steps

/-- **Every command connection is handled** along a sequence of connections exactly if each of them
is proper. -/
theorem handled_iff (cs : List Conn) : Always step Handled init cs ↔ ∀ c ∈ cs, Proper c :=
  (always_iff_guarded (I := Handled) (E := fun _ => True) (G := fun _ c => Proper c)
    (fun _ h => h) (fun _ _ h _ hc => step_handled h hc)
    (fun _ _ _ h _ hc hs => step_unhandled h hc hs) ⟨rfl, List.not_mem_nil, rfl⟩
    fun _ _ => trivial).trans (guarded_iff_forall fun _ _ => ⟨_, rfl⟩)

/-- **A connection that sends nothing:** `__handle_cmd` is called with `NULL`. -/
theorem silent_connection : ¬ Always step Handled init [⟨false, 5, []⟩] := by
  rintro ⟨-, x, hx, h⟩
  cases hx
  exact h.notNull (by decide)

end GSConferencing.Client.RecvTcp
