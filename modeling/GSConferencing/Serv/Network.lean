import Mathlib
import GSConferencing.Include.Encode
import GSConferencing.Serv.CmdHandler

/-!
# Commands over TCP

`network.c`: a thread takes a connection, receives a command, answers it and closes the connection.
The stream may give the bytes of a command in pieces, one to each `recv`.

* `split_iff`: the command that was sent is handled exactly when the first `recv` yields all of it.
-/

namespace GSConferencing.Serv.Network

open GSConferencing.Include.Pack GSConferencing.Include.Encode
open GSConferencing.Serv.CmdHandler (cmdMax)

/-- `recv(sock, tmp, len)`, when the stream has `avail` for it. -/
def recv (avail : List Byte) (len : ℕ) : List Byte := avail.take len

/-- `do_recv(sock, buf, len)`: what it leaves in `buf`; `recv` yields nothing at the end of the
stream. -/
def doRecv (avail : List Byte) (len : ℕ) : List Byte :=
  let tmp := recv avail len
  if tmp.length ≤ 0 then [] else decode tmp

/-- `run_proceed_connection`, for one connection: the strings that are handled as commands; the
buffer has `CMD_MAX` bytes.  `pieces` are what the stream has for the successive calls of `recv`.
The body of the loop ends with `break` on every path, so that there is no second turn. -/
def runProceedConnection (pieces : List (List Byte)) : List (List Byte) :=
  let buf := doRecv (pieces.headD []) cmdMax
  if 0 < buf.length then [buf] else []

/-- The stream gives `msg` in these pieces. -/
def Splits (msg : List Byte) (pieces : List (List Byte)) : Prop :=
  pieces.flatten = msg ∧ ∀ p ∈ pieces, p ≠ []

/-- Only the first piece counts. -/
theorem runProceedConnection_first {salt : Byte} {data : List Byte} {n : ℕ} {p : List Byte}
    (hp : p = (encode salt data).take (n + 1)) (hn : n + 1 ≤ cmdMax) (ps : List (List Byte)) :
    runProceedConnection (p :: ps) = if data.take n = [] then [] else [data.take n] := by
  have hrecv : recv p cmdMax = p := by
    refine List.take_of_length_le ?_
    rw [hp]
    exact (List.length_take_le _ _).trans hn
  have hpos : ¬ p.length ≤ 0 := by
    rw [hp, List.length_take, length_encode]
    omega
  have hbuf : doRecv p cmdMax = data.take n := by
    rw [doRecv, hrecv, if_neg hpos, hp, decode_prefix]
  rw [runProceedConnection, List.headD_cons, hbuf]
  by_cases h : data.take n = []
  · rw [if_pos h, h]
    rfl
  · rw [if_neg h, if_pos (List.length_pos_iff.mpr h)]

/-- A command that arrives at once is handled. -/
theorem runProceedConnection_whole (salt : Byte) {data : List Byte} (h : data.length < cmdMax) :
    runProceedConnection [encode salt data] = if data = [] then [] else [data] := by
  have hall : encode salt data = (encode salt data).take (data.length + 1) := by
    rw [← length_encode salt, List.take_length]
  rw [runProceedConnection_first hall h, List.take_length]

/-- **Splitting a command:** it is handled as if it had arrived at once exactly when it does arrive
at once. -/
theorem split_iff (salt : Byte) (data : List Byte) (pieces : List (List Byte))
    (hlen : data.length ≤ cmdMax - 1) (hs : Splits (encode salt data) pieces) :
    runProceedConnection pieces = runProceedConnection [encode salt data] ↔
      pieces.head? = some (encode salt data) := by
  have hmax : 0 < cmdMax := by decide
  have hlt : data.length < cmdMax := by omega
  obtain ⟨hflat, hne⟩ := hs
  match pieces, hflat, hne with
  | [], hflat, _ => cases hflat
  | p :: ps, hflat, hne =>
    rw [List.head?_cons, Option.some.injEq]
    constructor
    · intro h
      obtain ⟨n, hn⟩ := Nat.exists_eq_add_one.mpr
        (List.length_pos_iff.mpr (hne p List.mem_cons_self))
      have hlen' : p.length ≤ data.length + 1 := by
        rw [← length_encode salt, ← hflat, List.flatten_cons, List.length_append]
        omega
      have hp : p = (encode salt data).take (n + 1) := by
        rw [← hflat, List.flatten_cons, ← hn, List.take_left]
      rw [runProceedConnection_first hp (by omega), runProceedConnection_whole salt hlt] at h
      have htake : data.take n = data := by
        by_cases hd : data = []
        · rw [hd, List.take_nil]
        by_cases ht : data.take n = []
        · rw [if_pos ht, if_neg hd] at h
          cases h
        · rw [if_neg ht, if_neg hd] at h
          exact (List.cons.inj h).1
      have : data.length ≤ n := by
        by_contra hlt
        have := congrArg List.length htake
        rw [List.length_take] at this
        omega
      rw [hp, List.take_of_length_le (by rw [length_encode]; omega)]
    · rintro rfl
      rfl

/-- A command in two pieces. -/
theorem split_iff_two :
    runProceedConnection [(encode 8 [49, 32, 50, 10]).take 3, (encode 8 [49, 32, 50, 10]).drop 3] =
        runProceedConnection [encode 8 [49, 32, 50, 10]] ↔
      [(encode 8 [49, 32, 50, 10]).take 3, (encode 8 [49, 32, 50, 10]).drop 3].head? =
        some (encode 8 [49, 32, 50, 10]) :=
  split_iff 8 [49, 32, 50, 10] _ (by decide) ⟨by decide, by decide⟩

/-- The command `1 reg` in two pieces: `1` alone is handled. -/
theorem split_cuts :
    Splits (encode 8 [49, 32, 114, 101, 103, 10])
      [(encode 8 [49, 32, 114, 101, 103, 10]).take 2,
        (encode 8 [49, 32, 114, 101, 103, 10]).drop 2] ∧
      runProceedConnection [(encode 8 [49, 32, 114, 101, 103, 10]).take 2,
        (encode 8 [49, 32, 114, 101, 103, 10]).drop 2] ≠
        runProceedConnection [encode 8 [49, 32, 114, 101, 103, 10]] :=
  ⟨⟨by decide, by decide⟩, by decide⟩

end GSConferencing.Serv.Network
