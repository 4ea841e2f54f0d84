import GSConferencing.Include.Pack
import GSConferencing.Lib.Blocks
import GSConferencing.Lib.Run

/-!
# Packets from the audio connection

`repack_audio` of `net.c` collects the bytes of the audio connection into packets of 524 bytes; the
receiving thread `__run_recv_audio` closes the connection when it ends and makes a new one.

* `repackAudio_spec`: one call cuts what is carried over and what has come into blocks.
* `framing_iff`: the packets are blocks of one connection each exactly when no packet is completed
  while the bytes carried over disagree with the bytes received on the connection.
-/

namespace GSConferencing.Client.NetAudio

open GSConferencing.Include.Pack (Byte)
open GSConferencing.Lib.Blocks GSConferencing.Lib.Pieces GSConferencing.Lib.Run

variable {β : Type*}

/-- `PKSIZE`. -/
def pksize : ℕ := 524

/-- The static variables of `repack_audio`: the first `pklen` bytes of `pack`, and `pkrem`. -/
structure PackBuf (β : Type*) where
  pack : List β
  pkrem : ℕ
  sum : pack.length + pkrem = pksize
  room : 0 < pkrem

namespace PackBuf

def empty : PackBuf β := ⟨[], pksize, Nat.zero_add _, by decide⟩

theorem length_lt (p : PackBuf β) : p.pack.length < pksize := by
  have := p.sum
  have := p.room
  omega

end PackBuf

/-- The loop of `repack_audio`, which hands its packets to `tcp_recved`. -/
def repackLoop : ℕ → PackBuf β → List β → List (List β) → Option (PackBuf β × List (List β))
  | _, p, [], out => some (p, out)
  | 0, _, _ :: _, _ => none
  | fuel + 1, p, b :: bs, out =>
    let buf := b :: bs
    let l := min buf.length p.pkrem
    let pack := p.pack ++ buf.take l
    if h : pack.length = pksize then repackLoop fuel .empty (buf.drop l) (out ++ [pack])
    else
      have hlen : pack.length = p.pack.length + l := by
        simp only [pack, List.length_append, List.length_take, l]
        omega
      have hsum := p.sum
      have hle : l ≤ p.pkrem := min_le_right _ _
      repackLoop fuel ⟨pack, p.pkrem - l, by omega, by omega⟩ (buf.drop l) out

/-- `repack_audio`. -/
def repackAudio (p : PackBuf β) (buf : List β) : Option (PackBuf β × List (List β)) :=
  repackLoop buf.length p buf []

theorem repackLoop_spec {fuel : ℕ} {p : PackBuf β} {buf : List β} (hf : buf.length ≤ fuel)
    (out : List (List β)) :
    ∃ p', repackLoop fuel p buf out = some (p', out ++ blocks pksize (p.pack ++ buf)) ∧
      p'.pack = rest pksize (p.pack ++ buf) := by
  induction fuel generalizing p buf out with
  | zero =>
    obtain rfl : buf = [] := List.length_eq_zero_iff.mp (Nat.le_zero.mp hf)
    rw [List.append_nil, blocks_of_lt p.length_lt, rest_of_lt p.length_lt, List.append_nil]
    exact ⟨p, rfl, rfl⟩
  | succ fuel ih =>
    cases buf with
    | nil =>
      rw [List.append_nil, blocks_of_lt p.length_lt, rest_of_lt p.length_lt, List.append_nil]
      exact ⟨p, rfl, rfl⟩
    | cons b bs =>
      have hsum := p.sum
      have hroom := p.room
      have hcut : p.pack ++ b :: bs =
          (p.pack ++ (b :: bs).take (min (b :: bs).length p.pkrem)) ++
            (b :: bs).drop (min (b :: bs).length p.pkrem) := by
        rw [List.append_assoc, List.take_append_drop]
      have hdrop : ((b :: bs).drop (min (b :: bs).length p.pkrem)).length ≤ fuel := by
        rw [List.length_drop]
        rw [List.length_cons] at hf ⊢
        omega
      simp only [repackLoop]
      split
      · next hfull =>
        -- the packet is complete and goes out
        obtain ⟨p', hp', hrest⟩ := ih (p := .empty) hdrop
          (out ++ [p.pack ++ (b :: bs).take (min (b :: bs).length p.pkrem)])
        refine ⟨p', ?_, ?_⟩
        · rw [hp', hcut, blocks_cons (by decide) hfull, List.append_assoc]
          rfl
        · rw [hrest, hcut, rest_cons (by decide) hfull]
          rfl
      · next hpart =>
        obtain ⟨p', hp', hrest⟩ := ih (p := ⟨_, _, _, _⟩) hdrop out
        refine ⟨p', ?_, ?_⟩
        · rw [hp', ← hcut]
        · rw [hrest, ← hcut]

/-- **One call** of `repack_audio`. -/
theorem repackAudio_spec (p : PackBuf β) (buf : List β) :
    ∃ p', repackAudio p buf = some (p', blocks pksize (p.pack ++ buf)) ∧
      p'.pack = rest pksize (p.pack ++ buf) :=
  repackLoop_spec (p := p) (le_refl buf.length) []

/-! ## The connections -/

/-- A byte of the stream of a connection. -/
structure Octet where
  conn : ℕ
  off : ℕ
  val : Byte

/-- Where a byte comes from. -/
def Octet.place (o : Octet) : ℕ × ℕ := (o.conn, o.off)

/-- Bytes that are the next ones of a connection. -/
def octets (c off : ℕ) : List Byte → List Octet
  | [] => []
  | b :: bs => ⟨c, off, b⟩ :: octets c (off + 1) bs

/-- The receiver: `audio_sock`, where the connections are numbered, how many there were, the bytes
received on the latest, and the packets that `tcp_recved` got. -/
structure Audio where
  audioSock : Option ℕ
  conns : ℕ
  off : ℕ
  buf : PackBuf Octet
  packs : List (List Octet)

def init : Audio := ⟨none, 0, 0, .empty, []⟩

/-- What happens to the connection. -/
inductive Event where
  /-- `__connect_audio_sock`, by the receiving thread or for a registration. -/
  | connect (ok : Bool)
  /-- `recv` has a result; it is empty when the other side has closed. -/
  | recv (bytes : List Byte)
  /-- `select` or `recv` fails. -/
  | fail

/-- One turn of `__run_recv_audio`, or a connection. -/
def step (s : Audio) : Event → Option Audio
  | .connect true => some { s with audioSock := some s.conns, conns := s.conns + 1, off := 0 }
  | .connect false => some s
  | .recv bytes => match s.audioSock with
    | none => some s
    | some c =>
      if bytes = [] then some { s with audioSock := none }
      else (repackAudio s.buf (octets c s.off bytes)).map fun r =>
        { s with off := s.off + bytes.length, buf := r.1, packs := s.packs ++ r.2 }
  | .fail => some { s with audioSock := none }

theorem length_octets (c off : ℕ) (bytes : List Byte) :
    (octets c off bytes).length = bytes.length := by
  induction bytes generalizing off with
  | nil => rfl
  | cons b bs ih => rw [octets, List.length_cons, ih, List.length_cons]

theorem map_place_octets (c off : ℕ) (bytes : List Byte) :
    (octets c off bytes).map Octet.place = (List.range' off bytes.length).map (Prod.mk c) := by
  induction bytes generalizing off with
  | nil => rfl
  | cons b bs ih =>
    rw [octets, List.map_cons, ih, List.length_cons, List.range'_succ, List.map_cons]
    rfl

/-- A packet is a block of one connection. -/
def Framed (pack : List Octet) : Prop :=
  ∃ c n, pack.map Octet.place = (List.range' (pksize * n) pksize).map (Prod.mk c)

/-- All packets are blocks of one connection each. -/
def Framing (s : Audio) : Prop := ∀ pack ∈ s.packs, Framed pack

/-- The bytes carried over are as many as are left of the blocks of the connection. -/
def InStep (s : Audio) : Prop := s.buf.pack.length = s.off % pksize

/-- When a packet is completed, the bytes carried over are from the connection. -/
def Whole (s : Audio) : Event → Prop
  | .recv bytes => s.audioSock ≠ none → pksize ≤ s.buf.pack.length + bytes.length → InStep s
  | _ => True

/-- The bytes carried over are the last ones of connection `c`. -/
def Carried (s : Audio) (c : ℕ) : Prop :=
  s.buf.pack.map Octet.place =
    (List.range' (s.off - s.buf.pack.length) s.buf.pack.length).map (Prod.mk c)

/-- The packets so far are blocks, and bytes that are in step are those of the connection. -/
structure Inv (s : Audio) : Prop where
  framing : Framing s
  carried : ∀ c, s.audioSock = some c → InStep s → Carried s c

theorem inv_init : Inv init where
  framing := fun _ h => nomatch h
  carried := fun _ h => nomatch h

/-- The bytes carried over and those received, when they are in step. -/
theorem map_place_append {s : Audio} {c : ℕ} (hin : InStep s) (hc : Carried s c)
    (bytes : List Byte) :
    (s.buf.pack ++ octets c s.off bytes).map Octet.place =
      (List.range' (pksize * (s.off / pksize)) (s.buf.pack.length + bytes.length)).map
        (Prod.mk c) := by
  have hdiv := Nat.div_add_mod s.off pksize
  have hoff : s.off - s.buf.pack.length = pksize * (s.off / pksize) := by
    rw [InStep] at hin
    omega
  have hjoin : pksize * (s.off / pksize) + s.buf.pack.length = s.off := by
    rw [InStep] at hin
    omega
  rw [List.map_append, hc, map_place_octets, ← List.map_append, hoff]
  nth_rewrite 2 [← hjoin]
  rw [List.range'_append_1]

/-- Bytes in a row that start with a block are cut into blocks. -/
theorem framed_of_places {l : List Octet} {c n m : ℕ}
    (h : l.map Octet.place = (List.range' (pksize * n) m).map (Prod.mk c)) :
    ∀ pack ∈ blocks pksize l, Framed pack := by
  intro pack hpack
  obtain ⟨i, hi, rfl⟩ := mem_blocks.mp hpack
  have hlen : l.length = m := by simpa using congrArg List.length h
  refine ⟨c, n + i, ?_⟩
  rw [← piece_map, h, piece_map, piece_range' (hlen ▸ hi), Nat.mul_add]

/-- The first packet that `repack_audio` completes while it is out of step mixes two connections. -/
theorem not_framed {s : Audio} {c : ℕ} {bytes : List Byte} (hin : ¬ InStep s)
    (hlen : pksize ≤ s.buf.pack.length + bytes.length) :
    ∃ pack ∈ blocks pksize (s.buf.pack ++ octets c s.off bytes), ¬ Framed pack := by
  have hlt := s.buf.length_lt
  have hpos : 0 < pksize := by decide
  have hall : (s.buf.pack ++ octets c s.off bytes).length = s.buf.pack.length + bytes.length := by
    rw [List.length_append, length_octets]
  refine ⟨_, mem_blocks.mpr ⟨0, Nat.div_pos (hall ▸ hlen) hpos, rfl⟩, fun ⟨c', n, h⟩ => hin ?_⟩
  -- the last byte of the packet came with these bytes
  have hlast : (piece pksize ((s.buf.pack ++ octets c s.off bytes).map Octet.place) 0)[pksize - 1]? =
      some (c, s.off + (pksize - 1 - s.buf.pack.length)) := by
    rw [getElem?_piece _ (by omega), Nat.mul_zero, Nat.zero_add, List.map_append,
      List.getElem?_append_right (by rw [List.length_map]; omega), map_place_octets,
      List.length_map, List.getElem?_map, List.getElem?_range' (by omega)]
    simp
  rw [piece_map, h, List.getElem?_map, List.getElem?_range' (by omega)] at hlast
  simp only [Option.map_some, Option.some.injEq, Prod.mk.injEq, Nat.one_mul] at hlast
  have hoff : s.off = pksize * n + s.buf.pack.length := by omega
  rw [InStep, hoff, Nat.mul_add_mod, Nat.mod_eq_of_lt hlt]

/-- What `repack_audio` does to the receiver. -/
theorem step_recv {s : Audio} {c : ℕ} (hs : s.audioSock = some c) {bytes : List Byte}
    (hb : bytes ≠ []) :
    ∃ p, step s (.recv bytes) = some { s with
        off := s.off + bytes.length, buf := p,
        packs := s.packs ++ blocks pksize (s.buf.pack ++ octets c s.off bytes) } ∧
      p.pack = rest pksize (s.buf.pack ++ octets c s.off bytes) := by
  obtain ⟨p, hp, hrest⟩ := repackAudio_spec s.buf (octets c s.off bytes)
  refine ⟨p, ?_, hrest⟩
  simp only [step, hs, if_neg hb, hp, Option.map_some]

/-- Bytes that complete no packet do not bring the carried bytes in step. -/
theorem inStep_of_recv {p off n : ℕ} (hlt : p + n < pksize) (h : p + n = (off + n) % pksize) :
    p = off % pksize := by
  have hmod : (p + n) % pksize = (off + n) % pksize := by rw [Nat.mod_eq_of_lt hlt, h]
  rw [← Nat.mod_eq_of_lt (show p < pksize by omega)]
  exact Nat.ModEq.add_right_cancel' n hmod

/-- Received bytes keep the invariant. -/
theorem inv_recv {s : Audio} (hI : Inv s) {c : ℕ} (hs : s.audioSock = some c) {bytes : List Byte}
    (hg : pksize ≤ s.buf.pack.length + bytes.length → InStep s) {p : PackBuf Octet}
    (hp : p.pack = rest pksize (s.buf.pack ++ octets c s.off bytes)) :
    Inv { s with
      off := s.off + bytes.length, buf := p,
      packs := s.packs ++ blocks pksize (s.buf.pack ++ octets c s.off bytes) } := by
  have hlen : (s.buf.pack ++ octets c s.off bytes).length = s.buf.pack.length + bytes.length := by
    rw [List.length_append, length_octets]
  have hplen : p.pack.length = (s.buf.pack.length + bytes.length) % pksize := by
    rw [hp, length_rest, hlen]
  refine ⟨fun pack hpack => ?_, fun c' hc' hin' => ?_⟩
  · rcases List.mem_append.mp hpack with hold | hnew
    · exact hI.framing pack hold
    · have hin : InStep s := by
        by_contra hn
        rw [blocks_of_lt (by rw [hlen]; exact not_le.mp (mt hg hn))] at hnew
        exact nomatch hnew
      exact framed_of_places (map_place_append hin (hI.carried c hs hin) bytes) pack hnew
  · obtain rfl : c = c' := Option.some.inj (hs.symm.trans hc')
    have hin : InStep s := by
      by_contra hn
      have hlt := not_le.mp (mt hg hn)
      refine hn (inStep_of_recv hlt ?_)
      rw [← Nat.mod_eq_of_lt hlt, ← hplen]
      exact hin'
    have hdiv := Nat.div_add_mod s.off pksize
    have hdiv' := Nat.div_add_mod (s.buf.pack.length + bytes.length) pksize
    have hstep : s.buf.pack.length = s.off % pksize := hin
    unfold Carried
    dsimp only
    rw [hplen, hp, ← rest_map, map_place_append hin (hI.carried c hs hin) bytes, rest_map,
      rest_range']
    congr 2
    omega

theorem step_inv (s : Audio) (e : Event) (hI : Inv s) (hg : Whole s e) :
    ∃ s', step s e = some s' ∧ Inv s' := by
  cases e with
  | connect ok =>
    cases ok with
    | true =>
      refine ⟨_, rfl, hI.framing, fun c hc hin => ?_⟩
      -- nothing has come yet, so nothing is carried over
      have hnil : s.buf.pack = [] := List.length_eq_zero_iff.mp hin
      simp [Carried, hnil]
    | false => exact ⟨s, rfl, hI⟩
  | recv bytes =>
    cases hs : s.audioSock with
    | none => exact ⟨s, by simp only [step, hs], hI⟩
    | some c =>
      by_cases hb : bytes = []
      · exact ⟨{ s with audioSock := none }, by simp only [step, hs, if_pos hb], hI.framing,
          fun _ h => nomatch h⟩
      · obtain ⟨p, hstep, hp⟩ := step_recv hs hb
        exact ⟨_, hstep, inv_recv hI hs (hg (by rw [hs]; exact Option.some_ne_none c)) hp⟩
  | fail => exact ⟨_, rfl, hI.framing, fun _ h => nomatch h⟩

theorem step_bad (s : Audio) (e : Event) (s' : Audio) (hg : ¬ Whole s e)
    (hstep : step s e = some s') : ¬ Framing s' := by
  cases e with
  | connect ok => exact absurd trivial hg
  | fail => exact absurd trivial hg
  | recv bytes =>
    simp only [Whole, Classical.not_imp] at hg
    obtain ⟨hsock, hlen, hin⟩ := hg
    obtain ⟨c, hs⟩ := Option.ne_none_iff_exists'.mp hsock
    have hb : bytes ≠ [] := by
      rintro rfl
      have := s.buf.length_lt
      simp only [List.length_nil] at hlen
      omega
    obtain ⟨p, hstep', -⟩ := step_recv hs hb
    rw [hstep', Option.some.injEq] at hstep
    subst hstep
    obtain ⟨pack, hmem, hbad⟩ := not_framed (c := c) hin hlen
    exact fun h => hbad (h pack (List.mem_append_right _ hmem))

/-- **Framing:** along a run all packets are blocks of one connection exactly when no packet is
completed out of step. -/
theorem framing_iff (es : List Event) : Always step Framing init es ↔ Guarded step Whole init es :=
  always_iff_guarded (I := Inv) (E := fun _ => True) (fun _ h => h.framing)
    (fun s e hI _ hg => step_inv s e hI hg) (fun s e s' _ _ hg h => step_bad s e s' hg h)
    inv_init (fun _ _ => trivial)

/-- A connection that ends after one byte, and the next one brings a block. -/
def cutConnection : List Event :=
  [.connect true, .recv [0], .recv [], .connect true, .recv (List.replicate pksize 0)]

/-- The packet has a byte of the first connection and 523 of the second. -/
theorem framing_fails : ¬ Always step Framing init cutConnection := by
  intro h
  have hpre : (run step init (cutConnection.take 4)).map
      (fun s => (s.audioSock, s.buf.pack.length, s.off)) = some (some 1, 1, 0) := by decide
  obtain ⟨t, ht, hview⟩ := Option.map_eq_some_iff.mp hpre
  obtain ⟨u, hu, hP⟩ := always_iff_reached.mp h cutConnection List.prefix_rfl
  simp only [Prod.mk.injEq] at hview
  rw [← List.take_append_drop 4 cutConnection, run_append, ht, Option.bind_some] at hu
  obtain ⟨v, hv, hvu⟩ := Option.bind_eq_some_iff.mp hu
  obtain rfl : v = u := Option.some.inj hvu
  refine step_bad t (.recv (List.replicate pksize 0)) v ?_ hv hP
  intro hw
  have hin := hw (by rw [hview.1]; exact Option.some_ne_none 1)
    (by rw [List.length_replicate]; exact Nat.le_add_left _ _)
  rw [InStep, hview.2.1, hview.2.2] at hin
  exact absurd hin (by decide)

end GSConferencing.Client.NetAudio
