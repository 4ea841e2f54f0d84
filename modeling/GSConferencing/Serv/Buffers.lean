import GSConferencing.Serv.Mixing

/-!
# The receivers of packets

`network.c`: the datagrams of `run_listener_udp` and the blocks of 524 bytes that `run_recv_audio`
cuts a connection into are given to `pack_recv`, which tells whether the buffer may be used again.

The server is a machine: the receivers and the mixing threads take steps in any order, and the
other threads may change the control state in between as they like.
-/

namespace GSConferencing.Serv.Buffers

open GSConferencing.Include.Pack GSConferencing.Include.Cfifo GSConferencing.Lib.Ring
open GSConferencing.Serv.CmdHandler GSConferencing.Serv.Dev GSConferencing.Serv.Server
open GSConferencing.Serv.Packet GSConferencing.Serv.Mixing

variable {k : ℕ}

/-! ## `pack_recv` -/

/-- `MIX_PUT`, of the tag the device has; `true` if the buffer is done with. -/
def mixPut (s : State k) (d : ℤ) (b : Buf k) : Bool × State k :=
  match (s.srv.tag (s.srv.dev d).tag).mixer with
  | .net => (true, s)
  | .soft => match tagInDevPacket s d b with
    | none => (true, s)
    | some s' => (false, s')

/-- The case `PACKET_AUDIO` of `pack_recv`. -/
def recvAudio (s : State k) (d : ℤ) (b : Buf k) : Bool × State k :=
  if s.srv.grp.disabled ≠ 0 ∧ s.srv.grp.chairman ≠ some d then (true, s)
  else if (s.srv.dev d).discussForbidden ≠ 0 ∨ (s.srv.dev d).discussOpen = 0 then (true, s)
  else mixPut s d b

/-- The device a packet names. -/
def packDev (p : PackData) : ℤ := (htonl p.id).toInt

/-- `pack_recv`: `true` if the buffer can be freed.  Repeat requests and video packets are passed
on, which moves no buffer. -/
def packRecv (s : State k) (b : Buf k) : Bool × State k :=
  let p := (s.mem b).data
  let d := packDev p
  if d ∉ s.srv.devs then
    (true, if p.type = PackType.hbeat.val then { s with srv := heartbeat s.srv d } else s)
  else if p.type = PackType.hbeat.val then (true, { s with srv := heartbeat s.srv d })
  else if p.type = PackType.audio.val ∨ p.type = PackType.audioZero.val then recvAudio s d b
  else if p.type = PackType.repeatReq.val then (true, s)
  else if p.type = PackType.video.val then (true, s)
  else (false, s)

/-! ## The datagrams -/

/-- The buffer `b` gets the bytes that were received. -/
def fill (s : State k) (b : Buf k) (bytes : List Byte) : State k :=
  s.setMem b fun P => { P with len := bytes.length, data := PackData.ofBytes bytes }

def setUdp (s : State k) (o : Option (Buf k)) : State k := { s with udp := o }

/-- A turn of the loop of `run_listener_udp`. -/
def recvDatagram (s : State k) (bytes : List Byte) : State k :=
  match s.udp with
  | none => s
  | some b =>
    let bytes := bytes.take maxpack
    if bytes.length < headlen then s
    else
      let r := packRecv (fill s b bytes) b
      if r.1 then r.2 else setUdp r.2 none

/-- `pack_get_fast` in `run_listener_udp`. -/
def udpGet (s : State k) : State k :=
  match s.udp, s.pools.packGetFast with
  | none, some (b, P) => setUdp { s with pools := P } (some b)
  | _, _ => s

/-! ## The audio connections -/

/-- `pksize`. -/
def pksize : ℕ := 524

section Conn
variable (C : Conn k)

/-- The length of the next piece that is copied. -/
def pieceLen : ℕ := min C.rest.length (pksize - C.block.length)

/-- The block with the next piece. -/
def filled : List Byte := C.block ++ C.rest.take (pieceLen C)

/-- `buf` behind the next piece. -/
def behind : List Byte := C.rest.drop (pieceLen C)

/-- The thread waits in `select`. -/
def AtSelect : Prop := C.pack ≠ none ∧ C.rest = []

instance : Decidable (AtSelect C) := inferInstanceAs (Decidable (_ ∧ _))

end Conn

def setConn (s : State k) (c : ℕ) (C : Option (Conn k)) : State k :=
  { s with conns := Function.update s.conns c C }

/-- `audio_connect` starts the thread `c`, if the device is registered. -/
def audioConnect (s : State k) (c : ℕ) (d : ℤ) : State k :=
  match s.conns c with
  | some _ => s
  | none =>
    if d ∈ s.srv.devs then setConn s c (some { pack := none, block := [], rest := [] }) else s

/-- `pack_get_new` in `run_recv_audio`. -/
def connGet (s : State k) (c : ℕ) : State k :=
  match s.conns c, s.pools.packGetNew with
  | some C, some (b, P) =>
    if C.pack = none then setConn { s with pools := P } c (some { C with pack := some b }) else s
  | _, _ => s

/-- `recv` gets these bytes, at most `BUFLEN`. -/
def connRecv (s : State k) (c : ℕ) (bytes : List Byte) : State k :=
  match s.conns c with
  | none => s
  | some C =>
    if AtSelect C then setConn s c (some { C with rest := bytes.take cmdMax }) else s

/-- A turn of the inner loop of `run_recv_audio`. -/
def repack (s : State k) (c : ℕ) : State k :=
  match s.conns c with
  | none => s
  | some C => match C.pack with
    | none => s
    | some b =>
      if C.rest = [] then s
      else if (filled C).length = pksize then
        let r := packRecv (fill s b (filled C)) b
        setConn r.2 c (some
          { pack := if r.1 then some b else none, block := [], rest := behind C })
      else setConn s c (some { C with block := filled C, rest := behind C })

/-- `select` or `recv` fails: the thread ends. -/
def disconnect (s : State k) (c : ℕ) : State k :=
  match s.conns c with
  | none => s
  | some C => if AtSelect C then setConn s c none else s

/-! ## The machine -/

/-- What happens next. -/
inductive Event where
  | udpGet
  | datagram (bytes : List Byte)
  | connect (c : ℕ) (d : ℤ)
  | connGet (c : ℕ)
  | recv (c : ℕ) (bytes : List Byte)
  | repack (c : ℕ)
  | disconnect (c : ℕ)
  | mix (t : ℤ) (silent : Bool)
  | control (srv : Server)

/-- One event; the thread of a tag runs once the tag has been created. -/
def step (s : State k) : Event → Option (State k)
  | .udpGet => some (udpGet s)
  | .datagram bytes => some (recvDatagram s bytes)
  | .connect c d => some (audioConnect s c d)
  | .connGet c => some (connGet s c)
  | .recv c bytes => some (connRecv s c bytes)
  | .repack c => some (repack s c)
  | .disconnect c => some (disconnect s c)
  | .mix t silent => if t ∈ s.srv.tags then mixStep s t silent else some s
  | .control srv => some { s with srv := srv }

/-- A tag that casts nothing yet. -/
def newCast (k : ℕ) : TagCast k where
  seq := 0
  repPack := fun _ => none
  repPos := place 4 0
  mixSilence := 0
  pc := .get

/-- The start: `init_pack_pool`, and no thread has taken a step. -/
def start (k : ℕ) (srv : Server) (opts : Opts) (mem : Buf k → Packet) : State k where
  srv := srv
  opts := opts
  pools := .init k
  mem := mem
  udp := none
  conns := fun _ => none
  fifo := fun _ => .new none
  highload := fun _ => 0
  cast := fun _ => newCast k

end GSConferencing.Serv.Buffers
