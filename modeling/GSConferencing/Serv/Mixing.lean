import GSConferencing.Include.Cfifo
import GSConferencing.Include.Pack
import GSConferencing.Serv.Packet
import GSConferencing.Serv.Server

/-!
# The mixing threads

`tag.c`, `soft_mixer.c`, `net_mixer.c` and `cast.c`: the packets of a device wait in its fifo, the
thread of a tag takes one from each open device of the tag, casts one of them and keeps it for
repeat requests, and frees the others.

A thread takes one `mixStep` after the other, at most one buffer leaves a fifo or the thread in
each, but for a flush.  `none` says that a null pointer is used, or that a free buffer is freed.
The samples are not looked at: whether a mix is silent is told by the event.
-/

namespace GSConferencing.Serv.Mixing

open GSConferencing.Include.Pack GSConferencing.Include.Cfifo GSConferencing.Lib.Ring
open GSConferencing.Serv.Dev GSConferencing.Serv.Tag GSConferencing.Serv.Packet

variable {k : ℕ}

/-! ## The state -/

/-- `MAXPACK`. -/
def maxpack : ℕ := 1800

/-- `struct packet`: what a buffer holds. -/
structure Packet where
  repCount : ℤ
  len : ℕ
  data : PackData

/-- `SYNC_*`. -/
inductive Sync where
  | wait
  | fixed
  | ref

/-- `opt_flush`, `opt_sync_policy` and `opt_silence_drop`. -/
structure Opts where
  flush : Bool
  syncPolicy : Sync
  silenceDrop : Bool

/-- Where the thread of a tag is, and the buffers it has in its hands. -/
inductive Pc (k : ℕ) where
  /-- At `MIX_GET`. -/
  | get
  /-- In `flush_queues`, with these slots ahead. -/
  | flush (slots : List (Fin 8))
  /-- In `wait_all_queues` or `wait_any_queue`, after `n` turns, or at `wait_ref_queue`. -/
  | wait (n : ℕ)
  /-- In the loop of `wait_ref_queue`. -/
  | waitRef (d : ℤ)
  /-- Picks the packets, with these slots ahead; `pp` are those it has. -/
  | pick (slots : List (Fin 8)) (pp : List (Buf k))
  /-- The packets are mixed into `p`; the others are freed. -/
  | mixed (p : Buf k) (pp : List (Buf k))
  /-- At `tag_cast_pack`. -/
  | cast (p : Buf k)

/-- The buffers in the hands of the thread. -/
def Pc.hands : Pc k → List (Buf k)
  | .pick _ pp => pp
  | .mixed p pp => p :: pp
  | .cast p => [p]
  | _ => []

/-- `tag->cast` and `mix_silence`, and the thread of the tag. -/
structure TagCast (k : ℕ) where
  seq : BitVec 32
  repPack : Fin (2 ^ 4) → Option (Buf k)
  repPos : Fin (2 ^ 4)
  mixSilence : ℤ
  pc : Pc k

/-- A connection of `run_recv_audio`. -/
structure Conn (k : ℕ) where
  /-- `none` in `pack_get_new`. -/
  pack : Option (Buf k)
  /-- `pack->data[0 .. pklen)`. -/
  block : List Byte
  /-- `buf[boff .. boff + len)`. -/
  rest : List Byte

/-- The state of the server with its buffers. -/
structure State (k : ℕ) where
  srv : Server
  opts : Opts
  pools : Pools k
  /-- The memory of the buffers. -/
  mem : Buf k → Packet
  /-- The buffer of `run_listener_udp`; `none` in `pack_get_fast`. -/
  udp : Option (Buf k)
  conns : ℕ → Option (Conn k)
  /-- `d->pack_fifo`, of 32 places; a place may hold `NULL`. -/
  fifo : ℤ → Fifo (Option (Buf k)) 5
  /-- `d->highload`. -/
  highload : ℤ → ℤ
  cast : ℤ → TagCast k

namespace State

variable (s : State k)

def setFifo (d : ℤ) (cf : Fifo (Option (Buf k)) 5) : State k :=
  { s with fifo := Function.update s.fifo d cf }

def setHighload (d n : ℤ) : State k := { s with highload := Function.update s.highload d n }

def setMem (b : Buf k) (f : Packet → Packet) : State k :=
  { s with mem := Function.update s.mem b (f (s.mem b)) }

def setCast (t : ℤ) (T : TagCast k) : State k := { s with cast := Function.update s.cast t T }

/-- The thread of the tag goes on at `pc`. -/
def goto (t : ℤ) (pc : Pc k) : State k := s.setCast t { s.cast t with pc := pc }

/-- `pack_free` of what a pointer points to. -/
def packFree : Option (Buf k) → Option (State k)
  | none => none
  | some b => (s.pools.packFree b).map fun P => { s with pools := P }

end State

/-! ## The queues -/

/-- `tag_in_dev_packet`; `none` where it returns 0. -/
def tagInDevPacket (s : State k) (d : ℤ) (b : Buf k) : Option (State k) :=
  if (s.srv.dev d).mixbit = 0 then none
  else if (s.fifo d).full then none
  else some (s.setFifo d ((s.fifo d).write (some b)).putIn)

/-- The fifo after `__dev_out_packet`, which clears the place. -/
def outFifo (s : State k) (d : ℤ) : State k := s.setFifo d ((s.fifo d).writeOut none).takeOut

/-- `drop_queue_front`. -/
def dropQueueFront (s : State k) (d : ℤ) : Option (State k) :=
  (outFifo s d).packFree (s.fifo d).getOut

/-- `n` turns of the loop of `flush_queue`. -/
def dropFronts (d : ℤ) : ℕ → State k → Option (State k)
  | 0, s => some s
  | n + 1, s => (dropQueueFront s d).bind (dropFronts d n)

/-- `flush_queue`. -/
def flushQueue (s : State k) (d : ℤ) : Option (State k) := dropFronts d ((s.fifo d).len - 1) s

/-- The loop of `flush_all_queues`. -/
def flushAllQueues (t : ℤ) : List (Fin 8) → State k → Option (State k)
  | [], s => some s
  | i :: is, s => match (s.srv.tag t).mixDevs i with
    | none => flushAllQueues t is s
    | some d => (flushQueue s d).bind (flushAllQueues t is)

/-- The body of the loop of `flush_queues`. -/
def flushSlot (s : State k) (t : ℤ) (i : Fin 8) : Option (State k) :=
  match (s.srv.tag t).mixDevs i with
  | none => some s
  | some d =>
    if 6 < (s.fifo d).len then flushQueue s d
    else if 1 < (s.fifo d).len then
      let s := s.setHighload d (s.highload d + 1)
      if 180 < s.highload d then flushQueue s d else some s
    else some (s.setHighload d 0)

/-- `all_queues_bell`. -/
def AllQueuesBell (s : State k) (t : ℤ) : Prop :=
  ∀ i d, (s.srv.tag t).mixDevs i = some d → ¬ (s.fifo d).empty

instance (s : State k) (t : ℤ) : Decidable (AllQueuesBell s t) :=
  decidable_of_iff (∀ i, ∀ d ∈ (s.srv.tag t).mixDevs i, ¬ (s.fifo d).empty) Iff.rfl

/-- The loop of `tag_update_dev_timeouts`. -/
def tagUpdateDevTimeouts (fifo : ℤ → Fifo (Option (Buf k)) 5) (t : ℤ) :
    List (Fin 8) → Server → Server
  | [], s => s
  | i :: is, s => tagUpdateDevTimeouts fifo t is <|
    match (s.tag t).mixDevs i with
    | none => s
    | some d =>
      if (fifo d).empty then
        let s := s.setDev d fun D => { D with timeouts := D.timeouts + 1 }
        if 300 < (s.dev d).timeouts then tagRmOutstanding s t d else s
      else s.setDev d fun D => { D with timeouts := 0 }

/-! ## Waiting -/

/-- The eight slots. -/
def allSlots : List (Fin 8) := List.finRange 8

/-- Where `tag_mix_audio` starts, once a device is open; the net mixer sleeps. -/
def mixGet (s : State k) (t : ℤ) : State k :=
  match (s.srv.tag t).mixer with
  | .net => s
  | .soft =>
    if 0 < (s.srv.tag t).mixCount then
      if (s.srv.tag t).mixCount = 1 ∨ s.opts.flush = false then s.goto t (.wait 0)
      else s.goto t (.flush allSlots)
    else s

/-- A turn of `wait_all_queues` or `wait_any_queue`, or the start of `wait_ref_queue`. -/
def waitTurn (s : State k) (t : ℤ) (n : ℕ) : State k :=
  match s.opts.syncPolicy with
  | .wait =>
    if AllQueuesBell s t then s.goto t (.pick allSlots [])
    else
      let s := { s with srv := tagUpdateDevTimeouts s.fifo t allSlots s.srv }
      if 50 < n + 1 then s.goto t .get else s.goto t (.wait (n + 1))
  | .fixed =>
    -- 11610 μs in turns of 1000 μs
    if 11610 ≤ 1000 * n ∨ AllQueuesBell s t then s.goto t (.pick allSlots [])
    else s.goto t (.wait (n + 1))
  | .ref => match (s.srv.tag t).mixDevs (s.srv.tag t).mixRef with
    | none => s.goto t .get
    | some d => s.goto t (.waitRef d)

/-- A turn of the loop of `wait_ref_queue`, or what follows it. -/
def waitRefTurn (s : State k) (t d : ℤ) : Option (State k) :=
  if (s.fifo d).empty then
    if (s.srv.dev d).mixbit = 0 then some (s.goto t .get)
    else
      let s := { s with srv := s.srv.setDev d fun D => { D with timeouts := D.timeouts + 1 } }
      if 300 < (s.srv.dev d).timeouts then
        (flushAllQueues t allSlots { s with srv := tagRmOutstanding s.srv t d }).map (·.goto t .get)
      else some s
  else
    let s := { s with srv := s.srv.setDev d fun D => { D with timeouts := 0 } }
    some (s.goto t (.pick allSlots []))

/-! ## Mixing and casting -/

/-- A packet of silence gets its samples. -/
def fillZero (P : Packet) : Packet :=
  let l := (htons P.data.datalen).toNat
  if P.data.type = PackType.audioZero.val then
    { P with
      data := { P.data with type := PackType.audio.val, data := List.replicate l 0 }
      len := headlen + l }
  else P

/-- `tag_out_dev_packet`, and `add_mix_pack` of the packet. -/
def addMixPack (s : State k) (t d : ℤ) (is : List (Fin 8)) (pp : List (Buf k)) :
    Option (State k) :=
  match (s.fifo d).getOut with
  | none => none
  | some b =>
    let s := outFifo s d
    if maxpack - 100 < (htons (s.mem b).data.datalen).toNat then
      (s.packFree (some b)).map (·.goto t (.pick is pp))
    else some ((s.setMem b fillZero).goto t (.pick is (pp ++ [b])))

/-- The body of the second loop of `tag_mix_audio`, at the slot `i`. -/
def pickSlot (s : State k) (t : ℤ) (i : Fin 8) (is : List (Fin 8)) (pp : List (Buf k)) :
    Option (State k) :=
  match (s.srv.tag t).mixDevs i with
  | none => some (s.goto t (.pick is pp))
  | some d =>
    if (s.fifo d).empty then some (s.goto t (.pick is pp))
    else
      let s := { s with srv := s.srv.setDev d fun D => { D with timeouts := 0 } }
      addMixPack s t d is pp

/-- The end of `tag_mix_audio`. -/
def checkSilence (s : State k) (t : ℤ) (p : Buf k) (silent : Bool) : Option (State k) :=
  if s.opts.silenceDrop then
    if silent then
      let s := s.setCast t { s.cast t with mixSilence := (s.cast t).mixSilence + 1 }
      if 50 < (s.cast t).mixSilence then (s.packFree (some p)).map (·.goto t .get)
      else some (s.goto t (.cast p))
    else some ((s.setCast t { s.cast t with mixSilence := 0 }).goto t (.cast p))
  else some (s.goto t (.cast p))

/-- `tag_cast_pack`: the packet as it is sent. -/
def tagCastPack (s : State k) (t : ℤ) (p : Buf k) : State k :=
  let seq := (s.cast t).seq + 1
  (s.setCast t { s.cast t with seq := seq }).setMem p fun P =>
    { P with data := { P.data with seq := htonl seq, tag := BitVec.ofInt 8 t } }

/-- The packet takes the place of the oldest one in the ring. -/
def keepPack (s : State k) (t : ℤ) (p : Buf k) : State k :=
  let T := s.cast t
  (s.setMem p fun P => { P with repCount := 0 }).setCast t
    { T with
      repPack := Function.update T.repPack T.repPos (some p)
      repPos := place 4 (T.repPos.val + 1) }

/-- `__outdate_pack`: the packet is kept, and the oldest one is freed. -/
def outdatePack (s : State k) (t : ℤ) (p : Buf k) : Option (State k) :=
  match (s.cast t).repPack (s.cast t).repPos with
  | none => some (keepPack s t p)
  | some out => (keepPack s t p).packFree (some out)

/-- **One step of `tag_run_casting`.** -/
def mixStep (s : State k) (t : ℤ) (silent : Bool) : Option (State k) :=
  match (s.cast t).pc with
  | .get => some (mixGet s t)
  | .flush [] => some (s.goto t (.wait 0))
  | .flush (i :: is) => (flushSlot s t i).map (·.goto t (.flush is))
  | .wait n => some (waitTurn s t n)
  | .waitRef d => waitRefTurn s t d
  | .pick (i :: is) pp => pickSlot s t i is pp
  | .pick [] [] => some (s.goto t .get)
  | .pick [] (p :: pp) => some (s.goto t (.mixed p pp))
  | .mixed p (q :: pp) => (s.packFree (some q)).map (·.goto t (.mixed p pp))
  | .mixed p [] => checkSilence s t p silent
  | .cast p => (outdatePack (tagCastPack s t p) t p).map (·.goto t .get)

/-! ## What single steps do -/

section Cases
variable {s s' : State k} {t : ℤ}

/-- **A slot:** nothing is taken, or the oldest packet of its queue, which is freed if it is too
long. -/
theorem pickSlot_cases {i : Fin 8} {is : List (Fin 8)} {pp : List (Buf k)}
    (h : pickSlot s t i is pp = some s') :
    ((∀ d, (s.srv.tag t).mixDevs i = some d → (s.fifo d).empty) ∧ s' = s.goto t (.pick is pp)) ∨
    ∃ d b, ∃ r : State k, (s.srv.tag t).mixDevs i = some d ∧ ¬ (s.fifo d).empty ∧
      (s.fifo d).getOut = some b ∧
      r = { s with srv := s.srv.setDev d fun D => { D with timeouts := 0 } } ∧
      ((maxpack - 100 < (htons (s.mem b).data.datalen).toNat ∧
          ∃ s₁, (outFifo r d).packFree (some b) = some s₁ ∧ s' = s₁.goto t (.pick is pp)) ∨
        (¬ maxpack - 100 < (htons (s.mem b).data.datalen).toNat ∧
          s' = ((outFifo r d).setMem b fillZero).goto t (.pick is (pp ++ [b])))) := by
  unfold pickSlot at h
  cases hi : (s.srv.tag t).mixDevs i with
  | none =>
    simp only [hi] at h
    cases h
    exact .inl ⟨nofun, rfl⟩
  | some d =>
    simp only [hi] at h
    by_cases hempty : (s.fifo d).empty
    · rw [if_pos hempty] at h
      cases h
      exact .inl ⟨fun d' hd' => Option.some.inj hd' ▸ hempty, rfl⟩
    rw [if_neg hempty] at h
    simp only [addMixPack] at h
    cases hb : (s.fifo d).getOut with
    | none =>
      simp only [hb] at h
      cases h
    | some b =>
      simp only [hb] at h
      refine .inr ⟨d, b, _, rfl, hempty, hb, rfl, ?_⟩
      split at h
      · next hlong =>
        obtain ⟨s₁, hs₁, rfl⟩ := Option.map_eq_some_iff.mp h
        exact .inl ⟨hlong, s₁, hs₁, rfl⟩
      · next hshort =>
        cases h
        exact .inr ⟨hshort, rfl⟩

/-- **The test for silence:** a packet is freed if the silence has lasted for too long. -/
theorem checkSilence_cases {p : Buf k} {silent : Bool} (h : checkSilence s t p silent = some s') :
    ((s.opts.silenceDrop = true ∧ silent = true ∧ 50 < (s.cast t).mixSilence + 1) ∧
      ∃ n s₁, (s.setCast t { s.cast t with mixSilence := n }).packFree (some p) = some s₁ ∧
        s' = s₁.goto t .get) ∨
    (¬ (s.opts.silenceDrop = true ∧ silent = true ∧ 50 < (s.cast t).mixSilence + 1) ∧
      ∃ n, s' = (s.setCast t { s.cast t with mixSilence := n }).goto t (.cast p)) := by
  have hcount : ((s.setCast t { s.cast t with mixSilence := (s.cast t).mixSilence + 1 }).cast
      t).mixSilence = (s.cast t).mixSilence + 1 := by
    simp only [State.setCast, Function.update_self]
  unfold checkSilence at h
  simp only [hcount] at h
  split_ifs at h with hdrop hsilent hlong
  · obtain ⟨s₁, hs₁, rfl⟩ := Option.map_eq_some_iff.mp h
    exact .inl ⟨⟨hdrop, hsilent, hlong⟩, _, s₁, hs₁, rfl⟩
  · cases h
    exact .inr ⟨fun hn => hlong hn.2.2, _, rfl⟩
  · cases h
    exact .inr ⟨fun hn => hsilent hn.2.1, _, rfl⟩
  · cases h
    refine .inr ⟨fun hn => hdrop hn.1, (s.cast t).mixSilence, ?_⟩
    rw [State.setCast, Function.update_eq_self]

end Cases

end GSConferencing.Serv.Mixing
