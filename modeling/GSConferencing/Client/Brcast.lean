import GSConferencing.Lib.Run
import GSConferencing.Client.Recent
import GSConferencing.Serv.Brcmd

/-!
# Broadcast commands on a client

`handle_brcast_cmd` of `client.c`, and the system of the server, a network that may lose and
reorder copies, and one client.

* `ucmdText_multi`: the ids that the server packs are the ids that the client finds.
* `once_exact`: a client executes each command at most once exactly when it still remembers the
  sequence number of a command whenever a further copy of it arrives.
-/

namespace GSConferencing.Client.Brcast

open GSConferencing.Lib.Run GSConferencing.Lib.Window
open GSConferencing.Include.Pack GSConferencing.Client.Recent GSConferencing.Serv.Brcmd

/-! ## The client -/

/-- The variables `id`, `tag_id` and `recent_ucmd`. -/
structure Receiver where
  id : ℤ
  tagId : ℤ
  recentUcmd : RecentInfo (BitVec 16) 3

/-- The loop over `p[i]`, with `k` rounds to go: is one of them the id? -/
def hasId (p : List Byte) (id : ℤ) : ℕ → ℕ → Option Bool
  | 0, _ => some false
  | k + 1, i => (readInt p i).bind fun x => if x = id then some true else hasId p id k (i + 1)

/-- The text that is handed to `__handle_cmd`, if the command is for this client.  There is no
result where the client reads past the data. -/
def ucmdText (c : Receiver) (u : PackUcmd) : Option (Option (List Byte)) :=
  match u.mode with
  | .all => some (some u.data)
  | .tag t => some (if (t.toNat : ℤ) = c.tagId then some u.data else none)
  | .multi => (readInt u.data 0).bind fun n => (hasId u.data c.id n.toNat 1).map fun found =>
      if found then some (u.data.drop ((1 + n.toNat) * 4)) else none

/-- `handle_brcast_cmd`: the text it executes, and the client afterwards. -/
def handleBrcastCmd (c : Receiver) (u : PackUcmd) : Option (Option (List Byte) × Receiver) :=
  match recentTest c.recentUcmd u.seq with
  | (true, _) => some (none, c)
  | (false, r) => (ucmdText c u).map fun text => (text, { c with recentUcmd := r })

/-! ## What the client finds in the packets of the server -/

section Multi
variable {c : Receiver} {id : ℤ} {p rest : List Byte} {ids : List ℤ}

/-- The array `p + 1`. -/
theorem hasId_succ (n : ℤ) (k i : ℕ) :
    hasId (intBytes n ++ p) id k (i + 1) = hasId p id k i := by
  induction k generalizing i with
  | zero => rfl
  | succ k ih => rw [hasId, hasId, readInt_succ, ih]

/-- The loop finds the ids that have been written. -/
theorem hasId_intBytes :
    hasId (ids.flatMap intBytes ++ rest) id ids.length 0 = some (decide (id ∈ ids.map int32)) := by
  induction ids with
  | nil => rfl
  | cons x ids ih =>
    rw [List.flatMap_cons, List.append_assoc, List.length_cons, hasId, readInt_intBytes,
      Option.bind_some, hasId_succ, ih, List.map_cons]
    by_cases h : int32 x = id
    · rw [if_pos h, decide_eq_true (List.mem_cons.mpr (.inl h.symm))]
    · have hiff : id ∈ int32 x :: ids.map int32 ↔ id ∈ ids.map int32 := by
        rw [List.mem_cons, or_iff_right fun h' => h h'.symm]
      rw [if_neg h, decide_eq_decide.mpr hiff]

theorem length_flatMap_intBytes (ids : List ℤ) :
    (ids.flatMap intBytes).length = ids.length * 4 := by
  induction ids with
  | nil => rfl
  | cons x ids ih =>
    rw [List.flatMap_cons, List.length_append, ih, length_intBytes, List.length_cons]
    omega

/-- **A packet for several clients** is a command for those it names, and the command is the
reply. -/
theorem ucmdText_multi (seq : ℕ) (rep : Payload) (h : ids.length ≤ batch) :
    ucmdText c (makeBrcmdMulti seq rep ids) =
      some (if c.id ∈ ids.map int32 then some rep.bytes else none) := by
  have hn : int32 ids.length = ids.length := by
    unfold batch at h
    exact int32_eq (by omega) (by omega)
  have hdrop : ((intBytes ids.length ++ ids.flatMap intBytes ++ rep.bytes).drop
      ((1 + ids.length) * 4)) = rep.bytes := by
    refine List.drop_left' ?_
    rw [List.length_append, length_intBytes, length_flatMap_intBytes]
    omega
  unfold ucmdText makeBrcmdMulti
  simp only
  rw [List.append_assoc, readInt_intBytes, Option.bind_some, hn, Int.toNat_natCast,
    show 1 = 0 + 1 from rfl, hasId_succ, hasId_intBytes, Option.map_some]
  rw [List.append_assoc] at hdrop
  simp only [decide_eq_true_eq, Nat.zero_add]
  rw [hdrop]

/-- A packet of the server is read within its data. -/
theorem ucmdText_made {u : PackUcmd} (h : Made u) : ∃ text, ucmdText c u = some text := by
  cases h with
  | all seq data => exact ⟨_, rfl⟩
  | tag seq rep tagid => exact ⟨_, rfl⟩
  | multi seq rep h => exact ⟨_, ucmdText_multi seq rep h⟩

end Multi

/-! ## The system -/

/-- The server, the copies on their way to the client, and the client.  The history is kept in
`accepted`, the sequence numbers that `recent_test` took for new ones, and in `executed`, the
tasks whose command has been executed, both newest first. -/
structure System where
  server : Server
  client : Receiver
  inFlight : ℕ → ℕ
  accepted : List (BitVec 16)
  executed : List ℕ

/-- Nothing has been broadcast yet. -/
def System.new (id tagId : ℤ) : System where
  server := { seq := 0, tasks := [] }
  client := { id := id, tagId := tagId, recentUcmd := .new 0 }
  inFlight := fun _ => 0
  accepted := []
  executed := []

/-- What happens in the system; a copy that is lost is one that never arrives. -/
inductive Event where
  | all (data : Payload)
  | tag (rep : Payload) (tagid : ℤ)
  | multi (rep : Payload) (ids : List ℤ)
  /-- The task `i` sends its next copy. -/
  | send (i : ℕ)
  /-- A copy of the task `i` arrives. -/
  | arrive (i : ℕ)
  /-- The client gets another id or another tag. -/
  | client (id tagId : ℤ)

/-- The task `i` has sent one more copy. -/
def sendCopy (s : System) (i : ℕ) (t : Task) : System :=
  { s with
    server := { s.server with tasks := s.server.tasks.set i { t with sent := t.sent + 1 } }
    inFlight := Function.update s.inFlight i (s.inFlight i + 1) }

/-- The packet `u` of the task `i` reaches the client. -/
def receive (s : System) (i : ℕ) (u : PackUcmd) : Option System :=
  (handleBrcastCmd s.client u).map fun (text, c) =>
    { s with
      client := c
      inFlight := Function.update s.inFlight i (s.inFlight i - 1)
      accepted := if (recentTest s.client.recentUcmd u.seq).1 then s.accepted
        else u.seq :: s.accepted
      executed := if text.isSome then i :: s.executed else s.executed }

/-- `run_brcast` sends the next copy, if it has not sent them all. -/
def stepSend (s : System) (i : ℕ) : System :=
  match s.server.tasks[i]? with
  | some t => if t.sent < repeats then sendCopy s i t else s
  | none => s

/-- A copy arrives, if there is one. -/
def stepArrive (s : System) (i : ℕ) : Option System :=
  match s.server.tasks[i]? with
  | some t => if 0 < s.inFlight i then receive s i t.ucmd else some s
  | none => some s

/-- One step. -/
def step (s : System) : Event → Option System
  | .all data => some { s with server := brcastDataToAll s.server data }
  | .tag rep tagid => some { s with server := brcastCmdToTagAll s.server rep tagid }
  | .multi rep ids => some { s with server := brcastCmdToMulti s.server rep ids }
  | .send i => some (stepSend s i)
  | .arrive i => stepArrive s i
  | .client id tagId => some { s with client := { s.client with id := id, tagId := tagId } }

/-- When a further copy of an executed command arrives that is still for this client, its sequence
number is one of the eight that the client has accepted last. -/
def Remembered (s : System) : Event → Prop
  | .arrive i => ∀ t, s.server.tasks[i]? = some t → 0 < s.inFlight i → i ∈ s.executed →
      ucmdText s.client t.ucmd ≠ some none → t.ucmd.seq ∈ window 8 0 s.accepted
  | _ => True

/-- The packets are those of `brcmd.c`, and the ring holds what has been accepted last. -/
structure Inv (s : System) : Prop where
  made : ∀ t ∈ s.server.tasks, Made t.ucmd
  ring : Holds s.client.recentUcmd 0 s.accepted
  once : s.executed.Nodup

section Steps
variable {s s' : System} {e : Event} {i : ℕ} {t : Task}

theorem inv_new (id tagId : ℤ) : Inv (System.new id tagId) where
  made := fun t ht => by cases ht
  ring := holds_new 0
  once := List.nodup_nil

/-- New tasks, and nothing else. -/
theorem Inv.add (h : Inv s) {server : Server} {l : List Task}
    (htasks : server.tasks = s.server.tasks ++ l) (hl : ∀ t ∈ l, Made t.ucmd) :
    Inv { s with server := server } := by
  refine ⟨fun t ht => ?_, h.ring, h.once⟩
  rcases List.mem_append.mp (htasks ▸ ht) with ht | ht
  · exact h.made t ht
  · exact hl t ht

theorem Inv.brcastUcmd (h : Inv s) {make : ℕ → PackUcmd} (hmake : ∀ seq, Made (make seq)) :
    Inv { s with server := brcastUcmd s.server make } := by
  obtain ⟨l, htasks, hl⟩ := brcastUcmd_tasks s.server make
  exact h.add htasks fun t ht => hl t ht ▸ hmake _

theorem Inv.sendCopy (h : Inv s) (ht : s.server.tasks[i]? = some t) : Inv (sendCopy s i t) := by
  refine ⟨fun t' ht' => ?_, h.ring, h.once⟩
  rcases List.mem_or_eq_of_mem_set ht' with ht' | rfl
  · exact h.made t' ht'
  · exact h.made t (List.mem_of_getElem? ht)

/-- What the arrival of a copy does: its number is remembered and nothing happens, or it is new,
and the command is executed if it is for this client. -/
theorem receive_cases (h : Inv s) (ht : s.server.tasks[i]? = some t) :
    (t.ucmd.seq ∈ window 8 0 s.accepted ∧ ∃ s', receive s i t.ucmd = some s' ∧
      s'.server = s.server ∧ s'.client = s.client ∧ s'.accepted = s.accepted ∧
      s'.executed = s.executed) ∨
    (t.ucmd.seq ∉ window 8 0 s.accepted ∧ ∃ text s', ucmdText s.client t.ucmd = some text ∧
      receive s i t.ucmd = some s' ∧ s'.server = s.server ∧
      Holds s'.client.recentUcmd 0 s'.accepted ∧
      s'.executed = if text.isSome then i :: s.executed else s.executed) := by
  unfold receive handleBrcastCmd
  rcases recentTest_spec h.ring t.ucmd.seq with ⟨hin, htest⟩ | ⟨hout, r, htest, hr⟩
  · rw [htest]
    exact .inl ⟨hin, _, rfl, rfl, rfl, rfl, rfl⟩
  · obtain ⟨text, htext⟩ := ucmdText_made (c := s.client) (h.made t (List.mem_of_getElem? ht))
    rw [htest]
    simp only [htext]
    exact .inr ⟨hout, text, _, rfl, rfl, rfl, hr, rfl⟩

theorem stepArrive_eq (ht : s.server.tasks[i]? = some t) (hfl : 0 < s.inFlight i) :
    stepArrive s i = receive s i t.ucmd := by
  unfold stepArrive
  rw [ht]
  exact if_pos hfl

theorem stepArrive_none (h : ¬ ∃ t, s.server.tasks[i]? = some t ∧ 0 < s.inFlight i) :
    stepArrive s i = some s := by
  unfold stepArrive
  cases ht : s.server.tasks[i]? with
  | none => rfl
  | some t => exact if_neg fun hfl => h ⟨t, ht, hfl⟩

theorem step_inv (h : Inv s) (hg : Remembered s e) : ∃ s', step s e = some s' ∧ Inv s' := by
  cases e with
  | all data => exact ⟨_, rfl, h.brcastUcmd fun seq => .all seq data⟩
  | tag rep tagid => exact ⟨_, rfl, h.brcastUcmd fun seq => .tag seq rep tagid⟩
  | multi rep ids =>
    obtain ⟨l, htasks, hl⟩ := brcastCmdToMulti_tasks s.server rep ids
    exact ⟨_, rfl, h.add htasks hl⟩
  | client id tagId => exact ⟨_, rfl, h.made, h.ring, h.once⟩
  | send i =>
    refine ⟨_, rfl, ?_⟩
    unfold stepSend
    split
    · split_ifs
      · exact h.sendCopy (by assumption)
      · exact h
    · exact h
  | arrive i =>
    by_cases hno : ∃ t, s.server.tasks[i]? = some t ∧ 0 < s.inFlight i
    swap
    · exact ⟨s, stepArrive_none hno, h⟩
    obtain ⟨t, ht, hfl⟩ := hno
    rcases receive_cases h ht with ⟨-, s', hs', hserver, hclient, hacc, hexec⟩ |
      ⟨hout, text, s', htext, hs', hserver, hring, hexec⟩
    · refine ⟨s', (stepArrive_eq ht hfl).trans hs', ?_, ?_, ?_⟩
      · rw [hserver]
        exact h.made
      · rw [hclient, hacc]
        exact h.ring
      · rw [hexec]
        exact h.once
    · refine ⟨s', (stepArrive_eq ht hfl).trans hs', by rw [hserver]; exact h.made, hring, ?_⟩
      rw [hexec]
      split_ifs with hsome
      · refine List.nodup_cons.mpr ⟨fun hi => hout (hg t ht hfl hi ?_), h.once⟩
        rw [htext]
        intro heq
        cases heq
        cases hsome
      · exact h.once

theorem step_bad (h : Inv s) (hg : ¬ Remembered s e) (hs' : step s e = some s') :
    ¬ s'.executed.Nodup := by
  cases e with
  | arrive i =>
    unfold Remembered at hg
    push Not at hg
    obtain ⟨t, ht, hfl, hi, htext, hout⟩ := hg
    replace hs' : stepArrive s i = some s' := hs'
    rw [stepArrive_eq ht hfl] at hs'
    rcases receive_cases h ht with ⟨hin, -⟩ | ⟨-, text, s₁, htext', hs₁, -, -, hexec⟩
    · exact absurd hin hout
    · rw [hs'] at hs₁
      cases hs₁
      cases text with
      | none => exact absurd htext' htext
      | some text =>
        rw [hexec]
        exact fun hnodup => (List.nodup_cons.mp hnodup).1 hi
  | all data => exact absurd trivial hg
  | tag rep tagid => exact absurd trivial hg
  | multi rep ids => exact absurd trivial hg
  | send i => exact absurd trivial hg
  | client id tagId => exact absurd trivial hg

end Steps

/-- **A client executes each command at most once exactly when it still remembers the number of a
command whenever a further copy of it arrives.** -/
theorem once_exact (id tagId : ℤ) (es : List Event) :
    Always step (fun s => s.executed.Nodup) (System.new id tagId) es ↔
      Guarded step Remembered (System.new id tagId) es :=
  always_iff_guarded (I := Inv) (E := fun _ => True) (fun _ h => h.once)
    (fun _ _ h _ hg => step_inv h hg) (fun _ _ _ h _ hg hs' => step_bad h hg hs')
    (inv_new id tagId) fun _ _ => trivial

/-- An empty text. -/
def noText : Payload where
  bytes := []
  fits := Nat.zero_le _

/-- Nine commands are broadcast and arrive one after the other, and then the second copy of the
first one. -/
def nineCommands : List Event :=
  List.replicate 9 (.all noText) ++ (List.range 9).flatMap (fun i => [.send i, .arrive i]) ++
    [.send 0, .arrive 0]

/-- The ninth command makes the client forget the first one. -/
theorem first_runs_again :
    ¬ Always step (fun s => s.executed.Nodup) (System.new 101 1) nineCommands := by
  intro h
  have hrun : (run step (System.new 101 1) nineCommands).map System.executed =
      some [0, 8, 7, 6, 5, 4, 3, 2, 1, 0] := by
    decide
  obtain ⟨s, hok, hexec⟩ := h.observed hrun
  rw [hexec] at hok
  exact absurd hok (by decide)

end GSConferencing.Client.Brcast
