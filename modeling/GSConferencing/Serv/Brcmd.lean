import GSConferencing.Include.Pack

/-!
# Broadcast commands

`brcmd.c`: a command is packed with the next sequence number and handed to a task that sends it
ten times.
-/

namespace GSConferencing.Serv.Brcmd

open GSConferencing.Include.Pack

/-- `CMD_MAX`, the size of a reply buffer. -/
def cmdMax : ℕ := 10240

/-- `REPEAT`. -/
def repeats : ℕ := 10

/-- `N` of `brcast_cmd_to_multi`. -/
def batch : ℕ := 256

/-- The reply of a command with its ending `\0`, or another block of data to broadcast. -/
structure Payload where
  bytes : List Byte
  fits : bytes.length ≤ cmdMax

/-- What `run_brcast` works on, with the number of copies it has sent. -/
structure Task where
  ucmd : PackUcmd
  sent : ℕ

structure Server where
  seq : ℕ
  tasks : List Task

/-! ## Packing -/

/-- `__make_brcmd_all`. -/
def makeBrcmdAll (seq : ℕ) (data : Payload) : PackUcmd where
  seq := seq
  mode := .all
  data := data.bytes

/-- The packet of `brcast_cmd_to_tag_all`; the tag is cut to a byte. -/
def makeBrcmdTag (seq : ℕ) (rep : Payload) (tagid : ℤ) : PackUcmd where
  seq := seq
  mode := .tag (BitVec.ofInt 8 tagid)
  data := rep.bytes

/-- `make_brcmd_multi`: the number of ids, the ids, and the reply. -/
def makeBrcmdMulti (seq : ℕ) (rep : Payload) (ids : List ℤ) : PackUcmd where
  seq := seq
  mode := .multi
  data := intBytes ids.length ++ ids.flatMap intBytes ++ rep.bytes

/-! ## Broadcasting -/

/-- `async_brcast`: what is too long is not sent. -/
def asyncBrcast (s : Server) (u : PackUcmd) : Server :=
  if cmdMax - 100 < u.size then s else { s with tasks := s.tasks ++ [{ ucmd := u, sent := 0 }] }

/-- `++ seq`, and the packet made with it is broadcast. -/
def brcastUcmd (s : Server) (make : ℕ → PackUcmd) : Server :=
  asyncBrcast { s with seq := s.seq + 1 } (make (s.seq + 1))

/-- `brcast_data_to_all`, and `brcast_cmd_to_all`. -/
def brcastDataToAll (s : Server) (data : Payload) : Server :=
  brcastUcmd s fun seq => makeBrcmdAll seq data

/-- `brcast_cmd_to_tag_all`. -/
def brcastCmdToTagAll (s : Server) (rep : Payload) (tagid : ℤ) : Server :=
  brcastUcmd s fun seq => makeBrcmdTag seq rep tagid

/-- The ids in batches of `batch`, and the rest of them. -/
def batches (ids : List ℤ) : List (List ℤ) :=
  let m := ids.length / batch
  ((List.range m).map fun i => (ids.drop (i * batch)).take batch) ++
    if ids.length % batch ≠ 0 then [ids.drop (m * batch)] else []

/-- `brcast_cmd_to_multi`. -/
def brcastCmdToMulti (s : Server) (rep : Payload) (ids : List ℤ) : Server :=
  (batches ids).foldl (fun s l => brcastUcmd s fun seq => makeBrcmdMulti seq rep l) s

/-! ## What the packets are -/

/-- A packet that `brcmd.c` makes. -/
inductive Made : PackUcmd → Prop
  | all (seq : ℕ) (data : Payload) : Made (makeBrcmdAll seq data)
  | tag (seq : ℕ) (rep : Payload) (tagid : ℤ) : Made (makeBrcmdTag seq rep tagid)
  | multi (seq : ℕ) (rep : Payload) {ids : List ℤ} (h : ids.length ≤ batch) :
      Made (makeBrcmdMulti seq rep ids)

theorem batches_length {ids l : List ℤ} (h : l ∈ batches ids) : l.length ≤ batch := by
  unfold batches at h
  rcases List.mem_append.mp h with h | h
  · obtain ⟨i, -, rfl⟩ := List.mem_map.mp h
    exact List.length_take_le _ _
  · split_ifs at h with hrest
    · rw [List.mem_singleton.mp h, List.length_drop, ← Nat.mod_eq_sub_div_mul]
      exact (Nat.mod_lt _ (by decide)).le
    · cases h

/-- Broadcasting adds a task, or none. -/
theorem brcastUcmd_tasks (s : Server) (make : ℕ → PackUcmd) :
    ∃ l, (brcastUcmd s make).tasks = s.tasks ++ l ∧ ∀ t ∈ l, t.ucmd = make (s.seq + 1) := by
  unfold brcastUcmd asyncBrcast
  split_ifs
  · exact ⟨[], (List.append_nil _).symm, fun t ht => by cases ht⟩
  · exact ⟨_, rfl, fun t ht => by rw [List.mem_singleton.mp ht]⟩

theorem brcastCmdToMulti_tasks (s : Server) (rep : Payload) (ids : List ℤ) :
    ∃ l, (brcastCmdToMulti s rep ids).tasks = s.tasks ++ l ∧ ∀ t ∈ l, Made t.ucmd := by
  unfold brcastCmdToMulti
  have hlen : ∀ l ∈ batches ids, l.length ≤ batch := fun l => batches_length
  generalize batches ids = ls at hlen
  induction ls generalizing s with
  | nil => exact ⟨[], (List.append_nil _).symm, fun t ht => by cases ht⟩
  | cons b ls ih =>
    obtain ⟨l₁, h₁, hm₁⟩ := brcastUcmd_tasks s fun seq => makeBrcmdMulti seq rep b
    obtain ⟨l₂, h₂, hm₂⟩ := ih (brcastUcmd s fun seq => makeBrcmdMulti seq rep b)
      fun l hl => hlen l (List.mem_cons_of_mem b hl)
    refine ⟨l₁ ++ l₂, ?_, fun t ht => ?_⟩
    · rw [List.foldl_cons, h₂, h₁, List.append_assoc]
    · rcases List.mem_append.mp ht with ht | ht
      · rw [hm₁ t ht]
        exact .multi _ _ (hlen b List.mem_cons_self)
      · exact hm₂ t ht

end GSConferencing.Serv.Brcmd
