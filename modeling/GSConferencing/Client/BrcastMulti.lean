import GSConferencing.Client.Brcast

/-!
# Commands to several clients

* `batches_flatten`: the batches of `brcast_cmd_to_multi` are the ids, in order.
* `multi_dispatch`: a client that takes each packet once executes the reply once if it is one of
  the clients that are meant, and else not at all.
-/

namespace GSConferencing.Client.BrcastMulti

open GSConferencing.Include.Pack GSConferencing.Client.Recent GSConferencing.Serv.Brcmd
open GSConferencing.Client.Brcast

/-! ## Batches -/

theorem flatten_batches_take (ids : List ℤ) (m : ℕ) :
    ((List.range m).map fun i => (ids.drop (i * batch)).take batch).flatten =
      ids.take (m * batch) := by
  induction m with
  | zero => simp
  | succ m ih =>
    rw [List.range_succ, List.map_append, List.flatten_append, ih, List.map_singleton,
      List.flatten_singleton, Nat.succ_mul, List.take_add]

/-- Every id is in exactly one batch. -/
theorem batches_flatten (ids : List ℤ) : (batches ids).flatten = ids := by
  unfold batches
  rw [List.flatten_append, flatten_batches_take]
  split_ifs with hrest
  · rw [List.flatten_singleton, List.take_append_drop]
  · have hlen : ids.length / batch * batch = ids.length :=
      Nat.div_mul_cancel (Nat.dvd_of_mod_eq_zero (not_not.mp hrest))
    rw [hlen, List.flatten_nil, List.append_nil, List.take_length]

/-- Of lists without common elements, one has an element of all of them. -/
theorem length_filter_mem {α : Type*} [DecidableEq α] {ls : List (List α)} (x : α)
    (h : ls.flatten.Nodup) :
    (ls.filter fun l => x ∈ l).length = if x ∈ ls.flatten then 1 else 0 := by
  induction ls with
  | nil => rfl
  | cons l ls ih =>
    rw [List.flatten_cons, List.nodup_append] at h
    obtain ⟨-, hls, hdisj⟩ := h
    rw [List.flatten_cons, List.filter_cons]
    by_cases hx : x ∈ l
    · have hout : x ∉ ls.flatten := fun h' => hdisj x hx x h' rfl
      rw [if_pos (decide_eq_true hx), if_pos (List.mem_append_left _ hx), List.length_cons, ih hls,
        if_neg hout]
    · have hiff : x ∈ l ++ ls.flatten ↔ x ∈ ls.flatten := by
        rw [List.mem_append, or_iff_right hx]
      rw [if_neg (by simpa using hx), ih hls, if_congr hiff rfl rfl]

/-! ## The packets -/

/-- The packets of the tasks that `brcast_cmd_to_multi` adds. -/
def multiPackets (s : Server) (rep : Payload) (ids : List ℤ) : List PackUcmd :=
  ((brcastCmdToMulti s rep ids).tasks.drop s.tasks.length).map Task.ucmd

/-- The size of a packet for the ids `l`. -/
def multiSize (rep : Payload) (l : List ℤ) : ℕ := ucmdHead + (4 + l.length * 4 + rep.bytes.length)

theorem size_makeBrcmdMulti (seq : ℕ) (rep : Payload) (l : List ℤ) :
    (makeBrcmdMulti seq rep l).size = multiSize rep l := by
  unfold PackUcmd.size makeBrcmdMulti multiSize
  rw [List.length_append, List.length_append, length_intBytes, length_flatMap_intBytes]

/-- The packets for the batches `ls`; each takes the next number. -/
def packetsFrom (seq : ℕ) (rep : Payload) : List (List ℤ) → List PackUcmd
  | [] => []
  | l :: ls => makeBrcmdMulti (seq + 1) rep l :: packetsFrom (seq + 1) rep ls

theorem brcastUcmd_fits {s : Server} {make : ℕ → PackUcmd}
    (h : (make (s.seq + 1)).size ≤ cmdMax - 100) :
    brcastUcmd s make =
      { seq := s.seq + 1, tasks := s.tasks ++ [{ ucmd := make (s.seq + 1), sent := 0 }] } := by
  unfold brcastUcmd asyncBrcast
  exact if_neg (by omega)

/-- Every batch is packed and sent, if it is not too long. -/
theorem multiPackets_eq (s : Server) {rep : Payload} {ids : List ℤ}
    (h : ∀ l ∈ batches ids, multiSize rep l ≤ cmdMax - 100) :
    multiPackets s rep ids = packetsFrom s.seq rep (batches ids) := by
  have htasks : ∀ (ls : List (List ℤ)) (s : Server), (∀ l ∈ ls, multiSize rep l ≤ cmdMax - 100) →
      (ls.foldl (fun s l => brcastUcmd s fun seq => makeBrcmdMulti seq rep l) s).tasks =
        s.tasks ++ (packetsFrom s.seq rep ls).map fun u => { ucmd := u, sent := 0 } := by
    intro ls
    induction ls with
    | nil => exact fun s _ => (List.append_nil _).symm
    | cons l ls ih =>
      intro s hls
      have hfit : (makeBrcmdMulti (s.seq + 1) rep l).size ≤ cmdMax - 100 := by
        rw [size_makeBrcmdMulti]
        exact hls l List.mem_cons_self
      rw [List.foldl_cons, brcastUcmd_fits hfit, ih _ fun l' hl' => hls l' (.tail l hl')]
      simp [packetsFrom]
  unfold multiPackets brcastCmdToMulti
  rw [htasks _ _ h, List.drop_left, List.map_map]
  exact List.map_id _

/-! ## One delivery of each -/

/-- The packets reach the client one after the other; the texts that it executes. -/
def deliver (c : Receiver) : List PackUcmd → Option (List (List Byte) × Receiver)
  | [] => some ([], c)
  | u :: us => (handleBrcastCmd c u).bind fun (text, c) =>
      (deliver c us).map fun (texts, c) => (text.toList ++ texts, c)

/-- No packet has a number that the client still remembers when it arrives. -/
def Fresh (c : Receiver) : List PackUcmd → Prop
  | [] => True
  | u :: us => u.seq ∉ c.recentUcmd.contents ∧
      Fresh { c with recentUcmd := c.recentUcmd.add u.seq } us

/-- Packets with numbers of their own, none of which the client remembers. -/
theorem fresh_of_nodup {c : Receiver} {us : List PackUcmd}
    (hnew : ∀ u ∈ us, u.seq ∉ c.recentUcmd.contents) (hnodup : (us.map PackUcmd.seq).Nodup) :
    Fresh c us := by
  induction us generalizing c with
  | nil => trivial
  | cons u us ih =>
    rw [List.map_cons, List.nodup_cons] at hnodup
    refine ⟨hnew u List.mem_cons_self, ih (fun u' hu' hin => ?_) hnodup.2⟩
    have hin' := List.mem_of_mem_take (contents_add c.recentUcmd u.seq ▸ hin)
    rcases List.mem_cons.mp hin' with heq | hold
    · exact hnodup.1 (heq ▸ List.mem_map_of_mem hu')
    · exact hnew u' (.tail u hu') hold

/-- The text of a packet does not depend on what the client remembers. -/
theorem ucmdText_recent (c : Receiver) (r : RecentInfo (BitVec 16) 3) (u : PackUcmd) :
    ucmdText { c with recentUcmd := r } u = ucmdText c u := rfl

/-- A client executes the reply as often as a packet with it is meant for the client. -/
theorem deliver_spec {rep : List Byte} {us : List PackUcmd} {c : Receiver}
    (htext : ∀ u ∈ us, ucmdText c u = some (some rep) ∨ ucmdText c u = some none)
    (hfresh : Fresh c us) : ∃ c', deliver c us =
      some (List.replicate (us.countP fun u => ucmdText c u = some (some rep)) rep, c') := by
  induction us generalizing c with
  | nil => exact ⟨c, rfl⟩
  | cons u us ih =>
    obtain ⟨hnew, hfresh⟩ := hfresh
    obtain ⟨c', hc'⟩ := ih (c := { c with recentUcmd := c.recentUcmd.add u.seq })
      (fun u' hu' => htext u' (.tail u hu')) hfresh
    simp only [ucmdText_recent] at hc'
    have htest : recentTest c.recentUcmd u.seq = (false, c.recentUcmd.add u.seq) := if_neg hnew
    refine ⟨c', ?_⟩
    unfold deliver handleBrcastCmd
    rw [htest, List.countP_cons]
    rcases htext u List.mem_cons_self with h | h
    · simp only [h, Option.map_some, Option.bind_some, hc', decide_true, if_true]
      rw [List.replicate_succ]
      rfl
    · have hno : (some none : Option (Option (List Byte))) ≠ some (some rep) := by simp
      simp only [h, Option.map_some, Option.bind_some, hc', decide_eq_true_eq, if_neg hno]
      rfl

/-- The packets for a client are those of the batches it is in. -/
theorem countP_packetsFrom {rep : Payload} {ls : List (List ℤ)} (c : Receiver) (seq : ℕ)
    (hlen : ∀ l ∈ ls, l.length ≤ batch) (hint : ∀ l ∈ ls, l.map int32 = l) :
    ((packetsFrom seq rep ls).countP fun u => ucmdText c u = some (some rep.bytes)) =
      (ls.filter fun l => c.id ∈ l).length := by
  induction ls generalizing seq with
  | nil => rfl
  | cons l ls ih =>
    have htext := ucmdText_multi (c := c) (seq + 1) rep (hlen l List.mem_cons_self)
    rw [hint l List.mem_cons_self] at htext
    rw [packetsFrom, List.countP_cons, List.filter_cons,
      ih (seq + 1) (fun l' hl' => hlen l' (.tail l hl')) fun l' hl' => hint l' (.tail l hl'), htext]
    by_cases hid : c.id ∈ l
    · rw [if_pos hid, if_pos (decide_eq_true rfl), if_pos (decide_eq_true hid)]
      rfl
    · rw [if_neg hid, if_neg (by simp), if_neg (by simpa using hid)]
      rfl

theorem ucmdText_packetsFrom {rep : Payload} {ls : List (List ℤ)} (c : Receiver) (seq : ℕ)
    (hlen : ∀ l ∈ ls, l.length ≤ batch) : ∀ u ∈ packetsFrom seq rep ls,
      ucmdText c u = some (some rep.bytes) ∨ ucmdText c u = some none := by
  induction ls generalizing seq with
  | nil => exact fun u hu => by cases hu
  | cons l ls ih =>
    intro u hu
    rcases List.mem_cons.mp hu with rfl | hu
    · rw [ucmdText_multi (seq + 1) rep (hlen l List.mem_cons_self)]
      split_ifs
      · exact .inl rfl
      · exact .inr rfl
    · exact ih (seq + 1) (fun l' hl' => hlen l' (.tail l hl')) u hu

/-- **A command to several clients** whose packets arrive once each, in any order, at a client that
does not remember their numbers, is executed once if the client is among them, with exactly the
reply, and else not at all. -/
theorem multi_dispatch (s : Server) {rep : Payload} {ids : List ℤ} (hnodup : ids.Nodup)
    (hint : ∀ x ∈ ids, -2 ^ 31 ≤ x ∧ x < 2 ^ 31)
    (hfit : ∀ l ∈ batches ids, multiSize rep l ≤ cmdMax - 100) {c : Receiver}
    {us : List PackUcmd} (hperm : us.Perm (multiPackets s rep ids)) (hfresh : Fresh c us) :
    ∃ c', deliver c us = some (if c.id ∈ ids then [rep.bytes] else [], c') := by
  rw [multiPackets_eq s hfit] at hperm
  have hlen : ∀ l ∈ batches ids, l.length ≤ batch := fun l => batches_length
  have hids : ∀ l ∈ batches ids, l.map int32 = l := by
    intro l hl
    refine (List.map_congr_left fun x hx => ?_).trans (List.map_id l)
    have hx' : x ∈ ids := by
      rw [← batches_flatten ids]
      exact List.mem_flatten_of_mem hl hx
    exact int32_eq (hint x hx').1 (hint x hx').2
  have htext : ∀ u ∈ us, ucmdText c u = some (some rep.bytes) ∨ ucmdText c u = some none :=
    fun u hu => ucmdText_packetsFrom c s.seq hlen u (hperm.mem_iff.mp hu)
  obtain ⟨c', hc'⟩ := deliver_spec htext hfresh
  refine ⟨c', ?_⟩
  have hflat : (batches ids).flatten.Nodup := by
    rw [batches_flatten]
    exact hnodup
  rw [hc', hperm.countP_eq, countP_packetsFrom c s.seq hlen hids,
    length_filter_mem c.id hflat, batches_flatten]
  split_ifs <;> rfl

/-- A text of one byte. -/
def letter : Payload where
  bytes := [65]
  fits := by decide

/-- The client 102. -/
def second : Receiver where
  id := 102
  tagId := 1
  recentUcmd := .new 0

theorem multi_dispatch_second : ∃ c', deliver second
    (multiPackets { seq := 0, tasks := [] } letter [101, 102]) = some ([[65]], c') := by
  have hperm := List.Perm.refl (multiPackets { seq := 0, tasks := [] } letter [101, 102])
  exact multi_dispatch { seq := 0, tasks := [] } (by decide) (by decide) (by decide) hperm
    (fresh_of_nodup (by decide) (by decide))

end GSConferencing.Client.BrcastMulti
