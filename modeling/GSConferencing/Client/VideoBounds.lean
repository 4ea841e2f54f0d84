import GSConferencing.Client.Video

/-!
# Where video fragments are copied to

The `memcpy` of `video_recved` with its arguments.  The size of the frame, the place of the fragment
and its length are three fields of the datagram, and no two of them are compared.

* `videoRecved_isSome`: `Video.videoRecved` has no result where the copy leaves the memory.
* `contained_iff`: the datagrams whose copy is inside the frame.
* `behind_frame`: a fragment that starts where the frame ends.
-/

namespace GSConferencing.Client.VideoBounds

open GSConferencing.Include.Pack GSConferencing.Client.Video

/-- `pack->data[i]`; the data of the datagram, and what is behind them in the buffer. -/
def dataByte (pack : PackData) (behind : ℕ → Byte) (i : ℕ) : Byte := pack.data.getD i (behind i)

/-- `off`, of the first 4 bytes of the data. -/
def offField (pack : PackData) (behind : ℕ → Byte) : ℤ :=
  let b := dataByte pack behind
  (htonl (b 3 ++ b 2 ++ b 1 ++ b 0 : BitVec 32)).toInt

/-- `memcpy(frame+off, pack->data+src, count)`, for a frame of `fsize` bytes.  As a `size_t` a
negative count is a very large one. -/
structure Copy where
  off : ℤ
  src : ℕ
  count : ℤ
  fsize : ℤ

/-- The copy that `video_recved` makes of a datagram that passes the check of its size. -/
def videoCopy (r : Receiver) (pack : PackData) (behind : ℕ → Byte) : Option Copy :=
  if pack.size ≠ pack.len then none
  else some
    { off := offField pack behind
      src := 4
      count := pack.datalen.toNat - 4
      fsize := ((r.turn pack.tag).grow pack.seq.toInt).fsize }

/-- The bytes that are copied. -/
def Copy.bytes (c : Copy) (pack : PackData) (behind : ℕ → Byte) : List Byte :=
  (List.range c.count.toNat).map fun i => dataByte pack behind (c.src + i)

/-- The bytes behind the offset are copied into the frame. -/
structure Copy.Inside (c : Copy) (pack : PackData) (behind : ℕ → Byte) : Prop where
  bytes : c.bytes pack behind = pack.data.drop 4
  count : 0 ≤ c.count
  inside : ∀ i, 0 ≤ i → i < c.count → 0 ≤ c.off + i ∧ c.off + i < c.fsize

/-- The datagram is dropped, or copied into the frame. -/
def Contained (r : Receiver) (pack : PackData) (behind : ℕ → Byte) : Prop :=
  ∀ c, videoCopy r pack behind = some c → c.Inside pack behind

/-- There is an offset, and the bytes behind it, if any, have room in the frame that was there or in
the one that the datagram tells of. -/
def Fits (r : Receiver) (pack : PackData) (behind : ℕ → Byte) : Prop :=
  pack.size = pack.len → 4 ≤ pack.datalen.toNat ∧ (4 < pack.datalen.toNat →
    0 ≤ offField pack behind ∧
      offField pack behind + (pack.datalen.toNat - 4) ≤ max r.fsize pack.seq.toInt)

section Datagram
variable {r : Receiver} {pack : PackData} {behind : ℕ → Byte} {c : Copy}

theorem fsize_grow (r : Receiver) (tag : Byte) (size : ℤ) :
    ((r.turn tag).grow size).fsize = max r.fsize size := by
  have hturn : (r.turn tag).fsize = r.fsize := by
    unfold Receiver.turn
    split <;> rfl
  have hpos : 0 ≤ r.fsize := Int.natCast_nonneg _
  unfold Receiver.grow
  rw [hturn]
  split_ifs with h
  · have hlen : ((r.turn tag).frame.length : ℤ) = r.fsize := hturn
    rw [max_eq_right h.le]
    show (((r.turn tag).frame ++ List.replicate (size - r.fsize).toNat none).length : ℤ) = size
    rw [List.length_append, List.length_replicate, Nat.cast_add, hlen]
    omega
  · rw [hturn, max_eq_left (Int.not_lt.mp h)]

/-- What passes the check has as many bytes of data as it says. -/
theorem length_data (h : pack.size = pack.len) : pack.data.length = pack.datalen.toNat :=
  (Nat.add_left_cancel h).symm

theorem videoCopy_eq (h : pack.size = pack.len) (behind : ℕ → Byte) :
    videoCopy r pack behind = some
      { off := offField pack behind
        src := 4
        count := pack.datalen.toNat - 4
        fsize := max r.fsize pack.seq.toInt } := by
  unfold videoCopy
  rw [if_neg (not_not.mpr h), fsize_grow]

/-- With an offset in front of them the bytes behind it are copied. -/
theorem bytes_copy (h : pack.size = pack.len) (h4 : 4 ≤ pack.datalen.toNat)
    (hsrc : c.src = 4) (hcount : c.count = pack.datalen.toNat - 4) :
    c.bytes pack behind = pack.data.drop 4 := by
  have hlen := length_data h
  have hn : c.count.toNat = pack.datalen.toNat - 4 := by omega
  refine List.ext_getElem? fun i => ?_
  unfold Copy.bytes dataByte
  rw [hn, hsrc, List.getElem?_map, List.getElem?_drop]
  by_cases hi : i < pack.datalen.toNat - 4
  · have hin : 4 + i < pack.data.length := by omega
    rw [List.getElem?_range hi, Option.map_some, List.getD_eq_getElem _ _ hin,
      List.getElem?_eq_getElem hin]
  · rw [List.getElem?_eq_none (by rw [List.length_range]; omega), Option.map_none,
      List.getElem?_eq_none (by omega)]

/-- **The copy is inside the frame** for the datagrams that fit, and for no others. -/
theorem contained_iff (r : Receiver) (pack : PackData) (behind : ℕ → Byte) :
    Contained r pack behind ↔ Fits r pack behind := by
  unfold Contained Fits
  by_cases h : pack.size = pack.len
  swap
  · have hdrop : videoCopy r pack behind = none := if_pos h
    exact ⟨fun _ hn => absurd hn h, fun _ c hc => by rw [hdrop] at hc; cases hc⟩
  rw [videoCopy_eq h]
  constructor
  · intro hall _
    obtain ⟨-, hcount, hinside⟩ := hall _ rfl
    simp only [] at hcount hinside
    refine ⟨by omega, fun h4 => ?_⟩
    have hfirst := hinside 0 le_rfl (by omega)
    have hlast := hinside (pack.datalen.toNat - 4 - 1) (by omega) (by omega)
    omega
  · rintro hfit c hc
    obtain ⟨h4, hroom⟩ := hfit h
    cases hc
    refine ⟨bytes_copy h h4 rfl rfl, ?_, fun i hi hlt => ?_⟩
    · show (0 : ℤ) ≤ pack.datalen.toNat - 4
      omega
    · simp only [] at hlt ⊢
      have := hroom (by omega)
      omega

/-- The offset is what `Video.videoRecved` reads. -/
theorem readU32_data (h4 : 4 ≤ pack.data.length) (behind : ℕ → Byte) :
    ∃ x, readU32 pack.data = some x ∧ (htonl x).toInt = offField pack behind := by
  unfold offField dataByte
  match hd : pack.data, h4 with
  | a :: b :: c :: d :: l, _ => exact ⟨_, rfl, rfl⟩

/-- **`Video.videoRecved` has a result** if the copy stays in the memory. -/
theorem videoRecved_isSome (hc : videoCopy r pack behind = some c) :
    (videoRecved r pack pack.len).isSome ↔
      0 ≤ c.count ∧ 0 ≤ c.off ∧ c.off + c.count ≤ c.fsize := by
  have h : pack.size = pack.len := by
    by_contra hn
    rw [videoCopy, if_pos hn] at hc
    cases hc
  have hlen := length_data h
  rw [videoCopy_eq h, Option.some.injEq] at hc
  subst hc
  unfold videoRecved
  rw [if_neg (not_not.mpr h)]
  by_cases h4 : 4 ≤ pack.data.length
  · obtain ⟨x, hx, hoff⟩ := readU32_data h4 behind
    have hfs : (((r.turn pack.tag).grow pack.seq.toInt).frame.length : ℤ) =
        max r.fsize pack.seq.toInt := fsize_grow r pack.tag pack.seq.toInt
    rw [hx]
    simp only [memcpy, hoff, hfs, List.length_drop]
    by_cases hin : 0 ≤ offField pack behind ∧
        offField pack behind + ((pack.data.length - 4 : ℕ) : ℤ) ≤ max r.fsize pack.seq.toInt
    · rw [if_pos hin]
      refine ⟨fun _ => ?_, fun _ => rfl⟩
      omega
    · rw [if_neg hin]
      refine ⟨nofun, fun hn => absurd ?_ hin⟩
      omega
  · have hshort : readU32 pack.data = none := by
      match hd : pack.data, h4 with
      | [], _ => rfl
      | [_], _ => rfl
      | [_, _], _ => rfl
      | [_, _, _], _ => rfl
      | _ :: _ :: _ :: _ :: _, h4 => exact absurd (by simp) h4
    rw [hshort]
    refine ⟨nofun, fun hn => ?_⟩
    simp only [] at hn
    omega

end Datagram

/-- **A fragment of 4 bytes at 4** of a frame of 4 bytes, in host order. -/
def overrun : PackData := ⟨1, 4, PackType.video.val, 1, 8, [0, 0, 0, 4, 1, 2, 3, 4]⟩

theorem behind_frame : ¬ Contained Receiver.init overrun fun _ => 0 := by
  intro h
  have hin := (h _ (videoCopy_eq rfl _)).inside 0 le_rfl (by decide)
  exact absurd hin.2 (by decide)

end GSConferencing.Client.VideoBounds
