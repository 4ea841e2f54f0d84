import GSConferencing.Include.Encode
import GSConferencing.Lib.Memory

/-!
# The cipher in its buffers

`encode.h` with the buffers it writes to: `xor_crypt` works in place, with a pointer that goes
through the data and an index that goes round the key.

* `xorCrypt_eq`: what `xor_crypt` leaves in the buffer is what it is in `Encode`.
* `xorCrypt_xorCrypt`: it takes back what it has done.
* `encode_eq`, `decode_eq`: the buffers after the calls.
* `cipher_roundTrip`: what was encoded is decoded, in every buffer.
-/

namespace GSConferencing.Include.EncodeBuf

open GSConferencing.Include.Pack GSConferencing.Include.Encode GSConferencing.Lib.Memory

/-- The loop of `xor_crypt` for `len` bytes from `p` on, at byte `k` of the key; a byte that is not
there cannot be read. -/
def xorBytes (key : List Byte) : ℕ → ℕ → ℕ → List Byte → Option (List Byte)
  | 0, _, _, buf => some buf
  | len + 1, k, p, buf => do
    let x ← buf[p]?
    let y ← key[k]?
    xorBytes key len ((k + 1) &&& (keyLen - 1)) (p + 1) (buf.set p (x ^^^ y))

/-- `xor_crypt(buf + p, len, keyindex)`. -/
def xorCrypt (buf : List Byte) (p len keyindex : ℕ) : Option (List Byte) := do
  let key ← keydata[keyindex]?
  xorBytes key len 0 p buf

/-- `encode`, with the salt that `rand()` yields: `out` afterwards, and what is returned. -/
def encode (salt : Byte) (out data : List Byte) (len : ℕ) : Option (List Byte × ℕ) :=
  if out.length < len + 1 ∨ data.length < len then none
  else
    let out := overwrite out 0 [salt]
    let out := overwrite out 1 (data.take len)
    (xorCrypt out 1 len (saltToKey salt)).map fun out => (out, len + 1)

/-- `decode`; `memcpy` of fewer than no bytes has no result. -/
def decode (out data : List Byte) (len : ℕ) : Option (List Byte × ℕ) := do
  let salt ← data[0]?
  if len = 0 ∨ data.length < len ∨ out.length < len - 1 then none
  else
    let out := overwrite out 0 (part data 1 (len - 1))
    (xorCrypt out 0 (len - 1) (saltToKey salt)).map fun out => (out, len - 1)

variable {key buf out data back : List Byte} {salt : Byte} {len keyindex k p : ℕ}

/-! ## In place -/

theorem key_length : ∀ key ∈ keydata, key.length = keyLen := by decide

theorem saltToKey_lt (salt : Byte) : saltToKey salt < keydata.length := by
  have hand : saltToKey salt ≤ 7 := by
    unfold saltToKey
    rw [BitVec.toNat_and]
    exact Nat.and_le_right
  exact Nat.lt_succ_of_le hand

/-- The index stays within the key. -/
theorem next_lt (k : ℕ) : (k + 1) &&& (keyLen - 1) < keyLen :=
  Nat.lt_succ_of_le (Nat.and_le_right : (k + 1) &&& (keyLen - 1) ≤ keyLen - 1)

/-- **The loop** goes through the bytes from `p` on, and leaves the others as they are. -/
theorem xorBytes_eq (hkey : key.length = keyLen) (hk : k < keyLen)
    (h : p + len ≤ buf.length) :
    xorBytes key len k p buf = some (overwrite buf p (xorLoop key k (part buf p len))) := by
  induction len generalizing k p buf with
  | zero =>
    rw [part_zero, xorLoop, overwrite_nil]
    rfl
  | succ len ih =>
    obtain ⟨x, hx⟩ : ∃ x, buf[p]? = some x := ⟨_, List.getElem?_eq_getElem (by omega)⟩
    have hy : key[k]? = some (key.getD k 0) := by
      rw [List.getD_eq_getElem?_getD, List.getElem?_eq_getElem (by omega)]
      rfl
    have hlast : p + [x ^^^ key.getD k 0].length ≤ buf.length := by
      rw [List.length_singleton]
      omega
    have hrest : part (overwrite buf p [x ^^^ key.getD k 0]) (p + 1) len = part buf (p + 1) len :=
      part_overwrite_out hlast (.inr le_rfl)
    rw [xorBytes, hx, hy, Option.bind_eq_bind, Option.bind_some, Option.bind_some,
      set_eq_overwrite (by omega), ih (next_lt k) (by rw [length_overwrite hlast]; omega), hrest,
      part_succ hx, xorLoop]
    exact congrArg some (overwrite_overwrite hlast)

/-- **`xor_crypt`** in place is what it is in `Encode`. -/
theorem xorCrypt_eq (hkey : keyindex < keydata.length) (h : p + len ≤ buf.length) :
    xorCrypt buf p len keyindex =
      some (overwrite buf p (Encode.xorCrypt (part buf p len) keyindex)) := by
  have hget : keydata[keyindex]? = some (keydata.getD keyindex []) := by
    rw [List.getD_eq_getElem?_getD, List.getElem?_eq_getElem hkey]
    rfl
  have hlen : (keydata.getD keyindex []).length = keyLen :=
    key_length _ (List.mem_of_getElem? hget)
  rw [xorCrypt, hget, Option.bind_eq_bind, Option.bind_some, xorBytes_eq hlen (by decide) h]
  rfl

theorem length_xorCrypt (data : List Byte) (keyindex : ℕ) :
    (Encode.xorCrypt data keyindex).length = data.length := length_xorLoop _ _ _

theorem crypt_crypt (data : List Byte) (keyindex : ℕ) :
    Encode.xorCrypt (Encode.xorCrypt data keyindex) keyindex = data := xorLoop_xorLoop _ _ _

/-- **`xor_crypt`** takes back what it has done. -/
theorem xorCrypt_xorCrypt (hkey : keyindex < keydata.length) (h : p + len ≤ buf.length) :
    ∃ buf', xorCrypt buf p len keyindex = some buf' ∧ xorCrypt buf' p len keyindex = some buf := by
  set crypted := Encode.xorCrypt (part buf p len) keyindex with hcrypted
  have hlen : crypted.length = len := by rw [hcrypted, length_xorCrypt, length_part h]
  have hfit : p + crypted.length ≤ buf.length := by omega
  have hpart : part (overwrite buf p crypted) p len = crypted := by
    have hself := part_overwrite_self hfit
    rwa [hlen] at hself
  refine ⟨overwrite buf p crypted, xorCrypt_eq hkey h, ?_⟩
  rw [xorCrypt_eq hkey (by rw [length_overwrite hfit]; exact h), hpart, hcrypted, crypt_crypt,
    overwrite_again (hcrypted ▸ hfit) (by rw [length_xorCrypt]), overwrite_part h]

/-! ## From buffer to buffer -/

/-- **`encode`** puts the salt and the bytes at the front of the buffer. -/
theorem encode_eq (hout : len + 1 ≤ out.length) (hdata : len ≤ data.length) :
    encode salt out data len =
      some (overwrite out 0 (Encode.encode salt (data.take len)), len + 1) := by
  have htake : (data.take len).length = len := List.length_take_of_le hdata
  have hsalt : 0 + [salt].length ≤ out.length := by
    rw [List.length_singleton]
    omega
  have hlen : (overwrite out 0 [salt]).length = out.length := length_overwrite hsalt
  have hcopy : 1 + (data.take len).length ≤ (overwrite out 0 [salt]).length := by omega
  have hpart : part (overwrite (overwrite out 0 [salt]) 1 (data.take len)) 1 len =
      data.take len := by
    have hself := part_overwrite_self hcopy
    rwa [htake] at hself
  unfold encode
  rw [if_neg (by omega)]
  simp only []
  rw [xorCrypt_eq (saltToKey_lt salt) (by rw [length_overwrite hcopy]; omega), hpart,
    overwrite_again hcopy (length_xorCrypt _ _).symm, Option.map_some]
  exact congrArg (fun l => some (l, len + 1)) (overwrite_overwrite hsalt)

/-- **`decode`** puts the bytes behind the salt at the front of the buffer. -/
theorem decode_eq (hlen : 0 < len) (hdata : len ≤ data.length) (hout : len - 1 ≤ out.length) :
    decode out data len = some (overwrite out 0 (Encode.decode (data.take len)), len - 1) := by
  obtain ⟨n, rfl⟩ : ∃ n, len = n + 1 := ⟨len - 1, by omega⟩
  obtain ⟨salt, rest, rfl⟩ : ∃ salt rest, data = salt :: rest :=
    List.exists_cons_of_ne_nil (List.length_pos_iff.mp (by omega))
  rw [List.length_cons] at hdata
  have hpart : part (salt :: rest) 1 n = rest.take n := rfl
  have htake : (rest.take n).length = n := List.length_take_of_le (by omega)
  have hcopy : 0 + (rest.take n).length ≤ out.length := by omega
  have hself : part (overwrite out 0 (rest.take n)) 0 n = rest.take n := by
    have hself := part_overwrite_self hcopy
    rwa [htake] at hself
  rw [decode, List.getElem?_cons_zero, Option.bind_eq_bind, Option.bind_some,
    if_neg (by rw [List.length_cons]; omega), Nat.add_sub_cancel, hpart]
  simp only []
  rw [xorCrypt_eq (saltToKey_lt salt) (by rw [length_overwrite hcopy]; omega), hself,
    overwrite_again hcopy (length_xorCrypt _ _).symm]
  rfl

/-- **What was encoded is decoded,** in every buffer that has room for it: `encode` makes it one
byte longer, `decode` gives the bytes and the length back, and both leave the rest of their buffers
as it is; `xor_crypt` with one key index is its own inverse. -/
theorem cipher_roundTrip (salt : Byte) (hdata : len ≤ data.length) (hout : len + 1 ≤ out.length)
    (hback : len ≤ back.length) :
    (∃ out', encode salt out data len = some (out', len + 1) ∧
      out'.drop (len + 1) = out.drop (len + 1) ∧
      ∃ back', decode back out' (len + 1) = some (back', len) ∧ back'.take len = data.take len ∧
        back'.drop len = back.drop len) ∧
    ∀ keyindex < 8, ∀ (buf : List Byte) (p n : ℕ), p + n ≤ buf.length →
      ∃ buf', xorCrypt buf p n keyindex = some buf' ∧ xorCrypt buf' p n keyindex = some buf := by
  have htake : (data.take len).length = len := List.length_take_of_le hdata
  have hlen : (Encode.encode salt (data.take len)).length = len + 1 := by
    rw [length_encode, htake]
  have hfit : 0 + (Encode.encode salt (data.take len)).length ≤ out.length := by omega
  have hsent : (overwrite out 0 (Encode.encode salt (data.take len))).take (len + 1) =
      Encode.encode salt (data.take len) := by
    rw [take_overwrite_zero hlen.le, hlen, List.drop_take_self, List.append_nil]
  have hfit' : 0 + (data.take len).length ≤ back.length := by omega
  refine ⟨⟨_, encode_eq hout hdata, drop_overwrite hfit (by omega),
    overwrite back 0 (data.take len), ?_, ?_, drop_overwrite hfit' (by omega)⟩,
    fun keyindex hkey buf p n h => xorCrypt_xorCrypt hkey h⟩
  · have hpos : 0 < len + 1 := Nat.succ_pos len
    rw [decode_eq hpos (by rw [length_overwrite hfit]; exact hout)
      (by rw [Nat.add_sub_cancel]; exact hback), hsent, decode_encode, Nat.add_sub_cancel]
  · rw [take_overwrite_zero htake.le, htake, List.drop_take_self, List.append_nil]

/-- Seventeen bytes: the key is begun again. -/
theorem cipher_roundTrip_long :
    (∃ out', encode 0x5a (List.replicate 20 0) (List.replicate 17 7) 17 = some (out', 17 + 1) ∧
      out'.drop (17 + 1) = (List.replicate 20 0).drop (17 + 1) ∧
      ∃ back', decode (List.replicate 30 1) out' (17 + 1) = some (back', 17) ∧
        back'.take 17 = (List.replicate 17 7).take 17 ∧
        back'.drop 17 = (List.replicate 30 1).drop 17) ∧
    ∀ keyindex < 8, ∀ (buf : List Byte) (p n : ℕ), p + n ≤ buf.length →
      ∃ buf', xorCrypt buf p n keyindex = some buf' ∧ xorCrypt buf' p n keyindex = some buf :=
  cipher_roundTrip 0x5a (by decide) (by decide) (by decide)

end GSConferencing.Include.EncodeBuf
