import Mathlib
import GSConferencing.Include.Pack

/-!
# The cipher of the commands

`encode.h`: a command travels behind a salt byte, combined with one of eight keys that the salt
picks.  There is no length in front of it and no mark at its end.

* `decode_encode`: what was encoded is decoded, whatever the salt.
* `decode_prefix`: a prefix of the encoded bytes decodes to a prefix of the data.
-/

namespace GSConferencing.Include.Encode

open GSConferencing.Include.Pack

/-- `keydata`. -/
def keydata : List (List Byte) :=
  [[0xd2, 0x8f, 0xed, 0x4f, 0x20, 0x28, 0xb5, 0x64, 0x47, 0x0d, 0x25, 0xb0, 0x84, 0x11, 0x6e, 0xad],
   [0x7c, 0x50, 0x4f, 0x29, 0x8b, 0x61, 0x06, 0x9c, 0xf9, 0xfa, 0xfb, 0xd0, 0xca, 0x0b, 0x14, 0x39],
   [0x39, 0xe3, 0x6b, 0xe0, 0xf2, 0x48, 0x1f, 0xd4, 0x28, 0xcb, 0x52, 0x3e, 0x93, 0x61, 0x3d, 0xec],
   [0xe0, 0x3d, 0xf8, 0x17, 0xa7, 0xb6, 0x3d, 0xad, 0x62, 0x53, 0xc8, 0x82, 0xcc, 0xc8, 0x4f, 0x45],
   [0xfb, 0xfa, 0x58, 0x77, 0xf1, 0x81, 0x35, 0x4d, 0x77, 0x91, 0x7e, 0x5e, 0x86, 0xe7, 0x25, 0x0d],
   [0x1a, 0xd1, 0xd0, 0x01, 0xcb, 0x71, 0x42, 0x30, 0x99, 0x6a, 0x6b, 0xe8, 0x66, 0xd6, 0x88, 0x1d],
   [0x05, 0x36, 0xee, 0x70, 0x70, 0x1e, 0x8d, 0x2f, 0x55, 0xad, 0xaa, 0x2c, 0xdb, 0x60, 0x96, 0xd7],
   [0x61, 0x4f, 0x4a, 0x76, 0x76, 0xd4, 0x82, 0x68, 0xcb, 0x0b, 0x57, 0x33, 0xb7, 0x85, 0xa5, 0x63]]

/-- `KEY_LEN`. -/
def keyLen : ℕ := 16

/-- `salt_to_key`. -/
def saltToKey (salt : Byte) : ℕ := ((salt >>> 3) &&& 7).toNat

/-- The loop of `xor_crypt`, at byte `k` of the key. -/
def xorLoop (key : List Byte) : ℕ → List Byte → List Byte
  | _, [] => []
  | k, p :: ps => (p ^^^ key.getD k 0) :: xorLoop key ((k + 1) &&& (keyLen - 1)) ps

/-- `xor_crypt`. -/
def xorCrypt (data : List Byte) (keyindex : ℕ) : List Byte :=
  xorLoop (keydata.getD keyindex []) 0 data

/-- `encode`, with the salt that `rand()` yields. -/
def encode (salt : Byte) (data : List Byte) : List Byte :=
  salt :: xorCrypt data (saltToKey salt)

/-- `decode` of the bytes received; there is at least one. -/
def decode : List Byte → List Byte
  | [] => []
  | salt :: data => xorCrypt data (saltToKey salt)

theorem length_xorLoop (key : List Byte) (k : ℕ) (data : List Byte) :
    (xorLoop key k data).length = data.length := by
  induction data generalizing k with
  | nil => rfl
  | cons p ps ih => rw [xorLoop, List.length_cons, ih, List.length_cons]

/-- Applied twice, the cipher does nothing. -/
theorem xorLoop_xorLoop (key : List Byte) (k : ℕ) (data : List Byte) :
    xorLoop key k (xorLoop key k data) = data := by
  induction data generalizing k with
  | nil => rfl
  | cons p ps ih => rw [xorLoop, xorLoop, ih, BitVec.xor_assoc, BitVec.xor_self, BitVec.xor_zero]

theorem xorLoop_take (key : List Byte) (k n : ℕ) (data : List Byte) :
    xorLoop key k (data.take n) = (xorLoop key k data).take n := by
  induction data generalizing k n with
  | nil => simp [xorLoop]
  | cons p ps ih =>
    cases n with
    | zero => rfl
    | succ n => rw [List.take_succ_cons, xorLoop, xorLoop, List.take_succ_cons, ih]

theorem length_encode (salt : Byte) (data : List Byte) :
    (encode salt data).length = data.length + 1 := by
  rw [encode, List.length_cons, xorCrypt, length_xorLoop]

theorem decode_encode (salt : Byte) (data : List Byte) : decode (encode salt data) = data :=
  xorLoop_xorLoop _ _ _

/-- What arrives first decodes to the beginning of the data. -/
theorem decode_prefix (salt : Byte) (data : List Byte) (n : ℕ) :
    decode ((encode salt data).take (n + 1)) = data.take n := by
  rw [encode, List.take_succ_cons, decode, xorCrypt, xorCrypt, xorLoop_take, xorLoop_xorLoop]

end GSConferencing.Include.Encode
