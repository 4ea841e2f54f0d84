import GSConferencing.Lib.Digest
import GSConferencing.Lib.Memory
import GSConferencing.Include.Pack

/-!
# The digest

`sha128.c`: a digest of 128 bits, of messages that come in pieces.  The buffer holds what is left of
the last piece, the words in it are turned round for the transformation, and it is never cleared.

* `holds_shaUpdate`: what a piece does, if no block was begun.
* `shaFinal_eq`: the digest is that of the padded message.
-/

namespace GSConferencing.Sha.Sha128

open GSConferencing.Lib.Blocks GSConferencing.Lib.Digest GSConferencing.Lib.Memory
open GSConferencing.Include.Pack (Byte)

/-! ## Words -/

/-- `DWORD`. -/
abbrev Word := BitVec 32

/-- A word in memory, on a machine with the low byte in front. -/
def word (b₀ b₁ b₂ b₃ : Byte) : Word :=
  b₀.setWidth 32 ||| b₁.setWidth 32 <<< 8 ||| b₂.setWidth 32 <<< 16 ||| b₃.setWidth 32 <<< 24

/-- Byte `n` of a word. -/
def byteOf (w : Word) (n : ℕ) : Byte := (w >>> (8 * n)).setWidth 8

/-- `data[i]`. -/
def wordAt (data : ℕ → Byte) (i : ℕ) : Word :=
  word (data (4 * i)) (data (4 * i + 1)) (data (4 * i + 2)) (data (4 * i + 3))

/-- `data[i] = w`. -/
def setWord (i : ℕ) (w : Word) (data : ℕ → Byte) (j : ℕ) : Byte :=
  if j / 4 = i then byteOf w (j % 4) else data j

/-- The turn of one word in `byteReverse`. -/
def reverseWord (w : Word) : Word :=
  let value := w <<< 16 ||| w >>> 16
  ((value &&& 0xFF00FF00#32) >>> 8) ||| ((value &&& 0x00FF00FF#32) <<< 8)

/-- `byteReverse(buffer, 64)`. -/
def byteReverse (data : ℕ → Byte) (j : ℕ) : Byte :=
  if j < 64 then byteOf (reverseWord (wordAt data (j / 4))) (j % 4) else data j

/-! ## The transformation -/

def f1 (x y z : Word) : Word := x &&& y ||| ~~~x &&& z
def f2 (x y z : Word) : Word := x &&& y ||| x &&& ~~~z ||| y &&& ~~~z
def f3 (x y z : Word) : Word := x &&& ~~~z ||| y &&& z
def f4 (x y z : Word) : Word := x &&& y ||| x &&& z ||| y &&& z

/-- `S`. -/
def rot (n : ℕ) (x : Word) : Word := x <<< n ||| x >>> (32 - n)

/-- `K`. -/
def constants : List Word :=
  [0xE8C7B756#32, 0xC1BDCEEE#32, 0x4787C62A#32, 0xFD469501#32, 0x8B44F7AF#32, 0x895CD7BE#32,
    0xFD987193#32, 0x49B40821#32, 0xC040B340#32, 0xE9B6C7AA#32, 0x02441453#32, 0xE7D3FBC8#32,
    0xC33707D6#32, 0x455A14ED#32, 0xFCEFA3F8#32, 0x8D2A4C8A#32, 0x8771F681#32, 0xFDE5380C#32,
    0x4BDECFA9#32, 0xBEBFBC70#32, 0xEAA127FA#32, 0x04881D05#32, 0xE6DB99E5#32, 0xC4AC5665#32,
    0x432AFF97#32, 0xFC93A039#32, 0x8F0CCC92#32, 0x85845DD1#32, 0xFE2CE6E0#32, 0x4E0811A1#32,
    0xBD3AF235#32, 0xEB86D391#32, 0x06CC0E72#32, 0xE5DE96A6#32, 0xC61DB31F#32, 0x40FA9162#32,
    0xFC328B9A#32, 0x90EC6E1A#32, 0x83941793#32, 0xFE6F7CA0#32, 0x502FC2F0#32, 0xBBB25C5E#32,
    0xEC67C5D5#32, 0x90FDCF8#32, 0xE4DCF720#32, 0xC78B169D#32, 0x3EC8D588#32, 0xFBCC680F#32,
    0x92C92784#32, 0x81A12DBC#32, 0xFEACF7F6#32, 0x5255D887#32, 0xBA2602C9#32, 0xED43FA42#32,
    0xB537CF7#32, 0xE3D6C07E#32, 0xC8F47989#32, 0x3C95D750#32, 0xFB6137A4#32, 0x94A2EF3F#32,
    0x7FABAA4E#32, 0xFEE557A5#32, 0x547A475C#32, 0xB895ED69#32, 0xEE1B6C6D#32, 0xD96E2CE#32,
    0xE2CBF801#32, 0xCA59D4A4#32, 0x3A61A204#32, 0xFAF0FC7F#32, 0x9679BBCC#32, 0x7DB39757#32,
    0xFF189A8E#32, 0x569D046F#32, 0xB7022445#32, 0xEEEE1806#32, 0xFDA02DF#32, 0xE1BCA303#32,
    0xCBBB20C3#32, 0x382C40F4#32]

/-- The words `digest[0 .. 4)`; the fifth one is never set. -/
structure Words where
  a : Word
  b : Word
  c : Word
  d : Word
  deriving DecidableEq

/-- `expand(count)`, for the first `count` words. -/
def expand (w : List Word) : List Word :=
  let at_ := fun i => w.getD (w.length - i) 0
  w ++ [at_ 4 ^^^ at_ 5 ^^^ at_ 13 ^^^ at_ 16]

/-- The function of the round `count`. -/
def roundFun (count : ℕ) : Word → Word → Word → Word :=
  if count < 20 then f1 else if count < 40 then f2 else if count < 60 then f3 else f4

/-- `SubRound1` to `SubRound4`. -/
def subRound (w : List Word) (x : Words) (count : ℕ) : Words :=
  let temp := rot 5 x.a + roundFun count x.b x.c (w.getD count 0) + rot 7 x.d +
    constants.getD count 0
  ⟨temp, x.a, rot 30 x.b, x.c⟩

/-- `shaTranform` for the sixteen words in the buffer. -/
def transform (digest : Words) (w : List Word) : Words :=
  let r := (List.range 80).foldl (subRound (expand^[64] w)) digest
  ⟨digest.a + r.a, digest.b + r.b, digest.c + r.c, digest.d + r.d⟩

/-! ## Messages -/

/-- `SHA_INFO`; the buffer has 64 bytes. -/
structure ShaInfo where
  digest : Words
  countLo : Word
  countHi : Word
  data : ℕ → Byte

/-- The first `n` bytes of `data` are set to zero from `start` on. -/
def clear (start n : ℕ) (data : ℕ → Byte) (j : ℕ) : Byte := if start ≤ j ∧ j < n then 0 else data j

def initialWords : Words := ⟨0x724d65f1#32, 0xec38a0b9#32, 0xd9de387f#32, 0x5c1602a4#32⟩

/-- `shaInit`. -/
def shaInit : ShaInfo := ⟨initialWords, 0, 0, fun _ => 0⟩

/-- `shaTranform`. -/
def shaTransform (x : ShaInfo) : ShaInfo :=
  { x with digest := transform x.digest ((List.range 16).map (wordAt x.data)) }

/-- One turn of the loop of `shaUpdate`. -/
def updateTurn (x : ShaInfo) (block : List Byte) : ShaInfo :=
  shaTransform { x with data := byteReverse (store x.data 0 block) }

/-- The loop of `shaUpdate`, with the number of its turns. -/
def updateLoop : ℕ → ShaInfo → List Byte → ShaInfo × List Byte
  | 0, x, buffer => (x, buffer)
  | n + 1, x, buffer => updateLoop n (updateTurn x (buffer.take 64)) (buffer.drop 64)

/-- `shaUpdate`; the length is an `int`. -/
def shaUpdate (x : ShaInfo) (buffer : List Byte) : ShaInfo :=
  let count : Word := BitVec.ofNat 32 buffer.length
  let carry : Word := if x.countLo + count <<< 3 < x.countLo then 1 else 0
  let x := { x with
    countLo := x.countLo + count <<< 3
    countHi := x.countHi + carry + count >>> 29 }
  let r := updateLoop (buffer.length / 64) x buffer
  { r.1 with data := store r.1.data 0 r.2 }

/-- `shaFinal` until there is room for the length: the mark and zeros, up to the end of the block if
they do not leave room. -/
def padBuffer (x : ShaInfo) : ShaInfo :=
  let count := ((x.countLo >>> 3) &&& 0x3f#32).toNat
  let data := Function.update x.data count 0x80
  if 56 < count + 1 then
    let x := shaTransform { x with data := byteReverse (clear (count + 1) 64 data) }
    { x with data := clear 0 56 x.data }
  else { x with data := clear (count + 1) 56 data }

/-- `shaFinal`; the words of the digest are turned round. -/
def shaFinal (x : ShaInfo) : ShaInfo :=
  let x' := padBuffer x
  let x' := shaTransform { x' with
    data := setWord 15 x.countLo (setWord 14 x.countHi (byteReverse x'.data)) }
  let d := x'.digest
  { x' with digest := ⟨reverseWord d.a, reverseWord d.b, reverseWord d.c, reverseWord d.d⟩ }

/-- The bytes of a word in memory. -/
def bytesOf (w : Word) : List Byte := [byteOf w 0, byteOf w 1, byteOf w 2, byteOf w 3]

/-- The first 16 bytes of `digest`. -/
def Words.bytes (d : Words) : List Byte := bytesOf d.a ++ bytesOf d.b ++ bytesOf d.c ++ bytesOf d.d

/-- `shaHashData`. -/
def shaHashData (data : List Byte) : List Byte := (shaFinal (shaUpdate shaInit data)).digest.bytes

/-! ## The digest of a message -/

/-- The bytes of a word, the high one first. -/
def bigEndian (w : Word) : List Byte := [byteOf w 3, byteOf w 2, byteOf w 1, byteOf w 0]

/-- The words of a block, with the high byte first. -/
def blockWords (b : List Byte) : List Word := (List.range 16).map fun i =>
  word (b.getD (4 * i + 3) 0) (b.getD (4 * i + 2) 0) (b.getD (4 * i + 1) 0) (b.getD (4 * i) 0)

/-- A block is put into the digest. -/
def compress (d : Words) (b : List Byte) : Words := transform d (blockWords b)

/-- The number of bits of a message, in eight bytes. -/
def lengthBytes (m : List Byte) : List Byte :=
  bigEndian (BitVec.ofNat 32 (8 * m.length / 2 ^ 32)) ++ bigEndian (BitVec.ofNat 32 (8 * m.length))

/-- The words after the blocks of a message: its bytes, a one bit, zeros, and its length. -/
def digestOf (m : List Byte) : Words :=
  chain compress 64 initialWords (pad 64 0x80 0 (lengthBytes m) m)

/-- **The digest of a message.** -/
def hash (m : List Byte) : List Byte :=
  let d := digestOf m
  bigEndian d.a ++ bigEndian d.b ++ bigEndian d.c ++ bigEndian d.d

/-! ## Words and bytes -/

section Bytes
variable {data : ℕ → Byte} {w : Word} {b₀ b₁ b₂ b₃ : Byte} {i j n r : ℕ}

theorem word_byteOf (w : Word) : word (byteOf w 0) (byteOf w 1) (byteOf w 2) (byteOf w 3) = w := by
  ext i hi
  interval_cases i <;> simp [word, byteOf]

theorem reverseWord_word (b₀ b₁ b₂ b₃ : Byte) :
    reverseWord (word b₀ b₁ b₂ b₃) = word b₃ b₂ b₁ b₀ := by
  ext i hi
  interval_cases i <;> simp [word, reverseWord]

/-- **`byteReverse`** puts the high byte of a word in front. -/
theorem wordAt_byteReverse (data : ℕ → Byte) (hi : i < 16) : wordAt (byteReverse data) i =
    word (data (4 * i + 3)) (data (4 * i + 2)) (data (4 * i + 1)) (data (4 * i)) := by
  have hbyte : ∀ n < 4, byteReverse data (4 * i + n) = byteOf (reverseWord (wordAt data i)) n := by
    intro n hn
    have hdiv : (4 * i + n) / 4 = i := by omega
    have hmod : (4 * i + n) % 4 = n := by omega
    rw [byteReverse, if_pos (by omega), hdiv, hmod]
  have hzero := hbyte 0 (by omega)
  rw [Nat.add_zero] at hzero
  rw [wordAt, hzero, hbyte 1 (by omega), hbyte 2 (by omega), hbyte 3 (by omega), word_byteOf,
    wordAt, reverseWord_word]

theorem wordAt_setWord (i : ℕ) (w : Word) (data : ℕ → Byte) (j : ℕ) :
    wordAt (setWord i w data) j = if j = i then w else wordAt data j := by
  have hbyte : ∀ n < 4, setWord i w data (4 * j + n) =
      if j = i then byteOf w n else data (4 * j + n) := by
    intro n hn
    have hdiv : (4 * j + n) / 4 = j := by omega
    have hmod : (4 * j + n) % 4 = n := by omega
    rw [setWord, hdiv, hmod]
  have hzero := hbyte 0 (by omega)
  rw [Nat.add_zero] at hzero
  rw [wordAt, hzero, hbyte 1 (by omega), hbyte 2 (by omega), hbyte 3 (by omega)]
  split_ifs
  · exact word_byteOf w
  · rfl

theorem getD_front (data : ℕ → Byte) (h : j < n) : (front data n).getD j 0 = data j := by
  simp [front, List.getD_eq_getElem?_getD, List.getElem?_range h]

/-- **The words of a block** that is turned round in the buffer. -/
theorem words_byteReverse (data : ℕ → Byte) :
    (List.range 16).map (wordAt (byteReverse data)) = blockWords (front data 64) := by
  refine List.map_congr_left fun i hi => ?_
  have hlt : i < 16 := List.mem_range.mp hi
  rw [wordAt_byteReverse data hlt, getD_front data (by omega), getD_front data (by omega),
    getD_front data (by omega), getD_front data (by omega)]

/-- The last block, where the length is put in as two words. -/
theorem words_setWord (data : ℕ → Byte) (hi lo : Word) :
    (List.range 16).map (wordAt (setWord 15 lo (setWord 14 hi (byteReverse data)))) =
      blockWords (front data 56 ++ (bigEndian hi ++ bigEndian lo)) := by
  refine List.map_congr_left fun i hi' => ?_
  have hlt : i < 16 := List.mem_range.mp hi'
  have hlen : (front data 56).length = 56 := length_front data 56
  have hleft : ∀ n < 56, (front data 56 ++ (bigEndian hi ++ bigEndian lo)).getD n 0 = data n := by
    intro n hn
    rw [List.getD_append _ _ _ _ (by omega), getD_front data hn]
  have hright : ∀ n, (front data 56 ++ (bigEndian hi ++ bigEndian lo)).getD (56 + n) 0 =
      (bigEndian hi ++ bigEndian lo).getD n 0 := by
    intro n
    rw [List.getD_append_right _ _ _ _ (by omega), hlen, Nat.add_sub_cancel_left]
  rw [wordAt_setWord, wordAt_setWord]
  rcases (by omega : i < 14 ∨ i = 14 ∨ i = 15) with hsmall | rfl | rfl
  · rw [if_neg (by omega), if_neg (by omega), wordAt_byteReverse data hlt, hleft _ (by omega),
      hleft _ (by omega), hleft _ (by omega), hleft _ (by omega)]
  · rw [if_neg (by decide), if_pos rfl]
    exact (word_byteOf hi).symm.trans (by rw [hright 3, hright 2, hright 1, hright 0]; rfl)
  · rw [if_pos rfl]
    exact (word_byteOf lo).symm.trans (by rw [hright 7, hright 6, hright 5, hright 4]; rfl)

/-- The mark, and zeros up to `n`. -/
theorem front_clear (data : ℕ → Byte) (h : r < n) :
    front (clear (r + 1) n (Function.update data r 0x80)) n =
      front data r ++ 0x80 :: List.replicate (n - (r + 1)) 0 := by
  refine List.ext_getElem? fun i => ?_
  have hlen : (front data r).length = r := length_front data r
  rcases Nat.lt_or_ge i n with hin | hout
  · rw [front, List.getElem?_map, List.getElem?_range hin, Option.map_some, clear]
    rcases Nat.lt_trichotomy i r with hlt | rfl | hgt
    · rw [if_neg (by omega), Function.update_of_ne hlt.ne, List.getElem?_append_left (by omega),
        front, List.getElem?_map, List.getElem?_range hlt]
      rfl
    · rw [if_neg (by omega), Function.update_self, List.getElem?_append_right (by omega), hlen,
        Nat.sub_self]
      rfl
    · have hsucc : i - r = (i - r - 1) + 1 := by omega
      rw [if_pos ⟨hgt, hin⟩, List.getElem?_append_right (by omega), hlen, hsucc,
        List.getElem?_cons_succ, List.getElem?_replicate_of_lt (by omega)]
  · rw [List.getElem?_eq_none (by rw [length_front]; exact hout), List.getElem?_eq_none]
    rw [List.length_append, hlen, List.length_cons, List.length_replicate]
    omega

theorem front_clear_zero (data : ℕ → Byte) (n : ℕ) :
    front (clear 0 n data) n = List.replicate n 0 := by
  refine List.eq_replicate_iff.mpr ⟨length_front _ n, fun b hb => ?_⟩
  obtain ⟨j, hj, rfl⟩ := List.mem_map.mp hb
  exact if_pos ⟨Nat.zero_le j, List.mem_range.mp hj⟩

end Bytes

/-! ## Pieces -/

section Pieces
variable {x : ShaInfo} {m buffer : List Byte}

theorem front_store_zero (data : ℕ → Byte) (b : List Byte) :
    front (store data 0 b) b.length = b := by
  have h := front_store data 0 b
  rwa [Nat.zero_add, show front data 0 = [] from rfl, List.nil_append] at h

theorem updateTurn_digest (x : ShaInfo) {b : List Byte} (hb : b.length = 64) :
    (updateTurn x b).digest = compress x.digest b := by
  have hfront := front_store_zero x.data b
  rw [hb] at hfront
  show transform x.digest ((List.range 16).map (wordAt (byteReverse (store x.data 0 b)))) = _
  rw [words_byteReverse, hfront]
  rfl

theorem updateTurn_count (x : ShaInfo) (b : List Byte) :
    (updateTurn x b).countLo = x.countLo ∧ (updateTurn x b).countHi = x.countHi := by
  rw [updateTurn, shaTransform]
  exact ⟨rfl, rfl⟩

/-- **The loop** puts the full blocks into the digest. -/
theorem updateLoop_eq (x : ShaInfo) (buffer : List Byte) :
    (updateLoop (buffer.length / 64) x buffer).1.digest = chain compress 64 x.digest buffer ∧
      (updateLoop (buffer.length / 64) x buffer).2 = rest 64 buffer ∧
      (updateLoop (buffer.length / 64) x buffer).1.countLo = x.countLo ∧
      (updateLoop (buffer.length / 64) x buffer).1.countHi = x.countHi := by
  obtain ⟨n, hn⟩ : ∃ n, buffer.length / 64 = n := ⟨_, rfl⟩
  rw [hn]
  induction n generalizing x buffer with
  | zero =>
    have hlt : buffer.length < 64 := by omega
    refine ⟨?_, (rest_of_lt hlt).symm, rfl, rfl⟩
    rw [chain, blocks_of_lt hlt]
    rfl
  | succ n ih =>
    have hlen : (buffer.take 64).length = 64 := List.length_take_of_le (by omega)
    have hdrop : (buffer.drop 64).length / 64 = n := by
      rw [List.length_drop]
      omega
    have hsplit : buffer = buffer.take 64 ++ buffer.drop 64 :=
      (List.take_append_drop 64 buffer).symm
    obtain ⟨hdigest, hrest, hlo, hhi⟩ := ih (updateTurn x (buffer.take 64)) (buffer.drop 64) hdrop
    rw [updateLoop]
    refine ⟨hdigest.trans ?_, hrest.trans ?_, hlo.trans (updateTurn_count x _).1,
      hhi.trans (updateTurn_count x _).2⟩
    · rw [updateTurn_digest x hlen]
      conv_rhs => rw [hsplit]
      exact (chain_cons (by decide) compress x.digest hlen _).symm
    · conv_rhs => rw [hsplit]
      exact (rest_cons (by decide) hlen _).symm

/-- **What has come so far** is in the digest, in the buffer and in the count. -/
structure Holds (x : ShaInfo) (m : List Byte) : Prop where
  digest : x.digest = chain compress 64 initialWords m
  data : front x.data (m.length % 64) = rest 64 m
  count : x.countHi.toNat * 2 ^ 32 + x.countLo.toNat = 8 * m.length % 2 ^ 64

theorem holds_shaInit : Holds shaInit [] := ⟨rfl, rfl, rfl⟩

/-- A number of two words. -/
theorem mod_two_words {v r : ℕ} (hr : r < 2 ^ 32) :
    (v * 2 ^ 32 + r) % 2 ^ 64 = v % 2 ^ 32 * 2 ^ 32 + r := by
  have hmod : (v * 2 ^ 32 + r) % 2 ^ 32 = r := by
    rw [Nat.mul_comm, Nat.mul_add_mod, Nat.mod_eq_of_lt hr]
  have hdiv : (v * 2 ^ 32 + r) / 2 ^ 32 = v := by
    rw [Nat.mul_comm, Nat.mul_add_div (by decide), Nat.div_eq_of_lt hr, Nat.add_zero]
  rw [show 2 ^ 64 = 2 ^ 32 * 2 ^ 32 from rfl, Nat.mod_mul, hmod, hdiv, Nat.mul_comm, Nat.add_comm]

/-- The bits of a piece are added to the count. -/
theorem count_add {lo hi : Word} {n len : ℕ} (hlen : len < 2 ^ 31)
    (h : hi.toNat * 2 ^ 32 + lo.toNat = n % 2 ^ 64) :
    (hi + (if lo + BitVec.ofNat 32 len <<< 3 < lo then (1 : Word) else 0) +
        BitVec.ofNat 32 len >>> 29).toNat * 2 ^ 32 + (lo + BitVec.ofNat 32 len <<< 3).toNat =
      (n + 8 * len) % 2 ^ 64 := by
  have hcount : (BitVec.ofNat 32 len).toNat = len := by
    rw [BitVec.toNat_ofNat, Nat.mod_eq_of_lt (by omega)]
  have hshift : (BitVec.ofNat 32 len <<< 3).toNat = 8 * len % 2 ^ 32 := by
    rw [BitVec.toNat_shiftLeft, hcount, Nat.shiftLeft_eq, Nat.mul_comm]
  have hhigh : (BitVec.ofNat 32 len >>> 29).toNat = len / 2 ^ 29 := by
    rw [BitVec.toNat_ushiftRight, hcount, Nat.shiftRight_eq_div_pow]
  have hsplit : 8 * len = len / 2 ^ 29 * 2 ^ 32 + 8 * len % 2 ^ 32 := by omega
  have hsum : (n + 8 * len) % 2 ^ 64 =
      ((hi.toNat + len / 2 ^ 29) * 2 ^ 32 + (lo.toNat + 8 * len % 2 ^ 32)) % 2 ^ 64 := by
    rw [← Nat.mod_add_mod, ← h]
    conv_lhs => rw [hsplit]
    rw [Nat.add_mul, Nat.add_add_add_comm]
  have hlo := lo.isLt
  have hmod : 8 * len % 2 ^ 32 < 2 ^ 32 := Nat.mod_lt _ (by decide)
  rw [hsum]
  split_ifs with hlt
  · rw [BitVec.lt_def, BitVec.toNat_add, hshift] at hlt
    have hcarry : lo.toNat + 8 * len % 2 ^ 32 =
        2 ^ 32 + (lo.toNat + 8 * len % 2 ^ 32) % 2 ^ 32 := by
      omega
    rw [BitVec.toNat_add, BitVec.toNat_add, BitVec.toNat_add, hshift, hhigh, hcarry,
      ← Nat.add_assoc, ← Nat.succ_mul, mod_two_words (Nat.mod_lt _ (by decide)),
      Nat.add_mod_left, Nat.mod_mod, Nat.mod_add_mod]
    rw [show BitVec.toNat (1 : Word) = 1 from rfl, Nat.add_right_comm]
  · rw [BitVec.lt_def, BitVec.toNat_add, hshift] at hlt
    have hsmall : lo.toNat + 8 * len % 2 ^ 32 < 2 ^ 32 := by omega
    rw [BitVec.toNat_add, BitVec.toNat_add, BitVec.toNat_add, hshift, hhigh,
      mod_two_words hsmall, Nat.mod_eq_of_lt hsmall, Nat.mod_add_mod]
    rfl

/-- **A piece** after full blocks. -/
theorem holds_shaUpdate (h : Holds x m) (hm : m.length % 64 = 0)
    (hlen : buffer.length < 2 ^ 31) : Holds (shaUpdate x buffer) (m ++ buffer) := by
  have hnil : rest 64 m = [] := List.length_eq_zero_iff.mp ((length_rest 64 m).trans hm)
  obtain ⟨hdigest, hrest, hlo, hhi⟩ := updateLoop_eq { x with
    countLo := x.countLo + BitVec.ofNat 32 buffer.length <<< 3
    countHi := x.countHi +
      (if x.countLo + BitVec.ofNat 32 buffer.length <<< 3 < x.countLo then (1 : Word) else 0) +
      BitVec.ofNat 32 buffer.length >>> 29 } buffer
  refine ⟨?_, ?_, ?_⟩
  · rw [chain_append (by decide) _ _ hm, ← h.digest]
    exact hdigest
  · have hmod : (m ++ buffer).length % 64 = (rest 64 buffer).length := by
      rw [length_rest, List.length_append]
      omega
    rw [(blocks_append (by decide) m buffer).2, hnil, List.nil_append, hmod]
    show front (store _ 0 (updateLoop _ _ buffer).2) _ = _
    rw [hrest, front_store_zero]
  · rw [List.length_append, Nat.mul_add]
    show (updateLoop _ _ buffer).1.countHi.toNat * 2 ^ 32 +
      (updateLoop _ _ buffer).1.countLo.toNat = _
    rw [hlo, hhi]
    exact count_add hlen h.count

/-! ## The end of a message -/

/-- The number of bytes in the block that was begun. -/
theorem Holds.began (h : Holds x m) :
    ((x.countLo >>> 3) &&& 0x3f#32).toNat = m.length % 64 := by
  have hcount := h.count
  have hlo := x.countLo.isLt
  have hmask : ((x.countLo >>> 3) &&& 0x3f#32).toNat = x.countLo.toNat / 2 ^ 3 % 2 ^ 6 := by
    rw [BitVec.toNat_and, BitVec.toNat_ushiftRight, Nat.shiftRight_eq_div_pow]
    exact Nat.and_two_pow_sub_one_eq_mod _ 6
  rw [hmask]
  omega

/-- The two words of the count are the length of the message. -/
theorem Holds.length (h : Holds x m) :
    bigEndian x.countHi ++ bigEndian x.countLo = lengthBytes m := by
  have hcount := h.count
  have hlo := x.countLo.isLt
  have hhi := x.countHi.isLt
  have hlow : x.countLo = BitVec.ofNat 32 (8 * m.length) := by
    refine BitVec.eq_of_toNat_eq ?_
    rw [BitVec.toNat_ofNat]
    omega
  have hhigh : x.countHi = BitVec.ofNat 32 (8 * m.length / 2 ^ 32) := by
    refine BitVec.eq_of_toNat_eq ?_
    rw [BitVec.toNat_ofNat]
    omega
  rw [lengthBytes, hlow, hhigh]

theorem length_lengthBytes (m : List Byte) : (lengthBytes m).length = 8 := rfl

/-- **The digest** is that of the padded message. -/
theorem padBuffer_digest (h : Holds x m) : digestOf m =
    compress (padBuffer x).digest (front (padBuffer x).data 56 ++ lengthBytes m) := by
  have hr : m.length % 64 < 64 := Nat.mod_lt _ (by decide)
  have htail := length_lengthBytes m
  unfold padBuffer
  rw [h.began]
  by_cases hfull : 56 < m.length % 64 + 1
  · have hfirst : front (clear (m.length % 64 + 1) 64
          (Function.update x.data (m.length % 64) 0x80)) 64 =
        rest 64 m ++ 0x80 :: List.replicate (64 - (m.length % 64 + 1)) 0 := by
      rw [front_clear x.data hr, h.data]
    simp only [if_pos hfull]
    rw [front_clear_zero, digestOf, chain, blocks_pad_of_full (by decide) (by omega) (by omega),
      List.foldl_append, ← chain, ← h.digest, htail]
    show compress (compress x.digest _) _ = compress (transform x.digest _) _
    rw [words_byteReverse, hfirst]
    rfl
  · have hroom : m.length % 64 < 56 := by omega
    have hzeros : m.length % 64 + 1 + zeros 64 8 m.length + 8 = 64 := zeros_of_room (by omega)
    simp only [if_neg hfull]
    rw [front_clear x.data hroom, h.data, digestOf, chain,
      blocks_pad_of_room (by decide) (by omega), List.foldl_append, ← chain, ← h.digest, htail]
    have hcount : zeros 64 8 m.length = 56 - (m.length % 64 + 1) := by omega
    rw [hcount]
    show compress x.digest _ = compress x.digest _
    rw [List.append_assoc, List.cons_append]

theorem shaFinal_eq (h : Holds x m) : (shaFinal x).digest =
    ⟨reverseWord (digestOf m).a, reverseWord (digestOf m).b, reverseWord (digestOf m).c,
      reverseWord (digestOf m).d⟩ := by
  have hlast : transform (padBuffer x).digest ((List.range 16).map (wordAt
      (setWord 15 x.countLo (setWord 14 x.countHi (byteReverse (padBuffer x).data))))) =
      digestOf m := by
    rw [words_setWord, h.length, padBuffer_digest h]
    rfl
  unfold shaFinal
  simp only [shaTransform, hlast]

theorem bytesOf_reverseWord (w : Word) : bytesOf (reverseWord w) = bigEndian w := by
  have hbyte : ∀ n < 4, byteOf (reverseWord w) n = byteOf w (3 - n) := by
    intro n hn
    ext i hi
    interval_cases n <;> interval_cases i <;> simp [byteOf, reverseWord]
  unfold bytesOf bigEndian
  rw [hbyte 0 (by decide), hbyte 1 (by decide), hbyte 2 (by decide), hbyte 3 (by decide)]

theorem shaFinal_bytes (h : Holds x m) : (shaFinal x).digest.bytes = hash m := by
  rw [shaFinal_eq h, Words.bytes, hash]
  simp only [bytesOf_reverseWord]

/-- Pieces of full blocks. -/
theorem holds_pieces {pieces : List (List Byte)} (h : Holds x m) (hm : m.length % 64 = 0)
    (hfull : ∀ p ∈ pieces, p.length % 64 = 0) (hlen : ∀ p ∈ pieces, p.length < 2 ^ 31) :
    Holds (pieces.foldl shaUpdate x) (m ++ pieces.flatten) ∧
      (m ++ pieces.flatten).length % 64 = 0 := by
  induction pieces generalizing x m with
  | nil =>
    rw [List.flatten_nil, List.append_nil]
    exact ⟨h, hm⟩
  | cons p pieces ih =>
    obtain ⟨hp, hfull⟩ := List.forall_mem_cons.mp hfull
    obtain ⟨hp', hlen⟩ := List.forall_mem_cons.mp hlen
    have hmod : (m ++ p).length % 64 = 0 := by
      rw [List.length_append]
      omega
    rw [List.flatten_cons, ← List.append_assoc]
    exact ih (holds_shaUpdate h hm hp') hmod hfull hlen

/-- **A message in pieces,** of which only the last one may end within a block: however it is cut,
the digest is that of the message. -/
theorem digest_pieces {pieces : List (List Byte)} {last : List Byte}
    (hfull : ∀ p ∈ pieces, p.length % 64 = 0) (hlen : ∀ p ∈ pieces, p.length < 2 ^ 31)
    (hlast : last.length < 2 ^ 31) :
    (shaFinal (shaUpdate (pieces.foldl shaUpdate shaInit) last)).digest.bytes =
      hash (pieces.flatten ++ last) := by
  obtain ⟨hpieces, hmod⟩ := holds_pieces holds_shaInit rfl hfull hlen
  rw [List.nil_append] at hpieces hmod
  exact shaFinal_bytes (holds_shaUpdate hpieces hmod hlast)

theorem digest_twoPieces :
    (shaFinal (shaUpdate ([List.replicate 64 1].foldl shaUpdate shaInit) [2, 3])).digest.bytes =
      hash ([List.replicate 64 1].flatten ++ [2, 3]) :=
  digest_pieces (by simp) (by simp) (by simp)

theorem shaHashData_eq (hlen : buffer.length < 2 ^ 31) : shaHashData buffer = hash buffer := by
  have h := holds_shaUpdate holds_shaInit rfl hlen
  rw [List.nil_append] at h
  exact shaFinal_bytes h

end Pieces

end GSConferencing.Sha.Sha128
