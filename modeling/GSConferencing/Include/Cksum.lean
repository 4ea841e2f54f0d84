import GSConferencing.Sha.Sha128
import GSConferencing.Serv.Proceed

/-!
# The check sum

`include/cksum.h`: the digest is combined with a salt, and its bytes are written as two characters
each, in place, from the last one on.

* `cksum_text`: the text is that of the bytes, though they are overwritten by it.
* `word_saltedText`: it is one word of a command line.
* `saltedText_eq_iff`: it tells the digest.
-/

namespace GSConferencing.Include.Cksum

open GSConferencing.Lib.Memory GSConferencing.Lib.Tokens GSConferencing.Include.Pack
open GSConferencing.Sha.Sha128 GSConferencing.Cmd.ParseCmd GSConferencing.Serv.Strutil
open GSConferencing.Serv.Proceed

/-- `h`. -/
def h (t : Byte) : Byte := if t < 0xa then 35 + t else 58 + (t - 0xa)

/-- `i2a`. -/
def i2a (i : Byte) : List Byte := [h (i >>> 4), h (i % 16)]

def salt : List Byte :=
  [0x29, 0x55, 0xba, 0xb3, 0x9e, 0xbc, 0xe4, 0xf3, 0x5b, 0x71, 0x12, 0x45, 0xe8, 0xc6, 0x6f, 0xd5]

/-- The digest with the salt. -/
def salted (data : List Byte) : List Byte := List.zipWith (· ^^^ ·) (shaHashData data) salt

/-- The loop over the bytes, with `i` of them to go. -/
def i2aLoop : ℕ → List Byte → List Byte
  | 0, sum => sum
  | i + 1, sum => i2aLoop i (overwrite sum (2 * i) (i2a (sum.getD i 0)))

/-- `cksum`, for the buffer `sum`. -/
def cksum (data sum : List Byte) : List Byte :=
  (i2aLoop 16 (overwrite sum 0 (salted data))).set 32 0

/-- The string in a buffer. -/
def str (sum : List Byte) : Str := text (sum.takeWhile (· ≠ 0#8))

/-- The characters of the bytes. -/
def sumText (bytes : List Byte) : List Byte := bytes.flatMap i2a

/-- The text of the digest with the salt. -/
def saltedText (data : List Byte) : Str := text (sumText (salted data))

theorem length_i2a (b : Byte) : (i2a b).length = 2 := rfl

theorem length_sumText (bytes : List Byte) : (sumText bytes).length = 2 * bytes.length := by
  rw [sumText, List.length_flatMap]
  simp [length_i2a, Nat.mul_comm]

/-- Two bytes are written where a text begins. -/
theorem overwrite_middle {front old src tail : List Byte} (h : old.length = src.length) :
    overwrite (front ++ old ++ tail) front.length src = front ++ src ++ tail := by
  have hold : (front ++ old).length = front.length + src.length := by
    rw [List.length_append, h]
  unfold overwrite
  rw [← hold, List.drop_left, List.append_assoc front, List.take_left]

/-- **The loop:** the bytes that are still to be written are in front, and the text is behind them;
each of its characters takes the place of a byte that has been read. -/
theorem i2aLoop_eq {i : ℕ} {bytes gap tail : List Byte} (hlen : bytes.length = i)
    (hgap : gap.length = i) : i2aLoop i (bytes ++ gap ++ tail) = sumText bytes ++ tail := by
  induction i generalizing bytes gap tail with
  | zero =>
    obtain rfl := List.length_eq_zero_iff.mp hlen
    obtain rfl := List.length_eq_zero_iff.mp hgap
    rfl
  | succ i ih =>
    obtain rfl | ⟨init, b, rfl⟩ := List.eq_nil_or_concat' bytes
    · cases hlen
    have hinit : init.length = i := by
      rw [List.length_append, List.length_singleton] at hlen
      omega
    have hkeep : ((b :: gap).take i).length = i := List.length_take_of_le (by
      rw [List.length_cons, hgap]
      omega)
    have hold : ((b :: gap).drop i).length = (i2a b).length := by
      rw [List.length_drop, List.length_cons, hgap, length_i2a]
      omega
    have hmem : init ++ [b] ++ gap ++ tail =
        (init ++ (b :: gap).take i) ++ (b :: gap).drop i ++ tail := by
      rw [List.append_assoc init _ ((b :: gap).drop i), List.take_append_drop,
        List.append_assoc init, List.singleton_append]
    have hread : (init ++ [b] ++ gap ++ tail).getD i 0 = b := by
      rw [List.append_assoc, List.append_assoc, List.getD_append_right _ _ _ _ hinit.le, hinit,
        Nat.sub_self]
      rfl
    have hplace : 2 * i = (init ++ (b :: gap).take i).length := by
      rw [List.length_append, hinit, hkeep, Nat.two_mul]
    rw [i2aLoop, hread, hmem, hplace, overwrite_middle hold, List.append_assoc, ih hinit hkeep]
    simp only [sumText, List.flatMap_append, List.flatMap_singleton, List.append_assoc]

theorem length_words (d : Words) : d.bytes.length = salt.length := rfl

theorem length_shaHashData (data : List Byte) : (shaHashData data).length = salt.length := by
  rw [shaHashData, length_words]

theorem length_salted (data : List Byte) : (salted data).length = 16 := by
  rw [salted, List.length_zipWith, length_shaHashData, Nat.min_self]
  rfl

/-- **The text:** it is that of the salted digest, with a zero byte behind it; what follows in the
buffer is left alone. -/
theorem cksum_text {data sum : List Byte} (h : 33 ≤ sum.length) :
    cksum data sum = sumText (salted data) ++ 0 :: sum.drop 33 := by
  have hlen := length_salted data
  have hsplit : sum.drop 16 = (sum.drop 16).take 16 ++ sum.drop 32 := by
    rw [show 32 = 16 + 16 from rfl, ← List.drop_drop, List.take_append_drop]
  have hmem : overwrite sum 0 (salted data) =
      salted data ++ (sum.drop 16).take 16 ++ sum.drop 32 := by
    rw [List.append_assoc, ← hsplit]
    unfold overwrite
    rw [List.take_zero, List.nil_append, hlen, Nat.zero_add]
  have hgap : ((sum.drop 16).take 16).length = 16 := List.length_take_of_le (by
    rw [List.length_drop]
    omega)
  have hlast : sum.drop 32 = sum[32] :: sum.drop 33 := List.drop_eq_getElem_cons (by omega)
  have htext : (sumText (salted data)).length = 32 := by rw [length_sumText, hlen]
  rw [cksum, hmem, i2aLoop_eq hlen hgap, hlast, List.set_append_right _ _ htext.le, htext,
    Nat.sub_self, List.set_cons_zero]

/-! ## One word -/

theorem h_range {t : Byte} (ht : t < 16#8) : 35 ≤ (h t).toNat ∧ (h t).toNat < 64 := by
  unfold h
  split
  · bv_omega
  · bv_omega

/-- The characters go from `#` to `?`. -/
theorem i2a_range {b c : Byte} (hc : c ∈ i2a b) : 35 ≤ c.toNat ∧ c.toNat < 64 := by
  rcases List.mem_pair.mp hc with rfl | rfl
  · refine h_range (BitVec.lt_def.mpr ?_)
    rw [BitVec.toNat_ushiftRight, Nat.shiftRight_eq_div_pow]
    exact Nat.div_lt_of_lt_mul b.isLt
  · exact h_range (BitVec.umod_lt b (by decide))

theorem sumText_range {bytes : List Byte} {c : Byte} (h : c ∈ sumText bytes) :
    35 ≤ c.toNat ∧ c.toNat < 64 := by
  obtain ⟨b, -, hc⟩ := List.mem_flatMap.mp h
  exact i2a_range hc

theorem toNat_char (b : Byte) : (Char.ofNat b.toNat).toNat = b.toNat := by
  have hb : b.toNat < 256 := b.isLt
  have hvalid : b.toNat.isValidChar := .inl (by omega)
  rw [Char.ofNat, dif_pos hvalid]
  rfl

theorem saltedText_range {data : List Byte} {c : Char} (h : c ∈ saltedText data) :
    35 ≤ c.toNat ∧ c.toNat < 64 := by
  obtain ⟨b, hb, rfl⟩ := List.mem_map.mp h
  rw [toNat_char]
  exact sumText_range hb

/-- **The password** a program finds in its buffer, whatever was there. -/
theorem str_cksum {data sum : List Byte} (h : 33 ≤ sum.length) :
    str (cksum data sum) = saltedText data := by
  have hall : ∀ c ∈ sumText (salted data), decide (c ≠ 0#8) = true := by
    intro c hc
    have hrange := (sumText_range hc).1
    have hne : c ≠ 0#8 := by
      rintro rfl
      exact absurd hrange (by decide)
    exact decide_eq_true hne
  unfold str saltedText
  rw [cksum_text h, List.takeWhile_append_of_pos hall, List.takeWhile_cons_of_neg (by decide),
    List.append_nil]

/-- **One word** of a command line. -/
theorem word_saltedText (data : List Byte) : Word isSep (saltedText data) := by
  constructor
  · intro hnil
    have hlen := congrArg List.length hnil
    rw [saltedText, text, List.length_map, length_sumText, length_salted] at hlen
    exact absurd hlen (by decide)
  · intro c hc
    have hrange := (saltedText_range hc).1
    unfold isSep
    rw [Bool.or_eq_false_iff, Bool.or_eq_false_iff]
    refine ⟨⟨?_, ?_⟩, ?_⟩ <;>
    · rw [decide_eq_false_iff_not]
      rintro rfl
      exact absurd hrange (by decide)

/-! ## The digest in the text -/

/-- The byte of two characters. -/
def a2i (a : List Byte) : Byte :=
  let unh : Byte → Byte := fun c => if c < 58 then c - 35 else c - 48
  unh (a.getD 0 0) * 16 + unh (a.getD 1 0)

theorem a2i_i2a : ∀ b : Byte, a2i (i2a b) = b := by
  decide +kernel

theorem sumText_injective : Function.Injective sumText := by
  intro l
  induction l with
  | nil =>
    intro l' h
    have hlen := congrArg List.length h
    rw [length_sumText, length_sumText] at hlen
    exact (List.length_eq_zero_iff.mp (by simpa using hlen.symm)).symm
  | cons b l ih =>
    intro l' h
    cases l' with
    | nil => cases h
    | cons b' l' =>
      obtain ⟨hb, hl⟩ := List.append_inj h (length_i2a b)
      rw [ih hl, ← a2i_i2a b, hb, a2i_i2a]

theorem text_injective : Function.Injective text := by
  refine List.map_injective_iff.mpr fun b b' h => ?_
  have hval := congrArg Char.toNat h
  rw [toNat_char, toNat_char] at hval
  exact BitVec.eq_of_toNat_eq hval

theorem zipWith_xor_injective {l l' s : List Byte} (hl : l.length = s.length)
    (hl' : l'.length = s.length) (h : List.zipWith (· ^^^ ·) l s = List.zipWith (· ^^^ ·) l' s) :
    l = l' := by
  refine List.ext_getElem (hl.trans hl'.symm) fun i hi hi' => ?_
  have hs : i < s.length := hl ▸ hi
  have hget := congrArg (fun r => r.getD i 0) h
  simp only [List.getD_eq_getElem?_getD, List.getElem?_zipWith, List.getElem?_eq_getElem hi,
    List.getElem?_eq_getElem hi', List.getElem?_eq_getElem hs, Option.getD_some] at hget
  have hxor := congrArg (· ^^^ s[i]) hget
  simpa only [BitVec.xor_assoc, BitVec.xor_self, BitVec.xor_zero] using hxor

/-- **The text tells the digest.** -/
theorem saltedText_eq_iff (data data' : List Byte) :
    saltedText data = saltedText data' ↔ shaHashData data = shaHashData data' := by
  constructor
  · intro h
    exact zipWith_xor_injective (length_shaHashData data) (length_shaHashData data')
      (sumText_injective (text_injective h))
  · intro h
    unfold saltedText salted
    rw [h]

end GSConferencing.Include.Cksum
