import Mathlib
import GSConferencing.Lib.Items

/-!
# Text of the commands

A text is a list of characters without its ending `\0`.  `atoi` and the decimal output follow the
C library (on the 32-bit target `atoi` clamps to the range of an `int`); the lists of the protocol
are decimal numbers or names separated by commas, built with `LIST_ADD` and read with `FOREACH_ID`
or `strtok`.

* `atoi_fmtInt`: a number that is written is read back.
* `foldl_listAdd`: what `LIST_ADD` makes of items one after the other.
* `strtok_listAddNum`: one more number in a list is one more field.
-/

namespace GSConferencing.Serv.Strutil

open GSConferencing.Lib.Items

abbrev Str := List Char

/-- `isspace` in the C locale. -/
def isSpace (c : Char) : Bool := c = ' ' || ('\t' ≤ c && c ≤ '\r')

def intMax : ℤ := 2147483647
def intMin : ℤ := -2147483648

/-- The number the leading digits say, `0` if there are none. -/
def leadingNat (s : Str) : ℕ := Nat.ofDigitChars 10 (s.takeWhile Char.isDigit) 0

/-- `atoi`. -/
def atoi (s : Str) : ℤ :=
  match s.dropWhile isSpace with
  | '-' :: r => max intMin (-(leadingNat r : ℤ))
  | '+' :: r => min intMax (leadingNat r)
  | r => min intMax (leadingNat r)

/-- `%d`. -/
def fmtInt (n : ℤ) : Str :=
  if n < 0 then '-' :: Nat.toDigits 10 n.natAbs else Nat.toDigits 10 n.natAbs

/-- `LIST_ADD`: the first item, or a comma and the item. -/
def listAdd (str a : Str) : Str := if str = [] then a else str ++ ',' :: a

/-- `LIST_ADD_NUM`. -/
def listAddNum (str : Str) (n : ℤ) : Str := listAdd str (fmtInt n)

/-- The places `FOREACH_ID` stops at, each up to the next comma (where `atoi` stops reading). -/
def forEachId (list : Str) : List Str := list.splitOn ','

/-- The tokens of `strtok(.., ",")`. -/
def strtok (s : Str) : List Str := (s.splitOn ',').filter (· ≠ [])

/-! ### Numbers -/

theorem isDigit_of_mem_toDigits {n : ℕ} {c : Char} (h : c ∈ Nat.toDigits 10 n) :
    c.isDigit = true :=
  Nat.isDigit_of_mem_toDigits (by omega) (by omega) h

theorem leadingNat_toDigits (n : ℕ) : leadingNat (Nat.toDigits 10 n) = n := by
  unfold leadingNat
  rw [List.takeWhile_eq_self_iff.mpr fun c hc => isDigit_of_mem_toDigits hc]
  exact Nat.ofDigitChars_ten_toDigits

theorem isSpace_of_isDigit {c : Char} (h : c.isDigit = true) : isSpace c = false := by
  have h' : 48 ≤ c.toNat ∧ c.toNat ≤ 57 := by
    simp only [Char.isDigit, Bool.and_eq_true, decide_eq_true_eq, ge_iff_le,
      UInt32.le_iff_toNat_le] at h
    exact h
  have h1 : ¬ c = ' ' := by rintro rfl; simp at h'
  have h2 : ¬ c ≤ '\r' := by
    intro hc
    have : c.toNat ≤ 13 := hc
    omega
  simp [isSpace, h1, h2]

/-- **A number that is written is read back.** -/
theorem atoi_fmtInt {n : ℤ} (hmin : intMin ≤ n) (hmax : n ≤ intMax) : atoi (fmtInt n) = n := by
  obtain ⟨c, ds, hds⟩ := List.exists_cons_of_ne_nil (Nat.toDigits_ne_nil (n := n.natAbs) (b := 10))
  have hc : c.isDigit = true :=
    isDigit_of_mem_toDigits (n := n.natAbs) (by rw [hds]; exact List.mem_cons_self)
  have hread := leadingNat_toDigits n.natAbs
  unfold fmtInt
  by_cases hn : n < 0
  · have hsp : isSpace '-' = false := by decide
    rw [if_pos hn, atoi, List.dropWhile_cons_of_neg (by simp [hsp])]
    simp only [hread]
    omega
  · have hm : c ≠ '-' := by rintro rfl; exact absurd hc (by decide)
    have hp : c ≠ '+' := by rintro rfl; exact absurd hc (by decide)
    rw [if_neg hn, atoi, hds, List.dropWhile_cons_of_neg (by simp [isSpace_of_isDigit hc])]
    split
    · rename_i heq; cases heq; exact absurd rfl hm
    · rename_i heq; cases heq; exact absurd rfl hp
    · rw [← hds, hread]
      omega

theorem notMem_fmtInt {c : Char} (hc : c.isDigit = false) (hm : c ≠ '-') (n : ℤ) :
    c ∉ fmtInt n := by
  have hd : ∀ m : ℕ, c ∉ Nat.toDigits 10 m := by
    intro m hm
    exact Bool.false_ne_true (hc.symm.trans (isDigit_of_mem_toDigits hm))
  unfold fmtInt
  split
  · rw [List.mem_cons]
    rintro (h | h)
    · exact hm h
    · exact hd _ h
  · exact hd _

theorem comma_notMem_fmtInt (n : ℤ) : ',' ∉ fmtInt n := notMem_fmtInt (by decide) (by decide) n

/-- Two numbers are written differently. -/
theorem fmtInt_injective : Function.Injective fmtInt := by
  have hdigits : ∀ m n : ℕ, Nat.toDigits 10 m = Nat.toDigits 10 n → m = n := by
    intro m n h
    rw [← leadingNat_toDigits m, h, leadingNat_toDigits]
  have hminus : ∀ m n : ℕ, '-' :: Nat.toDigits 10 m ≠ Nat.toDigits 10 n := by
    intro m n h
    have hmem : '-' ∈ Nat.toDigits 10 n := h ▸ List.mem_cons_self
    exact absurd (isDigit_of_mem_toDigits hmem) (by decide)
  intro m n h
  unfold fmtInt at h
  split at h <;> split at h
  · have := hdigits _ _ (List.cons.inj h).2
    omega
  · exact absurd h (hminus _ _)
  · exact absurd h.symm (hminus _ _)
  · have := hdigits _ _ h
    omega

theorem fmtInt_ne_nil (n : ℤ) : fmtInt n ≠ [] := by
  unfold fmtInt
  split
  · simp
  · exact Nat.toDigits_ne_nil

/-! ### Lists -/

/-- The text grows as `LIST_ADD` does. -/
theorem listAdd_intercalate {ws : List Str} (hne : ∀ w ∈ ws, w ≠ []) (w : Str) :
    listAdd ([','].intercalate ws) w = [','].intercalate (ws ++ [w]) := by
  rw [intercalate_concat]
  unfold listAdd
  simp only [intercalate_eq_nil hne]
  rfl

/-- **Items that are added one after the other** stand with commas between them. -/
theorem foldl_listAdd {ws : List Str} (hne : ∀ w ∈ ws, w ≠ []) :
    ws.foldl listAdd [] = [','].intercalate ws := by
  induction ws using List.reverseRecOn with
  | nil => rfl
  | append_singleton ws w ih =>
    have hws : ∀ w ∈ ws, w ≠ [] := fun w' h => hne w' (List.mem_append_left _ h)
    rw [List.foldl_concat, ih hws, listAdd_intercalate hws]

@[simp] theorem strtok_nil : strtok [] = [] := by decide

theorem strtok_single {a : Str} (ha : ',' ∉ a) (hne : a ≠ []) : strtok a = [a] := by
  have hs : a.splitOn ',' = [a] := List.splitOnP_eq_singleton fun c hc => by
    rw [beq_eq_false_iff_ne]
    rintro rfl
    exact ha hc
  simp [strtok, hs, hne]

/-- **One more number in a list is one more field.** -/
theorem strtok_listAddNum (str : Str) (n : ℤ) :
    strtok (listAddNum str n) = strtok str ++ [fmtInt n] := by
  have hone := strtok_single (comma_notMem_fmtInt n) (fmtInt_ne_nil n)
  unfold listAddNum listAdd
  by_cases h : str = []
  · simp [h, hone]
  · rw [if_neg h]
    have happ : (str ++ ',' :: fmtInt n).splitOn ',' =
        str.splitOn ',' ++ (fmtInt n).splitOn ',' :=
      List.splitOnP_append_cons _ _ (by simp)
    unfold strtok at hone ⊢
    rw [happ, List.filter_append, hone]

end GSConferencing.Serv.Strutil
