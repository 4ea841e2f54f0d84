import GSConferencing.Cmd.ParseCmd
import GSConferencing.Serv.CmdHandler

/-!
# Lists of ids

A list of ids travels as numbers with commas between them.  The server writes it with
`list_TO_NUMLIST` and walks it with `FOREACH_ID`, `cmd_handler.h`; `client.c` writes it with
`int_list_to_str` and reads it with `str_to_int_list`.  The texts stand in buffers of the callers.

* `map_atoi_visits`: `FOREACH_ID` stops at the pieces between the commas.
* `strToIntList_reply`, `visits_intListToStr`: either side reads what the other one has written.
-/

namespace GSConferencing.Cmd.IdList

open GSConferencing.Lib.Tokens GSConferencing.Cmd.ParseCmd
open GSConferencing.Serv.Strutil GSConferencing.Serv.CmdHandler

/-! ## The server -/

/-- `list_TO_NUMLIST`, of the ids that the loop meets. -/
def listToNumlist (l : List ℤ) : Str := l.foldl listAddNum []

/-- `strchr`: the text from the first `c` on, or `NULL`. -/
def strchr (s : Str) (c : Char) : Option Str :=
  match s.dropWhile (· ≠ c) with
  | [] => none
  | a :: r => some (a :: r)

theorem length_strchr {s q : Str} {c : Char} (h : strchr s c = some q) :
    q.tail.length < s.length := by
  have hle := (List.dropWhile_sublist (· ≠ c) (l := s)).length_le
  unfold strchr at h
  split at h
  · cases h
  · next a r hdrop =>
    cases h
    rw [hdrop, List.length_cons] at hle
    exact hle

/-- The pointers `p` with which the body of `FOREACH_ID` is run.  Where there is no comma,
`strchr` is `NULL` and `NULL + 1` is the `(char *)1` that ends the loop. -/
def visits (p : Str) : List Str :=
  p :: match _h : strchr p ',' with
    | none => []
    | some q => visits q.tail
termination_by p.length
decreasing_by exact length_strchr _h

/-! ## The client -/

/-- `_str_to_ints`: the numbers that are stored. -/
def strToInts : Option Str → List ℤ
  | none => []
  | some s => (strtok s).map atoi

/-- `str_to_int_list`: the array behind the call. -/
def strToIntList (s : Option Str) : List ℤ := strToInts s ++ [0]

/-- What the loop of `int_list_to_str` writes; an array without a `0` is read beyond its end. -/
def writeInts : List ℤ → Option Str
  | [] => none
  | n :: l => if n = 0 then some [] else (writeInts l).map fun s => fmtInt n ++ ',' :: s

/-- `int_list_to_str`: the last comma is taken back. -/
def intListToStr (l : List ℤ) : Option Str := (writeInts l).map fun s => s.take (s.length - 1)

/-! ## `FOREACH_ID` -/

theorem strchr_eq_none {s : Str} {c : Char} (h : c ∉ s) : strchr s c = none := by
  have hdrop : s.dropWhile (· ≠ c) = [] := List.dropWhile_eq_nil_iff.mpr fun a ha => by
    refine decide_eq_true ?_
    rintro rfl
    exact h ha
  unfold strchr
  rw [hdrop]

theorem strchr_append {a : Str} {c : Char} (h : c ∉ a) (b : Str) :
    strchr (a ++ c :: b) c = some (c :: b) := by
  have hdrop : (a ++ c :: b).dropWhile (· ≠ c) = c :: b := by
    have hne : ∀ x ∈ a, decide (x ≠ c) = true := fun x hx => decide_eq_true fun hxc => h (hxc ▸ hx)
    rw [List.dropWhile_append_of_pos hne]
    exact List.dropWhile_cons_of_neg (by simp)
  unfold strchr
  rw [hdrop]

theorem visits_of_notMem {p : Str} (h : ',' ∉ p) : visits p = [p] := by
  rw [visits, strchr_eq_none h]

theorem visits_append {a : Str} (h : ',' ∉ a) (b : Str) :
    visits (a ++ ',' :: b) = (a ++ ',' :: b) :: visits b := by
  rw [visits, strchr_append h]
  rfl

theorem leadingNat_append_comma (a b : Str) : leadingNat (a ++ ',' :: b) = leadingNat a := by
  have htake : (a ++ ',' :: b).takeWhile Char.isDigit = a.takeWhile Char.isDigit := by
    induction a with
    | nil => rfl
    | cons c a ih =>
      rw [List.cons_append, List.takeWhile_cons, List.takeWhile_cons, ih]
  rw [leadingNat, leadingNat, htake]

/-- `atoi` reads no further than the next comma. -/
theorem atoi_append_comma (a b : Str) : atoi (a ++ ',' :: b) = atoi a := by
  have hdrop : (a ++ ',' :: b).dropWhile isSpace = a.dropWhile isSpace ++ ',' :: b := by
    induction a with
    | nil => rfl
    | cons c a ih =>
      by_cases hc : isSpace c = true
      · rw [List.cons_append, List.dropWhile_cons_of_pos hc, List.dropWhile_cons_of_pos hc, ih]
      · rw [List.cons_append, List.dropWhile_cons_of_neg hc, List.dropWhile_cons_of_neg hc,
          List.cons_append]
  unfold atoi
  rw [hdrop]
  cases a.dropWhile isSpace with
  | nil => rfl
  | cons c r =>
    have hr := leadingNat_append_comma r b
    have hcr := leadingNat_append_comma (c :: r) b
    rw [List.cons_append] at hcr ⊢
    split
    · next heq =>
      obtain ⟨rfl, rfl⟩ := List.cons.inj heq
      simp only [hr]
    · next heq =>
      obtain ⟨rfl, rfl⟩ := List.cons.inj heq
      simp only [hr]
    · next hm hp =>
      rw [hcr]
      split
      · next heq =>
        obtain ⟨rfl, rfl⟩ := List.cons.inj heq
        exact absurd rfl (hm _)
      · next heq =>
        obtain ⟨rfl, rfl⟩ := List.cons.inj heq
        exact absurd rfl (hp _)
      · rfl

/-- **`FOREACH_ID`** with `atoi` reads the pieces between the commas. -/
theorem map_atoi_visits (p : Str) : (visits p).map atoi = (forEachId p).map atoi := by
  induction hn : p.length using Nat.strong_induction_on generalizing p with
  | _ n ih =>
    subst hn
    unfold forEachId
    by_cases hp : ',' ∈ p
    · obtain ⟨a, b, rfl, ha⟩ := List.eq_append_cons_of_mem hp
      have hlen : b.length < (a ++ ',' :: b).length := by
        rw [List.length_append, List.length_cons]
        omega
      rw [visits_append ha, List.splitOn_append_cons_self_of_not_mem ha, List.map_cons,
        List.map_cons,
        atoi_append_comma]
      exact congrArg _ (ih _ hlen b rfl)
    · rw [visits_of_notMem hp, List.splitOn_eq_singleton hp]

/-! ## Lists that are written -/

section Lists

variable {l : List ℤ}

theorem fmtInts_ne_nil (l : List ℤ) : ∀ w ∈ l.map fmtInt, w ≠ [] := by
  intro w hw
  obtain ⟨n, -, rfl⟩ := List.mem_map.mp hw
  exact fmtInt_ne_nil n

/-- The text that the server writes. -/
theorem listToNumlist_eq (l : List ℤ) : listToNumlist l = [','].intercalate (l.map fmtInt) := by
  rw [← foldl_listAdd (fmtInts_ne_nil l), List.foldl_map]
  rfl

/-- The text that the client writes, if the array has numbers. -/
theorem intListToStr_eq (hl : ∀ n ∈ l, n ≠ 0) (hne : l ≠ []) :
    intListToStr (l ++ [0]) = some ([','].intercalate (l.map fmtInt)) := by
  have hwrite : ∀ l : List ℤ, (∀ n ∈ l, n ≠ 0) → l ≠ [] →
      writeInts (l ++ [0]) = some ([','].intercalate (l.map fmtInt) ++ [',']) := by
    intro l
    induction l with
    | nil => exact fun _ h => absurd rfl h
    | cons n l ih =>
      intro hl _
      rw [List.cons_append, writeInts, if_neg (hl n List.mem_cons_self)]
      cases l with
      | nil => simp [writeInts]
      | cons m l =>
        rw [ih (fun k hk => hl k (List.mem_cons_of_mem n hk)) (List.cons_ne_nil m l)]
        simp only [Option.map_some, List.map_cons, List.intercalate_cons_cons, List.append_assoc]
        rfl
  unfold intListToStr
  rw [hwrite l hl hne, Option.map_some, List.length_append, List.length_singleton,
    Nat.add_sub_cancel, List.take_left]

/-- The numbers between the commas. -/
theorem splitOn_numbers (hne : l ≠ []) :
    ([','].intercalate (l.map fmtInt)).splitOn ',' = l.map fmtInt := by
  refine List.splitOn_intercalate ',' ?_ fun h => hne (List.map_eq_nil_iff.mp h)
  intro w hw
  obtain ⟨n, -, rfl⟩ := List.mem_map.mp hw
  exact comma_notMem_fmtInt n

theorem map_atoi_fmtInt (hl : ∀ n ∈ l, intMin ≤ n ∧ n ≤ intMax) :
    (l.map fmtInt).map atoi = l := by
  rw [List.map_map]
  exact (List.map_congr_left fun n hn => atoi_fmtInt (hl n hn).1 (hl n hn).2).trans (List.map_id l)

theorem strtok_listToNumlist (l : List ℤ) : strtok (listToNumlist l) = l.map fmtInt := by
  rw [listToNumlist_eq, strtok]
  cases l with
  | nil => rfl
  | cons n l =>
    rw [splitOn_numbers (List.cons_ne_nil n l)]
    exact List.filter_eq_self.mpr fun w hw => decide_eq_true (fmtInts_ne_nil _ w hw)

/-- A list of numbers is one word. -/
theorem word_listToNumlist (hne : l ≠ []) : Word isSep (listToNumlist l) := by
  rw [listToNumlist_eq]
  refine word_intercalate (by decide) (fun h => hne (List.map_eq_nil_iff.mp h)) fun w hw => ?_
  obtain ⟨n, -, rfl⟩ := List.mem_map.mp hw
  exact word_fmtInt n

/-- The words of a reply with the list at its end; an empty list is none. -/
theorem words_reply (cmd : Cmd) (l : List ℤ) :
    words (repEnd (repAdd cmd (listToNumlist l))).rep =
      words cmd.rep ++ if l = [] then [] else [listToNumlist l] := by
  have hrep : (repEnd (repAdd cmd (listToNumlist l))).rep =
      cmd.rep ++ ' ' :: (listToNumlist l ++ ['\n']) := by
    show (cmd.rep ++ ' ' :: listToNumlist l) ++ ['\n'] = _
    rw [List.append_assoc, List.cons_append]
  unfold words
  rw [hrep, tokens_append isSep_space, tokens_append_sep isSep_newline]
  split
  · next h => rw [h, show listToNumlist [] = [] from rfl, tokens_nil]
  · next h => rw [tokens_word (word_listToNumlist h)]

/-- **The client reads** the numbers that the server has written, as the last argument of a
reply. -/
theorem strToIntList_reply (l : List ℤ) {cmd : Cmd} {id : ℤ} {name : Str} {args : List Str}
    (hid : intMin ≤ id ∧ id ≤ intMax) (hrep : words cmd.rep = fmtInt id :: name :: args)
    (hroom : args.length + 1 < argMax) :
    ∃ args', parseCmd (repEnd (repAdd cmd (listToNumlist l))).rep = some (.ok ⟨id, name, args'⟩) ∧
      args'.take args.length = args ∧
      strToIntList args'[args.length]? = (l.map fmtInt).map atoi ++ [0] := by
  have hwords := words_reply cmd l
  rw [hrep, List.cons_append, List.cons_append] at hwords
  have hparse := parseCmd_eq hid.1 hid.2 hwords
  refine ⟨_, hparse.trans (if_neg ?_), List.take_left, ?_⟩
  · rw [List.length_append]
    split <;> simp only [List.length_nil, List.length_singleton] <;> omega
  · rw [List.getElem?_append_right le_rfl, Nat.sub_self]
    split
    · next h => rw [h]; rfl
    · show (strtok (listToNumlist l)).map atoi ++ [0] = _
      rw [strtok_listToNumlist]

/-- **The server reads what the client has written.** -/
theorem visits_intListToStr (hl : ∀ n ∈ l, intMin ≤ n ∧ n ≤ intMax) (hzero : ∀ n ∈ l, n ≠ 0)
    (hne : l ≠ []) :
    ∃ s, intListToStr (l ++ [0]) = some s ∧ (visits s).map atoi = l := by
  refine ⟨_, intListToStr_eq hzero hne, ?_⟩
  rw [map_atoi_visits, forEachId, splitOn_numbers hne, map_atoi_fmtInt hl]

/-- **Both directions,** for every list of ids: the client gets the list with a `0` behind it, and
the server visits the elements in order. -/
theorem idList_codec (hl : ∀ n ∈ l, (intMin ≤ n ∧ n ≤ intMax) ∧ n ≠ 0) :
    (∀ (cmd : Cmd) (id : ℤ) (name : Str) (args : List Str), intMin ≤ id ∧ id ≤ intMax →
      words cmd.rep = fmtInt id :: name :: args → args.length + 1 < argMax →
        ∃ args', parseCmd (repEnd (repAdd cmd (listToNumlist l))).rep =
            some (.ok ⟨id, name, args'⟩) ∧
          args'.take args.length = args ∧ strToIntList args'[args.length]? = l ++ [0]) ∧
    (l ≠ [] → ∃ s, intListToStr (l ++ [0]) = some s ∧ (visits s).map atoi = l) := by
  have hint : ∀ n ∈ l, intMin ≤ n ∧ n ≤ intMax := fun n hn => (hl n hn).1
  have hzero : ∀ n ∈ l, n ≠ 0 := fun n hn => (hl n hn).2
  refine ⟨fun cmd id name args hid hrep hroom => ?_, visits_intListToStr hint hzero⟩
  have hreply := strToIntList_reply l hid hrep hroom
  rwa [map_atoi_fmtInt hint] at hreply

end Lists

/-- The list of two ids, in the reply to `msgctrl query`. -/
theorem idList_codec_two :
    (∃ args', parseCmd "7 msgctrl query OK 12,-3\n".toList =
        some (.ok ⟨7, "msgctrl".toList, args'⟩) ∧
      args'.take 2 = ["query".toList, "OK".toList] ∧ strToIntList args'[2]? = [12, -3, 0]) ∧
    ∃ s, intListToStr [12, -3, 0] = some s ∧ (visits s).map atoi = [12, -3] := by
  have h := idList_codec (l := [12, -3]) (by decide)
  exact ⟨h.1 ⟨7, [], "7 msgctrl query OK".toList⟩ 7 "msgctrl".toList
    ["query".toList, "OK".toList] (by decide) (by decide) (by decide), h.2 (by decide)⟩

end GSConferencing.Cmd.IdList
