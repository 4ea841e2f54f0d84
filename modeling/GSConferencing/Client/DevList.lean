import GSConferencing.Client.MsgctrlQuery
import GSConferencing.Serv.DevEnts

/-!
# The list of devices

`parse_entries` and `get_all_devs` of `client.c` against the list that `append_dev_ents_cache` puts
together.  The list is one word of the reply, cut at commas and then at colons; a tokenizer does not
see empty fields.

* `exchange_eq`: what comes back where every user id is one field.
* `clean_of_parseEntries`: no other user id comes out of `parse_entries`.
* `roundTrip_iff`: the groups whose devices come back as they are.
-/

namespace GSConferencing.Client.DevList

open GSConferencing.Lib.Tokens GSConferencing.Cmd.ParseCmd GSConferencing.Client.MsgctrlQuery
open GSConferencing.Serv.Strutil GSConferencing.Serv.CmdHandler GSConferencing.Serv.Roster

/-! ## `parse_entries` -/

variable {E : Type}

/-- `struct parse_cfg`: a member of an entry and how it is written, a number or a text.  The array
of the text has `size` bytes, which `parse_entries` does not know. -/
inductive ParseCfg (E : Type) where
  | int (set : ℤ → E → E)
  | str (size : ℕ) (set : Str → E → E)

/-- `char *sp[1024]`. -/
def spMax : ℕ := 1024

/-- `char *em[128]`. -/
def emMax : ℕ := 128

/-- `str_split`, into an array of `room` pointers. -/
def strSplit (s : Str) (delim : Char) (room : ℕ) : Option (List Str) :=
  let sp := tokens (· = delim) s
  if room < sp.length then none else some sp

/-- The loop over the members of one entry.  A text that does not fit is written into what comes
behind it. -/
def parseEntry : List (ParseCfg E) → List Str → E → Option E
  | [], _, ent => some ent
  | _ :: _, [], ent => some ent
  | .int set :: cfg, w :: em, ent => parseEntry cfg em (set (atoi w) ent)
  | .str size set :: cfg, w :: em, ent =>
    if size ≤ w.length then none else parseEntry cfg em (set w ent)

/-- The loop over the entries from the number `i` on; `ents` is what the array holds before. -/
def parseAll (cfg : List (ParseCfg E)) (ents : ℕ → E) : ℕ → List Str → Option (List E)
  | _, [] => some []
  | i, s :: sp => do
    let em ← strSplit s ':' emMax
    let ent ← parseEntry cfg em (ents i)
    let rest ← parseAll cfg ents (i + 1) sp
    some (ent :: rest)

/-- `parse_entries`: the entries that are written; their number is returned. -/
def parseEntries (cfg : List (ParseCfg E)) (ents : ℕ → E) (str : Str) : Option (List E) :=
  (strSplit str ',' spMax).bind (parseAll cfg ents 0)

/-! ## `get_all_devs` -/

/-- `dev_ent_t`. -/
structure DevEnt where
  id : ℤ
  type : ℤ
  userId : Str
  online : ℤ
  deriving DecidableEq

/-- The `cfg` of `get_all_devs`. -/
def devCfg : List (ParseCfg DevEnt) :=
  [.int fun n e => { e with id := n }, .int fun n e => { e with type := n },
    .str userIdMax fun w e => { e with userId := w }, .int fun n e => { e with online := n }]

/-- `get_all_devs`, of the line that comes back: the error code, or the entries written to `devs`.
Without a list `str_split` would go on with the text of another call. -/
def getAllDevs (devs : ℕ → DevEnt) (line : Str) : Option (Except ℤ (List DevEnt)) :=
  (parseCmd line).bind fun c => match c with
    | .error e => some (.error e)
    | .ok c => match c.args[findOk c.args + 1]? with
      | none => none
      | some p => (parseEntries devCfg devs p).map .ok

/-- What the server answers to the client `id`, once its list has been written anew. -/
def reply (s : Group) (id : ℤ) : Str :=
  (cmdGetAllDevs (refreshDevEntsCache s) ⟨id, [], fmtInt id ++ " get_all_devs".toList⟩).2.1.rep

/-- The client `id` asks for the devices; the reply of the server has `CMD_MAX` bytes. -/
def exchange (s : Group) (id : ℤ) (devs : ℕ → DevEnt) : Option (Except ℤ (List DevEnt)) :=
  if cmdMax ≤ (reply s id).length then none else getAllDevs devs (reply s id)

/-! ## The property -/

/-- The devices of the group. -/
def entries (s : Group) : List DevEnt :=
  s.devs.map fun d =>
    ⟨d, (s.dev d).type, (s.data d).userId, if (s.dev d).active then 1 else 0⟩

/-- What the types of the fields admit. -/
def Admitted (s : Group) : Prop :=
  ∀ d ∈ s.devs, (intMin ≤ d ∧ d ≤ intMax) ∧
    (intMin ≤ (s.dev d).type ∧ (s.dev d).type ≤ intMax) ∧ (s.data d).userId.length < userIdMax

/-- **The property:** every client that asks gets the devices, whatever was in its array. -/
def RoundTrip (s : Group) : Prop :=
  ∀ id ∈ s.devs, ∀ devs, exchange s id devs = some (.ok (entries s))

/-- A letter that one of the tokenizers stops at. -/
def isDelim (c : Char) : Bool := isSep c || c = ',' || c = ':'

/-- A text that is one field. -/
abbrev Clean (w : Str) : Prop := Word isDelim w

/-- **A list that can be read back:** the user ids are fields, the devices no more than `sp` has
room for, and the reply is not too long. -/
structure Listable (s : Group) : Prop where
  userIds : ∀ d ∈ s.devs, Clean (s.data d).userId
  count : s.devs.length ≤ spMax
  room : ∀ d ∈ s.devs, (reply s d).length < cmdMax

/-! ## Fields -/

theorem strSplit_eq {s : Str} {delim : Char} {sp : List Str} (h : tokens (· = delim) s = sp)
    (room : ℕ) : strSplit s delim room = if room < sp.length then none else some sp := by
  subst h
  rfl

section Fields

variable {w : Str}

theorem notDelim_iff {c : Char} :
    isDelim c = false ↔ isSep c = false ∧ c ≠ ',' ∧ c ≠ ':' := by
  unfold isDelim
  simp only [Bool.or_eq_false_iff, decide_eq_false_iff_not, and_assoc, ne_eq]

theorem clean_fmtInt (n : ℤ) : Clean (fmtInt n) := by
  refine ⟨fmtInt_ne_nil n, fun c hc => ?_⟩
  rcases mem_fmtInt hc with rfl | hd
  · decide
  · refine notDelim_iff.mpr ⟨notSep_of_isDigit hd, ?_, ?_⟩ <;>
    · rintro rfl
      exact absurd hd (by decide)

theorem colon_of_clean (h : Clean w) : Word (· = ':') w :=
  ⟨h.1, fun c hc => decide_eq_false (notDelim_iff.mp (h.2 c hc)).2.2⟩

/-- The letters of an entry stop neither `parse_cmd` nor the cut at commas. -/
theorem devEnt_letters {d t : ℤ} {a : Bool} (h : Clean w) {c : Char} (hc : c ∈ devEnt d t w a) :
    isSep c = false ∧ c ≠ ',' := by
  have hfield : ∀ {v : Str}, Clean v → c ∈ v → isSep c = false ∧ c ≠ ',' := fun hv hcv =>
    ⟨(notDelim_iff.mp (hv.2 c hcv)).1, (notDelim_iff.mp (hv.2 c hcv)).2.1⟩
  unfold devEnt at hc
  simp only [List.mem_append, List.mem_cons] at hc
  rcases hc with hc | rfl | hc | rfl | hc | rfl | hc
  · exact hfield (clean_fmtInt d) hc
  · decide
  · exact hfield (clean_fmtInt t) hc
  · decide
  · exact hfield h hc
  · decide
  · exact hfield (clean_fmtInt _) hc

/-- The fields of an entry. -/
theorem tokens_devEnt {d t : ℤ} {a : Bool} (h : Clean w) :
    tokens (· = ':') (devEnt d t w a) =
      [fmtInt d, fmtInt t, w, fmtInt (if a then 1 else 0)] := by
  unfold devEnt
  rw [tokens_cons (colon_of_clean (clean_fmtInt d)) rfl,
    tokens_cons (colon_of_clean (clean_fmtInt t)) rfl, tokens_cons (colon_of_clean h) rfl,
    tokens_word (colon_of_clean (clean_fmtInt _))]

end Fields

/-! ## Where every user id is a field -/

variable {s : Group} {id : ℤ}

/-- One entry is read back. -/
theorem parseEntry_devEnt {d t : ℤ} {w : Str} {a : Bool} (hd : intMin ≤ d ∧ d ≤ intMax)
    (ht : intMin ≤ t ∧ t ≤ intMax) (hw : w.length < userIdMax) (ent : DevEnt) :
    parseEntry devCfg [fmtInt d, fmtInt t, w, fmtInt (if a then 1 else 0)] ent =
      some ⟨d, t, w, if a then 1 else 0⟩ := by
  have hone : atoi (fmtInt (if a then 1 else 0)) = if a then 1 else 0 := by
    cases a <;> decide
  simp only [devCfg, parseEntry, if_neg (not_le.mpr hw), atoi_fmtInt hd.1 hd.2,
    atoi_fmtInt ht.1 ht.2, hone]

/-- All entries are read back. -/
theorem parseAll_entries (hs : Admitted s) (hclean : ∀ d ∈ s.devs, Clean (s.data d).userId)
    (devs : ℕ → DevEnt) (i : ℕ) {l : List ℤ} (hl : l ⊆ s.devs) :
    parseAll devCfg devs i (l.map (entryOf s)) = some (l.map fun d =>
      ⟨d, (s.dev d).type, (s.data d).userId, if (s.dev d).active then 1 else 0⟩) := by
  induction l generalizing i with
  | nil => rfl
  | cons d l ih =>
    have hmem : d ∈ s.devs := hl List.mem_cons_self
    obtain ⟨hd, ht, hw⟩ := hs d hmem
    have hsplit : strSplit (entryOf s d) ':' emMax = some [fmtInt d, fmtInt (s.dev d).type,
        (s.data d).userId, fmtInt (if (s.dev d).active then 1 else 0)] :=
      strSplit_eq (tokens_devEnt (hclean d hmem)) emMax
    rw [List.map_cons, List.map_cons, parseAll, hsplit]
    simp only [Option.bind_eq_bind, Option.bind_some, parseEntry_devEnt hd ht hw,
      ih (i + 1) fun a ha => hl (List.mem_cons_of_mem d ha)]

theorem reply_eq (hid : id ∈ s.devs) :
    reply s id = fmtInt id ++ ' ' :: ("get_all_devs".toList ++ ' ' :: ("OK".toList ++
      ' ' :: (rendering s ++ ['\n']))) := by
  obtain ⟨hdevs, -⟩ := Serv.DevEnts.foldl_append_frame s.devs { s with devEnts := [] }
  have hmem : id ∈ (refreshDevEntsCache s).devs := by
    show id ∈ (s.devs.foldl appendDevEntsCache { s with devEnts := [] }).devs
    rw [hdevs]
    exact hid
  have hlist : (refreshDevEntsCache s).devEnts = rendering s := Serv.DevEnts.devEnts_refresh s
  unfold reply cmdGetAllDevs
  rw [if_neg (not_not.mpr hmem)]
  simp only [show (refreshDevEntsCache s).dirty = false from rfl, Bool.false_eq_true, if_false,
    hlist, repEnd, repAdd, List.append_assoc]
  rfl

/-- **What comes back** where every user id is a field. -/
theorem exchange_eq (hs : Admitted s) (hclean : ∀ d ∈ s.devs, Clean (s.data d).userId)
    (hid : id ∈ s.devs) (devs : ℕ → DevEnt) :
    exchange s id devs =
      if cmdMax ≤ (reply s id).length ∨ spMax < s.devs.length then none
      else some (.ok (entries s)) := by
  have hne : s.devs.map (entryOf s) ≠ [] := fun h =>
    List.ne_nil_of_mem hid (List.map_eq_nil_iff.mp h)
  have hletters : ∀ w ∈ s.devs.map (entryOf s), w ≠ [] ∧ ∀ c ∈ w, isSep c = false ∧ c ≠ ',' := by
    intro w hw
    obtain ⟨d, hd, rfl⟩ := List.mem_map.mp hw
    exact ⟨Serv.DevEnts.devEnt_ne_nil d _ _ _, fun c hc => devEnt_letters (hclean d hd) hc⟩
  have hword : Word isSep (rendering s) :=
    word_intercalate (by decide) hne fun w hw =>
      ⟨(hletters w hw).1, fun c hc => ((hletters w hw).2 c hc).1⟩
  have hcommas : tokens (· = ',') (rendering s) = s.devs.map (entryOf s) :=
    tokens_intercalate rfl fun w hw =>
      ⟨(hletters w hw).1, fun c hc => decide_eq_false ((hletters w hw).2 c hc).2⟩
  have hwords : words (reply s id) =
      [fmtInt id, "get_all_devs".toList, "OK".toList, rendering s] := by
    unfold words
    rw [reply_eq hid, tokens_cons (word_fmtInt id) isSep_space,
      tokens_cons (by decide) isSep_space, tokens_cons (by decide) isSep_space,
      tokens_append_sep isSep_newline, tokens_word hword]
  have hfew : ¬ argMax ≤ ["OK".toList, rendering s].length := by
    show ¬ argMax ≤ 2
    decide
  unfold exchange getAllDevs
  rw [parseCmd_eq (hs id hid).1.1 (hs id hid).1.2 hwords, if_neg hfew, Option.bind_some]
  by_cases hroom : cmdMax ≤ (reply s id).length
  · rw [if_pos hroom, if_pos (.inl hroom)]
  · rw [if_neg hroom]
    show (parseEntries devCfg devs (rendering s)).map Except.ok = _
    unfold parseEntries
    rw [strSplit_eq hcommas, List.length_map]
    simp only [hroom, false_or]
    split
    · rfl
    · rw [Option.bind_some, parseAll_entries hs hclean devs 0 (List.Subset.refl _)]
      rfl

/-! ## What comes out of `parse_entries` -/

theorem strSplit_some {t : Str} {delim : Char} {room : ℕ} {sp : List Str}
    (h : strSplit t delim room = some sp) : sp = tokens (· = delim) t ∧ sp.length ≤ room := by
  unfold strSplit at h
  simp only at h
  split at h
  · cases h
  · next hle =>
    cases h
    exact ⟨rfl, not_lt.mp hle⟩

/-- A field of a word of the reply. -/
theorem clean_of_tokens {p piece w : Str} (hp : Word isSep p) (hpiece : piece ∈ tokens (· = ',') p)
    (hw : w ∈ tokens (· = ':') piece) : Clean w := by
  refine ⟨(word_of_mem hw).1, fun c hc => notDelim_iff.mpr ⟨?_, ?_, ?_⟩⟩
  · exact hp.2 c (mem_of_mem_tokens hpiece (mem_of_mem_tokens hw hc))
  · exact of_decide_eq_false ((word_of_mem hpiece).2 c (mem_of_mem_tokens hw hc))
  · exact of_decide_eq_false ((word_of_mem hw).2 c hc)

/-- The user id of an entry is a field that has been read, or what was there before. -/
theorem clean_of_parseEntry {em : List Str} {ent ent' : DevEnt} (hem : ∀ w ∈ em, Clean w)
    (hent : Clean ent.userId) (h : parseEntry devCfg em ent = some ent') : Clean ent'.userId := by
  unfold devCfg at h
  match em with
  | [] =>
    cases h
    exact hent
  | [_] =>
    cases h
    exact hent
  | [_, _] =>
    cases h
    exact hent
  | [_, _, w] =>
    simp only [parseEntry] at h
    split at h
    · cases h
    · cases h
      exact hem w (by simp)
  | _ :: _ :: w :: _ :: _ =>
    simp only [parseEntry] at h
    split at h
    · cases h
    · cases h
      exact hem w (by simp)

/-- **No other user id comes out of `parse_entries`** than fields, and what was there before. -/
theorem clean_of_parseEntries {p : Str} {devs : ℕ → DevEnt} {es : List DevEnt} (hp : Word isSep p)
    (hdevs : ∀ i, Clean (devs i).userId) (h : parseEntries devCfg devs p = some es) :
    ∀ e ∈ es, Clean e.userId := by
  obtain ⟨sp, hsp, hall⟩ := Option.bind_eq_some_iff.mp h
  have hpieces : ∀ piece ∈ sp, piece ∈ tokens (· = ',') p := fun piece hm =>
    (strSplit_some hsp).1 ▸ hm
  clear hsp h
  generalize 0 = i at hall
  induction sp generalizing i es with
  | nil =>
    cases hall
    exact fun e he => absurd he List.not_mem_nil
  | cons piece sp ih =>
    rw [parseAll] at hall
    simp only [Option.bind_eq_bind, Option.bind_eq_some_iff] at hall
    obtain ⟨em, hem, ent, hent, rest, hrest, heq⟩ := hall
    cases heq
    have hfields : ∀ w ∈ em, Clean w := fun w hw =>
      clean_of_tokens hp (hpieces piece List.mem_cons_self) ((strSplit_some hem).1 ▸ hw)
    refine List.forall_mem_cons.mpr ⟨clean_of_parseEntry hfields (hdevs i) hent, ?_⟩
    exact ih (fun q hq => hpieces q (List.mem_cons_of_mem piece hq)) (i + 1) hrest

/-- The arguments of a command are words. -/
theorem word_of_parseCmd {line : Str} {c : Parsed} (h : parseCmd line = some (.ok c)) :
    ∀ a ∈ c.args, Word isSep a := by
  intro a ha
  unfold parseCmd at h
  split at h
  · cases h
  · cases h
  · next p cmd args hwords =>
    split at h
    · cases h
    · split at h
      · cases h
      · cases h
        refine word_of_mem (l := line) ?_
        show a ∈ words line
        rw [hwords]
        exact List.mem_cons_of_mem p (List.mem_cons_of_mem cmd ha)

theorem clean_of_exchange {devs : ℕ → DevEnt} {es : List DevEnt}
    (hdevs : ∀ i, Clean (devs i).userId)
    (h : exchange s id devs = some (.ok es)) : ∀ e ∈ es, Clean e.userId := by
  unfold exchange getAllDevs at h
  split at h
  · cases h
  · obtain ⟨c, hc, h⟩ := Option.bind_eq_some_iff.mp h
    cases c with
    | error e => cases h
    | ok c =>
      simp only at h
      split at h
      · cases h
      · next p hp =>
        obtain ⟨es', hes, heq⟩ := Option.map_eq_some_iff.mp h
        cases heq
        exact clean_of_parseEntries (word_of_parseCmd hc p (List.mem_of_getElem? hp)) hdevs hes

/-! ## The round trip -/

/-- **The devices come back as they are** exactly if their list can be read back. -/
theorem roundTrip_iff (hs : Admitted s) : RoundTrip s ↔ Listable s := by
  constructor
  · intro h
    -- what was in the array before could hide a user id that is not written
    have hx : Clean ['x'] := by decide
    have hclean : ∀ d ∈ s.devs, Clean (s.data d).userId := by
      intro d hd
      have hback := h d hd fun _ => ⟨0, 0, ['x'], 0⟩
      exact clean_of_exchange (fun _ => hx) hback _ (List.mem_map_of_mem hd)
    have hfits : ∀ d ∈ s.devs, ¬ (cmdMax ≤ (reply s d).length ∨ spMax < s.devs.length) := by
      intro d hd hlong
      have hback := h d hd fun _ => ⟨0, 0, ['x'], 0⟩
      rw [exchange_eq hs hclean hd, if_pos hlong] at hback
      cases hback
    refine ⟨hclean, ?_, fun d hd => not_le.mp fun hle => hfits d hd (.inl hle)⟩
    cases hdevs : s.devs with
    | nil => exact Nat.zero_le _
    | cons d l =>
      rw [← hdevs]
      exact not_lt.mp fun hlt => hfits d (hdevs ▸ List.mem_cons_self) (.inr hlt)
  · intro h id hid devs
    have hfits : ¬ (cmdMax ≤ (reply s id).length ∨ spMax < s.devs.length) :=
      not_or.mpr ⟨not_le.mpr (h.room id hid), not_lt.mpr h.count⟩
    rw [exchange_eq hs h.userIds hid, if_neg hfits]

/-- The manager device and two others have registered, so that each has a user id. -/
def threeDevs : Group :=
  ([(0, 4), (101, 1), (102, 2)].foldlM (fun s r => regDev s r.1 r.2)
    (boot ⟨[], List.nodup_nil, fun _ => ⟨0, [], 0⟩⟩)).getD
      (boot ⟨[], List.nodup_nil, fun _ => ⟨0, [], 0⟩⟩)

theorem roundTrip_iff_threeDevs :
    (RoundTrip threeDevs ↔ Listable threeDevs) ∧ threeDevs.devs = [0, 101, 102] ∧
      RoundTrip threeDevs := by
  have hadmitted : Admitted threeDevs := by
    unfold Admitted
    decide +kernel
  have hiff := roundTrip_iff hadmitted
  exact ⟨hiff, by decide +kernel,
    hiff.mpr ⟨by decide +kernel, by decide +kernel, by decide +kernel⟩⟩

/-- The group after `add_manager_dev`, with no devices in the table. -/
def managerOnly : Group := enrolled (boot ⟨[], List.nodup_nil, fun _ => ⟨0, [], 0⟩⟩) 0 0

theorem admitted_managerOnly : Admitted managerOnly := by
  unfold Admitted
  decide

/-- The manager device has no user id: its entry `0:0::0` is read as three fields. -/
theorem manager_misread : ¬ ∀ s, Admitted s → RoundTrip s := by
  intro h
  have hback := h managerOnly admitted_managerOnly 0 List.mem_cons_self fun _ => ⟨7, 7, ['7'], 7⟩
  have hread : (exchange managerOnly 0 fun _ => ⟨7, 7, ['7'], 7⟩).bind Except.toOption =
      some [⟨0, 0, ['0'], 7⟩] := by
    decide +kernel
  rw [hback] at hread
  exact absurd hread (by decide)

end GSConferencing.Client.DevList
