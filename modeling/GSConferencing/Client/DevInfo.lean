import GSConferencing.Serv.ClientInfo

/-!
# The info decoded

`parse_dev_info` of `client.c`: the info is cut at its colons, each entry at its equals signs, and
the value is written into the field of `struct dev_info` that has the name of the key.  The
pointers `keyval[0]` and `keyval[1]` keep what they were where an entry has no such piece, and
reading a list cuts the value it is read from.

* `step_sub`: the value of `sub` is written past the end of its field.
* `clean_foldlM`: the texts that are decoded have no separator in them.
* `not_roundTrip`: no reply is decoded as it was sent.
-/

namespace GSConferencing.Client.DevInfo

open GSConferencing.Cmd.ParseCmd GSConferencing.Lib.Tokens
open GSConferencing.Serv.Strutil GSConferencing.Serv.CmdHandler GSConferencing.Serv.ClientInfo

/-! ## The structure -/

/-- The type of a field: `char m[size]`, `int m` or `int m[size]`. -/
inductive Kind where
  | str (size : ℕ)
  | int
  | ints (size : ℕ)

@[reducible] def Kind.Val : Kind → Type
  | .str _ => Str
  | .int => ℤ
  | .ints size => Fin size → ℤ

/-- The fields of `struct dev_info`, each with the macro that reads it. -/
@[reducible] def kind : Key → Kind
  | .client_version => .str 64
  | .user_id => .str 64
  | .user_name => .str 64
  | .user_gender => .int
  | .tag => .int
  | .sub => .ints 1
  | .discuss_mode => .int
  | .discuss_num => .int
  | .discuss_name => .str 64
  | .discuss_nmembers => .int
  | .discuss_idlist => .ints 1024
  | .discuss_userlist => .str 10240
  | .discuss_chair => .int
  | .discuss_open => .int
  | .regist_start => .int
  | .regist_master => .int
  | .regist_mode => .int
  | .regist_reg => .int
  | .vote_num => .int
  | .vote_nmembers => .int
  | .vote_idlist => .ints 1024
  | .vote_userlist => .str 10240
  | .vote_master => .int
  | .vote_name => .str 256
  | .vote_type => .int
  | .vote_options => .str 1024
  | .vote_total => .int
  | .vote_results => .ints 40
  | .vote_choice => .int

/-- `struct dev_info`. -/
structure Info where
  id : ℤ
  val : (k : Key) → (kind k).Val

def Info.set (info : Info) (k : Key) (v : (kind k).Val) : Info :=
  { info with val := Function.update info.val k v }

/-- What goes wrong: a pointer that was never set or an array on the stack that is too small, or
a value that is written past the end of its field. -/
inductive Fault where
  | wild
  | outside (k : Key)
  deriving DecidableEq

/-! ## The tokenisers -/

/-- `str_split`. -/
def strSplit (s : Str) (delim : Char) : List Str := tokens (· = delim) s

/-- `_str_to_ints`, as far as the list has room. -/
def strToInts (s : Str) : List ℤ := (strSplit s ',').map atoi

/-- What `strtok(s, ",")` makes of the text at `s`, up to its new end. -/
def cut (s : Str) : Str :=
  s.takeWhile (· = ',') ++ (s.dropWhile (· = ',')).takeWhile (· ≠ ',')

/-- `keyval[0]` and `keyval[1]`, the pieces that are read. -/
structure Keyval where
  k0 : Option Str
  k1 : Option Str

/-- `str_split(entries[i], keyval, "=")`, with room for four pieces. -/
def Keyval.split (kv : Keyval) (e : Str) : Except Fault Keyval :=
  let ts := strSplit e '='
  if ts.length ≤ 4 then .ok ⟨ts[0]?.or kv.k0, ts[1]?.or kv.k1⟩ else .error .wild

/-- The values of a list, over what was there. -/
def overwrite {n : ℕ} (l : List ℤ) (v : Fin n → ℤ) : Fin n → ℤ := fun i => l.getD i (v i)

/-- `info_str`, `info_int` and `info_int_list`: a field from its text. -/
def read (k : Key) (s : Str) : (t : Kind) → t.Val → Except Fault t.Val
  | .str size, _ => .ok (s.take (size - 1))
  | .int, _ => .ok (atoi s)
  | .ints size, v =>
    if (strToInts s).length ≤ size then .ok (overwrite (strToInts s) v) else .error (.outside k)

/-- `keyval[1]` after that. -/
def rest (s : Str) : Kind → Str
  | .ints _ => cut s
  | _ => s

/-- The chain of `info_*`; the names of the fields differ, so their order is of no account. -/
def lookup (s : Str) : Option Key := keys.find? fun k => k.name = s

/-- The field that `keyval[0]` names is written. -/
def assign (kv : Keyval) (info : Info) : Except Fault (Keyval × Info) :=
  match kv.k0 with
  | none => .error .wild
  | some s =>
    match lookup s, kv.k1 with
    | none, _ => .ok (kv, info)
    | some _, none => .error .wild
    | some k, some a =>
      (read k a (kind k) (info.val k)).map fun v => (⟨some s, some (rest a (kind k))⟩, info.set k v)

/-- One round of the loop. -/
def step (x : Keyval × Info) (e : Str) : Except Fault (Keyval × Info) := do
  let kv ← x.1.split e
  assign kv x.2

/-- `parse_dev_info` of the client `id`, with room for 1000 entries. -/
def parseDevInfo (id : ℤ) (str : Str) (info : Info) : Except Fault Info := do
  let entries := strSplit str ':'
  if entries.length ≤ 1000 then
    let x ← entries.foldlM step (⟨none, none⟩, { info with id := id })
    return x.2
  else throw .wild

/-! ## Registration -/

/-- `FIND_OK`. -/
def findOk (args : List Str) : ℕ := (args.takeWhile (· ≠ "OK".toList)).length

/-- What `reg` comes to. -/
inductive Reg where
  | failed (e : ℤ)
  | fault (e : Fault)
  | ok (info : Info)

/-- `reg` of the client `id`, once it has the reply. -/
def reg (id : ℤ) (reply : Str) (info : Info) : Reg :=
  match parseCmd reply with
  | none => .fault .wild
  | some (.error e) => .failed e
  | some (.ok c) =>
    match c.args[findOk c.args + 1]? with
    | none => .fault .wild
    | some p =>
      match parseDevInfo id p info with
      | .error e => .fault e
      | .ok info => .ok info

/-- A field holds what was sent; of an array, as many values as there are in the list. -/
def Same : Item → (t : Kind) → t.Val → Prop
  | .s a, .str _, v => v = a
  | .d n, .int, v => v = n
  | .s a, .ints size, v => ∀ i (h : i < (strToInts a).length), ∃ hi : i < size,
      v ⟨i, hi⟩ = (strToInts a)[i]
  | .dd m n, .ints size, v => ∀ i (h : i < 2), ∃ hi : i < size, v ⟨i, hi⟩ = [m, n][i]
  | _, _, _ => False

/-- **The round trip**: the reply to the device is decoded, with no write past the end of a field
and whatever the structure held before, and each field holds what was sent. -/
def RoundTrip (ver : Str) (d : Device) (q : Request) : Prop :=
  ∃ reply, regReply ver d q = some reply ∧ ∀ init : Info, ∃ info, reg q.id reply init = .ok info ∧
    ∀ k, Same (sent ver d k) (kind k) (info.val k)

/-! ## The entry of `sub` -/

theorem word_comma_fmtInt (n : ℤ) : Word (· = ',') (fmtInt n) :=
  ⟨fmtInt_ne_nil n, fun _ hc =>
    decide_eq_false fun h => comma_notMem_fmtInt n (h ▸ hc)⟩

/-- Letters of a number are no delimiters. -/
theorem fmtInt_ne {n : ℤ} {c : Char} (hc : c ∈ fmtInt n) : c ≠ '=' ∧ c ≠ ':' := by
  rcases mem_fmtInt hc with rfl | hd
  · decide
  · constructor <;>
    · rintro rfl
      exact absurd hd (by decide)

theorem dd_ne {m n : ℤ} {c : Char} (hc : c ∈ (Item.dd m n).print) : c ≠ '=' ∧ c ≠ ':' := by
  rcases List.mem_append.mp hc with hc | hc
  · exact fmtInt_ne hc
  · rcases List.mem_cons.mp hc with rfl | hc
    · decide
    · exact fmtInt_ne hc

theorem strToInts_dd (m n : ℤ) : (strToInts (Item.dd m n).print).length = 2 := by
  have htokens : strSplit (Item.dd m n).print ',' = [fmtInt m, fmtInt n] := by
    unfold strSplit Item.print
    rw [tokens_cons (word_comma_fmtInt m) (by decide), tokens_word (word_comma_fmtInt n)]
  unfold strToInts
  rw [htokens]
  rfl

variable (ver : Str) (d : Device)

/-- The text of the entry. -/
theorem addArg_sub : addArg ver d .sub =
    "sub".toList ++ '=' :: (Item.dd d.dbData.sub1 d.dbData.sub2).print := rfl

theorem strSplit_sub : strSplit (addArg ver d .sub) '=' =
    ["sub".toList, (Item.dd d.dbData.sub1 d.dbData.sub2).print] := by
  rw [addArg_sub]
  unfold strSplit
  rw [tokens_cons (by decide) (by decide), tokens_word]
  refine ⟨List.append_ne_nil_of_left_ne_nil (fmtInt_ne_nil _) _, fun c hc => ?_⟩
  exact decide_eq_false (dd_ne hc).1

/-- **Two numbers** do not fit into `sub[1]`. -/
theorem step_sub (x : Keyval × Info) :
    step x (addArg ver d .sub) = .error (.outside .sub) := by
  have hlookup : lookup "sub".toList = some .sub := by decide
  have hread : ∀ v, read .sub (Item.dd d.dbData.sub1 d.dbData.sub2).print (.ints 1) v =
      .error (.outside .sub) := fun v => if_neg (by rw [strToInts_dd]; omega)
  unfold step Keyval.split
  rw [strSplit_sub]
  simp only [List.length_cons, List.length_nil]
  rw [if_pos (by omega)]
  show assign ⟨some "sub".toList, some (Item.dd d.dbData.sub1 d.dbData.sub2).print⟩ x.2 = _
  unfold assign
  simp only [hlookup]
  exact congrArg (Except.map _) (hread _)

theorem word_sub : Word (· = ':') (addArg ver d .sub) := by
  rw [addArg_sub]
  refine ⟨List.append_ne_nil_of_left_ne_nil (by decide) _, fun c hc => decide_eq_false ?_⟩
  rcases List.mem_append.mp hc with hc | hc
  · rintro rfl
    exact absurd hc (by decide)
  · rcases List.mem_cons.mp hc with rfl | hc
    · decide
    · exact (dd_ne hc).2

/-! ## Texts without separators -/

/-- No letter of the text ends an argument. -/
def NoSep (a : Str) : Prop := ∀ c ∈ a, isSep c = false

instance (a : Str) : Decidable (NoSep a) := inferInstanceAs (Decidable (∀ c ∈ a, _))

def CleanVal : (t : Kind) → t.Val → Prop
  | .str _, v => NoSep v
  | .int, _ => True
  | .ints _, _ => True

/-- The pieces and the fields have no separator in them. -/
structure Clean (x : Keyval × Info) : Prop where
  k1 : ∀ a ∈ x.1.k1, NoSep a
  val : ∀ k, CleanVal (kind k) (x.2.val k)

theorem noSep_rest {a : Str} (ha : NoSep a) (t : Kind) : NoSep (rest a t) := by
  cases t with
  | str size => exact ha
  | int => exact ha
  | ints size =>
    intro c hc
    rcases List.mem_append.mp hc with hc | hc
    · exact ha c (List.takeWhile_subset _ hc)
    · exact ha c (List.dropWhile_subset _ (List.takeWhile_subset _ hc))

theorem cleanVal_read {k : Key} {a : Str} (ha : NoSep a) {t : Kind} {v v' : t.Val}
    (h : read k a t v = .ok v') : CleanVal t v' := by
  cases t with
  | str size =>
    rw [← Except.ok.inj h]
    exact fun c hc => ha c (List.mem_of_mem_take hc)
  | int => trivial
  | ints size => trivial

theorem clean_split {kv kv' : Keyval} {e : Str} (he : NoSep e) (hkv : ∀ a ∈ kv.k1, NoSep a)
    (h : kv.split e = .ok kv') : ∀ a ∈ kv'.k1, NoSep a := by
  unfold Keyval.split at h
  simp only [] at h
  split at h
  · rw [← Except.ok.inj h]
    intro a ha
    rcases Option.or_eq_some_iff.mp ha with ha | ⟨-, ha⟩
    · exact fun c hc => he c (mem_of_mem_tokens (List.mem_of_getElem? ha) hc)
    · exact hkv a ha
  · cases h

theorem clean_assign {kv : Keyval} {info : Info} {x : Keyval × Info} (hclean : Clean ⟨kv, info⟩)
    (h : assign kv info = .ok x) : Clean x := by
  unfold assign at h
  split at h
  · cases h
  split at h
  · rw [← Except.ok.inj h]
    exact hclean
  · cases h
  next k a _ ha =>
  have hnosep : NoSep a := hclean.k1 a ha
  cases hread : read k a (kind k) (info.val k) with
  | error e => rw [hread] at h; cases h
  | ok v =>
    rw [hread] at h
    rw [← Except.ok.inj h]
    refine ⟨fun b hb => ?_, fun k' => ?_⟩
    · rw [← Option.some.inj hb]
      exact noSep_rest hnosep _
    · by_cases hk : k' = k
      · subst hk
        show CleanVal _ (Function.update info.val k' v k')
        rw [Function.update_self]
        exact cleanVal_read hnosep hread
      · show CleanVal _ (Function.update info.val k v k')
        rw [Function.update_of_ne hk]
        exact hclean.val k'

theorem clean_step {x x' : Keyval × Info} {e : Str} (he : NoSep e) (hclean : Clean x)
    (h : step x e = .ok x') : Clean x' := by
  unfold step at h
  cases hsplit : x.1.split e with
  | error f => rw [hsplit] at h; cases h
  | ok kv =>
    rw [hsplit] at h
    exact clean_assign ⟨clean_split he hclean.k1 hsplit, hclean.val⟩ h

/-- **No entry** with a separator, no text with one. -/
theorem clean_foldlM {es : List Str} (hes : ∀ e ∈ es, NoSep e) {x x' : Keyval × Info}
    (hclean : Clean x) (h : es.foldlM step x = .ok x') : Clean x' := by
  induction es generalizing x with
  | nil => rw [← Except.ok.inj h]; exact hclean
  | cons e es ih =>
    rw [List.foldlM_cons] at h
    cases hstep : step x e with
    | error f => rw [hstep] at h; cases h
    | ok y =>
      rw [hstep] at h
      exact ih (fun e he => hes e (List.mem_cons_of_mem _ he))
        (clean_step (hes e List.mem_cons_self) hclean hstep) h

/-! ## The round trip -/

/-- What is decoded is the word of the info that comes first. -/
theorem of_reg_ok {q : Request} {reply : Str} (hreply : regReply ver d q = some reply)
    {init info : Info} (h : reg q.id reply init = .ok info) :
    ∃ p, (words (getClientInfo ver d))[0]? = some p ∧ parseDevInfo q.id p init = .ok info := by
  have hwords := words_reply ver d q hreply
  rw [words_line] at hwords
  have hparse : parseCmd reply = none ∨ ∃ c, parseCmd reply = some (.ok c) ∧
      c.args = [fmtInt q.devtype, q.passwd, fmtInt q.port, q.brAddr] ++ "OK".toList ::
        words (getClientInfo ver d) := by
    unfold parseCmd
    rw [hwords]
    simp only [List.cons_append]
    rw [if_neg (fmtInt_ne_fail q.id)]
    split
    · exact .inl rfl
    · exact .inr ⟨_, rfl, rfl⟩
  unfold reg at h
  rcases hparse with hparse | ⟨c, hparse, hargs⟩
  · rw [hparse] at h; cases h
  have hnotOk : ∀ n : ℤ, fmtInt n ≠ "OK".toList := by
    intro n hn
    have hO : 'O' ∈ fmtInt n := hn ▸ by decide
    rcases mem_fmtInt hO with hc | hd
    · exact absurd hc (by decide)
    · exact absurd hd (by decide)
  have hfind : findOk c.args = 4 := by
    unfold findOk
    rw [hargs, List.takeWhile_append_of_pos, List.takeWhile_cons_of_neg, List.append_nil]
    · rfl
    · decide
    · intro w hw
      simp only [List.mem_cons, List.not_mem_nil, or_false] at hw
      rcases hw with rfl | rfl | rfl | rfl
      · exact decide_eq_true (hnotOk _)
      · exact decide_eq_true q.passwd_word.2
      · exact decide_eq_true (hnotOk _)
      · exact decide_eq_true q.brAddr_word.2
  have hget : c.args[findOk c.args + 1]? = (words (getClientInfo ver d))[0]? := by
    rw [hfind, hargs]
    rfl
  rw [hparse] at h
  simp only [hget] at h
  cases hp : (words (getClientInfo ver d))[0]? with
  | none => rw [hp] at h; cases h
  | some p =>
    rw [hp] at h
    refine ⟨p, rfl, ?_⟩
    simp only [] at h
    cases hdec : parseDevInfo q.id p init with
    | error e => rw [hdec] at h; cases h
    | ok info' => rw [hdec] at h; cases h; rfl

/-- The entries of a text, one by one. -/
theorem of_parse_ok {id : ℤ} {p : Str} {init info : Info} (h : parseDevInfo id p init = .ok info) :
    ∃ kv, (strSplit p ':').foldlM step (⟨none, none⟩, { init with id := id }) =
      .ok (kv, info) := by
  unfold parseDevInfo at h
  simp only [] at h
  split at h
  · cases hfold : (strSplit p ':').foldlM step (⟨none, none⟩, { init with id := id }) with
    | error e => rw [hfold] at h; cases h
    | ok x =>
      rw [hfold] at h
      rw [← Except.ok.inj h]
      exact ⟨x.1, rfl⟩
  · cases h

/-- Where nothing before `sub` has a separator, the entry of `sub` is decoded. -/
theorem sub_mem_entries (hbefore : ∀ k ∈ keysBefore, NoSep (sent ver d k).print) :
    ∃ p, (words (getClientInfo ver d))[0]? = some p ∧ addArg ver d .sub ∈ strSplit p ':' := by
  have hentry : ∀ k, NoSep (sent ver d k).print → NoSep (entryColon ver d k) := by
    intro k hk c hc
    have hname : NoSep k.name := by
      have hall : k.name.all (fun c => isSep c = false) = true := by cases k <;> decide +kernel
      exact fun c hc => of_decide_eq_true (List.all_eq_true.mp hall c hc)
    rcases List.mem_append.mp hc with hc | hc
    · rcases List.mem_append.mp hc with hc | hc
      · exact hname c hc
      · rcases List.mem_cons.mp hc with rfl | hc
        · decide
        · exact hk c hc
    · rw [List.mem_singleton.mp hc]
      decide
  have hsub : NoSep (sent ver d .sub).print := by
    intro c hc
    rcases List.mem_append.mp hc with hc | hc
    · exact (word_fmtInt _).2 c hc
    · rcases List.mem_cons.mp hc with rfl | hc
      · decide
      · exact (word_fmtInt _).2 c hc
  have hword : Word isSep (keysBefore.flatMap (entryColon ver d) ++ entryColon ver d .sub) := by
    refine ⟨List.append_ne_nil_of_right_ne_nil _ (List.append_ne_nil_of_right_ne_nil _ (by decide)),
      fun c hc => ?_⟩
    rcases List.mem_append.mp hc with hc | hc
    · obtain ⟨k, hk, hc⟩ := List.mem_flatMap.mp hc
      exact hentry k (hbefore k hk) c hc
    · exact hentry .sub hsub c hc
  have hlast : keysBefore.flatMap (entryColon ver d) =
      keysBefore.dropLast.flatMap (entryColon ver d) ++ addArg ver d .tag ++ [':'] := by
    rw [show keysBefore = keysBefore.dropLast ++ [.tag] from rfl, List.flatMap_append,
      List.flatMap_singleton, List.append_assoc]
    rfl
  obtain ⟨b', ts, htokens⟩ := tokens_prefix hword
    ([':'].intercalate (keysAfter.map (addArg ver d)))
  refine ⟨_, by rw [info_eq, words, htokens]; rfl, ?_⟩
  unfold strSplit entryColon
  rw [show keysBefore.flatMap (fun k => addArg ver d k ++ [':']) =
      keysBefore.flatMap (entryColon ver d) from rfl, hlast, List.append_assoc, List.append_assoc,
    List.append_assoc, List.singleton_append, ← List.append_assoc, tokens_append (by decide),
    List.append_assoc, List.singleton_append, tokens_cons (word_sub ver d) (by decide)]
  exact List.mem_append_right _ List.mem_cons_self

/-- A structure that holds nothing. -/
def blank : Info where
  id := 0
  val k :=
    match kind k with
    | .str _ => []
    | .int => 0
    | .ints _ => fun _ => 0

theorem clean_blank (id : ℤ) : Clean (⟨none, none⟩, { blank with id := id }) where
  k1 a ha := by cases ha
  val k := by
    cases k <;> first | exact trivial | exact fun c hc => absurd hc List.not_mem_nil

/-- **No round trip**: either the entry of `sub` is decoded, and two numbers are written into a
field for one, or a text before it has a separator and is decoded without. -/
theorem not_roundTrip (q : Request) : ¬ RoundTrip ver d q := by
  rintro ⟨reply, hreply, hdec⟩
  obtain ⟨info, hreg, hsame⟩ := hdec blank
  obtain ⟨p, hp, hparse⟩ := of_reg_ok ver d hreply hreg
  obtain ⟨kv, hfold⟩ := of_parse_ok hparse
  by_cases hbefore : ∀ k ∈ keysBefore, NoSep (sent ver d k).print
  · obtain ⟨p', hp', hmem⟩ := sub_mem_entries ver d hbefore
    rw [hp] at hp'
    rw [← Option.some.inj hp'] at hmem
    obtain ⟨es, es', hes⟩ := List.append_of_mem hmem
    rw [hes, List.foldlM_append] at hfold
    cases hfirst : es.foldlM step (⟨none, none⟩, { blank with id := q.id }) with
    | error e => rw [hfirst] at hfold; cases hfold
    | ok x =>
      rw [hfirst] at hfold
      have hcons : (addArg ver d .sub :: es').foldlM step x = .ok (kv, info) := hfold
      rw [List.foldlM_cons, step_sub] at hcons
      cases hcons
  · have hword : NoSep p := (word_of_mem (List.mem_of_getElem? hp)).2
    have hentries : ∀ e ∈ strSplit p ':', NoSep e := fun e he c hc =>
      hword c (mem_of_mem_tokens he hc)
    have hclean := clean_foldlM hentries (clean_blank q.id) hfold
    refine hbefore fun k hk => ?_
    simp only [keysBefore, List.mem_cons, List.not_mem_nil, or_false] at hk
    -- a text of the first three that is decoded as it was sent has no separator
    rcases hk with rfl | rfl | rfl | rfl | rfl
    · have heq : info.val .client_version = (sent ver d .client_version).print := hsame .client_version
      exact heq ▸ (hclean.val .client_version : NoSep (info.val .client_version))
    · have heq : info.val .user_id = (sent ver d .user_id).print := hsame .user_id
      exact heq ▸ (hclean.val .user_id : NoSep (info.val .user_id))
    · have heq : info.val .user_name = (sent ver d .user_name).print := hsame .user_name
      exact heq ▸ (hclean.val .user_name : NoSep (info.val .user_name))
    · exact (word_fmtInt _).2
    · exact (word_fmtInt _).2

/-! ## A device with nothing going on -/

def idle : Device where
  dbData := ⟨"7".toList, "Ann".toList, 0, 1, 1, 0, 0, 0, 0, 0, -1⟩
  group := ⟨⟨1, 0, 0, []⟩, none, 0, 0, [], none, 0, 0, []⟩
  registReg := 0
  vote := none

def request : Request where
  id := 101
  devtype := 1
  passwd := "########".toList
  port := 20203
  brAddr := "none".toList
  passwd_word := by decide
  brAddr_word := by decide

/-- What `reg` goes wrong with. -/
def Reg.fault? : Reg → Option Fault
  | .fault e => some e
  | _ => none

/-- **Out of bounds**: with nothing unusual in any text. -/
theorem sub_outside :
    ((regReply [] idle request).map fun r => (reg 101 r blank).fault?) =
      some (some (.outside .sub)) := by
  decide +kernel

theorem not_forall_roundTrip : ¬ ∀ ver d q, RoundTrip ver d q := by
  intro h
  obtain ⟨reply, hreply, hdec⟩ := h [] idle request
  obtain ⟨info, hreg, -⟩ := hdec blank
  have hfault := sub_outside
  rw [hreply, Option.map_some, show (101 : ℤ) = request.id from rfl, hreg] at hfault
  cases hfault

end GSConferencing.Client.DevInfo
