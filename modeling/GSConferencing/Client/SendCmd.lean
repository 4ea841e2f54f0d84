import GSConferencing.Client.RecvTcp
import GSConferencing.Serv.Proceed

/-!
# A command of a client

`SEND_CMD` of `client.c` with `send_tcp` of `net.c`: a line is sent to the server, and the reply is
received until the server closes, decoded and parsed.

* `call`: the handler of a name, with its return code.
* `IsReply`: a handler's reply is a text, or bytes that begin with 2.
* `exchange`: between the client and the handler there is nothing but the names of the errors: what
  the client makes of the reply is what the handler yields, and an error code arrives as it is.
-/

namespace GSConferencing.Client.SendCmd

open GSConferencing.Lib.Tokens GSConferencing.Include.Pack GSConferencing.Include.Encode
open GSConferencing.Cmd.ParseCmd GSConferencing.Client.RecvTcp GSConferencing.Serv.Strutil
open GSConferencing.Serv.CmdHandler GSConferencing.Serv.Handlers GSConferencing.Serv.Network
open GSConferencing.Serv.Proceed

/-- What `SEND_CMD` ends with. -/
inductive Result where
  /-- Nothing has come: -1 is returned. -/
  | noReply
  /-- `EVENT_TYPE2_CMD`. -/
  | type2 (buf : List Byte)
  /-- The code that `parse_cmd` has found in the reply. -/
  | failed (e : ℤ)
  /-- The reply is in `c`. -/
  | reply (c : Parsed)

/-- What is made of the reply; the code 0 is none, though nothing is set with it. -/
def parseReply (buf : Str) : Option Result :=
  match parseCmd buf with
  | none => none
  | some (.error e) => if e = 0 then none else some (.failed e)
  | some (.ok c) => some (.reply c)

/-- `send_tcp` and `SEND_CMD` from the reply on, which the server sends in pieces. -/
def received (pieces : List (List Byte)) : Option Result :=
  let l := recvAll buflen [] pieces
  if l = [] then some .noReply
  else
    let buf := decode l
    if buf = [] then some .noReply
    else if buf.head? = some 2#8 then some (.type2 buf)
    else parseReply (text (buf.takeWhile (· ≠ 0#8)))

variable {α σ : Type*} [DecidableEq α] {id : α → Str} {handler : Handler α σ} {ents : List α}
  {T : Table α} {s s' : σ} {n i : ℤ} {name : Str} {args : List Str} {cmd : Cmd} {salt salt' : Byte}

/-- The first handler that was registered under the name. -/
def call (id : α → Str) (handler : Handler α σ) (ents : List α) (s : σ) (name : Str) (cmd : Cmd) :
    Option (Reply σ) :=
  match ents.find? fun e => id e = name with
  | none => some (-1, cmd, s)
  | some e => handler e s cmd

/-- The first byte of a struct of type 2. -/
def type2 : Char := Char.ofNat 2

/-- What the client has to make of what a handler yields. -/
def expected (i : ℤ) (cmd : Cmd) : Option Result :=
  if i < 0 then some (.failed errBadCmd)
  else if 0 < i then some (.failed i)
  else if cmd.rep = [] then some .noReply
  else if cmd.rep.head? = some type2 then some (.type2 (bytes cmd.rep))
  else parseReply cmd.rep

/-- The reply of a handler: a text, or the bytes of a struct of type 2, which may be zero. -/
def IsReply (rep : Str) : Prop :=
  IsText rep ∨ rep.head? = some type2 ∧ ∀ c ∈ rep, c.toNat < 256

/-! ## The reply -/

theorem IsReply.byte {rep : Str} (h : IsReply rep) : ∀ c ∈ rep, c.toNat < 256 :=
  h.elim (fun h c hc => (h c hc).2) And.right

theorem takeWhile_bytes {s : Str} (h : IsText s) : (bytes s).takeWhile (· ≠ 0#8) = bytes s := by
  refine List.takeWhile_eq_self_iff.mpr fun b hb => ?_
  have hne : b ≠ 0#8 := fun h0 => zero_notMem_bytes h (h0 ▸ hb)
  simpa using hne

theorem head_bytes {s : Str} (h : ∀ c ∈ s, c.toNat < 256) :
    (bytes s).head? = some 2#8 ↔ s.head? = some type2 := by
  cases s with
  | nil => simp [bytes]
  | cons c s =>
    have hc := char_byte (h c List.mem_cons_self)
    simp only [bytes, List.map_cons, List.head?_cons, Option.some.injEq]
    constructor
    · intro h2
      rw [h2] at hc
      exact hc.symm
    · rintro rfl
      rfl

/-- **A reply that was sent** is what the client has received. -/
theorem received_reply {rep : Str} {pieces : List (List Byte)} (hne : rep ≠ []) (hrep : IsReply rep)
    (hlen : rep.length < cmdMax) (hs : Splits (encode salt (bytes rep)) pieces) :
    received pieces = if rep.head? = some type2 then some (.type2 (bytes rep))
      else parseReply rep := by
  have hall : recvAll buflen [] pieces = encode salt (bytes rep) := by
    rw [recvAll_eq (by decide : ([] : List Byte).length < buflen), List.nil_append, hs.1]
    refine List.take_of_length_le ?_
    rw [length_encode, length_bytes]
    exact hlen
  have hcons : encode salt (bytes rep) ≠ [] := List.ne_nil_of_length_pos (by
    rw [length_encode]
    omega)
  have hbytes : bytes rep ≠ [] := fun h => hne (List.map_eq_nil_iff.mp h)
  unfold received
  simp only [hall, decode_encode, if_neg hcons, if_neg hbytes, head_bytes hrep.byte]
  by_cases hraw : rep.head? = some type2
  · rw [if_pos hraw, if_pos hraw]
  · have htext : IsText rep := hrep.resolve_right fun h => hraw h.1
    rw [if_neg hraw, if_neg hraw, takeWhile_bytes htext, text_bytes htext]

theorem received_nothing {pieces : List (List Byte)} (hs : Splits [] pieces) :
    received pieces = some .noReply := by
  have hall : recvAll buflen [] pieces = [] := by
    rw [recvAll_eq (by decide : ([] : List Byte).length < buflen), List.nil_append, hs.1,
      List.take_nil]
  unfold received
  simp only [hall, if_true]

/-! ## The texts of the errors -/

theorem isText_of_all {s : Str} (h : s.all fun c => 0 < c.toNat && c.toNat < 256) : IsText s := by
  intro c hc
  simpa using List.all_eq_true.mp h c hc

theorem toList_fail : "FAIL ".toList = ['F', 'A', 'I', 'L', ' '] := by decide +kernel

theorem isText_fail : IsText "FAIL ".toList := isText_of_all (by decide +kernel)

theorem word_fail : Word isSep "FAIL".toList := ⟨by simp, by simp [isSep]⟩

theorem isText_failText {why : Str} (h : IsText why) : IsText (failText i why) :=
  isText_append.mpr ⟨isText_append.mpr ⟨isText_append.mpr ⟨isText_fail, isText_fmtInt i⟩,
    isText_append.mpr ⟨isText_space, h⟩⟩, isText_newline⟩

/-- An error code is what `parse_cmd` finds in its text. -/
theorem parseReply_failText (hmin : intMin ≤ i) (hmax : i ≤ intMax) (hi : i ≠ 0) (why : Str) :
    parseReply (failText i why) = some (.failed i) := by
  have hwords : ∃ ws, words (failText i why) = "FAIL".toList :: fmtInt i :: ws := by
    refine ⟨words (why ++ ['\n']), ?_⟩
    have hsplit : failText i why =
        "FAIL".toList ++ ' ' :: (fmtInt i ++ ' ' :: (why ++ ['\n'])) := by
      have hfail : "FAIL ".toList = "FAIL".toList ++ [' '] := by decide +kernel
      unfold failText
      rw [hfail]
      simp only [List.append_assoc, List.cons_append, List.nil_append]
    rw [hsplit]
    unfold words
    rw [tokens_cons word_fail isSep_space, tokens_cons (word_fmtInt i) isSep_space]
  obtain ⟨ws, hws⟩ := hwords
  have hparse : parseCmd (failText i why) = some (.error i) := by
    unfold parseCmd
    rw [hws]
    exact (if_pos rfl).trans (by rw [atoi_fmtInt hmin hmax])
  unfold parseReply
  rw [hparse]
  exact if_neg hi

/-- The text of an error is short. -/
theorem length_failText (hmin : intMin ≤ i) (hmax : i ≤ intMax) {why : Str}
    (h : why.length ≤ 100) : (failText i why).length < cmdMax := by
  have hi : i.natAbs < 10 ^ 10 := by
    unfold intMin at hmin
    unfold intMax at hmax
    omega
  have hdigits : (Nat.toDigits 10 i.natAbs).length ≤ 10 :=
    Nat.toDigits_length 10 i.natAbs 10 (by omega) hi
  have hfmt : (fmtInt i).length ≤ 11 := by
    unfold fmtInt
    split_ifs
    · rw [List.length_cons]
      omega
    · exact hdigits.trans (by omega)
  have hcmd : cmdMax = 10240 := rfl
  unfold failText
  simp only [List.length_append, List.length_cons, List.length_nil]
  have hfail : "FAIL ".toList.length = 5 := congrArg List.length toList_fail
  omega

/-! ## The exchange -/

/-- A reply that is not empty is sent, and received. -/
theorem received_sent {rep : Str} {r : Result} (hne : rep ≠ []) (hrep : IsReply rep)
    (hlen : rep.length < cmdMax)
    (hr : (if rep.head? = some type2 then some (.type2 (bytes rep)) else parseReply rep) =
      some r) :
    ∃ sent, doSend salt (bytes rep) = some sent ∧
      ∀ pieces, Splits sent pieces → received pieces = some r := by
  refine ⟨encode salt (bytes rep), if_pos (by rwa [length_bytes]), fun pieces hs => ?_⟩
  rw [received_reply hne hrep hlen hs, hr]

/-- The text of an error arrives as its code. -/
theorem received_failText (hmin : intMin ≤ i) (hmax : i ≤ intMax) (hi : i ≠ 0) {why : Str}
    (htext : IsText why) (hlen : why.length ≤ 100) :
    ∃ sent, doSend salt (bytes (failText i why)) = some sent ∧
      ∀ pieces, Splits sent pieces → received pieces = some (.failed i) := by
  have hhead : (failText i why).head? = some 'F' := by
    unfold failText
    rw [toList_fail]
    rfl
  refine received_sent (fun h => by rw [h] at hhead; cases hhead)
    (.inl (isText_failText htext))
    (length_failText hmin hmax hlen) ?_
  rw [hhead, if_neg (by decide), parseReply_failText hmin hmax hi]

/-- **What is sent after the handler** is received as what it has yielded. -/
theorem received_answer (hmin : intMin ≤ i) (hmax : i ≤ intMax) (hrep : IsReply cmd.rep)
    (hlen : cmd.rep.length < cmdMax) {r : Result} (hr : expected i cmd = some r) :
    ∃ sent, sendAnswer salt (answer i cmd) = some sent ∧
      ∀ pieces, Splits sent pieces → received pieces = some r := by
  unfold expected at hr
  unfold answer
  split_ifs at hr ⊢ with hneg hpos hnil hhead
  · obtain rfl := Option.some.inj hr
    exact received_failText (i := errBadCmd) (by decide) (by decide) (by decide)
      (isText_of_all (by decide +kernel)) (by simp)
  · obtain rfl := Option.some.inj hr
    exact received_failText hmin hmax (by omega)
      (isText_of_all (by decide +kernel)) (by simp)
  · obtain rfl := Option.some.inj hr
    exact ⟨[], rfl, fun pieces hs => received_nothing hs⟩
  · exact received_sent hnil hrep hlen ((if_pos hhead).trans hr)
  · exact received_sent hnil hrep hlen ((if_neg hhead).trans hr)

/-- **A command is a call of its handler:** the request, which the server gets at once, arrives as
it was, the reply, a text or raw, may come in pieces of any size, what the client makes of it is
what the handler has yielded, and the server is what the handler has left. -/
theorem exchange (hT : ents.foldlM (registerCmdHandler id) emptyTable = some T)
    (hmin : intMin ≤ n) (hmax : n ≤ intMax) (hwords : ∀ w ∈ name :: args, Word isSep w)
    (htext : ∀ w ∈ name :: args, IsText w) (hargs : args.length < argMax)
    (hline : (cmdLine n (name :: args)).length < cmdMax)
    (hcall : call id handler ents s name ⟨n, args, [' '].intercalate (fmtInt n :: name :: args)⟩ =
      some (i, cmd, s'))
    (hi : intMin ≤ i ∧ i ≤ intMax) (hrep : IsReply cmd.rep) (hlen : cmd.rep.length < cmdMax)
    {r : Result} (hr : expected i cmd = some r) :
    ∃ sent, proceedConnection id handler T s salt'
        [encode salt (bytes (cmdLine n (name :: args)))] = some (sent, s') ∧
      ∀ pieces, Splits sent pieces → received pieces = some r := by
  have hhandle : Serv.Proceed.handleCmd id handler T s name
      ⟨n, args, [' '].intercalate (fmtInt n :: name :: args)⟩ = some (i, cmd, s') := by
    obtain ⟨T', l, hT', hl, -, -, hfind⟩ := registered_foldlM id ents
    obtain rfl : T = T' := Option.some.inj (hT.symm.trans hT')
    rw [← hcall, Serv.Proceed.handleCmd, findById_eq hl, hfind, Option.bind_some]
    rfl
  have hne : bytes (cmdLine n (name :: args)) ≠ [] := fun h => by
    have hlen := congrArg List.length h
    simp [cmdLine] at hlen
  obtain ⟨sent, hsent, hreceived⟩ : ∃ sent, sendAnswer salt' (answer i cmd) = some sent ∧
      ∀ pieces, Splits sent pieces → received pieces = some r :=
    received_answer hi.1 hi.2 hrep hlen hr
  refine ⟨sent, ?_, hreceived⟩
  unfold proceedConnection
  rw [runProceedConnection_whole salt (by rwa [length_bytes]), if_neg hne]
  show (proceed id handler T s _).bind _ = _
  rw [proceed_line hmin hmax hwords htext hargs, hhandle, Option.map_some, Option.bind_some, hsent]
  rfl

/-- Two entries, `sub` and `get`; the reply of `get` is raw. -/
def twoNames (e : ℕ) : Str := if e = 0 then ['s', 'u', 'b'] else ['g', 'e', 't']

def rawReply : Str := [Char.ofNat 2, Char.ofNat 65, Char.ofNat 4, Char.ofNat 0, Char.ofNat 1,
  Char.ofNat 0, Char.ofNat 0, Char.ofNat 0]

def twoHandlers : Serv.Proceed.Handler ℕ ℕ := fun e s cmd =>
  if e = 0 then some (0, repOk cmd, s + 1) else some (0, { cmd with rep := rawReply }, s)

theorem exchange_raw : ∃ T, [0, 1].foldlM (registerCmdHandler twoNames) emptyTable = some T ∧
    ∃ sent, proceedConnection twoNames twoHandlers T 0 5#8
        [encode 3#8 (bytes (cmdLine 7 [['g', 'e', 't'], ['3']]))] = some (sent, 0) ∧
      ∀ pieces, Splits sent pieces → received pieces =
        some (.type2 [2#8, 65#8, 4#8, 0#8, 1#8, 0#8, 0#8, 0#8]) := by
  obtain ⟨T, -, hT, -⟩ := registered_foldlM twoNames [0, 1]
  have hraw : expected 0 ⟨7, [['3']], rawReply⟩ =
      some (.type2 [2#8, 65#8, 4#8, 0#8, 1#8, 0#8, 0#8, 0#8]) := by
    unfold expected
    rw [if_neg (by decide), if_neg (by decide), if_neg (by decide), if_pos (by decide)]
    exact congrArg (fun b => some (Result.type2 b)) (by decide +kernel)
  have hcall : ∀ rep, call twoNames twoHandlers [0, 1] 0 ['g', 'e', 't'] ⟨7, [['3']], rep⟩ =
      some (0, ⟨7, [['3']], rawReply⟩, 0) := fun rep => rfl
  refine ⟨T, hT, exchange (i := 0) hT (by decide) (by decide) ?_ ?_ (by decide) (by decide)
    (hcall _) (by decide) (.inr ⟨rfl, by simp [rawReply]⟩) (by decide) hraw⟩
  · intro w hw
    rcases List.mem_pair.mp hw with rfl | rfl
    · exact ⟨by simp, by simp [isSep]⟩
    · exact ⟨by simp, by simp [isSep]⟩
  · intro w hw
    rcases List.mem_pair.mp hw with rfl | rfl
    · exact isText_of_all (by decide +kernel)
    · exact isText_of_all (by decide +kernel)

end GSConferencing.Client.SendCmd
