import GSConferencing.Cmd.IdList
import GSConferencing.Serv.Msgctrl

/-!
# Text messages, from client to clients

`msgctrl_send` of `client.c`, the way through the server, and the rebuilding of the text in
`__handle_cmd`.  Lines are taken to arrive at once, and a broadcast to be handled once by every
client.

* `rebuild_spec`: the words before the last `OK`, each after a space.
* `handleCmd_eq`: what a client makes of a line of a message.
* `delivered_iff`: a message leads to one event at each client it is for exactly when it `Fits`.
-/

namespace GSConferencing.Client.Msgctrl

open GSConferencing.Lib.Tokens GSConferencing.Cmd.ParseCmd GSConferencing.Cmd.IdList
open GSConferencing.Include.Pack
open GSConferencing.Serv.Strutil GSConferencing.Serv.CmdHandler GSConferencing.Serv.Msgctrl

/-! ## Sending -/

/-- An id of a device in an `idlist`, which ends with `0`. -/
structure DevId where
  val : ℤ
  range : intMin ≤ val ∧ val ≤ intMax
  ne : val ≠ 0

/-- Whom a message is for: all, or the devices of a list. -/
inductive Target where
  | all
  | list (l : List DevId) (ne : l ≠ [])

namespace Target

/-- What `int_list_to_str` writes before it takes the last comma back. -/
def written (l : List DevId) : Str := l.flatMap fun i => fmtInt i.val ++ [',']

/-- `tmp`. -/
def text : Target → Str
  | .all => "all".toList
  | .list l _ => (written l).dropLast

/-- The bytes of `tmp` that are written. -/
def size : Target → ℕ
  | .all => 4
  | .list l _ => (written l).length

/-- How often a device is named. -/
def count : Target → ℤ → ℕ
  | .all, _ => 1
  | .list l _, id => (l.map DevId.val).count id

end Target

/-- `char tmp[1024]`. -/
def tmpMax : ℕ := 1024

/-- The command line of a message. -/
def sendLine (id : ℤ) (t : Target) (msg : Str) : Str :=
  fmtInt id ++ " msgctrl send ".toList ++ t.text ++ ' ' :: msg ++ ['\n']

/-- `msgctrl_send`, up to the sending of `buf[CMD_MAX]`. -/
def msgctrlSend (id : ℤ) (t : Target) (msg : Str) : Option Str :=
  if tmpMax < t.size ∨ cmdMax ≤ (sendLine id t msg).length then none else some (sendLine id t msg)

/-! ## Receiving -/

/-- `EVENT_MSG` and `EVENT_BROADCAST_MSG`, with the sender and the text. -/
inductive MsgEvent where
  | msg (uid : ℤ) (text : Str)
  | broadcast (uid : ℤ) (text : Str)
  deriving DecidableEq

/-- `char msg[256]`. -/
def msgMax : ℕ := 256

/-- The loop that puts the text together again, up to an `OK` with a `NULL` behind it. -/
def rebuild : List Str → Option Str
  | [] => none
  | a :: rest =>
    if a = "OK".toList ∧ rest = [] then some [] else (rebuild rest).map fun s => ' ' :: a ++ s

/-- `int_in_str`; a list without tokens gives `atoi` a null pointer. -/
def intInStr (i : ℤ) (s : Str) : Option Bool :=
  if strtok s = [] then none else some ((strtok s).any fun p => atoi p = i)

/-- `msgctrl` of `__handle_cmd`, on the client `id`; a missing argument is a null pointer. -/
def handleMsgctrl (id : ℤ) (c : Parsed) : Option (List MsgEvent) :=
  match c.args with
  | [] => none
  | sub :: args =>
    if sub ≠ "send".toList then some []
    else match args with
      | [] => none
      | ids :: rest => (rebuild rest).bind fun msg =>
        if msgMax ≤ msg.length then none
        else if ids = "all".toList then some [.broadcast c.deviceId msg]
        else (intInStr id ids).map fun b => if b then [.msg c.deviceId msg] else []

/-- `__handle_cmd`, for the commands `msgctrl`; the code of `parse_cmd` is not looked at. -/
def handleCmd (id : ℤ) (line : Str) : Option (List MsgEvent) :=
  (parseCmd line).bind fun r =>
    match r with
    | .error _ => none
    | .ok c => if c.cmd = "msgctrl".toList then handleMsgctrl id c else some []

/-! ## The way of a message -/

/-- The server with the devices that are registered, and the client that sends. -/
structure Net where
  devs : List Device
  nodup : (devs.map Device.id).Nodup
  sender : DevId
  registered : ∃ d ∈ devs, d.id = sender.val ∧ d.active = true

/-- The clients that get what goes out. -/
def receivers (devs : List Device) : Out → List (ℤ × Str)
  | .dev id rep => [(id, rep)]
  | .all rep => (devs.filter fun d => d.Reached).map fun d => (d.id, rep)

/-- The events at the clients that get lines. -/
def collect : List (ℤ × Str) → Option (List (ℤ × MsgEvent))
  | [] => some []
  | (id, line) :: rest => (handleCmd id line).bind fun es =>
    (collect rest).map fun r => es.map (fun e => (id, e)) ++ r

/-- `msgctrl_send` up to its return, and the events it leads to. -/
def exchange (n : Net) (t : Target) (msg : Str) : Option (List (ℤ × MsgEvent)) :=
  (msgctrlSend n.sender.val t msg).bind fun line =>
  (serve n.devs line).bind fun r =>
  (parseCmd r.1).bind fun _ => collect (r.2.flatMap (receivers n.devs))

/-- The words, each after a space. -/
def spaced (ws : List Str) : Str := ws.flatMap fun w => ' ' :: w

/-- The event of a message. -/
def Target.event : Target → ℤ → Str → MsgEvent
  | .all, uid, text => .broadcast uid text
  | .list _ _, uid, text => .msg uid text

/-- The events at a client. -/
def eventsOf (id : ℤ) (es : List (ℤ × MsgEvent)) : List MsgEvent :=
  (es.filter fun e => e.1 = id).map Prod.snd

/-- **The message arrives:** one event with its words at each client that it is for, none at the
others, and no array is overrun. -/
def Delivered (n : Net) (t : Target) (msg : Str) : Prop :=
  ∃ es, exchange n t msg = some es ∧ ∀ d ∈ n.devs, d.Reached →
    eventsOf d.id es = if t.count d.id = 0 then []
      else [t.event n.sender.val (spaced (words msg))]

/-- Whether the server sends a line of this length on. -/
def Target.Carried : Target → ℕ → Prop
  | .all, len => ucmdHead + (len + 1) ≤ cmdMax - 100
  | .list _ _, len => len ≤ cmdMax - 100

/-- A message that has room everywhere and names no client twice. -/
structure Fits (n : Net) (t : Target) (msg : Str) : Prop where
  target : t.size ≤ tmpMax
  args : (words msg).length + 3 < argMax
  line : (sendLine n.sender.val t msg).length + 3 < cmdMax
  client : ∀ d ∈ n.devs, d.Reached → t.count d.id ≠ 0 → t.count d.id = 1 ∧
    t.Carried ((sendLine n.sender.val t msg).length + 3) ∧ (spaced (words msg)).length < msgMax

/-! ## Lines -/

namespace Target

variable {l : List DevId}

theorem written_eq (ne : l ≠ []) :
    written l = [','].intercalate (l.map fun i => fmtInt i.val) ++ [','] := by
  induction l with
  | nil => exact absurd rfl ne
  | cons i l ih =>
    cases l with
    | nil => simp [written]
    | cons j l =>
      have hrest : written (i :: j :: l) = fmtInt i.val ++ [','] ++ written (j :: l) := rfl
      rw [hrest, ih (by simp)]
      simp only [List.map_cons, List.intercalate_cons_cons, List.append_assoc]

/-- The list is the one that the server would write. -/
theorem text_list (ne : l ≠ []) : text (.list l ne) = listToNumlist (l.map DevId.val) := by
  rw [text, written_eq ne, List.dropLast_concat, listToNumlist_eq, List.map_map]
  rfl

theorem vals_ne_nil (ne : l ≠ []) : l.map DevId.val ≠ [] := fun h => ne (List.map_eq_nil_iff.mp h)

/-- The ids that the server finds in the list. -/
theorem forEachId_text (ne : l ≠ []) :
    forEachId (text (.list l ne)) = l.map fun i => fmtInt i.val := by
  rw [forEachId, text_list, listToNumlist_eq, splitOn_numbers (vals_ne_nil ne), List.map_map]
  rfl

/-- The ids that a client finds in the list. -/
theorem strtok_text (ne : l ≠ []) : strtok (text (.list l ne)) = l.map fun i => fmtInt i.val := by
  rw [text_list, strtok_listToNumlist, List.map_map]
  rfl

theorem mem_written {c : Char} (h : c ∈ written l) : c = ',' ∨ c = '-' ∨ c.isDigit = true := by
  obtain ⟨i, -, hc⟩ := List.mem_flatMap.mp h
  rcases List.mem_append.mp hc with hc | hc
  · exact .inr (mem_fmtInt hc)
  · exact .inl (List.mem_singleton.mp hc)

theorem text_ne_all (ne : l ≠ []) : text (.list l ne) ≠ "all".toList := by
  intro h
  have ha : 'a' ∈ (written l).dropLast := (show (written l).dropLast = _ from h) ▸ by decide
  rcases mem_written (List.dropLast_subset _ ha) with hc | hc | hc <;> exact absurd hc (by decide)

theorem word_text (t : Target) : Word isSep t.text := by
  cases t with
  | all => decide
  | list l ne =>
    rw [text_list]
    exact word_listToNumlist (vals_ne_nil ne)

end Target

/-- The words of the line. -/
theorem words_sendLine (id : ℤ) (t : Target) (msg : Str) :
    words (sendLine id t msg) =
      fmtInt id :: "msgctrl".toList :: "send".toList :: t.text :: words msg := by
  have hline : sendLine id t msg = fmtInt id ++ ' ' :: ("msgctrl".toList ++ ' ' ::
      ("send".toList ++ ' ' :: (t.text ++ ' ' :: (msg ++ ['\n'])))) := by
    unfold sendLine
    simp only [List.append_assoc, List.cons_append]
    rfl
  unfold words
  rw [hline, tokens_cons (word_fmtInt id) isSep_space, tokens_cons (by decide) isSep_space,
    tokens_cons (by decide) isSep_space, tokens_cons t.word_text isSep_space,
    tokens_append_sep isSep_newline]

/-- The line without its newline. -/
def body (id : ℤ) (t : Target) (msg : Str) : Str :=
  fmtInt id ++ " msgctrl send ".toList ++ t.text ++ ' ' :: msg

/-- What the server sends on. -/
def echo (id : ℤ) (t : Target) (msg : Str) : Str := body id t msg ++ " OK\n".toList

theorem sendLine_eq (id : ℤ) (t : Target) (msg : Str) :
    sendLine id t msg = body id t msg ++ ['\n'] := rfl

theorem length_echo (id : ℤ) (t : Target) (msg : Str) :
    (echo id t msg).length = (sendLine id t msg).length + 3 := by
  rw [echo, sendLine_eq, List.length_append, List.length_append]
  rfl

/-- The words of the line that is sent on. -/
theorem words_echo (id : ℤ) (t : Target) (msg : Str) :
    words (echo id t msg) = fmtInt id :: "msgctrl".toList :: "send".toList :: t.text ::
      (words msg ++ ["OK".toList]) := by
  have hok : tokens isSep "OK\n".toList = ["OK".toList] := by decide
  have hbody : tokens isSep (body id t msg) = words (sendLine id t msg) := by
    rw [sendLine_eq, words, tokens_append_sep isSep_newline]
  have hecho : echo id t msg = body id t msg ++ ' ' :: "OK\n".toList := rfl
  unfold words
  rw [hecho, tokens_append isSep_space, hok, hbody, words_sendLine]
  rfl

/-- **The text is put together again** from the words up to the last `OK`. -/
theorem rebuild_spec (ws : List Str) : rebuild (ws ++ ["OK".toList]) = some (spaced ws) := by
  induction ws with
  | nil => rfl
  | cons w ws ih =>
    have hne : ¬ (w = "OK".toList ∧ ws ++ ["OK".toList] = []) := fun h => absurd h.2 (by simp)
    rw [List.cons_append, rebuild, if_neg hne, ih]
    rfl

theorem intInStr_text {l : List DevId} (ne : l ≠ []) (i : ℤ) :
    intInStr i (Target.list l ne).text = some (decide ((Target.list l ne).count i ≠ 0)) := by
  unfold intInStr
  rw [Target.strtok_text ne, if_neg (fun h => ne (List.map_eq_nil_iff.mp h)), Option.some.injEq,
    List.any_map, Bool.eq_iff_iff, List.any_eq_true, decide_eq_true_eq, Target.count, ne_eq,
    List.count_eq_zero, not_not, List.mem_map]
  refine exists_congr fun j => and_congr_right fun _ => ?_
  rw [Function.comp_apply, decide_eq_true_eq, atoi_fmtInt j.range.1 j.range.2]

/-- **What a client makes of the line** of a message. -/
theorem handleCmd_eq (uid : DevId) (t : Target) (msg : Str) (i : ℤ) :
    handleCmd i (echo uid.val t msg) =
      if argMax ≤ (words msg).length + 3 ∨ msgMax ≤ (spaced (words msg)).length then none
      else some (if t.count i = 0 then [] else [t.event uid.val (spaced (words msg))]) := by
  unfold handleCmd
  rw [parseCmd_eq uid.range.1 uid.range.2 (words_echo ..)]
  have hlen : ("send".toList :: t.text :: (words msg ++ ["OK".toList])).length =
      (words msg).length + 3 := by simp
  rw [hlen]
  by_cases hargs : argMax ≤ (words msg).length + 3
  · rw [if_pos hargs, if_pos (.inl hargs)]
    rfl
  · rw [if_neg hargs, Option.bind_some]
    refine (if_pos rfl).trans ?_
    unfold handleMsgctrl
    refine (if_neg (not_not.mpr rfl)).trans ?_
    simp only [rebuild_spec, Option.bind_some, hargs, false_or]
    by_cases hmsg : msgMax ≤ (spaced (words msg)).length
    · rw [if_pos hmsg, if_pos hmsg]
    · rw [if_neg hmsg, if_neg hmsg]
      cases t with
      | all => rfl
      | list l ne =>
        rw [if_neg (Target.text_ne_all ne), intInStr_text ne, Option.map_some, Option.some.injEq]
        by_cases hc : (Target.list l ne).count i = 0
        · rw [if_pos hc, if_neg (by simp [hc])]
        · rw [if_neg hc, if_pos (decide_eq_true hc)]
          rfl

/-! ## Clients -/

/-- The clients that a target names, as often as it does. -/
def Target.named (devs : List Device) : Target → List ℤ
  | .all => (devs.filter fun d => d.Reached).map Device.id
  | .list l _ => (l.map DevId.val).filter fun i => ∃ d ∈ devs, d.id = i ∧ d.Reached

instance (t : Target) (len : ℕ) : Decidable (t.Carried len) := by
  unfold Target.Carried; split <;> infer_instance

/-- The clients that get a line of this length. -/
def Target.served (devs : List Device) (t : Target) (len : ℕ) : List ℤ :=
  if t.Carried len then t.named devs else []

theorem receivers_brcast (devs : List Device) (rep : Str) :
    (brcastCmdToAll rep).flatMap (receivers devs) =
      (Target.served devs .all rep.length).map fun i => (i, rep) := by
  unfold brcastCmdToAll Target.served
  by_cases h : cmdMax - 100 < ucmdHead + (rep.length + 1)
  · rw [if_pos h, if_neg (show ¬ Target.all.Carried rep.length from not_le.mpr h)]
    rfl
  · rw [if_neg h, if_pos (show Target.all.Carried rep.length from not_lt.mp h),
      List.flatMap_singleton, receivers, Target.named, List.map_map]
    rfl

/-- The clients that one place of a list leads to. -/
theorem receivers_id {devs : List Device} (hnd : (devs.map Device.id).Nodup) (i : ℤ) (rep : Str) :
    (sendToId devs rep i).flatMap (receivers devs) =
      if rep.length ≤ cmdMax - 100 ∧ ∃ d ∈ devs, d.id = i ∧ d.Reached then [(i, rep)] else [] := by
  unfold sendToId
  split
  · next d hfind =>
    have hd := List.mem_of_find?_eq_some hfind
    have hid := of_decide_eq_true (@List.find?_some _ (fun d : Device => d.id = i) _ _ hfind)
    have hiff : (∃ d' ∈ devs, d'.id = i ∧ d'.Reached) ↔ d.Reached := by
      constructor
      · rintro ⟨d', hd', hid', hr⟩
        exact List.inj_on_of_nodup_map hnd hd' hd (hid'.trans hid.symm) ▸ hr
      · exact fun hr => ⟨d, hd, hid, hr⟩
    unfold asyncSendtoDev
    by_cases hr : d.Reached
    · rw [if_neg (not_not.mpr hr)]
      by_cases hlen : cmdMax - 100 < rep.length
      · rw [if_pos hlen, if_neg fun h => absurd h.1 (not_le.mpr hlen)]
        rfl
      · rw [if_neg hlen, if_pos ⟨not_lt.mp hlen, hiff.mpr hr⟩, hid]
        rfl
    · rw [if_pos hr, if_neg fun h => hr (hiff.mp h.2)]
      rfl
  · next hfind =>
    rw [if_neg]
    · rfl
    · rintro ⟨-, d, hd, hid, -⟩
      exact List.find?_eq_none.mp hfind d hd (decide_eq_true hid)

theorem receivers_idlist {devs : List Device} (hnd : (devs.map Device.id).Nodup) {l : List DevId}
    (ne : l ≠ []) (rep : Str) :
    (sendToIdlist devs rep (Target.list l ne).text).flatMap (receivers devs) =
      ((Target.list l ne).served devs rep.length).map fun i => (i, rep) := by
  unfold sendToIdlist
  rw [Target.forEachId_text ne, List.flatMap_map, List.flatMap_assoc]
  have hone : ∀ i ∈ l, (sendToId devs rep (atoi (fmtInt i.val))).flatMap (receivers devs) =
      if rep.length ≤ cmdMax - 100 ∧ ∃ d ∈ devs, d.id = i.val ∧ d.Reached then [(i.val, rep)]
        else [] := by
    intro i _
    rw [atoi_fmtInt i.range.1 i.range.2]
    exact receivers_id hnd i.val rep
  rw [List.flatMap_congr hone]
  unfold Target.served
  by_cases hlen : rep.length ≤ cmdMax - 100
  · rw [if_pos (show (Target.list l ne).Carried rep.length from hlen), Target.named]
    simp only [hlen, true_and]
    clear hone ne
    induction l with
    | nil => rfl
    | cons i l ih =>
      rw [List.flatMap_cons, List.map_cons, List.filter_cons, ih]
      by_cases hi : ∃ d ∈ devs, d.id = i.val ∧ d.Reached
      · rw [if_pos hi, if_pos (decide_eq_true hi)]
        rfl
      · rw [if_neg hi, if_neg (by rw [decide_eq_true_eq]; exact hi)]
        rfl
  · rw [if_neg (show ¬ (Target.list l ne).Carried rep.length from hlen)]
    simp only [hlen, false_and, if_false]
    exact List.flatMap_eq_nil_iff.mpr fun _ _ => rfl

theorem count_named {n : Net} {d : Device} (hd : d ∈ n.devs) (hr : d.Reached) (t : Target) :
    (t.named n.devs).count d.id = t.count d.id := by
  cases t with
  | all =>
    have hnd : ((n.devs.filter fun d => d.Reached).map Device.id).Nodup :=
      n.nodup.sublist (List.filter_sublist.map _)
    refine List.count_eq_one_of_mem hnd (List.mem_map_of_mem ?_)
    exact List.mem_filter.mpr ⟨hd, decide_eq_true hr⟩
  | list l ne => exact List.count_filter (decide_eq_true ⟨d, hd, rfl, hr⟩)

theorem mem_named {devs : List Device} {t : Target} {i : ℤ} (h : i ∈ t.named devs) :
    (∃ d ∈ devs, d.id = i ∧ d.Reached) ∧ t.count i ≠ 0 := by
  cases t with
  | all =>
    obtain ⟨d, hd, rfl⟩ := List.mem_map.mp h
    obtain ⟨hd, hr⟩ := List.mem_filter.mp hd
    exact ⟨⟨d, hd, rfl, of_decide_eq_true hr⟩, one_ne_zero⟩
  | list l ne =>
    obtain ⟨hmem, hd⟩ := List.mem_filter.mp h
    exact ⟨of_decide_eq_true hd, (List.count_pos_iff.mpr hmem).ne'⟩

/-! ## Events -/

theorem collect_eq {rep : Str} {e : MsgEvent} {rs : List ℤ}
    (h : ∀ i ∈ rs, handleCmd i rep = some [e]) :
    collect (rs.map fun i => (i, rep)) = some (rs.map fun i => (i, e)) := by
  induction rs with
  | nil => rfl
  | cons i rs ih =>
    rw [List.map_cons, collect, h i List.mem_cons_self,
      ih fun j hj => h j (List.mem_cons_of_mem i hj)]
    rfl

theorem collect_none {rep : Str} {rs : List ℤ} (hne : rs ≠ [])
    (h : ∀ i ∈ rs, handleCmd i rep = none) : collect (rs.map fun i => (i, rep)) = none := by
  obtain ⟨i, rs, rfl⟩ := List.exists_cons_of_ne_nil hne
  rw [List.map_cons, collect, h i List.mem_cons_self]
  rfl

theorem eventsOf_map (id : ℤ) (rs : List ℤ) (e : MsgEvent) :
    eventsOf id (rs.map fun i => (i, e)) = List.replicate (rs.count id) e := by
  induction rs with
  | nil => rfl
  | cons i rs ih =>
    unfold eventsOf at ih ⊢
    rw [List.map_cons, List.filter_cons, List.count_cons]
    by_cases h : i = id
    · rw [if_pos (decide_eq_true h), List.map_cons, ih, if_pos (beq_iff_eq.mpr h),
        List.replicate_succ]
    · rw [if_neg (by simpa using h), ih, if_neg (by simpa using h), Nat.add_zero]

/-- **The way of a message.** -/
theorem exchange_eq (n : Net) (t : Target) (msg : Str) :
    exchange n t msg =
      if tmpMax < t.size ∨ argMax ≤ (words msg).length + 3 ∨
        cmdMax ≤ (sendLine n.sender.val t msg).length + 3 then none
      else collect ((t.served n.devs ((sendLine n.sender.val t msg).length + 3)).map fun i =>
        (i, echo n.sender.val t msg)) := by
  obtain ⟨d₀, hd₀, hid₀, -⟩ := n.registered
  have hreg : n.sender.val ∈ n.devs.map Device.id := List.mem_map.mpr ⟨d₀, hd₀, hid₀⟩
  have hmin := n.sender.range.1
  have hmax := n.sender.range.2
  have hbody : (body n.sender.val t msg).length + 1 = (sendLine n.sender.val t msg).length := by
    rw [sendLine_eq, List.length_append]
    rfl
  have hserve := serve_send hmin hmax hreg (sendLine_eq n.sender.val t msg) (words_sendLine ..)
  have hreply := parseCmd_eq hmin hmax (words_echo n.sender.val t msg)
  have hlen : ("send".toList :: t.text :: (words msg ++ ["OK".toList])).length =
      (words msg).length + 3 := by simp
  rw [hlen] at hreply
  unfold exchange msgctrlSend
  by_cases hbad : tmpMax < t.size ∨ argMax ≤ (words msg).length + 3 ∨
      cmdMax ≤ (sendLine n.sender.val t msg).length + 3
  · rw [if_pos hbad]
    split
    · rfl
    · next hsend =>
      rw [Option.bind_some, hserve]
      split
      · rfl
      · next hroom =>
        rw [Option.bind_some, show body n.sender.val t msg ++ " OK\n".toList =
          echo n.sender.val t msg from rfl, hreply, if_pos (by omega)]
        rfl
  · rw [if_neg hbad, if_neg (by omega), Option.bind_some, hserve, if_neg (by omega),
      Option.bind_some, show body n.sender.val t msg ++ " OK\n".toList =
        echo n.sender.val t msg from rfl, hreply, if_neg (by omega), Option.bind_some]
    have hcast : (if t.text = "all".toList then brcastCmdToAll (echo n.sender.val t msg)
        else sendToIdlist n.devs (echo n.sender.val t msg) t.text).flatMap (receivers n.devs) =
        (t.served n.devs (echo n.sender.val t msg).length).map fun i =>
          (i, echo n.sender.val t msg) := by
      cases t with
      | all => exact receivers_brcast n.devs _
      | list l ne =>
        rw [if_neg (Target.text_ne_all ne)]
        exact receivers_idlist n.nodup ne _
    rw [length_echo] at hcast
    exact congrArg collect hcast

/-- **A message arrives** if and only if it has room everywhere and names no client twice. -/
theorem delivered_iff (n : Net) (t : Target) (msg : Str) : Delivered n t msg ↔ Fits n t msg := by
  have hhandle := handleCmd_eq n.sender t msg
  unfold Delivered
  rw [exchange_eq]
  generalize hlen : (sendLine n.sender.val t msg).length + 3 = len
  by_cases hbad : tmpMax < t.size ∨ argMax ≤ (words msg).length + 3 ∨ cmdMax ≤ len
  · rw [if_pos hbad]
    refine iff_of_false (fun ⟨_, h, _⟩ => Option.some_ne_none _ h.symm) fun h => ?_
    have hargs := h.args
    have hline := h.line
    have htarget := h.target
    omega
  · rw [if_neg hbad]
    rw [not_or, not_or, not_lt, not_le, not_le] at hbad
    obtain ⟨htarget, hargs, hline⟩ := hbad
    have hcount : ∀ d ∈ n.devs, d.Reached → (t.served n.devs len).count d.id =
        if t.Carried len then t.count d.id else 0 := by
      intro d hd hr
      unfold Target.served
      split
      · exact count_named hd hr t
      · exact List.count_nil
    have hserved : ∀ i ∈ t.served n.devs len, handleCmd i (echo n.sender.val t msg) =
        if msgMax ≤ (spaced (words msg)).length then none
        else some [t.event n.sender.val (spaced (words msg))] := by
      intro i hi
      unfold Target.served at hi
      split at hi
      · rw [hhandle, if_neg (mem_named hi).2]
        simp only [not_le.mpr hargs, false_or]
      · exact absurd hi List.not_mem_nil
    constructor
    · rintro ⟨es, hes, hev⟩
      refine ⟨htarget, hargs, hlen ▸ hline, fun d hd hr hc => ?_⟩
      rw [hlen]
      have hd' := hev d hd hr
      rw [if_neg hc] at hd'
      by_cases hmsg : msgMax ≤ (spaced (words msg)).length
      · have hnil : t.served n.devs len = [] := by
          by_contra hne
          rw [collect_none hne fun i hi => (hserved i hi).trans (if_pos hmsg)] at hes
          cases hes
        rw [hnil] at hes
        cases hes
        cases hd'
      · rw [collect_eq fun i hi => (hserved i hi).trans (if_neg hmsg), Option.some.injEq] at hes
        rw [← hes, eventsOf_map, hcount d hd hr] at hd'
        have hone := congrArg List.length hd'
        rw [List.length_replicate, List.length_singleton] at hone
        split at hone
        · next hcarried => exact ⟨hone, hcarried, not_le.mp hmsg⟩
        · cases hone
    · intro h
      have hmsg : ∀ i ∈ t.served n.devs len, ¬ msgMax ≤ (spaced (words msg)).length := by
        intro i hi
        unfold Target.served at hi
        split at hi
        · obtain ⟨⟨d, hd, rfl, hr⟩, hc⟩ := mem_named hi
          exact not_le.mpr (h.client d hd hr hc).2.2
        · exact absurd hi List.not_mem_nil
      refine ⟨_, collect_eq fun i hi => (hserved i hi).trans (if_neg (hmsg i hi)), ?_⟩
      intro d hd hr
      rw [eventsOf_map, hcount d hd hr]
      by_cases hc : t.count d.id = 0
      · rw [hc, ite_self, if_pos rfl]
        rfl
      · obtain ⟨hone, hcarried, -⟩ := h.client d hd hr hc
        rw [if_neg hc, if_pos (hlen ▸ hcarried), hone]
        rfl

/-- One device, which sends to all. -/
def single : Net where
  devs := [⟨101, true⟩]
  nodup := List.nodup_singleton _
  sender := ⟨101, by decide, by decide⟩
  registered := ⟨_, List.mem_singleton_self _, rfl, rfl⟩

/-- A message of 29 words. -/
def longMessage : Str := (List.replicate 29 " a".toList).flatten

/-- The echo of a short line has more words than `args` has room for. -/
theorem message_overruns : ¬ ∀ (n : Net) (t : Target) (msg : Str), words msg ≠ [] →
    (sendLine n.sender.val t msg).length < cmdMax → Delivered n t msg := by
  intro h
  obtain ⟨es, hes, -⟩ := h single .all longMessage (by decide) (by decide)
  have hnone : (exchange single .all longMessage).isNone = true := by decide
  rw [hes] at hnone
  cases hnone

end GSConferencing.Client.Msgctrl
