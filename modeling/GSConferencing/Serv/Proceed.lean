import GSConferencing.Cmd.ParseCmd
import GSConferencing.Serv.Handlers
import GSConferencing.Serv.Network

/-!
# A command and its answer

`run_proceed_connection` of `network.c`, for the connection it has taken: the command is received
and parsed, goes to its handler, and the reply is sent, or the text of the error.

* `text_bytes`: a text whose characters are bytes is what is sent of it.
* `proceed`: the body of the loop; `proceed_line`: what it does with a line that is a command.
-/

namespace GSConferencing.Serv.Proceed

open GSConferencing.Lib.Tokens GSConferencing.Include.Pack GSConferencing.Include.Encode
open GSConferencing.Cmd.ParseCmd GSConferencing.Serv.Strutil GSConferencing.Serv.CmdHandler
open GSConferencing.Serv.Handlers GSConferencing.Serv.Network

/-! ## Texts and bytes -/

/-- The bytes of a text. -/
def bytes (s : Str) : List Byte := s.map fun c => BitVec.ofNat 8 c.toNat

/-- The text that bytes stand for. -/
def text (b : List Byte) : Str := b.map fun x => Char.ofNat x.toNat

/-- The characters are bytes other than the one that ends a string. -/
def IsText (s : Str) : Prop := ∀ c ∈ s, 0 < c.toNat ∧ c.toNat < 256

instance (s : Str) : Decidable (IsText s) :=
  inferInstanceAs (Decidable (∀ c ∈ s, 0 < c.toNat ∧ c.toNat < 256))

@[simp] theorem length_bytes (s : Str) : (bytes s).length = s.length := List.length_map ..

theorem char_byte {c : Char} (h : c.toNat < 256) :
    Char.ofNat (BitVec.ofNat 8 c.toNat).toNat = c := by
  rw [BitVec.toNat_ofNat, Nat.mod_eq_of_lt h, Char.ofNat_toNat]

theorem text_bytes {s : Str} (h : IsText s) : text (bytes s) = s := by
  unfold text bytes
  rw [List.map_map]
  exact (List.map_congr_left fun c hc => char_byte (h c hc).2).trans (List.map_id s)

theorem zero_notMem_bytes {s : Str} (h : IsText s) : 0#8 ∉ bytes s := by
  intro hmem
  obtain ⟨c, hc, hzero⟩ := List.mem_map.mp hmem
  have htoNat := congrArg BitVec.toNat hzero
  rw [BitVec.toNat_ofNat, Nat.mod_eq_of_lt (h c hc).2] at htoNat
  exact absurd (h c hc).1 (by rw [htoNat]; exact Nat.lt_irrefl 0)

theorem isText_singleton {c : Char} : IsText [c] ↔ 0 < c.toNat ∧ c.toNat < 256 :=
  List.forall_mem_singleton

theorem isText_space : IsText [' '] := isText_singleton.mpr ⟨by decide, by decide⟩

theorem isText_newline : IsText ['\n'] := isText_singleton.mpr ⟨by decide, by decide⟩

theorem isText_append {s s' : Str} : IsText (s ++ s') ↔ IsText s ∧ IsText s' :=
  List.forall_mem_append

/-! ## The server -/

def errBadCmd : ℤ := 2

/-- The handler of an entry. -/
abbrev Handler (α σ : Type*) := α → σ → Cmd → Option (Reply σ)

variable {α σ : Type*} {id : α → Str} {handler : Handler α σ} {T : Table α} {s : σ}

/-- `handle_cmd`. -/
def handleCmd (id : α → Str) (handler : Handler α σ) (T : Table α) (s : σ) (name : Str)
    (cmd : Cmd) : Option (Reply σ) :=
  (findById id T name).bind fun
    | none => some (-1, cmd, s)
    | some e => handler e s cmd

/-- `sprintf(rep, "FAIL %d ..\n", i)`. -/
def failText (i : ℤ) (why : Str) : Str := "FAIL ".toList ++ fmtInt i ++ ' ' :: why ++ ['\n']

/-- What is sent after `handle_cmd` has returned; `none`: nothing. -/
def answer (i : ℤ) (cmd : Cmd) : Option Str :=
  if i < 0 then some (failText errBadCmd "invalid cmd".toList)
  else if 0 < i then some (failText i "handling cmd error".toList)
  else if cmd.rep = [] then none
  else some cmd.rep

/-- The copy for the reply, without the newline at its end. -/
def repOf (line : Str) : Str := if line.getLast? = some '\n' then line.dropLast else line

/-- The body of the loop of `run_proceed_connection` for the string in `buf`: what is sent, and the
server.  A zero byte in front of the end leaves `rep[cmdl-1]` unset. -/
def proceed (id : α → Str) (handler : Handler α σ) (T : Table α) (s : σ) (buf : List Byte) :
    Option (Option Str × σ) :=
  if 0#8 ∈ buf then none
  else match parseCmd (text buf) with
    | none => none
    | some (.error e) =>
      -- `parse_cmd` yields 0 here for a line `FAIL 0`, and sets nothing
      if e = 0 then none else some (some (failText errParse "parse error".toList), s)
    | some (.ok p) =>
      (handleCmd id handler T s p.cmd ⟨p.deviceId, p.args, repOf (text buf)⟩).map fun r =>
        (answer r.1 r.2.1, r.2.2)

/-- `do_send`; `tmp` has `CMD_MAX` bytes. -/
def doSend (salt : Byte) (buf : List Byte) : Option (List Byte) :=
  if buf.length < cmdMax then some (encode salt buf) else none

/-- The bytes that are sent of an answer. -/
def sendAnswer (salt : Byte) : Option Str → Option (List Byte)
  | none => some []
  | some rep => doSend salt (bytes rep)

/-- `run_proceed_connection` for one connection: the bytes that are sent, and the server. -/
def proceedConnection (id : α → Str) (handler : Handler α σ) (T : Table α) (s : σ) (salt : Byte)
    (pieces : List (List Byte)) : Option (List Byte × σ) :=
  match runProceedConnection pieces with
  | [] => some ([], s)
  | buf :: _ => (proceed id handler T s buf).bind fun r =>
    (sendAnswer salt r.1).map fun sent => (sent, r.2)

/-! ## Lines -/

/-- `"%d .. \n"`: the id of a device and words behind it. -/
def cmdLine (n : ℤ) (ws : List Str) : Str := [' '].intercalate (fmtInt n :: ws) ++ ['\n']

theorem words_cmdLine (n : ℤ) {ws : List Str} (hws : ∀ w ∈ ws, Word isSep w) :
    words (cmdLine n ws) = fmtInt n :: ws := by
  have hall : ∀ w ∈ fmtInt n :: ws, Word isSep w :=
    List.forall_mem_cons.mpr ⟨word_fmtInt n, hws⟩
  unfold words cmdLine
  rw [tokens_append_sep isSep_newline, tokens_intercalate isSep_space hall]

theorem repOf_cmdLine (n : ℤ) (ws : List Str) :
    repOf (cmdLine n ws) = [' '].intercalate (fmtInt n :: ws) := by
  unfold repOf cmdLine
  rw [List.getLast?_concat, if_pos rfl, List.dropLast_concat]

theorem isText_fmtInt (n : ℤ) : IsText (fmtInt n) := by
  intro c hc
  rcases mem_fmtInt hc with rfl | hd
  · decide
  · have hdigit := Char.isDigit_iff_toNat.mp hd
    have hzero : '0'.toNat = 48 := rfl
    have hnine : '9'.toNat = 57 := rfl
    omega

theorem isText_intercalate {ws : List Str} (hws : ∀ w ∈ ws, IsText w) :
    IsText ([' '].intercalate ws) := by
  induction ws with
  | nil => exact List.forall_mem_nil _
  | cons w ws ih =>
    obtain ⟨hw, hws⟩ := List.forall_mem_cons.mp hws
    cases ws with
    | nil => rwa [List.intercalate_singleton]
    | cons w' ws =>
      rw [List.intercalate_cons_cons]
      exact isText_append.mpr ⟨isText_append.mpr ⟨hw, isText_space⟩, ih hws⟩

theorem isText_cmdLine (n : ℤ) {ws : List Str} (hws : ∀ w ∈ ws, IsText w) :
    IsText (cmdLine n ws) :=
  isText_append.mpr ⟨isText_intercalate (List.forall_mem_cons.mpr ⟨isText_fmtInt n, hws⟩),
    isText_newline⟩

/-- **A line that is a command** goes to the handler of its name. -/
theorem proceed_line {n : ℤ} {name : Str} {args : List Str} (hmin : intMin ≤ n) (hmax : n ≤ intMax)
    (hwords : ∀ w ∈ name :: args, Word isSep w) (htext : ∀ w ∈ name :: args, IsText w)
    (hargs : args.length < argMax) :
    proceed id handler T s (bytes (cmdLine n (name :: args))) =
      (handleCmd id handler T s name
        ⟨n, args, [' '].intercalate (fmtInt n :: name :: args)⟩).map fun r =>
          (answer r.1 r.2.1, r.2.2) := by
  have hline := isText_cmdLine n htext
  have hparse : parseCmd (cmdLine n (name :: args)) = some (.ok ⟨n, name, args⟩) := by
    rw [parseCmd_eq hmin hmax (words_cmdLine n hwords), if_neg (Nat.not_le.mpr hargs)]
  unfold proceed
  rw [if_neg (zero_notMem_bytes hline), text_bytes hline, hparse, repOf_cmdLine]

end GSConferencing.Serv.Proceed
