import GSConferencing.Include.Cksum
import GSConferencing.Serv.Roster

/-!
# Passwords

The password of a device is the check sum of its id and its type.  `main` of `ucast.c` and `pass.c`
take it, `reg` of `client.c` puts it into the line, and `cmd_reg` takes it again.

* `parseCmd_regLine`: the line is understood, with the password in one argument.
* `reg_authenticates`: what `cmd_reg` makes of the line.
-/

namespace GSConferencing.Serv.Passwd

open GSConferencing.Lib.Tokens GSConferencing.Include.Pack GSConferencing.Include.Cksum
open GSConferencing.Sha.Sha128 (shaHashData)
open GSConferencing.Cmd.ParseCmd GSConferencing.Serv.Strutil GSConferencing.Serv.CmdHandler
open GSConferencing.Serv.Roster GSConferencing.Serv.Proceed
open GSConferencing.Serv.Subscribe (errDevDisabled)

/-- `(unsigned int)id ^ type`. -/
def key (id type : ℤ) : BitVec 32 := BitVec.ofInt 32 id ^^^ BitVec.ofInt 32 type

/-- `cksum(&n, sizeof n, sum)` and the string in `sum`; the second argument is what the buffer
holds before. -/
def passwd (sum : List Byte) (n : BitVec 32) : Str := str (cksum (u32Bytes n) sum)

/-- The size of the buffers `pass` of `ucast.c` and `sum` of `cmd_reg`. -/
def sumLen : ℕ := 64

/-- The arguments of `reg`. -/
def regArgs (type : ℤ) (pass : Str) (port : ℤ) (brAddr : Str) : List Str :=
  [fmtInt type, pass, fmtInt port, brAddr]

/-- `_MAKE_REG`. -/
def regLine (id type : ℤ) (pass : Str) (port : ℤ) (brAddr : Str) : Str :=
  cmdLine id ("reg".toList :: regArgs type pass port brAddr)

variable {id type type' port : ℤ} {brAddr : Str} {pass sum : List Byte}

/-- What was in the buffer does not matter. -/
theorem passwd_eq (h : sum.length = sumLen) (n : BitVec 32) :
    passwd sum n = saltedText (u32Bytes n) :=
  str_cksum (h ▸ by decide)

/-- Two buffers hold the same password. -/
theorem passwd_eq_iff (h : pass.length = sumLen) (h' : sum.length = sumLen) (n m : BitVec 32) :
    passwd pass n = passwd sum m ↔ shaHashData (u32Bytes n) = shaHashData (u32Bytes m) := by
  rw [passwd_eq h, passwd_eq h', saltedText_eq_iff]

/-- **The line is understood.** -/
theorem parseCmd_regLine (hmin : intMin ≤ id) (hmax : id ≤ intMax) (hpass : pass.length = sumLen)
    (hbr : Word isSep brAddr) (n : BitVec 32) :
    parseCmd (regLine id type (passwd pass n) port brAddr) =
      some (.ok ⟨id, "reg".toList, regArgs type (passwd pass n) port brAddr⟩) := by
  have hwords : ∀ w ∈ "reg".toList :: regArgs type (passwd pass n) port brAddr, Word isSep w := by
    intro w hw
    simp only [regArgs, List.mem_cons, List.not_mem_nil, or_false] at hw
    rcases hw with rfl | rfl | rfl | rfl | rfl
    · decide
    · exact word_fmtInt type
    · rw [passwd_eq hpass]
      exact word_saltedText _
    · exact word_fmtInt port
    · exact hbr
  have hlen : ¬ argMax ≤ (regArgs type (passwd pass n) port brAddr).length := Nat.not_le.mpr (by
    simp [regArgs, argMax])
  rw [regLine, parseCmd_eq hmin hmax (words_cmdLine id hwords), if_neg hlen]

/-- `cmd_reg` behind the test of the password. -/
def regAllowed (info : Group → ℤ → Str) (s : Group) (cmd : Cmd) (type port : ℤ) :
    Option (Reply Group) :=
  let d := cmd.deviceId
  if port ≤ 0 then some (1, cmd, s)
  else if d ∈ s.table ∧ (s.row d).enabled = 0 then some (errDevDisabled, cmd, s)
  else (regDev s d type).map fun s => (0, repEnd (repAdd (repAdd cmd "OK".toList) (info s d)), s)

theorem cmdReg_regArgs (cksum : BitVec 32 → Str) (info : Group → ℤ → Str) (s : Group)
    {cmd : Cmd} {p : Str} (hargs : cmd.args = regArgs type p port brAddr)
    (htmin : intMin ≤ type) (htmax : type ≤ intMax)
    (hpmin : intMin ≤ port) (hpmax : port ≤ intMax) :
    cmdReg cksum info s cmd =
      if p = cksum (key cmd.deviceId type) then regAllowed info s cmd type port
      else some (1, cmd, s) := by
  unfold cmdReg
  simp only [hargs, regArgs, nextArg_cons, atoi_fmtInt htmin htmax, atoi_fmtInt hpmin hpmax]
  exact ite_not ..

/-- **Authentication:** with the password for the id and the type `type`, a device may register with
the type `type'` just if the digests of the two are the same, in particular with its own type; else
the line is refused and the server stays as it is. -/
theorem reg_authenticates (info : Group → ℤ → Str) (s : Group) (rep : Str) (type : ℤ)
    (hmin : intMin ≤ id) (hmax : id ≤ intMax) (htmin : intMin ≤ type') (htmax : type' ≤ intMax)
    (hpmin : intMin ≤ port) (hpmax : port ≤ intMax) (hbr : Word isSep brAddr)
    (hpass : pass.length = sumLen) (hsum : sum.length = sumLen) :
    ∃ cmd : Cmd, cmd.deviceId = id ∧ cmd.rep = rep ∧
      parseCmd (regLine id type' (passwd pass (key id type)) port brAddr) =
        some (.ok ⟨id, "reg".toList, cmd.args⟩) ∧
      cmdReg (passwd sum) info s cmd =
        if shaHashData (u32Bytes (key id type)) = shaHashData (u32Bytes (key id type')) then
          regAllowed info s cmd type' port
        else some (1, cmd, s) := by
  refine ⟨⟨id, regArgs type' (passwd pass (key id type)) port brAddr, rep⟩, rfl, rfl,
    parseCmd_regLine hmin hmax hpass hbr _, ?_⟩
  rw [cmdReg_regArgs (passwd sum) info s rfl htmin htmax hpmin hpmax]
  simp only [passwd_eq_iff hpass hsum]

/-- A server that knows no device yet. -/
def noDevices : Group := boot ⟨[], List.nodup_nil, fun _ => ⟨0, [], 0⟩⟩

theorem authenticates_otherType :
    let pass := List.replicate sumLen (0 : Byte)
    let sum := List.replicate sumLen (255 : Byte)
    ∃ cmd : Cmd, cmd.deviceId = 101 ∧ cmd.rep = [] ∧
      parseCmd (regLine 101 2 (passwd pass (key 101 1)) 17900 "none".toList) =
        some (.ok ⟨101, "reg".toList, cmd.args⟩) ∧
      cmdReg (passwd sum) (fun _ _ => []) noDevices cmd =
        if shaHashData (u32Bytes (key 101 1)) = shaHashData (u32Bytes (key 101 2)) then
          regAllowed (fun _ _ => []) noDevices cmd 2 17900
        else some (1, cmd, noDevices) :=
  reg_authenticates (fun _ _ => []) noDevices [] 1 (by decide) (by decide) (by decide) (by decide)
    (by decide) (by decide) (by decide) (List.length_replicate ..) (List.length_replicate ..)

end GSConferencing.Serv.Passwd
