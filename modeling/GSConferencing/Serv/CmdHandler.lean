import GSConferencing.Serv.Strutil

/-!
# Commands and replies

`struct cmd` as a handler sees it, the reply macros of `cmd_handler.h` and the error codes.  A
handler yields its return code, the command with its reply, and the new state; it has no result
where the C code has undefined behaviour or does not return.
-/

namespace GSConferencing.Serv.CmdHandler

open GSConferencing.Serv.Strutil

/-- `CMD_MAX`. -/
def cmdMax : ℕ := 10240

structure Cmd where
  deviceId : ℤ
  /-- `args[]` up to the ending `NULL`. -/
  args : List Str
  /-- The reply buffer; it starts as a copy of the command line. -/
  rep : Str
  deriving DecidableEq

/-- What a handler yields. -/
abbrev Reply (σ : Type*) := ℤ × Cmd × σ

def errNotReg : ℤ := 3
def errRejected : ℤ := 4
def errOther : ℤ := 6

/-! ## Reply macros -/

/-- `REP_ADD`. -/
def repAdd (cmd : Cmd) (s : Str) : Cmd := { cmd with rep := cmd.rep ++ ' ' :: s }

/-- `REP_ADD_NUM`. -/
def repAddNum (cmd : Cmd) (n : ℤ) : Cmd := repAdd cmd (fmtInt n)

/-- `REP_END`. -/
def repEnd (cmd : Cmd) : Cmd := { cmd with rep := cmd.rep ++ ['\n'] }

/-- `REP_OK`. -/
def repOk (cmd : Cmd) : Cmd := { cmd with rep := cmd.rep ++ " OK\n".toList }

/-- `cmd->rl --`, which cancels `REP_END`. -/
def repCancelEnd (cmd : Cmd) : Cmd := { cmd with rep := cmd.rep.dropLast }

/-- `NEXT_ARG(p)`: a missing argument ends the handler with the code 1. -/
def nextArg {σ : Type*} (args : List Str) (cmd : Cmd) (s : σ)
    (k : Str → List Str → Option (Reply σ)) : Option (Reply σ) :=
  match args with
  | [] => some (1, cmd, s)
  | p :: args => k p args

@[simp] theorem nextArg_nil {σ : Type*} (cmd : Cmd) (s : σ)
    (k : Str → List Str → Option (Reply σ)) : nextArg [] cmd s k = some (1, cmd, s) := rfl

@[simp] theorem nextArg_cons {σ : Type*} (p : Str) (args : List Str) (cmd : Cmd) (s : σ)
    (k : Str → List Str → Option (Reply σ)) : nextArg (p :: args) cmd s k = k p args := rfl

/-! ## Dispatch -/

/-- The rule for a chain of `SUBCMD`s: each branch has a result that meets `P`. -/
theorem exists_ite {β : Type*} {c : Prop} [Decidable c] {x y : Option β} {P : β → Prop}
    (hx : c → ∃ r, x = some r ∧ P r) (hy : ¬ c → ∃ r, y = some r ∧ P r) :
    ∃ r, (if c then x else y) = some r ∧ P r := by
  by_cases hc : c
  · rw [if_pos hc]; exact hx hc
  · rw [if_neg hc]; exact hy hc

end GSConferencing.Serv.CmdHandler
