import GSConferencing.Lib.Tokens
import GSConferencing.Serv.Strutil

/-!
# Command lines

`parse_cmd` of `cmd.h`, which the server and the clients share: a line is the id of a device, the
name of a command and its arguments, with spaces between them.

* `parseCmd_eq`: what it makes of a line of three or more words.
* `word_fmtInt`: a number is a word.
-/

namespace GSConferencing.Cmd.ParseCmd

open GSConferencing.Lib.Tokens GSConferencing.Serv.Strutil

/-- The delimiters `" \r\n"`. -/
def isSep (c : Char) : Bool := c = ' ' || c = '\r' || c = '\n'

/-- The tokens of `strtok(.., " \r\n")`. -/
def words (s : Str) : List Str := tokens isSep s

/-- `char *args[32]`: room for the arguments and the ending `NULL`. -/
def argMax : ℕ := 32

def errParse : ℤ := 1

/-- What `parse_cmd` leaves in a `struct cmd`. -/
structure Parsed where
  deviceId : ℤ
  cmd : Str
  args : List Str

/-- `parse_cmd`: the code it returns, or the command.  The loop puts all words into `args`, whose
size it does not know; there is no result where they are too many. -/
def parseCmd (line : Str) : Option (Except ℤ Parsed) :=
  match words line with
  | [] => none
  | [_] => some (.error errParse)
  | p :: cmd :: args =>
    if p = "FAIL".toList then some (.error (atoi cmd))
    else if argMax ≤ args.length then none
    else some (.ok ⟨atoi p, cmd, args⟩)

/-! ## Words -/

theorem isSep_space : isSep ' ' = true := by decide

theorem isSep_newline : isSep '\n' = true := by decide

theorem notSep_of_isDigit {c : Char} (h : c.isDigit = true) : isSep c = false := by
  unfold isSep
  rw [Bool.or_eq_false_iff, Bool.or_eq_false_iff]
  refine ⟨⟨?_, ?_⟩, ?_⟩ <;>
  · rw [decide_eq_false_iff_not]
    rintro rfl
    exact absurd h (by decide)

/-- The letters of a number. -/
theorem mem_fmtInt {n : ℤ} {c : Char} (h : c ∈ fmtInt n) : c = '-' ∨ c.isDigit = true := by
  unfold fmtInt at h
  split at h
  · rcases List.mem_cons.mp h with rfl | h
    · exact .inl rfl
    · exact .inr (isDigit_of_mem_toDigits h)
  · exact .inr (isDigit_of_mem_toDigits h)

theorem word_fmtInt (n : ℤ) : Word isSep (fmtInt n) := by
  refine ⟨fmtInt_ne_nil n, fun c hc => ?_⟩
  rcases mem_fmtInt hc with rfl | hd
  · decide
  · exact notSep_of_isDigit hd

theorem fmtInt_ne_fail (n : ℤ) : fmtInt n ≠ "FAIL".toList := by
  intro h
  have hF : 'F' ∈ fmtInt n := h ▸ by decide
  rcases mem_fmtInt hF with hc | hd
  · exact absurd hc (by decide)
  · exact absurd hd (by decide)

/-- **A command** that begins with a number. -/
theorem parseCmd_eq {line : Str} {n : ℤ} {cmd : Str} {args : List Str}
    (hmin : intMin ≤ n) (hmax : n ≤ intMax) (h : words line = fmtInt n :: cmd :: args) :
    parseCmd line = if argMax ≤ args.length then none else some (.ok ⟨n, cmd, args⟩) := by
  unfold parseCmd
  rw [h]
  simp only []
  rw [if_neg (fmtInt_ne_fail n), atoi_fmtInt hmin hmax]

end GSConferencing.Cmd.ParseCmd
