import GSConferencing.Cmd.ParseCmd

/-!
# What `parse_cmd` writes

`parse_cmd` of `cmd.h` again, with `strtok` and the `struct cmd` that it fills in place by place.

* `argLoop_spec`: the loop puts the words that are left into `args`, if there is room.
* `parseCmd_run`: so it leaves what `ParseCmd.parseCmd` says.
* `parses_iff`: the lines it treats as a command line is to be treated.
* `blank_line`: a line without a word.
-/

namespace GSConferencing.Cmd.CmdStruct

open GSConferencing.Lib.Tokens GSConferencing.Serv.Strutil
open GSConferencing.Cmd.ParseCmd (isSep words argMax errParse Parsed)

/-! ## The loop -/

/-- `struct cmd`; `none` is `NULL`. -/
structure StructCmd where
  deviceId : ℤ
  cmd : Option Str
  args : Fin argMax → Option Str
  saddr : ℕ
  rep : ℕ
  rl : ℤ
  sock : ℤ

/-- `strtok` from where it stands: the token, and where it stands then. -/
def strtok (rest : Str) : Option Str × Str := next isSep rest

/-- `pcmd->args[i] = p`; there is no result where `args` has no such place. -/
def StructCmd.setArg (pcmd : StructCmd) (i : ℕ) (p : Option Str) : Option StructCmd :=
  if h : i < argMax then some { pcmd with args := Function.update pcmd.args ⟨i, h⟩ p } else none

/-- The `do` loop. -/
def argLoop : ℕ → ℕ → Str → StructCmd → Option StructCmd
  | 0, _, _, _ => none
  | fuel + 1, i, rest, pcmd =>
    (pcmd.setArg i (strtok rest).1).bind fun pcmd =>
      match (strtok rest).1 with
      | none => some pcmd
      | some _ => argLoop fuel (i + 1) (strtok rest).2 pcmd

/-- `parse_cmd`: the code it returns, and what it leaves in `pcmd`.  There is no result where it
reads through `NULL`, or writes behind `args`. -/
def parseCmd (line : Str) (pcmd : StructCmd) : Option (ℤ × StructCmd) :=
  -- `strcmp` reads the first token
  (strtok line).1.bind fun p =>
    let err := p = "FAIL".toList
    let pcmd := if err then pcmd else { pcmd with deviceId := atoi p }
    match (strtok (strtok line).2).1 with
    | none => some (errParse, pcmd)
    | some p =>
      if err then some (atoi p, pcmd)
      else (argLoop (line.length + 1) 0 (strtok (strtok line).2).2
        { pcmd with cmd := some p, args := fun _ => none }).map fun pcmd => (0, pcmd)

/-! ## What it leaves -/

/-- The places of `args` hold the words `l`, and `NULL` behind them. -/
def Holds (pcmd : StructCmd) (l : List Str) : Prop := ∀ i, pcmd.args i = l[i.val]?

/-- The rest of a `struct cmd`. -/
structure SameRest (c c' : StructCmd) : Prop where
  saddr : c'.saddr = c.saddr
  rep : c'.rep = c.rep
  rl : c'.rl = c.rl
  sock : c'.sock = c.sock

section Loop
variable {pcmd : StructCmd} {rest : Str} {done : List Str} {fuel : ℕ}

theorem words_strtok (rest : Str) :
    (strtok rest).1 = (words rest).head? ∧ words (strtok rest).2 = (words rest).tail :=
  next_spec rest

/-- The first place that is free gets `NULL`. -/
theorem Holds.null (h : Holds pcmd done) (hroom : done.length < argMax) :
    Holds { pcmd with args := Function.update pcmd.args ⟨done.length, hroom⟩ none } done := by
  intro i
  show Function.update pcmd.args _ none i = _
  by_cases hi : i = ⟨done.length, hroom⟩
  · rw [hi, Function.update_self, List.getElem?_eq_none (le_refl _)]
  · rw [Function.update_of_ne hi]
    exact h i

/-- The first place that is free gets a word. -/
theorem Holds.word (h : Holds pcmd done) (hroom : done.length < argMax) (w : Str) :
    Holds { pcmd with args := Function.update pcmd.args ⟨done.length, hroom⟩ (some w) }
      (done ++ [w]) := by
  intro i
  show Function.update pcmd.args _ (some w) i = _
  by_cases hi : i = ⟨done.length, hroom⟩
  · rw [hi, Function.update_self, List.getElem?_concat_length]
  · rw [Function.update_of_ne hi, h i]
    have hne : i.val ≠ done.length := fun e => hi (Fin.ext e)
    rcases Nat.lt_or_gt_of_ne hne with hlt | hgt
    · rw [List.getElem?_append_left hlt]
    · rw [List.getElem?_eq_none hgt.le, List.getElem?_eq_none]
      rw [List.length_append, List.length_singleton]
      exact hgt

/-- **The loop** has put the words `done` into `args`, and puts those that are left behind them. -/
theorem argLoop_spec (hfuel : rest.length < fuel) (h : Holds pcmd done) :
    if done.length + (words rest).length < argMax then
      ∃ args, argLoop fuel done.length rest pcmd = some { pcmd with args := args } ∧
        Holds { pcmd with args := args } (done ++ words rest)
    else argLoop fuel done.length rest pcmd = none := by
  induction fuel generalizing rest done pcmd with
  | zero => exact absurd hfuel (Nat.not_lt_zero _)
  | succ fuel ih =>
    obtain ⟨hfst, hsnd⟩ := words_strtok rest
    unfold argLoop StructCmd.setArg
    by_cases hroom : done.length < argMax
    swap
    · rw [if_neg (by omega), dif_neg hroom]
      rfl
    rw [dif_pos hroom, Option.bind_some]
    cases hw : words rest with
    | nil =>
      have hnone : (strtok rest).1 = none := by rw [hfst, hw]; rfl
      rw [hnone, List.length_nil, Nat.add_zero, if_pos hroom]
      refine ⟨_, rfl, ?_⟩
      rw [List.append_nil]
      exact h.null hroom
    | cons w ws =>
      have hsome : (strtok rest).1 = some w := by rw [hfst, hw]; rfl
      have hrest : words (strtok rest).2 = ws := by rw [hsnd, hw]; rfl
      have hless : (strtok rest).2.length < fuel :=
        lt_of_lt_of_le (length_next hsome) (Nat.le_of_lt_succ hfuel)
      have hih := ih hless (h.word hroom w)
      rw [hrest, List.length_append, List.length_singleton, List.append_assoc,
        List.singleton_append] at hih
      rw [hsome, List.length_cons, show done.length + (ws.length + 1) = done.length + 1 + ws.length
        by omega]
      exact hih

end Loop

/-! ## Command lines -/

/-- What is to become of a line: `ERR_PARSE` if it has less than two words, an error for a `FAIL`
line and for more arguments than there is room for, and else a command. -/
def Parses (line : Str) (pcmd : StructCmd) : Prop :=
  ∃ code c, parseCmd line pcmd = some (code, c) ∧ SameRest pcmd c ∧
    match words line with
    | [] => code = errParse
    | [_] => code = errParse
    | p :: name :: args =>
      if p = "FAIL".toList then code ≠ 0
      else if args.length < argMax then code = 0 ∧ c.cmd = some name ∧ Holds c args
      else code ≠ 0

/-- The line has a word, a `FAIL` line has a code other than 0, and another one has not too many
arguments. -/
def WellFormed (line : Str) : Prop :=
  match words line with
  | [] => False
  | [_] => True
  | p :: name :: args => if p = "FAIL".toList then atoi name ≠ 0 else args.length < argMax

section Lines
variable {line : Str} {p name : Str} {args : List Str}

theorem parseCmd_nil (h : words line = []) (pcmd : StructCmd) : parseCmd line pcmd = none := by
  unfold parseCmd
  rw [(words_strtok line).1, h]
  rfl

theorem parseCmd_single (h : words line = [p]) (pcmd : StructCmd) :
    ∃ d, parseCmd line pcmd = some (errParse, { pcmd with deviceId := d }) := by
  obtain ⟨hfst, hsnd⟩ := words_strtok line
  have hnone : (strtok (strtok line).2).1 = none := by
    rw [(words_strtok _).1, hsnd, h]
    rfl
  unfold parseCmd
  rw [hfst, h]
  simp only [List.head?_cons, Option.bind_some, hnone]
  split_ifs
  · exact ⟨pcmd.deviceId, rfl⟩
  · exact ⟨_, rfl⟩

/-- The first two words of a line, and what is behind them. -/
theorem strtok_twice (h : words line = p :: name :: args) :
    (strtok line).1 = some p ∧ (strtok (strtok line).2).1 = some name ∧
      words (strtok (strtok line).2).2 = args := by
  obtain ⟨hfst, hsnd⟩ := words_strtok line
  obtain ⟨hfst', hsnd'⟩ := words_strtok (strtok line).2
  rw [h] at hfst hsnd
  rw [hsnd] at hfst' hsnd'
  exact ⟨hfst, hfst', hsnd'⟩

theorem parseCmd_fail (h : words line = "FAIL".toList :: name :: args) (pcmd : StructCmd) :
    parseCmd line pcmd = some (atoi name, pcmd) := by
  obtain ⟨hp, hname, -⟩ := strtok_twice h
  unfold parseCmd
  rw [hp]
  simp only [Option.bind_some, hname, if_true]

/-- **A command line** fills the `struct cmd`, if there is room for its arguments. -/
theorem parseCmd_command (h : words line = p :: name :: args) (hp : p ≠ "FAIL".toList)
    (pcmd : StructCmd) :
    if args.length < argMax then
      ∃ c, parseCmd line pcmd = some (0, c) ∧ SameRest pcmd c ∧ c.deviceId = atoi p ∧
        c.cmd = some name ∧ Holds c args
    else parseCmd line pcmd = none := by
  obtain ⟨hfst, hname, hargs⟩ := strtok_twice h
  have hless := length_next hfst
  have hless' := length_next hname
  have hfuel : (strtok (strtok line).2).2.length < line.length + 1 :=
    (hless'.trans hless).trans (Nat.lt_succ_self _)
  have hnone : Holds { pcmd with deviceId := atoi p, cmd := some name, args := fun _ => none } [] :=
    fun _ => rfl
  have hloop := argLoop_spec hfuel hnone
  rw [hargs, List.length_nil, Nat.zero_add, List.nil_append] at hloop
  unfold parseCmd
  rw [hfst]
  simp only [Option.bind_some, hname, if_neg hp]
  split_ifs at hloop ⊢
  · obtain ⟨args', hrun, hholds⟩ := hloop
    rw [hrun]
    exact ⟨_, rfl, ⟨rfl, rfl, rfl, rfl⟩, rfl, rfl, hholds⟩
  · rw [hloop]
    rfl

/-- What `parse_cmd` leaves is what `ParseCmd.parseCmd` reads off the words. -/
theorem parseCmd_run (line : Str) (pcmd : StructCmd) :
    match ParseCmd.parseCmd line with
    | none => parseCmd line pcmd = none
    | some (.error code) => ∃ d, parseCmd line pcmd = some (code, { pcmd with deviceId := d })
    | some (.ok r) => ∃ c, parseCmd line pcmd = some (0, c) ∧ SameRest pcmd c ∧
        c.deviceId = r.deviceId ∧ c.cmd = some r.cmd ∧ Holds c r.args := by
  unfold ParseCmd.parseCmd
  match h : words line with
  | [] => exact parseCmd_nil h pcmd
  | [p] => exact parseCmd_single h pcmd
  | p :: name :: args =>
    simp only []
    by_cases hp : p = "FAIL".toList
    · rw [if_pos hp]
      exact ⟨pcmd.deviceId, parseCmd_fail (hp ▸ h) pcmd⟩
    · rw [if_neg hp]
      have hc := parseCmd_command h hp pcmd
      by_cases hroom : args.length < argMax
      · rw [if_pos hroom] at hc
        rw [if_neg (Nat.not_le.mpr hroom)]
        exact hc
      · rw [if_neg hroom] at hc
        rw [if_pos (Nat.not_lt.mp hroom)]
        exact hc

/-- **The lines that are parsed** as they are to be. -/
theorem parses_iff (line : Str) (pcmd : StructCmd) : Parses line pcmd ↔ WellFormed line := by
  unfold Parses WellFormed
  match h : words line with
  | [] =>
    simp only [iff_false]
    rintro ⟨code, c, hrun, -⟩
    rw [parseCmd_nil h] at hrun
    cases hrun
  | [p] =>
    obtain ⟨d, hrun⟩ := parseCmd_single h pcmd
    exact ⟨fun _ => trivial, fun _ => ⟨_, _, hrun, ⟨rfl, rfl, rfl, rfl⟩, rfl⟩⟩
  | p :: name :: args =>
    simp only []
    by_cases hp : p = "FAIL".toList
    · have hrun := parseCmd_fail (hp ▸ h) pcmd
      rw [if_pos hp]
      constructor
      · rintro ⟨code, c, hrun', -, hcode⟩
        rw [hrun] at hrun'
        cases hrun'
        rwa [if_pos hp] at hcode
      · intro hcode
        exact ⟨_, _, hrun, ⟨rfl, rfl, rfl, rfl⟩, by rwa [if_pos hp]⟩
    · have hc := parseCmd_command h hp pcmd
      rw [if_neg hp]
      simp only [if_neg hp]
      split_ifs at hc with hroom
      · obtain ⟨c, hrun, hrest, -, hname, hholds⟩ := hc
        exact ⟨fun _ => hroom, fun _ => ⟨0, c, hrun, hrest, by
          rw [if_pos hroom]
          exact ⟨rfl, hname, hholds⟩⟩⟩
      · refine ⟨fun ⟨code, c, hrun, _⟩ => ?_, fun h => absurd h hroom⟩
        rw [hc] at hrun
        cases hrun

end Lines

/-- A `struct cmd` without anything in it. -/
def empty : StructCmd := ⟨0, none, fun _ => none, 0, 0, 0, 0⟩

/-- **A blank line:** `strcmp` reads through `NULL`. -/
theorem blank_line : ¬ Parses "\r\n".toList empty := by
  rintro ⟨code, c, hrun, -⟩
  rw [parseCmd_nil (by decide)] at hrun
  cases hrun

end GSConferencing.Cmd.CmdStruct
