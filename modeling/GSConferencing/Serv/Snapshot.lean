import GSConferencing.Serv.Md
import GSConferencing.Serv.Votectrl
import GSConferencing.Lib.Run

/-!
# Pointers to records of votes and of discussions

`cmd_votectrl.c` and `cmd_discctrl.c` keep pointers into the tables in memory: a snapshot `db[]`
that `query` takes and `stop` clears, and the current record of the group.  The manager adds and
frees records meanwhile.  Every record that a handler reads through these pointers is logged, with
whether it was in the table at that moment.

* `RecordsOk`: only records of the table have been read, none of them outside the snapshot.
* `records_ok`: numbers are not negative and the manager leaves the records alone that are pointed
  to; then only records of the table are read, and without this it comes to another read.
-/

namespace GSConferencing.Serv.Snapshot

open GSConferencing.Lib.Run
open GSConferencing.Serv.Strutil GSConferencing.Serv.CmdHandler GSConferencing.Serv.Md
open GSConferencing.Serv.Dev (DbDiscuss)
open GSConferencing.Serv.Votectrl (DbVote memberMax idsOf)

/-! ## One table -/

/-- A table with its snapshot `db[0 .. dbl)` and the current record. -/
structure Refs (ρ : Type*) where
  md : Table ρ
  db : List ℕ
  current : Option ℕ

/-- What the manager does to a table; `ok` is the answer of the database. -/
inductive Manage (ρ : Type*) where
  | add (p : ρ) (ok : Bool)
  | delete (id : ℤ) (ok : Bool)
  | clear (ok : Bool)

namespace Refs

variable {ρ : Type*} (key : ρ → ℤ) (R : Refs ρ)

/-- `db[1024]` has room for the records and the ending `NULL`. -/
def dbMax : ℕ := 1024

/-- `db[n]`, for a number below `dbl`; a negative number reads before the array. -/
def slot (n : ℤ) : Option ℕ := if n < 0 then none else R.db[n.toNat]?

/-- `query` reads the names of all records. -/
def query : Option (Refs ρ × List (Option ℕ)) :=
  let db := R.md.getArray
  if dbMax ≤ db.length then none else some ({ R with db := db }, db.map some)

/-- `select` of `votectrl` reads the members of a record. -/
def select (args : List Str) : Refs ρ × List (Option ℕ) :=
  match args with
  | [] => (R, [])
  | p :: _ => if (R.db.length : ℤ) ≤ atoi p then (R, []) else (R, [R.slot (atoi p)])

/-- A record becomes the current one, unless there is one already; `may` says whether its members
allow it, and has no result where they do not fit.  What follows a read of a freed record cannot be
said. -/
def start (may : ρ → Option Bool) (args : List Str) : Option (Refs ρ × List (Option ℕ)) :=
  if R.current.isSome then some (R, [])
  else match args with
  | [] => some (R, [])
  | p :: _ =>
    if (R.db.length : ℤ) ≤ atoi p then some (R, [])
    else
      let a := R.slot (atoi p)
      match a.bind R.md.read with
      | none => some (R, [a])
      | some r => (may r).map fun b => (if b then { R with current := a } else R, [a])

/-- The current record is given up. -/
def close : Refs ρ := { R with current := none }

/-- The snapshot is cleared. -/
def stop : Refs ρ := { R with db := [] }

/-- The manager's command; the database refuses a second record with an id. -/
def manage : Manage ρ → Refs ρ
  | .add p ok => if ok ∧ ∀ n ∈ R.md.nodes, n.id ≠ key p then { R with md := R.md.add key p } else R
  | .delete id ok => if ok then { R with md := R.md.del id } else R
  | .clear ok => if ok then { R with md := R.md.clear } else R

end Refs

/-! ## The machine -/

/-- A read of a record: its address, `none` outside the snapshot, and whether the record was in the
table. -/
structure Access where
  addr : Option ℕ
  live : Bool
  deriving DecidableEq

/-- The registered devices, the two tables, and the reads so far. -/
structure State where
  devs : List ℤ
  vote : Refs DbVote
  discuss : Refs DbDiscuss
  log : List Access

/-- Commands and what the manager does.  `voting` says whether the `vote.v` of the sender is set. -/
inductive Event where
  | votectrl (cmd : Cmd) (voting : Bool)
  | discctrl (cmd : Cmd)
  | reg (d : ℤ) (voting : Bool)
  | manageVote (m : Manage DbVote)
  | manageDiscuss (m : Manage DbDiscuss)

namespace State

variable (s : State)

/-- Reads through pointers to votes. -/
def readVotes (r : Refs DbVote × List (Option ℕ)) : State :=
  { s with
    vote := r.1
    log := s.log ++ r.2.map fun a => ⟨a, (a.bind r.1.md.read).isSome⟩ }

/-- Reads through pointers to discussions. -/
def readDiscusses (r : Refs DbDiscuss × List (Option ℕ)) : State :=
  { s with
    discuss := r.1
    log := s.log ++ r.2.map fun a => ⟨a, (a.bind r.1.md.read).isSome⟩ }

end State

/-- The members of a vote in `prepare_vote`. -/
def memberList (s : State) (dv : DbVote) : List ℤ :=
  if dv.members = "all".toList then s.devs else idsOf dv

/-- Whether `d` may start the vote: the manager device may, else the members. -/
def mayStart (s : State) (d : ℤ) (dv : DbVote) : Option Bool :=
  if memberMax < (memberList s dv).length then none
  else some (d = 0 ∨ d ∈ memberList s dv)

/-- `group_setup_discuss` stores the members of the discussion. -/
def mayDiscuss (r : DbDiscuss) : Option Bool :=
  if memberMax < (forEachId r.members).length then none else some true

/-- `cmd_votectrl`, as far as it reads or keeps pointers to records. -/
def cmdVotectrl (s : State) (cmd : Cmd) (voting : Bool) : Option State :=
  if cmd.deviceId ∉ s.devs then some s
  else match cmd.args with
  | [] => some s
  | scmd :: args =>
    if scmd = "query".toList then s.vote.query.map s.readVotes
    else if scmd = "select".toList then some (s.readVotes (s.vote.select args))
    else if scmd = "start".toList then
      (s.vote.start (mayStart s cmd.deviceId) args).map s.readVotes
    else if scmd = "showresult".toList then
      some (if s.vote.current.isSome ∧ args ≠ [] ∧ voting then { s with vote := s.vote.close }
        else s)
    else if scmd = "stop".toList then some { s with vote := s.vote.close.stop }
    else some s

/-- `cmd_discctrl`, as far as it reads or keeps pointers to records. -/
def cmdDiscctrl (s : State) (cmd : Cmd) : Option State :=
  if cmd.deviceId ∉ s.devs then some s
  else match cmd.args with
  | [] => some s
  | subcmd :: args =>
    if subcmd = "query".toList then s.discuss.query.map s.readDiscusses
    else if subcmd = "select".toList then (s.discuss.start mayDiscuss args).map s.readDiscusses
    else if subcmd = "close".toList then some { s with discuss := s.discuss.close }
    else if subcmd = "stop".toList then some { s with discuss := s.discuss.stop }
    else some s

/-- A registration: `get_client_info` reads the current records, that of the vote for a device that
takes part in it. -/
def reg (s : State) (d : ℤ) (voting : Bool) : State :=
  let s := { s with devs := if d ∈ s.devs then s.devs else s.devs ++ [d] }
  let s := s.readDiscusses (s.discuss, s.discuss.current.toList.map some)
  s.readVotes (s.vote, if voting then s.vote.current.toList.map some else [])

def step (s : State) : Event → Option State
  | .votectrl cmd voting => cmdVotectrl s cmd voting
  | .discctrl cmd => cmdDiscctrl s cmd
  | .reg d voting => some (reg s d voting)
  | .manageVote m => some { s with vote := s.vote.manage DbVote.id m }
  | .manageDiscuss m => some { s with discuss := s.discuss.manage DbDiscuss.id m }

/-- The start: the tables are loaded, and `group_create` finds the current records. -/
def load {ρ : Type*} (key : ρ → ℤ) (rows : List ρ) (id : ℤ) : Refs ρ where
  md := .load key rows
  db := []
  current := if id = 0 then none else ((Table.load key rows).find id).map Node.addr

def boot (devs : List ℤ) (votes : List DbVote) (voteId : ℤ) (discusses : List DbDiscuss)
    (discussId : ℤ) : State where
  devs := 0 :: devs
  vote := load DbVote.id votes voteId
  discuss := load DbDiscuss.id discusses discussId
  log := []

/-- **Only records of the table have been read.** -/
def RecordsOk (s : State) : Prop := ∀ a ∈ s.log, a.addr ≠ none ∧ a.live = true

/-! ## Safe steps -/

namespace Refs

variable {ρ : Type*} (R : Refs ρ)

/-- The number is not negative, or so large that it is refused. -/
def NumberOk (args : List Str) : Prop :=
  ∀ p, args.head? = some p → atoi p < R.db.length → 0 ≤ atoi p

/-- No pointer is left to the record. -/
def Unused (a : ℕ) : Prop := a ∉ R.db ∧ R.current ≠ some a

/-- The manager frees records only that no pointer is left to. -/
def ManageOk : Manage ρ → Prop
  | .add _ _ => True
  | .delete id ok => ok = true → ∀ n, R.md.find id = some n → R.Unused n.addr
  | .clear ok => ok = true → ∀ a ∈ R.md.getArray, R.Unused a

end Refs

/-- The steps that neither use a negative number nor free a record that a pointer is left to. -/
def Safe (s : State) : Event → Prop
  | .votectrl cmd _ => cmd.deviceId ∈ s.devs →
      (cmd.args.head? = some "select".toList → s.vote.NumberOk cmd.args.tail) ∧
      (cmd.args.head? = some "start".toList → s.vote.current = none →
        s.vote.NumberOk cmd.args.tail)
  | .discctrl cmd => cmd.deviceId ∈ s.devs → cmd.args.head? = some "select".toList →
      s.discuss.current = none → s.discuss.NumberOk cmd.args.tail
  | .reg _ _ => True
  | .manageVote m => s.vote.ManageOk m
  | .manageDiscuss m => s.discuss.ManageOk m

namespace Refs

variable {ρ : Type*} {R : Refs ρ} {r : Refs ρ × List (Option ℕ)} {args : List Str}

/-- The pointers lead to records of the table. -/
structure Ok (R : Refs ρ) : Prop where
  db : ∀ a ∈ R.db, a ∈ R.md.getArray
  current : ∀ a, R.current = some a → a ∈ R.md.getArray
  size : R.db.length < dbMax

/-- All reads are of records of the table. -/
def GoodReads (r : Refs ρ × List (Option ℕ)) : Prop :=
  ∀ a ∈ r.2, ∃ x, a = some x ∧ x ∈ r.1.md.getArray

theorem Ok.slot (h : R.Ok) {n : ℤ} (h0 : 0 ≤ n) (hn : n < R.db.length) :
    ∃ x, R.slot n = some x ∧ x ∈ R.md.getArray := by
  have hlt : n.toNat < R.db.length := by omega
  refine ⟨R.db[n.toNat], ?_, h.db _ (List.getElem_mem hlt)⟩
  rw [Refs.slot, if_neg (by omega), List.getElem?_eq_getElem hlt]

theorem slot_neg {n : ℤ} (h : n < 0) : R.slot n = none := if_pos h

theorem query_ok (h : R.Ok) (hr : R.query = some r) : r.1.Ok ∧ GoodReads r := by
  unfold query at hr
  simp only [] at hr
  split at hr
  · cases hr
  next hsize =>
  rw [Option.some.injEq] at hr
  subst hr
  refine ⟨⟨fun _ ha => ha, h.current, not_le.mp hsize⟩, fun a ha => ?_⟩
  obtain ⟨x, hx, rfl⟩ := List.mem_map.mp ha
  exact ⟨x, rfl, hx⟩

/-- A read of one slot of the snapshot. -/
theorem Ok.read_slot_iff (h : R.Ok) {n : ℤ} (hn : n < R.db.length) :
    (∃ x, R.slot n = some x ∧ x ∈ R.md.getArray) ↔ 0 ≤ n := by
  refine ⟨fun ⟨x, hx, _⟩ => ?_, fun h0 => h.slot h0 hn⟩
  by_contra hneg
  rw [slot_neg (not_le.mp hneg)] at hx
  cases hx

theorem select_cons (p : Str) (l : List Str) : R.select (p :: l) =
    if (R.db.length : ℤ) ≤ atoi p then (R, []) else (R, [R.slot (atoi p)]) := rfl

theorem Ok.select_iff (h : R.Ok) (args : List Str) :
    GoodReads (R.select args) ↔ R.NumberOk args := by
  cases args with
  | nil =>
    exact ⟨fun _ p hp => absurd hp (by simp), fun _ a ha => absurd ha List.not_mem_nil⟩
  | cons p l =>
    rw [select_cons]
    by_cases hn : (R.db.length : ℤ) ≤ atoi p
    · rw [if_pos hn]
      refine ⟨fun _ q hq hlt => ?_, fun _ a ha => absurd ha List.not_mem_nil⟩
      rw [List.head?_cons, Option.some.injEq] at hq
      subst hq
      omega
    · rw [if_neg hn]
      have hiff := h.read_slot_iff (not_le.mp hn)
      constructor
      · intro hgood q hq _
        rw [List.head?_cons, Option.some.injEq] at hq
        subst hq
        exact hiff.mp (hgood _ (List.mem_singleton.mpr rfl))
      · intro hnum a ha
        rw [List.mem_singleton.mp ha]
        exact hiff.mpr (hnum p rfl (not_le.mp hn))

theorem select_refs (args : List Str) : (R.select args).1 = R := by
  unfold select
  split
  · rfl
  · split <;> rfl

theorem Ok.start_ok {may : ρ → Option Bool} (h : R.Ok) (hr : R.start may args = some r) :
    r.1.Ok ∧ (GoodReads r ↔ (R.current = none → R.NumberOk args)) := by
  unfold start at hr
  by_cases hc : R.current.isSome
  · rw [if_pos hc, Option.some.injEq] at hr
    subst hr
    refine ⟨h, fun _ hnone => ?_, fun _ a ha => absurd ha List.not_mem_nil⟩
    rw [hnone] at hc
    cases hc
  rw [if_neg hc] at hr
  have hnone : R.current = none := Option.not_isSome_iff_eq_none.mp hc
  -- the reads are those of `select`
  have hreads : r.1.Ok ∧ r.1.md = R.md ∧ r.2 = (R.select args).2 := by
    cases args with
    | nil =>
      rw [Option.some.injEq] at hr
      subst hr
      exact ⟨h, rfl, rfl⟩
    | cons p l =>
      simp only [] at hr
      rw [select_cons]
      by_cases hn : (R.db.length : ℤ) ≤ atoi p
      · rw [if_pos hn, Option.some.injEq] at hr
        subst hr
        rw [if_pos hn]
        exact ⟨h, rfl, rfl⟩
      rw [if_neg hn] at hr
      rw [if_neg hn]
      split at hr
      · rw [Option.some.injEq] at hr
        subst hr
        exact ⟨h, rfl, rfl⟩
      · next rec hread =>
        obtain ⟨b, -, hb⟩ := Option.map_eq_some_iff.mp hr
        subst hb
        refine ⟨?_, ?_, rfl⟩
        · cases b with
          | false => exact h
          | true =>
            refine ⟨h.db, fun a ha => ?_, h.size⟩
            have ha : R.slot (atoi p) = some a := ha
            rw [ha, Option.bind_some] at hread
            exact Table.read_isSome.mp (Option.isSome_iff_exists.mpr ⟨rec, hread⟩)
        · cases b <;> rfl
  refine ⟨hreads.1, ?_⟩
  have hsel : GoodReads r ↔ GoodReads (R.select args) := by
    unfold GoodReads
    rw [hreads.2.1, hreads.2.2, select_refs]
  rw [hsel, h.select_iff]
  exact ⟨fun h _ => h, fun h => h hnone⟩

theorem Ok.manage_ok {key : ρ → ℤ} {m : Manage ρ} (h : R.Ok) (hm : R.ManageOk m) :
    (R.manage key m).Ok := by
  cases m with
  | add p ok =>
    have hmem : ∀ a ∈ R.md.getArray, a ∈ (R.md.add key p).getArray := fun a ha => by
      rw [Table.getArray_add]
      exact List.mem_append_left _ ha
    by_cases hadd : ok = true ∧ ∀ n ∈ R.md.nodes, n.id ≠ key p
    · rw [manage, if_pos hadd]
      exact ⟨fun a ha => hmem a (h.db a ha), fun a ha => hmem a (h.current a ha), h.size⟩
    · rw [manage, if_neg hadd]
      exact h
  | delete id ok =>
    cases ok with
    | false => exact h
    | true =>
      refine ⟨fun a ha => Table.mem_del.mpr ⟨h.db a ha, fun n hn heq => ?_⟩,
        fun a ha => Table.mem_del.mpr ⟨h.current a ha, fun n hn heq => ?_⟩, h.size⟩
      · exact (hm rfl n hn).1 (heq ▸ ha)
      · exact (hm rfl n hn).2 (heq ▸ ha)
  | clear ok =>
    cases ok with
    | false => exact h
    | true =>
      refine ⟨fun a ha => absurd ha (hm rfl a (h.db a ha)).1,
        fun a ha => absurd ha (hm rfl a (h.current a ha)).2, h.size⟩

/-- A command of the manager that misses the guard frees a record that a pointer is left to. -/
theorem manage_bad {key : ρ → ℤ} {m : Manage ρ} (hm : ¬ R.ManageOk m) :
    (R.manage key m).db = R.db ∧ (R.manage key m).current = R.current ∧
      ∃ a, (a ∈ R.db ∨ R.current = some a) ∧ a ∉ (R.manage key m).md.getArray := by
  have hused : ∀ a, ¬ R.Unused a → a ∈ R.db ∨ R.current = some a := by
    intro a ha
    by_contra hn
    exact ha ⟨fun h => hn (.inl h), fun h => hn (.inr h)⟩
  cases m with
  | add => exact absurd trivial hm
  | delete id ok =>
    cases ok with
    | false => exact absurd (fun h => absurd h Bool.false_ne_true) hm
    | true =>
      simp only [ManageOk, true_implies, not_forall] at hm
      obtain ⟨n, hn, hun⟩ := hm
      exact ⟨rfl, rfl, n.addr, hused _ hun, fun hmem => (Table.mem_del.mp hmem).2 n hn rfl⟩
  | clear ok =>
    cases ok with
    | false => exact absurd (fun h => absurd h Bool.false_ne_true) hm
    | true =>
      simp only [ManageOk, true_implies, not_forall] at hm
      obtain ⟨a, -, hun⟩ := hm
      exact ⟨rfl, rfl, a, hused _ hun, List.not_mem_nil⟩

end Refs

/-! ## Steps -/

/-- The pointers are good, and only good ones have been used. -/
structure Inv (s : State) : Prop where
  manager : 0 ∈ s.devs
  vote : s.vote.Ok
  discuss : s.discuss.Ok
  log : RecordsOk s

/-- A log grows by reads. -/
theorem log_append {ρ : Type*} {r : Refs ρ × List (Option ℕ)} {log : List Access}
    (h : ∀ a ∈ log, a.addr ≠ none ∧ a.live = true) :
    (∀ a ∈ log ++ r.2.map (fun a => (⟨a, (a.bind r.1.md.read).isSome⟩ : Access)),
      a.addr ≠ none ∧ a.live = true) ↔ Refs.GoodReads r := by
  constructor
  · intro hall a ha
    obtain ⟨hne, hlive⟩ := hall _ (List.mem_append_right _ (List.mem_map_of_mem ha))
    obtain ⟨x, rfl⟩ := Option.ne_none_iff_exists'.mp hne
    exact ⟨x, rfl, Table.read_isSome.mp hlive⟩
  · intro hgood a ha
    rcases List.mem_append.mp ha with ha | ha
    · exact h a ha
    · obtain ⟨b, hb, rfl⟩ := List.mem_map.mp ha
      obtain ⟨x, rfl, hx⟩ := hgood b hb
      exact ⟨Option.some_ne_none x, Table.read_isSome.mpr hx⟩

theorem recordsOk_readVotes {s : State} {r : Refs DbVote × List (Option ℕ)} (h : RecordsOk s) :
    RecordsOk (s.readVotes r) ↔ Refs.GoodReads r := log_append h

theorem recordsOk_readDiscusses {s : State} {r : Refs DbDiscuss × List (Option ℕ)}
    (h : RecordsOk s) : RecordsOk (s.readDiscusses r) ↔ Refs.GoodReads r := log_append h

theorem Inv.readVotes {s : State} {r : Refs DbVote × List (Option ℕ)} (h : Inv s) (hr : r.1.Ok)
    (hgood : Refs.GoodReads r) : Inv (s.readVotes r) :=
  ⟨h.manager, hr, h.discuss, (recordsOk_readVotes h.log).mpr hgood⟩

theorem Inv.readDiscusses {s : State} {r : Refs DbDiscuss × List (Option ℕ)} (h : Inv s)
    (hr : r.1.Ok) (hgood : Refs.GoodReads r) : Inv (s.readDiscusses r) :=
  ⟨h.manager, h.vote, hr, (recordsOk_readDiscusses h.log).mpr hgood⟩

theorem Refs.Ok.close {ρ : Type*} {R : Refs ρ} (h : R.Ok) : R.close.Ok :=
  ⟨h.db, fun a ha => absurd ha.symm (Option.some_ne_none a), h.size⟩

theorem Refs.Ok.stop {ρ : Type*} {R : Refs ρ} (h : R.Ok) : R.stop.Ok :=
  ⟨fun _ ha => absurd ha List.not_mem_nil, h.current, show 0 < dbMax by decide⟩

/-- The current record may be read. -/
theorem goodReads_current {ρ : Type*} {R : Refs ρ} (h : R.Ok) :
    Refs.GoodReads (R, R.current.toList.map some) := by
  intro a ha
  obtain ⟨x, hx, rfl⟩ := List.mem_map.mp ha
  exact ⟨x, rfl, h.current x (Option.mem_toList.mp hx)⟩

/-- A step without reads that keeps the pointers good, when it is always safe. -/
theorem safe_step {s s' : State} {e : Event} (hsafe : Safe s e) (h : Inv s') :
    (Safe s e → Inv s') ∧ (¬ Safe s e → ¬ RecordsOk s') := ⟨fun _ => h, fun hn => absurd hsafe hn⟩

theorem votectrl_ok {s s' : State} {cmd : Cmd} {voting : Bool} (h : Inv s)
    (hs : cmdVotectrl s cmd voting = some s') :
    (Safe s (.votectrl cmd voting) → Inv s') ∧
      (¬ Safe s (.votectrl cmd voting) → ¬ RecordsOk s') := by
  unfold cmdVotectrl at hs
  by_cases hd : cmd.deviceId ∈ s.devs
  swap
  · rw [if_pos hd, Option.some.injEq] at hs
    exact safe_step (fun hmem => absurd hmem hd) (hs ▸ h)
  rw [if_neg (not_not.mpr hd)] at hs
  cases hargs : cmd.args with
  | nil =>
    rw [hargs, Option.some.injEq] at hs
    exact safe_step (fun _ => by simp [hargs]) (hs ▸ h)
  | cons scmd args =>
    rw [hargs] at hs
    simp only [] at hs
    by_cases hq : scmd = "query".toList
    · rw [if_pos hq] at hs
      obtain ⟨r, hr, rfl⟩ := Option.map_eq_some_iff.mp hs
      obtain ⟨hok, hgood⟩ := Refs.query_ok h.vote hr
      exact safe_step (fun _ => by simp [hargs, hq]) (h.readVotes hok hgood)
    rw [if_neg hq] at hs
    by_cases hsel : scmd = "select".toList
    · rw [if_pos hsel, Option.some.injEq] at hs
      subst hs
      have hsafe : Safe s (.votectrl cmd voting) ↔ s.vote.NumberOk args := by
        simp [Safe, hd, hargs, hsel]
      rw [hsafe, recordsOk_readVotes h.log, h.vote.select_iff]
      refine ⟨fun hn => h.readVotes ?_ ((h.vote.select_iff args).mpr hn), id⟩
      rw [Refs.select_refs]
      exact h.vote
    rw [if_neg hsel] at hs
    by_cases hst : scmd = "start".toList
    · rw [if_pos hst] at hs
      obtain ⟨r, hr, rfl⟩ := Option.map_eq_some_iff.mp hs
      obtain ⟨hok, hgood⟩ := h.vote.start_ok hr
      have hsafe : Safe s (.votectrl cmd voting) ↔
          (s.vote.current = none → s.vote.NumberOk args) := by
        simp [Safe, hd, hargs, hst]
      rw [hsafe, recordsOk_readVotes h.log, hgood]
      exact ⟨fun hn => h.readVotes hok (hgood.mpr hn), id⟩
    rw [if_neg hst] at hs
    have hsafe : Safe s (.votectrl cmd voting) := by
      intro _
      rw [hargs, List.head?_cons]
      exact ⟨fun heq => absurd (Option.some.inj heq) hsel,
        fun heq => absurd (Option.some.inj heq) hst⟩
    refine safe_step hsafe ?_
    split at hs
    · rw [Option.some.injEq] at hs
      subst hs
      split
      · exact ⟨h.manager, h.vote.close, h.discuss, h.log⟩
      · exact h
    · split at hs
      · rw [Option.some.injEq] at hs
        subst hs
        exact ⟨h.manager, h.vote.close.stop, h.discuss, h.log⟩
      · rw [Option.some.injEq] at hs
        exact hs ▸ h

theorem discctrl_ok {s s' : State} {cmd : Cmd} (h : Inv s) (hs : cmdDiscctrl s cmd = some s') :
    (Safe s (.discctrl cmd) → Inv s') ∧ (¬ Safe s (.discctrl cmd) → ¬ RecordsOk s') := by
  unfold cmdDiscctrl at hs
  by_cases hd : cmd.deviceId ∈ s.devs
  swap
  · rw [if_pos hd, Option.some.injEq] at hs
    exact safe_step (fun hmem => absurd hmem hd) (hs ▸ h)
  rw [if_neg (not_not.mpr hd)] at hs
  cases hargs : cmd.args with
  | nil =>
    rw [hargs, Option.some.injEq] at hs
    exact safe_step (fun _ => by simp [hargs]) (hs ▸ h)
  | cons scmd args =>
    rw [hargs] at hs
    simp only [] at hs
    by_cases hq : scmd = "query".toList
    · rw [if_pos hq] at hs
      obtain ⟨r, hr, rfl⟩ := Option.map_eq_some_iff.mp hs
      obtain ⟨hok, hgood⟩ := Refs.query_ok h.discuss hr
      exact safe_step (fun _ => by simp [hargs, hq]) (h.readDiscusses hok hgood)
    rw [if_neg hq] at hs
    by_cases hsel : scmd = "select".toList
    · rw [if_pos hsel] at hs
      obtain ⟨r, hr, rfl⟩ := Option.map_eq_some_iff.mp hs
      obtain ⟨hok, hgood⟩ := h.discuss.start_ok hr
      have hsafe : Safe s (.discctrl cmd) ↔
          (s.discuss.current = none → s.discuss.NumberOk args) := by
        simp [Safe, hd, hargs, hsel]
      rw [hsafe, recordsOk_readDiscusses h.log, hgood]
      exact ⟨fun hn => h.readDiscusses hok (hgood.mpr hn), id⟩
    rw [if_neg hsel] at hs
    have hsafe : Safe s (.discctrl cmd) := by
      intro _ heq
      rw [hargs, List.head?_cons] at heq
      exact absurd (Option.some.inj heq) hsel
    refine safe_step hsafe ?_
    split at hs
    · rw [Option.some.injEq] at hs
      subst hs
      exact ⟨h.manager, h.vote, h.discuss.close, h.log⟩
    · split at hs
      · rw [Option.some.injEq] at hs
        subst hs
        exact ⟨h.manager, h.vote, h.discuss.stop, h.log⟩
      · rw [Option.some.injEq] at hs
        exact hs ▸ h

theorem reg_ok {s : State} (h : Inv s) (d : ℤ) (voting : Bool) : Inv (reg s d voting) := by
  have hdevs : Inv { s with devs := if d ∈ s.devs then s.devs else s.devs ++ [d] } := by
    refine ⟨?_, h.vote, h.discuss, h.log⟩
    split
    · exact h.manager
    · exact List.mem_append_left _ h.manager
  have hdisc := hdevs.readDiscusses h.discuss (goodReads_current h.discuss)
  refine hdisc.readVotes h.vote ?_
  cases voting with
  | false => exact fun a ha => absurd ha List.not_mem_nil
  | true => exact goodReads_current h.vote

theorem step_ok {s s' : State} {e : Event} (h : Inv s) (hg : Safe s e) (hs : step s e = some s') :
    Inv s' := by
  cases e with
  | votectrl cmd voting => exact (votectrl_ok h hs).1 hg
  | discctrl cmd => exact (discctrl_ok h hs).1 hg
  | reg d voting =>
    cases hs
    exact reg_ok h d voting
  | manageVote m =>
    cases hs
    exact ⟨h.manager, h.vote.manage_ok hg, h.discuss, h.log⟩
  | manageDiscuss m =>
    cases hs
    exact ⟨h.manager, h.vote, h.discuss.manage_ok hg, h.log⟩

/-- A command of the manager device with a number. -/
def numbered (subcmd : String) (i : ℕ) : Cmd where
  deviceId := 0
  args := [subcmd.toList, fmtInt i]
  rep := []

theorem atoi_small {i : ℕ} (h : i < Refs.dbMax) : atoi (fmtInt i) = i := by
  have hi : i < 1024 := h
  refine atoi_fmtInt ?_ ?_
  · unfold intMin
    omega
  · unfold intMax
    omega

/-- The place of a pointer in the snapshot. -/
theorem slot_of_mem {ρ : Type*} {R : Refs ρ} (hsize : R.db.length < Refs.dbMax) {a : ℕ}
    (ha : a ∈ R.db) : ∃ i < R.db.length, i < Refs.dbMax ∧ R.slot (atoi (fmtInt i)) = some a := by
  obtain ⟨i, hi, rfl⟩ := List.getElem_of_mem ha
  have hmax := hi.trans hsize
  refine ⟨i, hi, hmax, ?_⟩
  rw [atoi_small hmax, Refs.slot, if_neg (by omega), Int.toNat_natCast, List.getElem?_eq_getElem hi]

/-- A read of a record that is not in the table. -/
theorem not_goodReads {ρ : Type*} {r : Refs ρ × List (Option ℕ)} {a : ℕ} (ha : some a ∈ r.2)
    (hfree : a ∉ r.1.md.getArray) : ¬ Refs.GoodReads r := by
  intro hgood
  obtain ⟨x, hx, hmem⟩ := hgood _ ha
  exact hfree (Option.some.inj hx ▸ hmem)

theorem start_freed {ρ : Type*} {R : Refs ρ} (may : ρ → Option Bool) {p : Str} {a : ℕ}
    (hc : R.current = none) (hn : ¬ (R.db.length : ℤ) ≤ atoi p) (hslot : R.slot (atoi p) = some a)
    (hread : R.md.read a = none) : R.start may [p] = some (R, [some a]) := by
  unfold Refs.start
  rw [hc, if_neg (by simp)]
  simp only []
  rw [if_neg hn, hslot, Option.bind_some, hread]

/-- A pointer to a vote that has been freed is read sooner or later. -/
theorem freed_vote {s : State} (h0 : 0 ∈ s.devs) (hlog : RecordsOk s)
    (hsize : s.vote.db.length < Refs.dbMax) {a : ℕ}
    (ha : a ∈ s.vote.db ∨ s.vote.current = some a) (hfree : a ∉ s.vote.md.getArray) :
    ∃ es s', run step s es = some s' ∧ ¬ RecordsOk s' := by
  rcases ha with ha | ha
  · obtain ⟨i, hi, hmax, hslot⟩ := slot_of_mem hsize ha
    have hn : ¬ (s.vote.db.length : ℤ) ≤ atoi (fmtInt i) := by
      rw [atoi_small hmax]
      omega
    have hselect : s.vote.select [fmtInt i] = (s.vote, [some a]) := by
      rw [Refs.select_cons, if_neg hn, hslot]
    have hstep : step s (.votectrl (numbered "select" i) false) =
        some (s.readVotes (s.vote, [some a])) := by
      rw [← hselect]
      exact (if_neg (not_not.mpr h0)).trans ((if_neg (by decide)).trans (if_pos rfl))
    refine ⟨[.votectrl (numbered "select" i) false], _, by rw [run_cons, hstep]; rfl, ?_⟩
    rw [recordsOk_readVotes hlog]
    exact not_goodReads List.mem_cons_self hfree
  · refine ⟨[.reg 0 true], reg s 0 true, rfl, fun hok => ?_⟩
    have hmem : (⟨some a, (s.vote.md.read a).isSome⟩ : Access) ∈ (reg s 0 true).log := by
      refine List.mem_append_right _ ?_
      show _ ∈ (s.vote.current.toList.map some).map fun b : Option ℕ => _
      rw [ha]
      exact List.mem_cons_self
    exact hfree (Table.read_isSome.mp (hok _ hmem).2)

/-- A pointer to a discussion that has been freed is read sooner or later. -/
theorem freed_discuss {s : State} (h0 : 0 ∈ s.devs) (hlog : RecordsOk s)
    (hsize : s.discuss.db.length < Refs.dbMax) {a : ℕ}
    (ha : a ∈ s.discuss.db ∨ s.discuss.current = some a) (hfree : a ∉ s.discuss.md.getArray) :
    ∃ es s', run step s es = some s' ∧ ¬ RecordsOk s' := by
  rcases ha with ha | ha
  · -- the discussion is closed first, so that another may be selected
    obtain ⟨i, hi, hmax, hslot⟩ := slot_of_mem hsize ha
    have hn : ¬ (s.discuss.db.length : ℤ) ≤ atoi (fmtInt i) := by
      rw [atoi_small hmax]
      omega
    have hread : s.discuss.md.read a = none := by
      rw [← Option.not_isSome_iff_eq_none, Table.read_isSome]
      exact hfree
    have hstart := start_freed mayDiscuss (R := s.discuss.close) rfl hn hslot hread
    have hclose : step s (.discctrl ⟨0, ["close".toList], []⟩) =
        some { s with discuss := s.discuss.close } := by
      exact (if_neg (not_not.mpr h0)).trans rfl
    have hselect : step { s with discuss := s.discuss.close } (.discctrl (numbered "select" i)) =
        some ({ s with discuss := s.discuss.close }.readDiscusses (s.discuss.close, [some a])) := by
      refine (if_neg (not_not.mpr h0)).trans ((if_neg (by decide)).trans ((if_pos rfl).trans ?_))
      exact congrArg (Option.map _) hstart
    refine ⟨[.discctrl ⟨0, ["close".toList], []⟩, .discctrl (numbered "select" i)], _,
      by rw [run_cons, hclose, Option.bind_some, run_cons, hselect]; rfl, ?_⟩
    rw [recordsOk_readDiscusses (s := { s with discuss := s.discuss.close }) hlog]
    exact not_goodReads List.mem_cons_self hfree
  · refine ⟨[.reg 0 false], reg s 0 false, rfl, fun hok => ?_⟩
    have hmem : (⟨some a, (s.discuss.md.read a).isSome⟩ : Access) ∈ (reg s 0 false).log := by
      refine List.mem_append_left _ (List.mem_append_right _ ?_)
      show _ ∈ (s.discuss.current.toList.map some).map fun b : Option ℕ => _
      rw [ha]
      exact List.mem_cons_self
    exact hfree (Table.read_isSome.mp (hok _ hmem).2)

/-- A negative number has a result, whatever it is. -/
theorem start_negative {ρ : Type*} {R : Refs ρ} (may : ρ → Option Bool) {args : List Str}
    (hc : R.current = none) (hnum : ¬ R.NumberOk args) : ∃ r, R.start may args = some r := by
  simp only [Refs.NumberOk, not_forall] at hnum
  obtain ⟨p, hp, hlt, hneg⟩ := hnum
  obtain ⟨l, rfl⟩ := List.head?_eq_some_iff.mp hp
  refine ⟨(R, [none]), ?_⟩
  unfold Refs.start
  rw [hc, if_neg (by simp)]
  simp only []
  rw [if_neg (not_le.mpr hlt), Refs.slot_neg (not_le.mp hneg)]
  rfl

/-- **A step that is not safe** leads to a read of something else. -/
theorem step_bad {s : State} {e : Event} (h : Inv s) (hg : ¬ Safe s e) :
    ∃ es s', run step s (e :: es) = some s' ∧ ¬ RecordsOk s' := by
  cases e with
  | votectrl cmd voting =>
    have hresult : ∃ s', cmdVotectrl s cmd voting = some s' := by
      simp only [Safe, Classical.not_imp, not_and_or] at hg
      obtain ⟨hd, ⟨hsub, -⟩ | ⟨hsub, hc, hnum⟩⟩ := hg
      · obtain ⟨args, hargs⟩ := List.head?_eq_some_iff.mp hsub
        unfold cmdVotectrl
        rw [if_neg (not_not.mpr hd), hargs]
        exact ⟨_, (if_neg (by decide)).trans (if_pos rfl)⟩
      · obtain ⟨args, hargs⟩ := List.head?_eq_some_iff.mp hsub
        rw [hargs] at hnum
        obtain ⟨r, hr⟩ := start_negative (mayStart s cmd.deviceId) hc hnum
        refine ⟨s.readVotes r, ?_⟩
        unfold cmdVotectrl
        rw [if_neg (not_not.mpr hd), hargs]
        refine (if_neg (by decide)).trans ((if_neg (by decide)).trans ((if_pos rfl).trans ?_))
        exact congrArg (Option.map _) hr
    obtain ⟨s', hs'⟩ := hresult
    exact ⟨[], s', (run_cons ..).trans (by rw [step, hs']; rfl), (votectrl_ok h hs').2 hg⟩
  | discctrl cmd =>
    have hresult : ∃ s', cmdDiscctrl s cmd = some s' := by
      simp only [Safe, Classical.not_imp] at hg
      obtain ⟨hd, hsub, hc, hnum⟩ := hg
      obtain ⟨args, hargs⟩ := List.head?_eq_some_iff.mp hsub
      rw [hargs] at hnum
      obtain ⟨r, hr⟩ := start_negative mayDiscuss hc hnum
      refine ⟨s.readDiscusses r, ?_⟩
      unfold cmdDiscctrl
      rw [if_neg (not_not.mpr hd), hargs]
      refine (if_neg (by decide)).trans ((if_pos rfl).trans ?_)
      exact congrArg (Option.map _) hr
    obtain ⟨s', hs'⟩ := hresult
    exact ⟨[], s', (run_cons ..).trans (by rw [step, hs']; rfl), (discctrl_ok h hs').2 hg⟩
  | reg => exact absurd trivial hg
  | manageVote m =>
    obtain ⟨hdb, hcur, a, ha, hfree⟩ := @Refs.manage_bad _ _ DbVote.id _ hg
    obtain ⟨es, s', hrun, hbad⟩ := @freed_vote
      { s with vote := s.vote.manage DbVote.id m } h.manager h.log (hdb.symm ▸ h.vote.size) a
      (by rw [hdb, hcur]; exact ha) hfree
    exact ⟨es, s', (run_cons ..).trans hrun, hbad⟩
  | manageDiscuss m =>
    obtain ⟨hdb, hcur, a, ha, hfree⟩ := @Refs.manage_bad _ _ DbDiscuss.id _ hg
    obtain ⟨es, s', hrun, hbad⟩ := @freed_discuss
      { s with discuss := s.discuss.manage DbDiscuss.id m } h.manager h.log
      (hdb.symm ▸ h.discuss.size) a (by rw [hdb, hcur]; exact ha) hfree
    exact ⟨es, s', (run_cons ..).trans hrun, hbad⟩

/-! ## Runs -/

theorem load_ok {ρ : Type*} (key : ρ → ℤ) (rows : List ρ) (id : ℤ) : (load key rows id).Ok := by
  refine ⟨fun _ ha => absurd ha List.not_mem_nil, fun a ha => ?_, show 0 < Refs.dbMax by decide⟩
  unfold load at ha
  simp only [] at ha
  split at ha
  · cases ha
  · obtain ⟨n, hn, rfl⟩ := Option.map_eq_some_iff.mp ha
    exact Table.mem_getArray.mpr ⟨n, (Table.find_some hn).1, rfl⟩

theorem boot_inv (devs : List ℤ) (votes : List DbVote) (voteId : ℤ) (discusses : List DbDiscuss)
    (discussId : ℤ) : Inv (boot devs votes voteId discusses discussId) :=
  ⟨List.mem_cons_self, load_ok .., load_ok .., fun _ ha => absurd ha List.not_mem_nil⟩

/-- **Snapshots and current records,** along every run: as long as the steps are safe only records
of the table are read, and a step that is not safe leads to another read. Nothing is said about
tables of `dbMax` records and more, which `query` copies past the end of `db`. -/
theorem records_ok (devs : List ℤ) (votes : List DbVote) (voteId : ℤ) (discusses : List DbDiscuss)
    (discussId : ℤ) (es : List Event) :
    (Guarded step Safe (boot devs votes voteId discusses discussId) es →
      Along step RecordsOk (boot devs votes voteId discusses discussId) es) ∧
    ∀ s e, Guarded step Safe (boot devs votes voteId discusses discussId) es →
      run step (boot devs votes voteId discusses discussId) es = some s → ¬ Safe s e →
      ∃ es' s', run step s (e :: es') = some s' ∧ ¬ RecordsOk s' := by
  have hinv := boot_inv devs votes voteId discusses discussId
  refine ⟨fun hg => along_of_guarded (E := fun _ => True) (fun _ h => h.log)
    (fun _ _ _ h _ hg hs => step_ok h hg hs) hinv (fun _ _ => trivial) hg, ?_⟩
  intro s e hg hrun hbad
  exact step_bad (of_run (fun _ _ _ h hg hs => step_ok h hg hs) hinv hg hrun) hbad

/-- The manager deletes the discussion between `query` and `select`. -/
def deletion : List Event :=
  [.discctrl ⟨0, ["query".toList], []⟩, .manageDiscuss (.delete 1 true),
    .discctrl ⟨0, ["select".toList, "0".toList], []⟩]

/-- The record that the snapshot shows is read after it has been freed. -/
theorem deleted_record_is_read : ¬ ∀ devs votes voteId discusses discussId es,
    Along step RecordsOk (boot devs votes voteId discusses discussId) es := by
  intro h
  have hrun : (run step
      (boot [] [] 0 [{ id := 1, name := "talk".toList, members := "101".toList }] 0) deletion).map
      State.log = some [⟨some 0, true⟩, ⟨some 0, false⟩] := by decide
  obtain ⟨s, hok, hlog⟩ := (h _ _ _ _ _ deletion).observed hrun
  have hbad := hok ⟨some 0, false⟩ (hlog ▸ by decide)
  exact Bool.false_ne_true hbad.2

end GSConferencing.Serv.Snapshot
