import GSConferencing.Lib.CText
import GSConferencing.Serv.DevEnts
import GSConferencing.Serv.Members

/-!
# The growing buffers of the group

The list of devices and the names of the members stand in buffers that `INC_BUF`, `incbuf.h`, makes
larger in steps of 4096 bytes, and `LIST_ADD` writes to them without looking at their size.
`append_dev_ents_cache` and `refresh_dev_ents_cache` of `group.c` with their callers,
`group_setup_discuss` and `prepare_vote`, with the memory of the buffers.  A write outside its block
or array and a sum that is no `int` have no result; `realloc` succeeds.

* `addEntry_eq_some`, `addEntry_eq_none`: one entry more, if the size stays an `int`.
* `each_append_iff`, `each_addMember_iff`: the loops.
* `written_iff_fits`, `step_inv`: the steps that write inside the buffers, and what all steps keep.
* `cmdGetAllDevs_text`, `groupSetupDiscuss_text`, `prepareVote_text`: the buffers hold the texts of
  the models without memory.
* `listBuffers_written_iff`: the runs along which the buffers are not overrun.
-/

namespace GSConferencing.Serv.IncBuf

open GSConferencing.Lib.Run GSConferencing.Lib.CText GSConferencing.Lib.Fill
open GSConferencing.Lib.Fill.Filled GSConferencing.Cmd.IdList GSConferencing.Serv.Strutil
open GSConferencing.Serv.Members (MemberIds)
open GSConferencing.Serv.Roster (devEnt addCount ntypes)
open GSConferencing.Serv.Votectrl (memberMax)

/-! ## Buffers -/

abbrev nul : Char := '\x00'

/-- `char *buf` with `int size`, the size it was allocated with; `NULL` is the empty block. -/
structure Buffer where
  mem : List (Option Char)
  size : ℕ
  alloc : mem.length = size
  step : 4096 ∣ size
  int : (size : ℤ) ≤ intMax

namespace Buffer

def null : Buffer := ⟨[], 0, rfl, by decide, by decide⟩

/-- `realloc(buf, size + 4096)`, which succeeds. -/
def grow (b : Buffer) (h : ((b.size + 4096 : ℕ) : ℤ) ≤ intMax) : Buffer where
  mem := realloc b.mem (b.size + 4096)
  size := b.size + 4096
  alloc := length_realloc _ _
  step := (Nat.dvd_add_left (dvd_refl 4096)).mpr b.step
  int := h

/-- `sprintf(buf + off, ..)`. -/
def print (b : Buffer) (off : ℕ) (s : Str) : Option Buffer :=
  match h : sprintf nul b.mem off s with
  | none => none
  | some mem => some { b with mem := mem, alloc := (length_sprintf h).trans b.alloc }

/-- `buf[0] = 0`. -/
def clear (b : Buffer) : Option Buffer :=
  if b.size = 0 then none
  else some { b with
    mem := b.mem.set 0 (some nul)
    alloc := List.length_set.trans b.alloc }

end Buffer

/-- `INC_BUF`.  The sums are `int`s; one that is none has no result. -/
def incBuf (b : Buffer) (len : ℕ) : Option Buffer :=
  if intMax < len + 200 then none
  else if b.size < len + 200 then
    if h : ((b.size + 4096 : ℕ) : ℤ) ≤ intMax then some (b.grow h) else none
  else some b

/-- `SEP_ADD`, of a text as it is printed; the counter is the second result. -/
def sepAdd (b : Buffer) (l : ℕ) (sep s : Str) : Option (Buffer × ℕ) :=
  if l = 0 then (b.print l s).map fun b => (b, l + s.length)
  else (b.print l (sep ++ s)).map fun b => (b, l + (sep ++ s).length)

/-- `INC_BUF` and the `LIST_ADD` or `LIST_ADD_FMT` behind it. -/
def addEntry (b : Buffer) (l : ℕ) (s : Str) : Option (Buffer × ℕ) :=
  (incBuf b l).bind fun b => sepAdd b l [','] s

/-- The counter is the length of the string. -/
def Counted (b : Buffer) (l : ℕ) : Prop := strlen nul b.mem = some l

/-! ## The schema -/

/-- A field `i` of `db.def`. -/
abbrev Num := {n : ℤ // intMin ≤ n ∧ n ≤ intMax}

/-- A field `s` of `db.def`: a string in an array of `n` characters. -/
abbrev Text (n : ℕ) := {s : Str // s.length < n ∧ nul ∉ s}

/-- `struct device`, with the `user_id` of its record. -/
structure Device where
  id : Num
  type : Num
  userId : Text 64
  active : Bool

/-! ## The group -/

/-- `memberids`, `nmembers`, `membernames` and `membernames_size`. -/
structure Names where
  memberids : MemberIds
  membernames : Buffer

structure Group where
  /-- `device_head`. -/
  devs : List Device
  devCount : Fin ntypes → ℤ
  devEnts : Buffer
  devEntsLen : ℕ
  dirty : Bool
  discuss : Names
  vote : Names

/-- The group after the `memset` of `group_create`. -/
def zeroed : Group where
  devs := []
  devCount := fun _ => 0
  devEnts := .null
  devEntsLen := 0
  dirty := false
  discuss := ⟨empty fun _ => 0, .null⟩
  vote := ⟨empty fun _ => 0, .null⟩

def Group.ids (s : Group) : List ℤ := s.devs.map fun d => d.id.val

/-- An entry of the list of devices. -/
def entry (d : Device) : Str := devEnt d.id d.type d.userId d.active

/-- `append_dev_ents_cache`. -/
def appendDevEntsCache (s : Group) (d : Device) : Option Group :=
  (addEntry s.devEnts s.devEntsLen (entry d)).map fun r =>
    { s with devEnts := r.1, devEntsLen := r.2 }

/-- The first lines of `refresh_dev_ents_cache`. -/
def clearDevEnts (s : Group) : Option Group :=
  s.devEnts.clear.map fun b => { s with devEnts := b, devEntsLen := 0 }

/-- `refresh_dev_ents_cache`. -/
def refreshDevEntsCache (s : Group) : Option Group :=
  (clearDevEnts s).bind fun s =>
    (s.devs.foldlM appendDevEntsCache s).map fun s => { s with dirty := false }

/-- What `dev_register` does to the group before the list. -/
def groupAddDevice (s : Group) (d : Device) : Option Group :=
  (addCount s.devCount d.type 1).map fun c => { s with devs := s.devs ++ [d], devCount := c }

/-- `dev_register`. -/
def devRegister (s : Group) (d : Device) : Option Group :=
  if d.id.val ∈ s.ids then some s
  else (groupAddDevice s d).bind fun s => appendDevEntsCache s d

/-- `cmd_get_all_devs`, as far as the list is concerned. -/
def cmdGetAllDevs (s : Group) (asker : ℤ) : Option Group :=
  if asker ∉ s.ids then some s
  else if s.dirty then refreshDevEntsCache s else some s

/-- What `md_find_device` knows of a name. -/
abbrev UserName := ℤ → Option (Text 64)

/-- The name that is added for a member. -/
def memberName (userName : UserName) (mid : ℤ) : Str :=
  match userName mid with
  | some name => name
  | none => ['?']

/-- `add_vote_member`, and the same lines of `group_setup_discuss`; the counter is `l`. -/
def addMember (userName : UserName) (n : Names × ℕ) (mid : ℤ) : Option (Names × ℕ) :=
  (n.1.memberids.push mid).bind fun memberids =>
    (addEntry n.1.membernames n.2 (memberName userName mid)).map fun r => (⟨memberids, r.1⟩, r.2)

/-- The lines before the loops, `nmembers = 0` and `l = 0`. -/
def start (n : Names) : Names × ℕ := (⟨empty n.memberids.cells, n.membernames⟩, 0)

/-- The ids that `FOREACH_ID` meets. -/
def memberList (members : Str) : List ℤ := (visits members).map atoi

/-- The ids that the loops of `prepare_vote` meet. -/
def voteMemberList (s : Group) (members : Str) : List ℤ :=
  if members = "all".toList then s.ids else memberList members

/-- `group_setup_discuss`. -/
def groupSetupDiscuss (userName : UserName) (s : Group) (members : Str) : Option Group :=
  ((memberList members).foldlM (addMember userName) (start s.discuss)).map fun r =>
    { s with discuss := r.1 }

/-- `prepare_vote`. -/
def prepareVote (userName : UserName) (s : Group) (members : Str) : Option Group :=
  ((voteMemberList s members).foldlM (addMember userName) (start s.vote)).map fun r =>
    { s with vote := r.1 }

/-! ## Runs -/

/-- What the buffers may meet, in any order and with any values of the schema. -/
inductive Event where
  | register (d : Device)
  | getAllDevs (asker : ℤ)
  /-- Another command writes fields of devices, and may set `dev_ents_dirty`. -/
  | change (f : Device → Device) (dirty : Bool)
  | setupDiscuss (userName : UserName) (members : Text 8192)
  | setupVote (userName : UserName) (members : Text 8192)

def step (s : Group) : Event → Option Group
  | .register d => devRegister s d
  | .getAllDevs asker => cmdGetAllDevs s asker
  | .change f dirty => some { s with
      devs := s.devs.map fun d => { f d with id := d.id }
      dirty := s.dirty || dirty }
  | .setupDiscuss userName members => groupSetupDiscuss userName s members
  | .setupVote userName members => prepareVote userName s members

def EntsCounted (s : Group) : Prop := Counted s.devEnts s.devEntsLen

def NamesCounted (n : Names × ℕ) : Prop := Counted n.1.membernames n.2

/-- **The property of a step:** it has a result, so that each write stays inside its block, and
after each entry that is added the counter is the length of the string. -/
def Written (s : Group) (e : Event) : Prop :=
  (∃ s', step s e = some s') ∧ match e with
    | .register d => d.id.val ∉ s.ids → ∀ s', groupAddDevice s d = some s' →
        Each appendDevEntsCache EntsCounted s' [d]
    | .getAllDevs asker => asker ∈ s.ids → s.dirty = true → ∀ s', clearDevEnts s = some s' →
        Each appendDevEntsCache EntsCounted s' s'.devs
    | .change _ _ => True
    | .setupDiscuss userName members =>
        Each (addMember userName) NamesCounted (start s.discuss) (memberList members)
    | .setupVote userName members =>
        Each (addMember userName) NamesCounted (start s.vote) (voteMemberList s members)

/-- The list of devices without memory. -/
def rendering (devs : List Device) : Str := [','].intercalate (devs.map entry)

/-- The longest list that takes one more entry: the largest size is `2^31 - 4096`. -/
def lenMax : ℕ := 2147479352

/-- **The guard:** a device registers with a type that is not negative, the list of devices without
the last one is not longer than `lenMax`, and a set-up has at most 1024 members. -/
def Fits (s : Group) : Event → Prop
  | .register d => d.id.val ∉ s.ids → 0 ≤ d.type.val ∧ s.devEntsLen ≤ lenMax
  | .getAllDevs asker => asker ∈ s.ids → s.dirty = true →
      (rendering s.devs.dropLast).length ≤ lenMax
  | .change _ _ => True
  | .setupDiscuss _ members => members.val.count ',' < memberMax
  | .setupVote _ members => if members.val = "all".toList then s.devs.length ≤ memberMax
      else members.val.count ',' < memberMax

/-! ## One entry -/

variable {b b' : Buffer} {l : ℕ} {s t : Str}

/-- What is to be continued: the block begins with `t`, and the counter is its length. -/
structure Stands (b : Buffer) (l : ℕ) (t : Str) : Prop where
  len : l = t.length
  front : b.mem.take t.length = t.map some
  noNul : nul ∉ t

theorem stands_nil (b : Buffer) : Stands b 0 [] := ⟨rfl, rfl, List.not_mem_nil⟩

theorem Stands.of_text (hl : l = t.length) (h : text nul b.mem = some t) : Stands b l t :=
  ⟨hl, take_of_text h, notMem_of_text h⟩

theorem Stands.le_size (h : Stands b l t) : l ≤ b.size := by
  have hlen := congrArg List.length h.front
  rw [List.length_take, List.length_map, b.alloc] at hlen
  have := h.len
  omega

theorem counted_of_text (h : text nul b.mem = some t) : Counted b t.length := strlen_of_text h

theorem print_spec (h : Stands b l t) (hs : nul ∉ s) (hfit : l + (s.length + 1) ≤ b.size) :
    ∃ b', b.print l s = some b' ∧ text nul b'.mem = some (t ++ s) := by
  have hl := h.len
  subst hl
  obtain ⟨mem', hprint, htext⟩ := sprintf_append h.front h.noNul hs (b.alloc ▸ hfit)
  unfold Buffer.print
  split
  · next hnone => cases hnone.symm.trans hprint
  · next mem hsome =>
    cases hsome.symm.trans hprint
    exact ⟨_, rfl, htext⟩

theorem clear_spec (h : b.size ≠ 0) : ∃ b', b.clear = some b' ∧ text nul b'.mem = some [] := by
  refine ⟨_, if_neg h, ?_⟩
  obtain ⟨c, mem, hmem⟩ := List.exists_cons_of_length_pos
    (show 0 < b.mem.length from b.alloc ▸ Nat.pos_of_ne_zero h)
  show text nul (b.mem.set 0 (some nul)) = some []
  rw [hmem, List.set_cons_zero, text, if_pos rfl]

/-- **There is room for 200 bytes** after `INC_BUF`, and what stood in the buffer still does. -/
theorem incBuf_eq_some (h : Stands b l t) (hl : l ≤ lenMax) :
    ∃ b', incBuf b l = some b' ∧ Stands b' l t ∧ l + 200 ≤ b'.size := by
  have hle := h.le_size
  have hstep := b.step
  unfold lenMax at hl
  unfold incBuf intMax
  rw [if_neg (by omega)]
  split
  · next hsmall =>
    have hint : ((b.size + 4096 : ℕ) : ℤ) ≤ 2147483647 := by omega
    rw [dif_pos hint]
    refine ⟨b.grow hint, rfl, ⟨h.len, ?_, h.noNul⟩, ?_⟩
    · show (realloc b.mem (b.size + 4096)).take t.length = t.map some
      have hlen := h.len
      rw [take_realloc (by rw [b.alloc]; omega) (by rw [b.alloc]; omega), h.front]
    · show l + 200 ≤ b.size + 4096
      omega
  · next hlarge => exact ⟨b, rfl, h, by omega⟩

/-- The size would be no `int`. -/
theorem incBuf_eq_none (h : Stands b l t) (hl : lenMax < l) : incBuf b l = none := by
  have hle := h.le_size
  have hstep := b.step
  have hint := b.int
  unfold lenMax at hl
  unfold intMax at hint
  unfold incBuf intMax
  rw [if_neg (by omega), if_pos (by omega), dif_neg (by omega)]

theorem length_listAdd_le (t s : Str) : (listAdd t s).length ≤ t.length + 1 + s.length := by
  unfold listAdd
  split
  · omega
  · rw [List.length_append, List.length_cons]
    omega

theorem le_length_listAdd (t s : Str) : t.length ≤ (listAdd t s).length := by
  unfold listAdd
  split
  · next h => rw [h]; exact Nat.zero_le _
  · rw [List.length_append]
    omega

/-- **One entry more** of at most 198 characters. -/
theorem addEntry_eq_some (h : Stands b l t) (hl : l ≤ lenMax) (hs : nul ∉ s)
    (hlen : s.length ≤ 198) :
    ∃ b', addEntry b l s = some (b', (listAdd t s).length) ∧
      text nul b'.mem = some (listAdd t s) := by
  obtain ⟨b₁, hinc, h₁, hroom⟩ := incBuf_eq_some h hl
  unfold addEntry sepAdd
  rw [hinc, Option.bind_some]
  by_cases ht : t = []
  · have hzero : l = 0 := by rw [h.len, ht, List.length_nil]
    obtain ⟨b₂, hprint, htext⟩ := print_spec h₁ hs (by omega)
    rw [if_pos hzero, hprint]
    unfold listAdd
    rw [if_pos ht]
    rw [ht, List.nil_append] at htext
    exact ⟨b₂, by rw [hzero, Nat.zero_add]; rfl, htext⟩
  · have hpos : l ≠ 0 := fun h0 => ht (List.length_eq_zero_iff.mp (h.len.symm.trans h0))
    have hsep : nul ∉ [','] ++ s := by
      rw [List.singleton_append, List.mem_cons]
      exact fun hmem => hmem.elim (by decide) hs
    obtain ⟨b₂, hprint, htext⟩ := print_spec h₁ hsep (by
      rw [List.singleton_append, List.length_cons]
      omega)
    rw [if_neg hpos, hprint]
    unfold listAdd
    rw [if_neg ht]
    refine ⟨b₂, ?_, htext⟩
    rw [Option.map_some, h.len, ← List.length_append]
    rfl

theorem addEntry_eq_none (h : Stands b l t) (hl : lenMax < l) : addEntry b l s = none := by
  unfold addEntry
  rw [incBuf_eq_none h hl]
  rfl

/-! ## What is added -/

/-- An `int` has at most eleven characters. -/
theorem length_fmtInt_le {n : ℤ} (h : intMin ≤ n ∧ n ≤ intMax) : (fmtInt n).length ≤ 11 := by
  obtain ⟨hmin, hmax⟩ := h
  unfold intMin at hmin
  unfold intMax at hmax
  have hdigits : (Nat.toDigits 10 n.natAbs).length ≤ 10 :=
    Nat.toDigits_length 10 n.natAbs 10 (by omega) (by omega)
  unfold fmtInt
  split
  · rw [List.length_cons]
    omega
  · omega

theorem nul_notMem_fmtInt (n : ℤ) : nul ∉ fmtInt n := notMem_fmtInt (by decide) (by decide) n

theorem entry_spec (d : Device) : (entry d).length ≤ 198 ∧ nul ∉ entry d := by
  have hid := length_fmtInt_le d.id.property
  have htype := length_fmtInt_le d.type.property
  obtain ⟨hlen, huser⟩ := d.userId.property
  have hactive : (fmtInt (if d.active then 1 else 0)).length ≤ 11 := by
    cases d.active <;> decide
  have hcolon : nul ≠ ':' := by decide
  unfold entry devEnt
  constructor
  · simp only [List.length_append, List.length_cons]
    omega
  · simp only [List.mem_append, List.mem_cons, not_or]
    exact ⟨nul_notMem_fmtInt _, hcolon, nul_notMem_fmtInt _, hcolon, huser, hcolon,
      nul_notMem_fmtInt _⟩

theorem memberName_spec (userName : UserName) (mid : ℤ) :
    (memberName userName mid).length ≤ 63 ∧ nul ∉ memberName userName mid := by
  unfold memberName
  split
  · next name _ => exact ⟨Nat.le_of_lt_succ name.property.1, name.property.2⟩
  · decide

/-! ## The list of devices -/

variable {g g' : Group}

/-- The entries are those of the list without memory. -/
theorem appendDevEntsCache_eq_some (h : Stands g.devEnts g.devEntsLen t)
    (hl : g.devEntsLen ≤ lenMax) (d : Device) :
    ∃ b, text nul b.mem = some (listAdd t (entry d)) ∧ appendDevEntsCache g d =
      some { g with devEnts := b, devEntsLen := (listAdd t (entry d)).length } := by
  obtain ⟨hlen, hnul⟩ := entry_spec d
  obtain ⟨b, hb, htext⟩ := addEntry_eq_some h hl hnul hlen
  refine ⟨b, htext, ?_⟩
  unfold appendDevEntsCache
  rw [hb]
  rfl

theorem appendDevEntsCache_eq_none (h : Stands g.devEnts g.devEntsLen t)
    (hl : lenMax < g.devEntsLen) (d : Device) : appendDevEntsCache g d = none := by
  unfold appendDevEntsCache
  rw [addEntry_eq_none h hl]
  rfl

/-- The list without memory. -/
def addEntries (t : Str) (ds : List Device) : Str := ds.foldl (fun t d => listAdd t (entry d)) t

theorem le_length_addEntries (t : Str) (ds : List Device) :
    t.length ≤ (addEntries t ds).length := by
  induction ds generalizing t with
  | nil => exact le_rfl
  | cons d ds ih => exact (le_length_listAdd t (entry d)).trans (ih _)

theorem addEntries_nil (ds : List Device) : addEntries [] ds = rendering ds := by
  have hne : ∀ w ∈ ds.map entry, w ≠ [] := by
    intro w hw
    obtain ⟨d, -, rfl⟩ := List.mem_map.mp hw
    exact DevEnts.devEnt_ne_nil d.id d.type d.userId d.active
  rw [rendering, ← foldl_listAdd hne, List.foldl_map]
  rfl

/-- **A loop of `append_dev_ents_cache`** is all right exactly if the list before the last entry is
not too long. -/
theorem each_append_iff (ds : List Device) (h : Stands g.devEnts g.devEntsLen t) :
    Each appendDevEntsCache EntsCounted g ds ↔
      (ds ≠ [] → (addEntries t ds.dropLast).length ≤ lenMax) := by
  induction ds generalizing g t with
  | nil => exact iff_of_true trivial fun h => absurd rfl h
  | cons d ds ih =>
    by_cases hl : g.devEntsLen ≤ lenMax
    · obtain ⟨b, htext, happend⟩ := appendDevEntsCache_eq_some h hl d
      have hrest := ih (g := { g with devEnts := b, devEntsLen := (listAdd t (entry d)).length })
        (Stands.of_text rfl htext)
      rw [each_cons_of_some happend (counted_of_text htext), hrest]
      rcases ds with - | ⟨d', ds⟩
      · refine iff_of_true (fun h => absurd rfl h) fun _ => ?_
        show t.length ≤ lenMax
        rw [← h.len]
        exact hl
      · rw [List.dropLast_cons_of_ne_nil (List.cons_ne_nil d' ds)]
        exact ⟨fun hle _ => hle (List.cons_ne_nil _ _), fun hle _ => hle (List.cons_ne_nil _ _)⟩
    · have hnone := appendDevEntsCache_eq_none h (not_le.mp hl) d
      refine iff_of_false (not_each_cons hnone ds) fun hle => hl ?_
      rw [h.len]
      exact (le_length_addEntries t _).trans (hle (List.cons_ne_nil d ds))

/-- **The buffer holds the list** of the model without memory. -/
theorem foldlM_append_text (ds : List Device) (h : text nul g.devEnts.mem = some t)
    (hl : g.devEntsLen = t.length) (hrun : ds.foldlM appendDevEntsCache g = some g') :
    g'.devs = g.devs ∧ text nul g'.devEnts.mem = some (addEntries t ds) ∧
      g'.devEntsLen = (addEntries t ds).length := by
  induction ds generalizing g t with
  | nil =>
    cases hrun
    exact ⟨rfl, h, hl⟩
  | cons d ds ih =>
    rw [List.foldlM_cons] at hrun
    obtain ⟨g₁, hg₁, hrun⟩ := Option.bind_eq_some_iff.mp hrun
    have hstands := Stands.of_text hl h
    have hle : g.devEntsLen ≤ lenMax := by
      by_contra hlt
      rw [appendDevEntsCache_eq_none hstands (not_le.mp hlt)] at hg₁
      cases hg₁
    obtain ⟨b, htext, happend⟩ := appendDevEntsCache_eq_some hstands hle d
    cases happend.symm.trans hg₁
    exact ih (g := { g with devEnts := b, devEntsLen := (listAdd t (entry d)).length })
      (t := listAdd t (entry d)) htext rfl hrun

/-! ## The names of the members -/

variable {userName : UserName} {n : Names}

/-- **One name more:** they stay short enough for an `int`, as there are so few. -/
theorem addMember_eq_some (userName : UserName) (h : Stands n.membernames l t)
    (hl : l ≤ 64 * n.memberids.used) {memberids : MemberIds} {mid : ℤ}
    (hpush : n.memberids.push mid = some memberids) :
    ∃ b, text nul b.mem = some (listAdd t (memberName userName mid)) ∧
      addMember userName (n, l) mid =
        some (⟨memberids, b⟩, (listAdd t (memberName userName mid)).length) ∧
      (listAdd t (memberName userName mid)).length ≤ 64 * memberids.used := by
  obtain ⟨hlen, hnul⟩ := memberName_spec userName mid
  obtain ⟨hone, hlt⟩ := used_push hpush
  have hmax : l ≤ lenMax := by
    unfold memberMax at hlt
    unfold lenMax
    omega
  obtain ⟨b, hb, htext⟩ := addEntry_eq_some h hmax hnul (by omega)
  refine ⟨b, htext, ?_, ?_⟩
  · unfold addMember
    rw [hpush, Option.bind_some, hb]
    rfl
  · have hle := length_listAdd_le t (memberName userName mid)
    have := h.len
    omega

/-- **The loop of a set-up** is all right exactly if the array has room for its members. -/
theorem each_addMember_iff (ids : List ℤ) (h : Stands n.membernames l t)
    (hused : n.memberids.used ≤ memberMax) (hl : l ≤ 64 * n.memberids.used) :
    Each (addMember userName) NamesCounted (n, l) ids ↔
      n.memberids.used + ids.length ≤ memberMax := by
  induction ids generalizing n l t with
  | nil => exact iff_of_true trivial hused
  | cons mid ids ih =>
    rw [List.length_cons]
    rcases hpush : n.memberids.push mid with - | memberids
    · have hfull := push_eq_none.mp hpush
      refine iff_of_false (not_each_cons ?_ ids) (by omega)
      unfold addMember
      rw [hpush, Option.bind_none]
    · obtain ⟨hone, hlt⟩ := used_push hpush
      obtain ⟨b, htext, hadd, hlen⟩ := addMember_eq_some userName h hl hpush
      have hrest := ih (n := ⟨memberids, b⟩) (Stands.of_text rfl htext) (by
        show memberids.used ≤ memberMax
        omega) hlen
      rw [each_cons_of_some hadd (counted_of_text htext), hrest]
      show memberids.used + ids.length ≤ memberMax ↔ _
      omega

theorem each_start_iff (userName : UserName) (n : Names) (ids : List ℤ) :
    Each (addMember userName) NamesCounted (start n) ids ↔ ids.length ≤ memberMax := by
  refine (each_addMember_iff (n := (start n).1) ids (stands_nil n.membernames) ?_ ?_).trans ?_
  · exact Nat.zero_le memberMax
  · exact Nat.zero_le _
  · show 0 + ids.length ≤ memberMax ↔ _
    rw [Nat.zero_add]

/-- A loop beside that of the model without memory. -/
structure Begun (r : Names × ℕ) (r' : MemberIds × Str) : Prop where
  ids : r.1.memberids = r'.1
  stands : Stands r.1.membernames r.2 r'.2
  short : r.2 ≤ 64 * r'.1.used

/-- The loop has added a name. -/
structure Same (r : Names × ℕ) (r' : MemberIds × Str) : Prop extends Begun r r' where
  text : text nul r.1.membernames.mem = some r'.2

/-- The names as the model without memory has them. -/
def nameOf (userName : UserName) (mid : ℤ) : Option Str := (userName mid).map Subtype.val

theorem getD_nameOf (userName : UserName) (mid : ℤ) :
    (nameOf userName mid).getD ['?'] = memberName userName mid := by
  unfold nameOf memberName
  cases userName mid with
  | none => rfl
  | some name => rfl

theorem addMember_same {r r₁ : Names × ℕ} {r' : MemberIds × Str} {mid : ℤ} (h : Begun r r')
    (hr : addMember userName r mid = some r₁) :
    ∃ r₁', Members.addMember (nameOf userName) r' mid = some r₁' ∧ Same r₁ r₁' := by
  obtain ⟨n, l⟩ := r
  obtain ⟨a, t⟩ := r'
  obtain ⟨rfl, hstands, hshort⟩ := h
  obtain ⟨memberids, hpush, -⟩ := Option.bind_eq_some_iff.mp hr
  replace hpush : n.memberids.push mid = some memberids := hpush
  obtain ⟨b, htext, hadd, hlen⟩ := addMember_eq_some userName hstands hshort hpush
  cases hadd.symm.trans hr
  refine ⟨(memberids, listAdd t (memberName userName mid)), ?_,
    ⟨rfl, Stands.of_text rfl htext, hlen⟩, htext⟩
  unfold Members.addMember
  rw [hpush, getD_nameOf]
  rfl

/-- **The loop of a set-up** stores what it does in the model without memory. -/
theorem setup_same {r : Names × ℕ} {ids : List ℤ} (hids : ids ≠ [])
    (hrun : ids.foldlM (addMember userName) (start n) = some r) :
    ∃ r', ids.foldlM (Members.addMember (nameOf userName)) (empty n.memberids.cells, []) =
      some r' ∧ Same r r' := by
  obtain ⟨mid, ids, rfl⟩ := List.exists_cons_of_ne_nil hids
  rw [List.foldlM_cons] at hrun
  obtain ⟨r₁, hr₁, hrun⟩ := Option.bind_eq_some_iff.mp hrun
  have hstart : Begun (start n) (empty n.memberids.cells, []) :=
    ⟨rfl, stands_nil _, Nat.zero_le _⟩
  obtain ⟨r₁', hr₁', hsame₁⟩ := addMember_same hstart hr₁
  obtain ⟨r', hr', hsame⟩ := run_related (E := fun mid mid' => mid = mid')
    (fun _ _ _ _ _ h hmid hr => hmid ▸ addMember_same h.toBegun hr) hsame₁
    (List.forall₂_same.mpr fun _ _ => rfl) hrun
  refine ⟨r', ?_, hsame⟩
  rw [List.foldlM_cons, hr₁']
  exact hr'

/-! ## Steps -/

/-- A group with devices has a list, and its counter is right. -/
structure Inv (g : Group) : Prop where
  fresh : g.devs = [] → g.devEntsLen = 0
  cached : g.devs ≠ [] → ∃ t, text nul g.devEnts.mem = some t ∧ g.devEntsLen = t.length

theorem Inv.stands (hI : Inv g) : ∃ t, Stands g.devEnts g.devEntsLen t := by
  by_cases hdevs : g.devs = []
  · rw [hI.fresh hdevs]
    exact ⟨[], stands_nil g.devEnts⟩
  · obtain ⟨t, htext, hlen⟩ := hI.cached hdevs
    exact ⟨t, Stands.of_text hlen htext⟩

/-- The group has devices, so that `dev_ents` is not `NULL`. -/
theorem Inv.clear (hI : Inv g) (hdevs : g.devs ≠ []) :
    ∃ b, clearDevEnts g = some { g with devEnts := b, devEntsLen := 0 } ∧
      text nul b.mem = some [] := by
  obtain ⟨t, htext, -⟩ := hI.cached hdevs
  have hsize : g.devEnts.size ≠ 0 := by
    intro h0
    have hmem : g.devEnts.mem = [] := List.length_eq_zero_iff.mp (g.devEnts.alloc.trans h0)
    rw [hmem] at htext
    cases htext
  obtain ⟨b, hb, hnil⟩ := clear_spec hsize
  refine ⟨b, ?_, hnil⟩
  unfold clearDevEnts
  rw [hb]
  rfl

theorem devs_ne_nil {asker : ℤ} (h : asker ∈ g.ids) : g.devs ≠ [] := by
  obtain ⟨d, hd, -⟩ := List.mem_map.mp h
  exact List.ne_nil_of_mem hd

/-- The group with a device more. -/
def enrolled (g : Group) (d : Device) : Group := { g with
  devs := g.devs ++ [d]
  devCount := fun k => if (k : ℤ) = d.type.val then g.devCount k + 1 else g.devCount k }

theorem groupAddDevice_eq (g : Group) (d : Device) :
    groupAddDevice g d = if d.type.val < 0 then none else some (enrolled g d) := by
  unfold groupAddDevice
  rw [Roster.addCount_eq]
  split
  · rfl
  · rfl

theorem devRegister_of_notMem {d : Device} (hd : d.id.val ∉ g.ids) :
    devRegister g d =
      if d.type.val < 0 then none else appendDevEntsCache (enrolled g d) d := by
  unfold devRegister
  rw [if_neg hd, groupAddDevice_eq]
  split
  · exact Option.bind_none _
  · exact Option.bind_some _ _

theorem cmdGetAllDevs_of_dirty {asker : ℤ} (hasker : asker ∈ g.ids) (hdirty : g.dirty = true) :
    cmdGetAllDevs g asker = refreshDevEntsCache g := by
  unfold cmdGetAllDevs
  rw [if_neg (not_not.mpr hasker), if_pos hdirty]

theorem cmdGetAllDevs_of_clean {asker : ℤ} (h : ¬ (asker ∈ g.ids ∧ g.dirty = true)) :
    cmdGetAllDevs g asker = some g := by
  unfold cmdGetAllDevs
  split
  · rfl
  · next hasker =>
    exact if_neg fun hdirty => h ⟨not_not.mp hasker, hdirty⟩

theorem length_memberList (members : Str) :
    (memberList members).length = members.count ',' + 1 := by
  unfold memberList
  rw [map_atoi_visits]
  exact Members.length_listed members

theorem length_memberList_le (members : Str) :
    (memberList members).length ≤ memberMax ↔ members.count ',' < memberMax := by
  rw [length_memberList, Nat.succ_le_iff]

theorem length_voteMemberList_le (g : Group) (members : Str) :
    (voteMemberList g members).length ≤ memberMax ↔
      if members = "all".toList then g.devs.length ≤ memberMax
      else members.count ',' < memberMax := by
  unfold voteMemberList
  split
  · unfold Group.ids
    rw [List.length_map]
  · exact length_memberList_le members

/-- A registration. -/
theorem written_register_iff (ht : Stands g.devEnts g.devEntsLen t) (d : Device) :
    Written g (.register d) ↔ Fits g (.register d) := by
  by_cases hd : d.id.val ∈ g.ids
  · exact iff_of_true ⟨⟨g, if_pos hd⟩, fun h => absurd hd h⟩ fun h => absurd hd h
  have hstep : step g (.register d) = _ := devRegister_of_notMem hd
  have hadd := groupAddDevice_eq g d
  by_cases htype : d.type.val < 0
  · rw [if_pos htype] at hstep
    refine iff_of_false ?_ fun h => absurd (h hd).1 (not_le.mpr htype)
    rintro ⟨⟨g', hg'⟩, -⟩
    cases hstep.symm.trans hg'
  · rw [if_neg htype] at hadd hstep
    have hiff : Each appendDevEntsCache EntsCounted (enrolled g d) [d] ↔
        ([d] ≠ [] → t.length ≤ lenMax) := each_append_iff [d] ht
    constructor
    · rintro ⟨-, heach⟩ -
      refine ⟨not_lt.mp htype, ?_⟩
      rw [ht.len]
      exact hiff.mp (heach hd _ hadd) (List.cons_ne_nil d [])
    · intro hfits
      have heach := hiff.mpr fun _ => ht.len ▸ (hfits hd).2
      refine ⟨?_, fun _ g' hg' => ?_⟩
      · obtain ⟨g', hg', -⟩ := heach
        exact ⟨g', hstep.trans hg'⟩
      · cases hadd.symm.trans hg'
        exact heach

/-- A refresh. -/
theorem written_getAllDevs_iff (hI : Inv g) (asker : ℤ) :
    Written g (.getAllDevs asker) ↔ Fits g (.getAllDevs asker) := by
  by_cases hclean : asker ∈ g.ids ∧ g.dirty = true
  · obtain ⟨hasker, hdirty⟩ := hclean
    have hdevs := devs_ne_nil hasker
    obtain ⟨b, hclear, hnil⟩ := hI.clear hdevs
    have hiff := each_append_iff (g := { g with devEnts := b, devEntsLen := 0 }) g.devs
      (Stands.of_text (t := []) rfl hnil)
    rw [addEntries_nil] at hiff
    constructor
    · rintro ⟨-, heach⟩ - -
      exact hiff.mp (heach hasker hdirty _ hclear) hdevs
    · intro hfits
      have heach := hiff.mpr fun _ => hfits hasker hdirty
      refine ⟨?_, fun _ _ g' hg' => ?_⟩
      · obtain ⟨g', hg'⟩ := heach.run
        refine ⟨{ g' with dirty := false }, (cmdGetAllDevs_of_dirty hasker hdirty).trans ?_⟩
        unfold refreshDevEntsCache
        rw [hclear, Option.bind_some]
        exact congrArg (Option.map _) hg'
      · cases hclear.symm.trans hg'
        exact heach
  · exact iff_of_true ⟨⟨g, cmdGetAllDevs_of_clean hclean⟩, fun h h' => absurd ⟨h, h'⟩ hclean⟩
      fun h h' => absurd ⟨h, h'⟩ hclean

/-- A set-up, which keeps the names in `put`. -/
theorem written_setup_iff (userName : UserName) (n : Names) (put : Names × ℕ → Group)
    (ids : List ℤ) :
    ((∃ g', (ids.foldlM (addMember userName) (start n)).map put = some g') ∧
      Each (addMember userName) NamesCounted (start n) ids) ↔ ids.length ≤ memberMax := by
  rw [← each_start_iff userName n]
  constructor
  · exact fun h => h.2
  · intro heach
    obtain ⟨r, hr⟩ := heach.run
    exact ⟨⟨put r, congrArg (Option.map put) hr⟩, heach⟩

/-- **The property of a step** is the guard. -/
theorem written_iff_fits (hI : Inv g) (e : Event) : Written g e ↔ Fits g e := by
  cases e with
  | register d =>
    obtain ⟨t, ht⟩ := hI.stands
    exact written_register_iff ht d
  | getAllDevs asker => exact written_getAllDevs_iff hI asker
  | change f dirty => exact iff_of_true ⟨⟨_, rfl⟩, trivial⟩ trivial
  | setupDiscuss userName members =>
    exact (written_setup_iff userName g.discuss _ _).trans (length_memberList_le members.val)
  | setupVote userName members =>
    exact (written_setup_iff userName g.vote _ _).trans (length_voteMemberList_le g members.val)

/-- **A refreshed list** is the rendering of the devices. -/
theorem refreshDevEntsCache_text (hI : Inv g) (hdevs : g.devs ≠ [])
    (h : refreshDevEntsCache g = some g') :
    g'.devs = g.devs ∧ text nul g'.devEnts.mem = some (rendering g.devs) ∧
      g'.devEntsLen = (rendering g.devs).length := by
  obtain ⟨b, hclear, hnil⟩ := hI.clear hdevs
  unfold refreshDevEntsCache at h
  rw [hclear, Option.bind_some] at h
  obtain ⟨g₁, hg₁, rfl⟩ := Option.map_eq_some_iff.mp h
  have htext := foldlM_append_text (g := { g with devEnts := b, devEntsLen := 0 }) (t := [])
    g.devs hnil rfl hg₁
  rwa [addEntries_nil] at htext

/-- **`get_all_devs`** has the list of the model without memory, if the entries are the same. -/
theorem cmdGetAllDevs_text (hI : Inv g) {asker : ℤ} (hasker : asker ∈ g.ids)
    (hdirty : g.dirty = true) {r : Roster.Group}
    (hr : r.devs.map (Roster.entryOf r) = g.devs.map entry) (h : cmdGetAllDevs g asker = some g') :
    text nul g'.devEnts.mem = some (Roster.refreshDevEntsCache r).devEnts := by
  rw [cmdGetAllDevs_of_dirty hasker hdirty] at h
  rw [DevEnts.devEnts_refresh, (refreshDevEntsCache_text hI (devs_ne_nil hasker) h).2.1]
  unfold rendering Roster.rendering
  rw [hr]

/-- **The names of a discussion** are those of the model without memory. -/
theorem groupSetupDiscuss_text {r : Dev.DbDiscuss}
    (h : groupSetupDiscuss userName g r.members = some g') :
    ∃ names, Members.groupSetupDiscuss (nameOf userName) g.discuss.memberids.cells r =
      some (g'.discuss.memberids, names) ∧ text nul g'.discuss.membernames.mem = some names := by
  obtain ⟨⟨n, l⟩, hn, rfl⟩ := Option.map_eq_some_iff.mp h
  have hne : memberList r.members ≠ [] := by
    rw [← List.length_pos_iff, length_memberList]
    exact Nat.succ_pos _
  obtain ⟨⟨a, names⟩, ha, hsame⟩ := setup_same hne hn
  obtain rfl : n.memberids = a := hsame.ids
  exact ⟨names, ha, hsame.text⟩

/-- **The names of a vote** with members. -/
theorem prepareVote_text {dv : Votectrl.DbVote} (hne : voteMemberList g dv.members ≠ [])
    (h : prepareVote userName g dv.members = some g') :
    ∃ names, Members.prepareVote (nameOf userName) g.ids g.vote.memberids.cells dv =
      some (g'.vote.memberids, names) ∧ text nul g'.vote.membernames.mem = some names := by
  obtain ⟨⟨n, l⟩, hn, rfl⟩ := Option.map_eq_some_iff.mp h
  obtain ⟨⟨a, names⟩, ha, hsame⟩ := setup_same hne hn
  obtain rfl : n.memberids = a := hsame.ids
  refine ⟨names, ?_, hsame.text⟩
  unfold Members.prepareVote
  unfold voteMemberList at ha
  split
  · next hall => rwa [if_pos hall] at ha
  · next hall => rwa [if_neg hall] at ha

/-- **A step with a result** keeps the invariant. -/
theorem step_inv (hI : Inv g) {e : Event} (h : step g e = some g') : Inv g' := by
  cases e with
  | register d =>
    replace h : devRegister g d = some g' := h
    by_cases hd : d.id.val ∈ g.ids
    · unfold devRegister at h
      rw [if_pos hd] at h
      cases h
      exact hI
    · rw [devRegister_of_notMem hd] at h
      split at h
      · cases h
      · obtain ⟨t, ht⟩ := hI.stands
        have hl : g.devEntsLen ≤ lenMax := by
          by_contra hlt
          cases (appendDevEntsCache_eq_none (g := enrolled g d) ht (not_le.mp hlt) d).symm.trans h
        obtain ⟨b, htext, happend⟩ := appendDevEntsCache_eq_some (g := enrolled g d) ht hl d
        cases happend.symm.trans h
        have hne : g.devs ++ [d] ≠ [] :=
          List.append_ne_nil_of_right_ne_nil _ (List.cons_ne_nil d [])
        exact ⟨fun hnil => absurd hnil hne, fun _ => ⟨_, htext, rfl⟩⟩
  | getAllDevs asker =>
    replace h : cmdGetAllDevs g asker = some g' := h
    by_cases hclean : asker ∈ g.ids ∧ g.dirty = true
    · rw [cmdGetAllDevs_of_dirty hclean.1 hclean.2] at h
      have hdevs := devs_ne_nil hclean.1
      obtain ⟨hsame, htext, hlen⟩ := refreshDevEntsCache_text hI hdevs h
      exact ⟨fun hnil => absurd (hsame.symm.trans hnil) hdevs, fun _ => ⟨_, htext, hlen⟩⟩
    · rw [cmdGetAllDevs_of_clean hclean] at h
      cases h
      exact hI
  | change f dirty =>
    cases h
    exact ⟨fun hnil => hI.fresh (List.map_eq_nil_iff.mp hnil),
      fun hne => hI.cached fun hnil => hne (List.map_eq_nil_iff.mpr hnil)⟩
  | setupDiscuss userName members =>
    obtain ⟨r, -, rfl⟩ := Option.map_eq_some_iff.mp h
    exact ⟨hI.fresh, hI.cached⟩
  | setupVote userName members =>
    obtain ⟨r, -, rfl⟩ := Option.map_eq_some_iff.mp h
    exact ⟨hI.fresh, hI.cached⟩

/-! ## Runs -/

theorem inv_zeroed : Inv zeroed := ⟨fun _ => rfl, fun h => absurd rfl h⟩

/-- **The growing buffers are not overrun** in a run from the new group, and their counters are
right after every entry, exactly if every step meets the guard. -/
theorem listBuffers_written_iff (es : List Event) :
    Guarded step Written zeroed es ↔ Guarded step Fits zeroed es :=
  guarded_congr (fun _ _ _ hI h => step_inv hI h) (fun _ e hI => written_iff_fits hI e) inv_zeroed

/-- The manager device and a client, whose list is written again. -/
example : (run step zeroed
    [.register ⟨⟨0, by decide⟩, ⟨0, by decide⟩, ⟨[], by decide⟩, false⟩,
      .register ⟨⟨101, by decide⟩, ⟨1, by decide⟩, ⟨['a', 'n', 'n'], by decide⟩, false⟩,
      .change (fun d => { d with active := true }) true, .getAllDevs 101]).map
    (fun s => (text nul s.devEnts.mem, s.devEntsLen, s.devEnts.size)) =
      some (some "0:0::1,101:1:ann:1".toList, 18, 4096) := by
  decide +kernel

/-- A discussion with 1025 members. -/
def manyMembers : Event := .setupDiscuss (fun _ => none) ⟨Members.manyMembers, by decide +kernel⟩

/-- The 1025th id is written behind `memberids`, where `membernames` stands. -/
theorem manyMembers_not_written : ¬ Guarded step Written zeroed [manyMembers] := by
  rintro ⟨hwritten, -⟩
  have hfits : Members.manyMembers.count ',' < memberMax :=
    (written_iff_fits inv_zeroed manyMembers).mp hwritten
  exact absurd hfits (by decide +kernel)

end GSConferencing.Serv.IncBuf
