import GSConferencing.Serv.Md
import GSConferencing.Serv.Strutil
import GSConferencing.Lib.Run

/-!
# The tables in memory and the database

The manager's `add`, `update` and `delete` of `cmd_manage.c`, the macros that `gen-mng.sh`
generates, the statements of `gen-db.sh` and the copy in memory of `md.c`, for any table of
`db.def`.

* `load_print`: a record that is written to the database is loaded back.
* `step_runs`: a step has a result if an `update` names an id that is there, and the texts and the
  statement have room.
* `step_iff`: of the steps whose texts have no quote, those keep the two copies equal that meet
  `Agrees`: an `update` that changes something is accepted, and an `add` to a table with automatic
  ids names the id that the database assigns.
* `mirror_exact`: the runs of such steps.
-/

namespace GSConferencing.Serv.Mirror

open GSConferencing.Lib.Run GSConferencing.Serv.Strutil GSConferencing.Serv.Md

/-! ## Tables -/

/-- The type of a field in `db.def`; `s` comes with the size of the buffer. -/
inductive Kind where
  | i
  | s (size : ℕ)
  deriving DecidableEq

/-- The range of an `int`. -/
abbrev Num := {n : ℤ // intMin ≤ n ∧ n ≤ intMax}

/-- The values of a field. -/
@[reducible] def Kind.Val : Kind → Type
  | .i => Num
  | .s _ => Str

/-- A table of `db.def`: its name, whether the ids are automatic, and the fields after `id`. -/
structure Schema where
  name : String
  auto : Bool
  fields : List (String × Kind)

/-- The tables of `db.def`. -/
def tables : List Schema :=
  [⟨"group", false, [("name", .s 32), ("discuss_mode", .i), ("discuss_maxuser", .i),
      ("discuss_id", .i), ("regist_start", .i), ("regist_mode", .i), ("regist_expect", .i),
      ("regist_arrive", .i), ("vote_id", .i), ("vote_results", .s 256)]⟩,
    ⟨"user", true, [("name", .s 64), ("password", .s 64)]⟩,
    ⟨"device", false, [("type", .i), ("ip", .s 32), ("port", .i), ("tagid", .i), ("user_id", .s 64),
      ("user_card", .i), ("user_name", .s 64), ("user_gender", .i), ("enabled", .i), ("online", .i),
      ("sub1", .i), ("sub2", .i), ("discuss_chair", .i), ("discuss_open", .i),
      ("regist_master", .i), ("regist_reg", .i), ("vote_master", .i), ("vote_choice", .i),
      ("ptc_id", .i), ("ptc_cmd", .s 256)]⟩,
    ⟨"tag", false, [("name", .s 32)]⟩,
    ⟨"auth_card", true, [("card_id", .s 256), ("card_info", .s 256), ("extra", .s 256),
      ("dev_id", .i)]⟩,
    ⟨"regist", false, [("members", .s 8192), ("expect", .i)]⟩,
    ⟨"vote", false, [("name", .s 256), ("type", .i), ("options_count", .i), ("max_select", .i),
      ("options", .s 1024), ("members", .s 8192), ("expect", .i)]⟩,
    ⟨"discuss", false, [("name", .s 64), ("members", .s 8192)]⟩,
    ⟨"video", true, [("name", .s 64), ("path", .s 260)]⟩,
    ⟨"file", true, [("path", .s 260)]⟩]

theorem atoi_range (s : Str) : intMin ≤ atoi s ∧ atoi s ≤ intMax := by
  unfold atoi
  split <;> unfold intMin intMax <;> omega

/-- A field from its text: `atoi` or `strcpy`. -/
def parse : (k : Kind) → Str → k.Val
  | .i, a => ⟨atoi a, atoi_range a⟩
  | .s _, a => a

/-- A field as the statements print it, `%d` or `%s`. -/
def print : (k : Kind) → k.Val → Str
  | .i, n => fmtInt n.val
  | .s _, a => a

theorem parse_print (k : Kind) (v : k.Val) : parse k (print k v) = v := by
  cases k with
  | i => exact Subtype.ext (atoi_fmtInt v.property.1 v.property.2)
  | s size => rfl

variable (t : Schema)

/-- `struct db_<type>`. -/
@[ext] structure Rec where
  id : Num
  vals : (f : Fin t.fields.length) → (t.fields[f].2).Val

/-- A row of the database; no column is `NULL`. -/
structure Row where
  id : Num
  texts : Fin t.fields.length → Str

/-- Whether a text has room in the buffer of its field. -/
def Kind.room : Kind → Str → Bool
  | .i, _ => true
  | .s size, a => a.length < size

/-- A table of the database at the start: the id is the primary key, and `db_get_<type>` has room
for the texts. -/
structure Stored where
  rows : List (Row t)
  nodup : (rows.map Row.id).Nodup
  room : ∀ r ∈ rows, ∀ f : Fin t.fields.length, (t.fields[f].2).room (r.texts f) = true

variable {t}

/-- The id of a record, by which the hash table finds it. -/
def Rec.key (p : Rec t) : ℤ := p.id.val

/-- The body of the loop of `db_get_<type>`. -/
def loadRow (r : Row t) : Rec t := ⟨r.id, fun f => parse _ (r.texts f)⟩

/-- The row of a record that has the id `id` in the database. -/
def rowOf (id : Num) (p : Rec t) : Row t := ⟨id, fun f => print _ (p.vals f)⟩

/-- **What is written is loaded back.** -/
theorem load_print (id : Num) (p : Rec t) : loadRow (rowOf id p) = { p with id := id } := by
  unfold loadRow rowOf
  simp only [parse_print]

/-! ## Statements -/

/-- The text of a value in a statement. -/
def quoted : (k : Kind) → k.Val → Str
  | .i, n => print .i n
  | .s size, a => '\'' :: print (.s size) a ++ "'".toList

/-- The fields of a record as `name=value`. -/
def assignments (p : Rec t) : List Str :=
  (List.finRange t.fields.length).map fun f =>
    t.fields[f].1.toList ++ "=".toList ++ quoted _ (p.vals f)

/-- The statement of `db_update_<type>`. -/
def updateSql (p : Rec t) : Str :=
  "update '".toList ++ t.name.toList ++ "' set ".toList ++
    ",".toList.intercalate (assignments p) ++ " where id=".toList ++ fmtInt p.id.val ++ ";".toList

/-- The statement of `db_add_<type>`; an automatic id is left out. -/
def addSql (p : Rec t) : Str :=
  let names := t.fields.map fun f => f.1.toList
  let values := (List.finRange t.fields.length).map fun f => quoted _ (p.vals f)
  let (names, values) := if t.auto then (names, values)
    else ("id".toList :: names, fmtInt p.id.val :: values)
  "insert into '".toList ++ t.name.toList ++ "' (".toList ++ ",".toList.intercalate names ++
    ") values(".toList ++ ",".toList.intercalate values ++ ");".toList

/-- `char sqlcmd[2048]`. -/
def sqlMax : ℕ := 2048

/-- No text of the record has a quote, which would end the literal it stands in. -/
def Plain (p : Rec t) : Prop := ∀ f, '\'' ∉ print _ (p.vals f)

/-- What the database makes of a statement: whether it succeeds, the id it assigns to a new row of a
table with automatic ids, and the table that a statement leaves in which a quote ended a literal. -/
structure Answer (t : Schema) where
  ok : Bool
  id : Num
  odd : List (Row t)

instance (p : Rec t) : Decidable (Plain p) := inferInstanceAs (Decidable (∀ _, _))

/-- `db_add_<type>`: the rows and whether it succeeded.  The id is the primary key; an automatic one
is a new one. -/
def dbAdd (db : List (Row t)) (p : Rec t) (ans : Answer t) : Option (List (Row t) × Bool) :=
  if sqlMax ≤ (addSql p).length then none
  else if ¬ ans.ok then some (db, false)
  else if ¬ Plain p then some (ans.odd, true)
  else
    let id := if t.auto then ans.id else p.id
    if id ∈ db.map Row.id then if t.auto then none else some (db, false)
    else some (db ++ [rowOf id p], true)

/-- `db_update_<type>`. -/
def dbUpdate (db : List (Row t)) (p : Rec t) (ans : Answer t) : Option (List (Row t)) :=
  if sqlMax ≤ (updateSql p).length then none
  else if ¬ ans.ok then some db
  else if ¬ Plain p then some ans.odd
  else some (db.map fun r => if r.id = p.id then rowOf p.id p else r)

/-! ## The manager's commands -/

/-- A table in memory and in the database. -/
structure State (t : Schema) where
  mem : Table (Rec t)
  db : List (Row t)

/-- The commands with the arguments after the name of the table, and what the database answers;
`junk` is what the structure on the stack holds before it is filled. -/
inductive Event (t : Schema) where
  | add (args : List Str) (junk : Rec t) (ans : Answer t)
  | update (args : List Str) (ans : Answer t)
  | delete (args : List Str) (ok : Bool)

/-- The texts that `read_<type>` copies have room. -/
def Fits (t : Schema) (args : List Str) : Prop :=
  ∀ f : Fin t.fields.length, ((args.tail[f.val]?).all (t.fields[f].2).room) = true

instance (args : List Str) : Decidable (Fits t args) := inferInstanceAs (Decidable (∀ _, _))

/-- `read_<type>`: a missing argument ends the macro, and the fields from there on stay. -/
def readRec (args : List Str) (p : Rec t) : Rec t where
  id := (args.head?.map (parse .i)).getD p.id
  vals f := match args.tail[f.val]? with
    | some a => parse _ a
    | none => p.vals f

/-- `m_add`. -/
def mAdd (s : State t) (args : List Str) (junk : Rec t) (ans : Answer t) : Option (State t) :=
  if ¬ Fits t args then none
  else
    let p := readRec args junk
    (dbAdd s.db p ans).map fun r => ⟨if r.2 then s.mem.add Rec.key p else s.mem, r.1⟩

/-- `m_update`: the record is changed in place before the database is asked.  An id without a record
gives a null pointer. -/
def mUpdate (s : State t) (args : List Str) (ans : Answer t) : Option (State t) :=
  match args with
  | [] => some s
  | a :: _ => (s.mem.find (atoi a)).bind fun n =>
    if ¬ Fits t args then none
    else
      let p := readRec args n.data
      (dbUpdate s.db p ans).map fun db => ⟨s.mem.write n.addr p, db⟩

/-- `m_delete`. -/
def mDelete (s : State t) (args : List Str) (ok : Bool) : State t :=
  match args with
  | [] => s
  | a :: _ =>
    if ¬ ok then s
    else if a = "all".toList then ⟨s.mem.clear, []⟩
    else ⟨s.mem.del (atoi a), s.db.filter fun r => r.id.val ≠ atoi a⟩

def step (s : State t) : Event t → Option (State t)
  | .add args junk ans => mAdd s args junk ans
  | .update args ans => mUpdate s args ans
  | .delete args ok => some (mDelete s args ok)

/-- `md_load_all`. -/
def boot (db : Stored t) : State t := ⟨.load Rec.key (db.rows.map loadRow), db.rows⟩

/-- **The table in memory holds the rows** that would be loaded from the database. -/
def Mirrors (s : State t) : Prop := s.mem.rows.Perm (s.db.map loadRow)

/-! ## The steps that keep the copies equal -/

/-- The database accepts no text with a quote. -/
def PlainStep (s : State t) : Event t → Prop
  | .add args junk ans => ans.ok = true → Plain (readRec args junk)
  | .update args ans => ans.ok = true → ∀ a, args.head? = some a →
      ∀ n, s.mem.find (atoi a) = some n → Plain (readRec args n.data)
  | .delete _ _ => True

/-- An accepted `add` with an automatic id names the id that is assigned, and an `update` is
accepted or names the values that the record has. -/
def Agrees (s : State t) : Event t → Prop
  | .add args junk ans => ans.ok = true → t.auto = true → (readRec args junk).id = ans.id
  | .update args ans => ans.ok = true ∨ ∀ a, args.head? = some a →
      ∀ n, s.mem.find (atoi a) = some n → readRec args n.data = n.data
  | .delete _ _ => True

/-- An `update` finds its record, and the texts and the statement have room. -/
def Runs (s : State t) : Event t → Prop
  | .add args junk _ => Fits t args ∧ (addSql (readRec args junk)).length < sqlMax
  | .update args _ => ∀ a ∈ args.head?, ∃ n ∈ s.mem.find (atoi a),
      Fits t args ∧ (updateSql (readRec args n.data)).length < sqlMax
  | .delete _ _ => True

/-- What the database promises: an automatic id is a new one. -/
def Assigns (s : State t) : Event t → Prop
  | .add _ _ ans => ans.ok = true → t.auto = true → ans.id ∉ s.db.map Row.id
  | _ => True

instance : (k : Kind) → DecidableEq k.Val
  | .i => inferInstanceAs (DecidableEq Num)
  | .s _ => inferInstanceAs (DecidableEq Str)

instance : DecidableEq (Rec t) := fun p q =>
  decidable_of_iff (p.id = q.id ∧ p.vals = q.vals) Rec.ext_iff.symm

instance (s : State t) : ∀ e, Decidable (PlainStep s e)
  | .add args junk ans => inferInstanceAs (Decidable (ans.ok = true → Plain (readRec args junk)))
  | .update args ans => inferInstanceAs (Decidable (ans.ok = true →
      ∀ a ∈ args.head?, ∀ n ∈ s.mem.find (atoi a), Plain (readRec args n.data)))
  | .delete _ _ => .isTrue trivial

instance (s : State t) : ∀ e, Decidable (Agrees s e)
  | .add args junk ans =>
    inferInstanceAs (Decidable (ans.ok = true → t.auto = true → (readRec args junk).id = ans.id))
  | .update args ans => inferInstanceAs (Decidable (ans.ok = true ∨
      ∀ a ∈ args.head?, ∀ n ∈ s.mem.find (atoi a), readRec args n.data = n.data))
  | .delete _ _ => .isTrue trivial

instance (s : State t) : ∀ e, Decidable (Runs s e)
  | .add args junk _ =>
    inferInstanceAs (Decidable (Fits t args ∧ (addSql (readRec args junk)).length < sqlMax))
  | .update args _ => inferInstanceAs (Decidable (∀ a ∈ args.head?, ∃ n ∈ s.mem.find (atoi a),
      Fits t args ∧ (updateSql (readRec args n.data)).length < sqlMax))
  | .delete _ _ => .isTrue trivial

instance (s : State t) : ∀ e, Decidable (Assigns s e)
  | .add _ _ ans => inferInstanceAs (Decidable (ans.ok = true → t.auto = true →
      ans.id ∉ s.db.map Row.id))
  | .update _ _ => .isTrue trivial
  | .delete _ _ => .isTrue trivial

/-- The copies are equal, and ids are distinct. -/
structure Inv (s : State t) : Prop where
  mirrors : Mirrors s
  nodup : (s.db.map Row.id).Nodup
  keyed : s.mem.Keyed Rec.key

namespace Inv

variable {s : State t}

theorem ids (h : Inv s) : (s.mem.rows.map Rec.key).Nodup := by
  have hperm := h.mirrors.map Rec.key
  have hkey : (s.db.map loadRow).map Rec.key = (s.db.map Row.id).map Subtype.val := by
    rw [List.map_map, List.map_map]
    rfl
  rw [hperm.nodup_iff, hkey]
  exact h.nodup.map Subtype.val_injective

end Inv

/-- What `db_add_<type>` does with a record without quotes. -/
theorem dbAdd_cases {db db' : List (Row t)} {p : Rec t} {ans : Answer t} {b : Bool}
    (hp : ans.ok = true → Plain p) (h : dbAdd db p ans = some (db', b)) :
    (b = false ∧ db' = db ∧ (ans.ok = true → t.auto = false)) ∨
      (b = true ∧ ans.ok = true ∧ ∃ id, id = (if t.auto then ans.id else p.id) ∧
        id ∉ db.map Row.id ∧ db' = db ++ [rowOf id p]) := by
  unfold dbAdd at h
  rcases Bool.eq_false_or_eq_true ans.ok with hok | hok
  · rw [if_neg (not_not.mpr hok), if_neg (not_not.mpr (hp hok))] at h
    simp only [] at h
    generalize (if t.auto = true then ans.id else p.id) = id at h ⊢
    split at h
    · cases h
    · split at h
      · split at h
        · cases h
        · next ha =>
          cases h
          exact .inl ⟨rfl, rfl, fun _ => Bool.not_eq_true _ ▸ ha⟩
      · next hnew =>
        cases h
        exact .inr ⟨rfl, hok, id, rfl, hnew, rfl⟩
  · rw [if_pos (show ¬ ans.ok = true by rw [hok]; simp)] at h
    split at h
    · cases h
    · cases h
      exact .inl ⟨rfl, rfl, fun hok' => absurd (hok.symm.trans hok') (by simp)⟩

/-- What `db_update_<type>` does with a record without quotes. -/
theorem dbUpdate_cases {db db' : List (Row t)} {p : Rec t} {ans : Answer t}
    (hp : ans.ok = true → Plain p) (h : dbUpdate db p ans = some db') :
    (ans.ok = false ∧ db' = db) ∨
      (ans.ok = true ∧ db' = db.map fun r => if r.id = p.id then rowOf p.id p else r) := by
  unfold dbUpdate at h
  rcases Bool.eq_false_or_eq_true ans.ok with hok | hok
  · rw [if_neg (not_not.mpr hok), if_neg (not_not.mpr (hp hok))] at h
    split at h
    · cases h
    · cases h
      exact .inr ⟨hok, rfl⟩
  · rw [if_pos (show ¬ ans.ok = true by rw [hok]; simp)] at h
    split at h
    · cases h
    · cases h
      exact .inl ⟨hok, rfl⟩

/-! ## One step -/

section

variable {s s' : State t}

/-- Records that are added on both sides keep the copies equal when they are equal. -/
theorem mirrors_append (h : Mirrors s) (p : Rec t) (r : Row t) :
    (s.mem.rows ++ [p]).Perm ((s.db ++ [r]).map loadRow) ↔ p = loadRow r := by
  rw [List.map_append, List.map_cons, List.map_nil]
  rw [(List.Perm.append_right [p] h).congr_left, List.perm_append_left_iff]
  exact List.singleton_perm_singleton

/-- A record that is changed in memory alone keeps the copies equal when it is the same. -/
theorem mirrors_write (h : Mirrors s) {n : Node (Rec t)} (hn : n ∈ s.mem.nodes) (p : Rec t) :
    (s.mem.write n.addr p).rows.Perm (s.db.map loadRow) ↔ p = n.data := by
  obtain ⟨l₁, l₂, hrows, hwrite⟩ := Table.rows_write hn
  have hold : (l₁ ++ n.data :: l₂).Perm (s.db.map loadRow) := hrows ▸ h
  rw [hwrite p, ← hold.congr_right, List.perm_append_left_iff]
  constructor
  · intro hperm
    have hcons : ([p] ++ l₂).Perm ([n.data] ++ l₂) := hperm
    exact List.singleton_perm_singleton.mp ((List.perm_append_right_iff l₂).mp hcons)
  · rintro rfl
    exact List.Perm.refl _

/-- A record that is changed on both sides. -/
theorem mirrors_map (h : Mirrors s) (p : Rec t) :
    (s.mem.rows.map fun q => if q.key = p.key then p else q).Perm
      ((s.db.map fun r => if r.id = p.id then rowOf p.id p else r).map loadRow) := by
  have hload : (s.db.map fun r => if r.id = p.id then rowOf p.id p else r).map loadRow =
      (s.db.map loadRow).map fun q => if q.key = p.key then p else q := by
    rw [List.map_map, List.map_map]
    refine List.map_congr_left fun r _ => ?_
    have hiff : (loadRow r).key = p.key ↔ r.id = p.id := Subtype.ext_iff.symm
    rw [Function.comp_apply, Function.comp_apply]
    by_cases hr : r.id = p.id
    · rw [if_pos hr, if_pos (hiff.mpr hr), load_print]
    · rw [if_neg hr, if_neg fun hk => hr (hiff.mp hk)]
  rw [hload]
  exact h.map _

theorem add_step (h : Inv s) {args : List Str} {junk : Rec t} {ans : Answer t}
    (hp : PlainStep s (.add args junk ans)) (hs : mAdd s args junk ans = some s') :
    (Mirrors s' ↔ Agrees s (.add args junk ans)) ∧ (s'.db.map Row.id).Nodup ∧
      s'.mem.Keyed Rec.key := by
  unfold mAdd at hs
  split at hs
  · cases hs
  · obtain ⟨⟨db', b⟩, hdb, rfl⟩ := Option.map_eq_some_iff.mp hs
    obtain ⟨rfl, rfl, hauto⟩ | ⟨rfl, hok, id, hid, hnew, rfl⟩ := dbAdd_cases hp hdb
    · refine ⟨iff_of_true h.mirrors fun hok ha => ?_, h.nodup, h.keyed⟩
      exact absurd ((hauto hok).symm.trans ha) (by simp)
    · refine ⟨?_, ?_, h.keyed.add _⟩
      · have hrows := mirrors_append h.mirrors (readRec args junk) (rowOf id (readRec args junk))
        rw [← Table.rows_add Rec.key] at hrows
        refine hrows.trans ?_
        rw [load_print, Rec.ext_iff]
        simp only [and_true, Agrees]
        rw [hid]
        constructor
        · intro heq _ ha
          rw [heq, if_pos ha]
        · intro hag
          split
          · next ha => exact hag hok ha
          · rfl
      · rw [List.map_append, List.nodup_append]
        refine ⟨h.nodup, List.nodup_singleton _, ?_⟩
        rintro a ha b hb rfl
        rw [List.map_cons, List.map_nil, List.mem_singleton] at hb
        exact hnew ((show a = id from hb) ▸ ha)

theorem update_step (h : Inv s) {args : List Str} {ans : Answer t}
    (hp : PlainStep s (.update args ans)) (hs : mUpdate s args ans = some s') :
    (Mirrors s' ↔ Agrees s (.update args ans)) ∧ (s'.db.map Row.id).Nodup ∧
      s'.mem.Keyed Rec.key := by
  unfold mUpdate at hs
  split at hs
  · cases hs
    exact ⟨iff_of_true h.mirrors (.inr fun a ha => absurd ha (by simp)), h.nodup, h.keyed⟩
  · next a args =>
    obtain ⟨n, hfind, hs⟩ := Option.bind_eq_some_iff.mp hs
    obtain ⟨hn, hid⟩ := Table.find_some hfind
    split at hs
    · cases hs
    · obtain ⟨db', hdb, rfl⟩ := Option.map_eq_some_iff.mp hs
      have hkey : (readRec (a :: args) n.data).key = n.id := hid.symm
      have hkeyed : (s.mem.write n.addr (readRec (a :: args) n.data)).Keyed Rec.key := by
        refine h.keyed.write fun n' hn' haddr => ?_
        rw [Table.eq_of_addr_eq hn' hn haddr, hkey]
      obtain ⟨hok, rfl⟩ | ⟨hok, rfl⟩ := dbUpdate_cases (fun hok => hp hok a rfl n hfind) hdb
      · refine ⟨(mirrors_write h.mirrors hn _).trans ?_, h.nodup, hkeyed⟩
        constructor
        · rintro heq
          refine .inr fun b hb n' hn' => ?_
          cases hb
          rw [hfind, Option.some.injEq] at hn'
          exact hn' ▸ heq
        · rintro (hok' | hag)
          · exact absurd (hok.symm.trans hok') (by simp)
          · exact hag a rfl n hfind
      · refine ⟨iff_of_true ?_ (.inl hok), ?_, hkeyed⟩
        · unfold Mirrors
          rw [Table.rows_write_eq h.ids hn, ← h.keyed n hn, ← hkey]
          exact mirrors_map h.mirrors _
        · rw [List.map_map, List.map_congr_left (g := Row.id) fun r _ => ?_]
          · exact h.nodup
          · rw [Function.comp_apply]
            split
            · next hr => exact hr.symm
            · rfl

theorem delete_step (h : Inv s) (args : List Str) (ok : Bool) : Inv (mDelete s args ok) := by
  unfold mDelete
  split
  · exact h
  · next a args =>
    split
    · exact h
    · split
      · exact ⟨List.Perm.refl _, List.nodup_nil, fun n hn => absurd hn List.not_mem_nil⟩
      · refine ⟨?_, h.nodup.sublist (List.filter_sublist.map _), h.keyed.del _⟩
        unfold Mirrors
        rw [Table.rows_del h.keyed h.ids]
        have hload : (s.db.filter fun r => r.id.val ≠ atoi a).map loadRow =
            (s.db.map loadRow).filter fun p => p.key ≠ atoi a := by
          rw [List.filter_map]
          rfl
        rw [hload]
        exact h.mirrors.filter _

theorem dbAdd_isSome {db : List (Row t)} {p : Rec t} {ans : Answer t} (hp : ans.ok = true → Plain p)
    (hnew : ans.ok = true → t.auto = true → ans.id ∉ db.map Row.id) :
    (dbAdd db p ans).isSome ↔ (addSql p).length < sqlMax := by
  unfold dbAdd
  by_cases hlong : sqlMax ≤ (addSql p).length
  · rw [if_pos hlong]
    exact iff_of_false (by simp) (Nat.not_lt.mpr hlong)
  · rw [if_neg hlong]
    refine iff_of_true ?_ (Nat.not_le.mp hlong)
    rcases Bool.eq_false_or_eq_true ans.ok with hok | hok
    · rw [if_neg (not_not.mpr hok), if_neg (not_not.mpr (hp hok))]
      dsimp only
      by_cases hauto : t.auto = true
      · rw [if_pos hauto, if_neg (hnew hok hauto)]
        rfl
      · rw [if_neg hauto, if_neg hauto]
        split <;> rfl
    · rw [if_pos (show ¬ ans.ok = true by rw [hok]; simp)]
      rfl

theorem dbUpdate_isSome {db : List (Row t)} {p : Rec t} {ans : Answer t} :
    (dbUpdate db p ans).isSome ↔ (updateSql p).length < sqlMax := by
  unfold dbUpdate
  by_cases hlong : sqlMax ≤ (updateSql p).length
  · rw [if_pos hlong]
    exact iff_of_false (by simp) (Nat.not_lt.mpr hlong)
  · rw [if_neg hlong]
    refine iff_of_true ?_ (Nat.not_le.mp hlong)
    split
    · rfl
    · split <;> rfl

/-- **When a step has a result.** -/
theorem step_runs {e : Event t} (hp : PlainStep s e) (ha : Assigns s e) :
    (step s e).isSome ↔ Runs s e := by
  cases e with
  | add args junk ans =>
    show (mAdd s args junk ans).isSome ↔ Fits t args ∧ _
    unfold mAdd
    by_cases hfits : Fits t args
    · rw [if_neg (not_not.mpr hfits), Option.isSome_map, dbAdd_isSome hp ha]
      exact (and_iff_right hfits).symm
    · rw [if_pos hfits]
      exact iff_of_false (by simp) fun h => hfits h.1
  | update args ans =>
    cases args with
    | nil => exact iff_of_true rfl fun a h => by cases h
    | cons a args =>
      have hruns : Runs s (.update (a :: args) ans) ↔ ∃ n ∈ s.mem.find (atoi a),
          Fits t (a :: args) ∧ (updateSql (readRec (a :: args) n.data)).length < sqlMax :=
        ⟨fun h => h a rfl, fun h b hb => by cases hb; exact h⟩
      rw [hruns]
      show (mUpdate s (a :: args) ans).isSome ↔ _
      unfold mUpdate
      dsimp only
      cases hfind : s.mem.find (atoi a) with
      | none => exact iff_of_false (by simp) fun ⟨n, hn, _⟩ => by cases hn
      | some n =>
        rw [Option.bind_some]
        by_cases hfits : Fits t (a :: args)
        · rw [if_neg (not_not.mpr hfits), Option.isSome_map, dbUpdate_isSome]
          constructor
          · exact fun hlen => ⟨n, rfl, hfits, hlen⟩
          · rintro ⟨n', hn', -, hlen⟩
            cases hn'
            exact hlen
        · rw [if_pos hfits]
          exact iff_of_false (by simp) fun ⟨_, _, h, _⟩ => hfits h
  | delete args ok => exact iff_of_true rfl trivial

/-- **One step** without quotes keeps the two copies equal if and only if it meets `Agrees`. -/
theorem step_iff (h : Inv s) {e : Event t} (hp : PlainStep s e) (hs : step s e = some s') :
    (Mirrors s' ↔ Agrees s e) ∧ (s'.db.map Row.id).Nodup ∧ s'.mem.Keyed Rec.key := by
  cases e with
  | add args junk ans => exact add_step h hp hs
  | update args ans => exact update_step h hp hs
  | delete args ok =>
    cases hs
    have hdel := delete_step h args ok
    exact ⟨iff_of_true hdel.mirrors trivial, hdel.nodup, hdel.keyed⟩

end

/-! ## Runs -/

theorem boot_inv (db : Stored t) : Inv (boot db) where
  mirrors := by
    unfold Mirrors boot
    rw [Table.rows_load]
  nodup := db.nodup
  keyed := Table.keyed_load _

/-- **The condition:** no accepted text has a quote, the step has a result, and it agrees with what
the database does. -/
def Fine (s : State t) (e : Event t) : Prop :=
  (PlainStep s e ∧ Assigns s e) ∧ Runs s e ∧ Agrees s e

instance (s : State t) (e : Event t) : Decidable (Fine s e) := inferInstanceAs (Decidable (_ ∧ _))

theorem fine_step {s : State t} {e : Event t} (h : Inv s) (hf : Fine s e) :
    ∃ s', step s e = some s' ∧ Inv s' := by
  obtain ⟨⟨hp, ha⟩, hruns, hagrees⟩ := hf
  obtain ⟨s', hs'⟩ := Option.isSome_iff_exists.mp ((step_runs hp ha).mpr hruns)
  obtain ⟨hiff, hnodup, hkeyed⟩ := step_iff h hp hs'
  exact ⟨s', hs', hiff.mpr hagrees, hnodup, hkeyed⟩

/-- **Memory tables and the database,** along every run from any database: while the steps are fine
each of them has a result and the table in memory holds the rows that would be loaded.  After such a
run a further step without quotes has a result that keeps it so if and only if it is fine. -/
theorem mirror_exact (t : Schema) (db : Stored t) {es : List (Event t)}
    (hg : Guarded step Fine (boot db) es) :
    Always step Mirrors (boot db) es ∧
      ∀ s e, run step (boot db) es = some s → PlainStep s e → Assigns s e →
        ((∃ s', step s e = some s' ∧ Mirrors s') ↔ Runs s e ∧ Agrees s e) := by
  constructor
  · exact always_of_guarded (I := Inv) (E := fun _ => True) (fun s h => h.mirrors)
      (fun s e h _ hf => fine_step h hf) (boot_inv db) (fun _ _ => trivial) hg
  · intro s e hrun hp ha
    have hinv : Inv s := of_run (fun s e s' h hf hs' => by
      obtain ⟨s₁, hs₁, h₁⟩ := fine_step h hf
      cases hs'.symm.trans hs₁
      exact h₁) (boot_inv db) hg hrun
    constructor
    · rintro ⟨s', hs', hm⟩
      exact ⟨(step_runs hp ha).mp (Option.isSome_iff_exists.mpr ⟨s', hs'⟩),
        (step_iff hinv hp hs').1.mp hm⟩
    · rintro ⟨hruns, hagrees⟩
      obtain ⟨s', hs'⟩ := Option.isSome_iff_exists.mp ((step_runs hp ha).mpr hruns)
      exact ⟨s', hs', (step_iff hinv hp hs').1.mpr hagrees⟩

/-- The table of the users, whose ids are automatic. -/
def user : Schema := ⟨"user", true, [("name", .s 64), ("password", .s 64)]⟩

/-- A structure that holds empty texts. -/
def blank : Rec user := ⟨⟨0, by decide⟩, fun f => match f with
  | ⟨0, _⟩ => []
  | ⟨1, _⟩ => []⟩

/-- No user is stored yet. -/
def noUsers : Stored user where
  rows := []
  nodup := List.nodup_nil
  room _ hr := absurd hr List.not_mem_nil

/-- A user is added with the id that the database assigns, changed and deleted. -/
def userRun : List (Event user) :=
  [.add ["1".toList, "ann".toList, "pw".toList] blank ⟨true, ⟨1, by decide⟩, []⟩,
    .update ["1".toList, "bob".toList] ⟨true, ⟨0, by decide⟩, []⟩, .delete ["1".toList] true]

theorem mirror_exact_user : Always step Mirrors (boot noUsers) userRun ∧
    ∀ s e, run step (boot noUsers) userRun = some s → PlainStep s e → Assigns s e →
      ((∃ s', step s e = some s' ∧ Mirrors s') ↔ Runs s e ∧ Agrees s e) :=
  mirror_exact user noUsers (by decide +kernel)

/-- A user is added with the id 7; the database assigns 1. -/
def addUser : List (Event user) :=
  [.add ["7".toList, "ann".toList, "pw".toList] blank ⟨true, ⟨1, by decide⟩, []⟩]

/-- The user has another id in memory than in the database. -/
theorem ids_differ : ¬ ∀ t ∈ tables, ∀ (db : Stored t) es, Along step Mirrors (boot db) es := by
  intro h
  have huser : user ∈ tables := List.mem_cons_of_mem _ List.mem_cons_self
  have hrun : (run step (boot noUsers) addUser).map
      (fun s => (s.mem.rows.map Rec.key, (s.db.map loadRow).map Rec.key)) = some ([7], [1]) := by
    decide
  obtain ⟨s, hmirrors, hids⟩ := (h user huser noUsers addUser).observed hrun
  have hperm := hmirrors.map Rec.key
  rw [Prod.mk.injEq] at hids
  rw [hids.1, hids.2] at hperm
  exact absurd hperm (by decide)

end GSConferencing.Serv.Mirror
