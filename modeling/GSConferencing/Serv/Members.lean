import GSConferencing.Cmd.IdList
import GSConferencing.Lib.Fill
import GSConferencing.Serv.Discuss
import GSConferencing.Serv.Regist
import GSConferencing.Serv.Votectrl

/-!
# The members of a registration, a discussion and a vote

The loops of `regist_setup`, `group_setup_discuss` and `prepare_vote` that fill a `memberids[1024]`
of `struct group` cell by cell.  The ids come from a text of up to 8191 characters, or from the list
of devices.

* `stored_iff`: the ids are stored one by one, if there are not too many.
* `length_listed`: a text lists one id more than it has commas.
* `memberArrays_iff`: what the three loops need.
* `registSetup_eq`, `groupSetupDiscuss_eq`, `prepareVote_eq`: the set-up of the group stores the
  same ids.
-/

namespace GSConferencing.Serv.Members

open GSConferencing.Lib.Fill GSConferencing.Lib.Fill.Filled GSConferencing.Cmd.IdList
open GSConferencing.Serv.Strutil
open GSConferencing.Serv.Dev (DbDiscuss)
open GSConferencing.Serv.Regist (DbRegist)
open GSConferencing.Serv.Votectrl (DbVote memberMax)

/-! ## The loops -/

/-- `int memberids[1024]` with `nmembers`. -/
abbrev MemberIds := Filled ℤ memberMax

/-- The loop of `regist_setup`; `cells` is what the array holds before. -/
def registSetup (cells : Fin memberMax → ℤ) (dr : DbRegist) : Option MemberIds :=
  ((visits dr.members).map atoi).foldlM push (empty cells)

/-- `add_vote_member`, and the same lines of `group_setup_discuss`: one id more and its name, which
`md_find_device` knows. -/
def addMember (userName : ℤ → Option Str) (b : MemberIds × Str) (mid : ℤ) :
    Option (MemberIds × Str) :=
  (b.1.push mid).map fun a => (a, listAdd b.2 ((userName mid).getD ['?']))

/-- The loop of `group_setup_discuss`: the ids and `membernames`. -/
def groupSetupDiscuss (userName : ℤ → Option Str) (cells : Fin memberMax → ℤ) (s : DbDiscuss) :
    Option (MemberIds × Str) :=
  ((visits s.members).map atoi).foldlM (addMember userName) (empty cells, [])

/-- The loops of `prepare_vote`; `devs` is the list of the group. -/
def prepareVote (userName : ℤ → Option Str) (devs : List ℤ) (cells : Fin memberMax → ℤ)
    (dv : DbVote) : Option (MemberIds × Str) :=
  if dv.members = "all".toList then devs.foldlM (addMember userName) (empty cells, [])
  else ((visits dv.members).map atoi).foldlM (addMember userName) (empty cells, [])

/-! ## What they are to store -/

/-- The ids between the commas of a text. -/
def listed (members : Str) : List ℤ := (members.splitOn ',').map atoi

/-- The members of a vote. -/
def voteMembers (devs : List ℤ) (dv : DbVote) : List ℤ :=
  if dv.members = "all".toList then devs else listed dv.members

/-- **The property:** the ids are stored once each and in order, and no other cell is written. -/
def Stored (r : Option MemberIds) (ids : List ℤ) : Prop := ∃ a, r = some a ∧ a.contents = ids

/-! ## What they store -/

variable {userName : ℤ → Option Str} {devs : List ℤ} {cells : Fin memberMax → ℤ}

/-- The names that the loops collect. -/
def addNames (userName : ℤ → Option Str) (ids : List ℤ) (names : Str) : Str :=
  ids.foldl (fun l mid => listAdd l ((userName mid).getD ['?'])) names

/-- The names do not matter for the ids. -/
theorem foldlM_addMember (ids : List ℤ) (a : MemberIds) (names : Str) :
    ids.foldlM (addMember userName) (a, names) =
      (ids.foldlM push a).map fun a' => (a', addNames userName ids names) := by
  induction ids generalizing a names with
  | nil => rfl
  | cons mid ids ih =>
    rw [List.foldlM_cons, List.foldlM_cons]
    unfold addMember
    cases a.push mid with
    | none => rfl
    | some a' => exact ih a' _

theorem map_fst_addMember (ids : List ℤ) (a : MemberIds) (names : Str) :
    (ids.foldlM (addMember userName) (a, names)).map Prod.fst = ids.foldlM push a := by
  rw [foldlM_addMember, Option.map_map]
  exact congrFun Option.map_id _

/-- The ids that stand in the array afterwards. -/
theorem map_contents_push (cells : Fin memberMax → ℤ) (ids : List ℤ) :
    (ids.foldlM push (empty cells)).map contents =
      if memberMax < ids.length then none else some ids := by
  obtain ⟨hlong, hfits⟩ := foldlM_push ids (empty cells) (Nat.zero_le memberMax)
  rw [show (empty cells).used = 0 from rfl, Nat.zero_add] at hlong hfits
  split
  · next h => rw [hlong h, Option.map_none]
  · next h =>
    obtain ⟨a, ha, hcont⟩ := hfits (not_lt.mp h)
    rw [ha, Option.map_some, hcont]
    rfl

/-- **Ids that are stored** one by one. -/
theorem stored_iff (ids : List ℤ) :
    Stored (ids.foldlM push (empty cells)) ids ↔ ids.length ≤ memberMax := by
  refine Option.map_eq_some_iff.symm.trans ?_
  rw [map_contents_push]
  split
  · next h => exact iff_of_false (fun h' => Option.some_ne_none _ h'.symm) (not_le.mpr h)
  · next h => exact iff_of_true rfl (not_lt.mp h)

theorem length_listed (members : Str) : (listed members).length = members.count ',' + 1 := by
  unfold listed
  rw [List.length_map]
  induction members with
  | nil => rfl
  | cons c s ih =>
    rw [List.splitOn_cons_eq_if_modifyHead, List.count_cons]
    split
    · rw [List.length_cons, ih]
    · rw [List.length_modifyHead, ih]

/-- **The member arrays are not overrun** exactly if a text has fewer than 1024 commas, and a vote
of all no more than 1024 devices. -/
theorem memberArrays_iff (userName : ℤ → Option Str) (devs : List ℤ) (cells : Fin memberMax → ℤ) :
    (∀ dr, Stored (registSetup cells dr) (listed dr.members) ↔
      dr.members.count ',' < memberMax) ∧
    (∀ s, Stored ((groupSetupDiscuss userName cells s).map Prod.fst) (listed s.members) ↔
      s.members.count ',' < memberMax) ∧
    ∀ dv, Stored ((prepareVote userName devs cells dv).map Prod.fst) (voteMembers devs dv) ↔
      if dv.members = "all".toList then devs.length ≤ memberMax
      else dv.members.count ',' < memberMax := by
  have hlisted : ∀ members : Str, Stored (((visits members).map atoi).foldlM push (empty cells))
      (listed members) ↔ members.count ',' < memberMax := by
    intro members
    rw [map_atoi_visits]
    exact (stored_iff (listed members)).trans (by rw [length_listed, Nat.succ_le_iff])
  refine ⟨fun dr => hlisted dr.members, fun s => ?_, fun dv => ?_⟩
  · unfold groupSetupDiscuss
    rw [map_fst_addMember]
    exact hlisted s.members
  · unfold prepareVote voteMembers
    split
    · rw [map_fst_addMember]
      exact stored_iff devs
    · rw [map_fst_addMember]
      exact hlisted dv.members

/-- A text of 2049 characters that lists 1025 ids. -/
def manyMembers : Str := (List.replicate 1024 "1,".toList).flatten ++ ['1']

/-- A record that the schema admits overruns the array. -/
theorem manyMembers_overrun : ¬ ∀ (cells : Fin memberMax → ℤ) (dr : DbRegist),
    dr.members.length ≤ 8191 → Stored (registSetup cells dr) (listed dr.members) := by
  intro h
  have hshort : manyMembers.length ≤ 8191 := by decide +kernel
  have hstored := h (fun _ => 0) ⟨manyMembers, 0⟩ hshort
  unfold registSetup at hstored
  rw [map_atoi_visits, show (forEachId manyMembers).map atoi = listed manyMembers from rfl,
    stored_iff, length_listed] at hstored
  exact absurd hstored (by decide +kernel)

/-! ## The set-up of the group -/

/-- The set-up as a function of the ids. -/
theorem map_push {β : Type*} (cells : Fin memberMax → ℤ) (ids : List ℤ) (f : List ℤ → β) :
    (ids.foldlM push (empty cells)).map (fun a => f a.contents) =
      if memberMax < ids.length then none else some (f ids) := by
  have h := congrArg (Option.map f) (map_contents_push cells ids)
  rw [Option.map_map] at h
  refine h.trans ?_
  split <;> rfl

theorem registSetup_eq (cells : Fin memberMax → ℤ) (s : Regist.State) (dr : DbRegist) :
    Regist.registSetup s dr = (registSetup cells dr).map fun a =>
      s.setGrp fun g => { g with memberids := a.contents } := by
  unfold registSetup
  rw [map_atoi_visits, map_push cells _ fun ids => s.setGrp fun g => { g with memberids := ids }]
  rfl

/-- What `md_find_device` knows of a name. -/
def discussName (s : Dev.Server) (mid : ℤ) : Option Str :=
  (s.mdFindDevice mid).map Dev.DbDevice.userName

theorem groupSetupDiscuss_eq (cells : Fin memberMax → ℤ) (s : Dev.Server) (r : DbDiscuss) :
    Discuss.groupSetupDiscuss s r = (groupSetupDiscuss (discussName s) cells r).map fun b =>
      s.setGrp fun g =>
        { g with memberids := b.1.contents, membernames := b.2, current := some r } := by
  unfold groupSetupDiscuss
  rw [foldlM_addMember, Option.map_map, map_atoi_visits]
  refine Eq.trans ?_ (map_push cells _ fun ids => s.setGrp fun g => { g with
    memberids := ids
    membernames := addNames (discussName s) ((forEachId r.members).map atoi) []
    current := some r }).symm
  rfl

/-- What `md_find_device` knows of a name. -/
def voteName (s : Votectrl.State) (mid : ℤ) : Option Str :=
  (s.mdFindDevice mid).map Votectrl.DbDevice.userName

theorem prepareVote_eq (cells : Fin memberMax → ℤ) (s : Votectrl.State) (dv : DbVote) :
    Votectrl.prepareVote s dv = (prepareVote (voteName s) s.devs cells dv).map fun b =>
      s.setGrp fun g =>
        { g with memberids := b.1.contents, membernames := b.2, nvoted := 0 } := by
  have hloop : ∀ ids : List ℤ, Votectrl.memberList s dv = ids → Votectrl.prepareVote s dv =
      (ids.foldlM (addMember (voteName s)) (empty cells, [])).map fun b => s.setGrp fun g =>
        { g with memberids := b.1.contents, membernames := b.2, nvoted := 0 } := by
    rintro ids rfl
    rw [foldlM_addMember, Option.map_map]
    refine Eq.trans ?_ (map_push cells _ fun ids => s.setGrp fun g => { g with
      memberids := ids
      membernames := addNames (voteName s) (Votectrl.memberList s dv) []
      nvoted := 0 }).symm
    rfl
  unfold prepareVote
  split
  · next hall => exact hloop _ (if_pos hall)
  · next hall =>
    rw [map_atoi_visits]
    exact hloop _ (if_neg hall)

end GSConferencing.Serv.Members
