import GSConferencing.Serv.InterpRuns
import GSConferencing.Serv.OpenRuns
import GSConferencing.Client.MixOrder

/-!
# Channels on the wire

`tag_cast_pack` of `cast.c` writes the id of the tag into one byte of the packet, which `audio_recved`
of `client.c` compares with the tags the client subscribes to.

* `mem_tagCastPack`: every copy that is sent carries this byte.
* `isolated_iff`: the packets of a tag are kept apart from those of another one exactly when its id
  fits into the byte.
* `isolated_along`: the tags the server has after any commands are kept apart exactly when their ids
  do.
-/

namespace GSConferencing.Serv.Channels

open GSConferencing.Lib.Run GSConferencing.Include.Pack
open GSConferencing.Serv.Strutil GSConferencing.Serv.CmdHandler GSConferencing.Serv.Dev
open GSConferencing.Serv.Server GSConferencing.Serv.SubView GSConferencing.Serv.Subscribe
open GSConferencing.Serv.InterpView
open GSConferencing.Client.MixOrder (Player)

/-! ## Casting -/

/-- `opt_broadcast` and `opt_tcp_audio`. -/
structure CastOpts where
  broadcast : Bool
  tcpAudio : Bool

/-- Where a copy of a packet goes. -/
inductive Dest where
  /-- `broadcast`, for a tag. -/
  | broadcast (t : ℤ)
  /-- `dev_send_audio`. -/
  | audioSock (d : ℤ)
  /-- `sendto_dev_udp`. -/
  | addr (d : ℤ)
  deriving DecidableEq

/-- The packet with its new number `seq + 1` and the id of the tag. -/
def castData (t : ℤ) (seq : BitVec 32) (p : PackData) : PackData :=
  { p with seq := htonl (seq + 1), tag := BitVec.ofInt 8 t }

/-- The copy for a subscriber; the manager device gets none. -/
def castTo (o : CastOpts) (connected : ℤ → Bool) (s : Server) (d : ℤ) : Option Dest :=
  if d = 0 then none
  else if o.tcpAudio then if connected d then some (.audioSock d) else none
  else if (s.dev d).active then some (.addr d) else none

/-- `tag_cast_pack`; `connected` tells who has an `audio_sock`. -/
def tagCastPack (o : CastOpts) (connected : ℤ → Bool) (s : Server) (t : ℤ) (seq : BitVec 32)
    (p : PackData) : List (Dest × PackData) :=
  let p := castData t seq p
  if o.broadcast then [(.broadcast t, p)]
  else ((s.tag t).subscribeHead.filterMap (castTo o connected s)).map fun d => (d, p)

/-- Every copy is the same packet. -/
theorem mem_tagCastPack {o : CastOpts} {connected : ℤ → Bool} {s : Server} {t : ℤ}
    {seq : BitVec 32} {p : PackData} {x : Dest × PackData}
    (hx : x ∈ tagCastPack o connected s t seq p) : x.2 = castData t seq p := by
  unfold tagCastPack at hx
  simp only [] at hx
  split at hx
  · rw [List.mem_singleton.mp hx]
  · obtain ⟨d, -, rfl⟩ := List.mem_map.mp hx
    rfl

/-! ## Receiving -/

/-- The client subscribes to the tag and to no other, and replicates none. -/
def Only (c : Player) (t : ℤ) : Prop :=
  (c.subscription = (t, 0) ∨ c.subscription = (0, t)) ∧ c.replicate = (0, 0)

/-- The client subscribes to the tag, and replicates none. -/
def Tuned (c : Player) (t : ℤ) : Prop :=
  (c.subscription.1 = t ∨ c.subscription.2 = t) ∧ c.replicate = (0, 0)

/-- The packets of the tag `t₁`, as a client sees them, are not accepted by the clients of `t₂`, and
pass the tag check of its own. -/
def Isolated (t₁ t₂ : ℤ) : Prop :=
  ∀ (seq : BitVec 32) (p : PackData) (c : Player),
    (Only c t₂ → ¬ c.Wanted (castData t₁ seq p).hton) ∧
      (Tuned c t₁ → c.Interested (castData t₁ seq p).hton.tag)

theorem castTag (t : ℤ) (seq : BitVec 32) (p : PackData) :
    ((castData t seq p).hton.tag.toNat : ℤ) = t % 256 := by
  show ((BitVec.ofInt 8 t).toNat : ℤ) = t % 256
  rw [BitVec.toNat_ofInt, Int.toNat_of_nonneg (Int.emod_nonneg t (by decide))]
  rfl

theorem interested_iff {c : Player} (hc : c.replicate = (0, 0)) (b : Byte) :
    c.Interested b ↔ (b.toNat : ℤ) = c.subscription.1 ∨ (b.toNat : ℤ) = c.subscription.2 := by
  unfold Player.Interested Player.tags
  rw [hc, if_neg (by decide)]

/-- A packet without data. -/
def empty : PackData := ⟨0, 0, 0, 0, 0, []⟩

/-- A client of the tag `t` with nothing received so far. -/
def listener (z : Client.Mix.Slot) (t : ℤ) : Player :=
  { Client.MixOrder.init z with subscription := (t, 0) }

/-- **Isolation** of two tags, as a condition on the first one. -/
theorem isolated_iff {t₁ t₂ : ℤ} (h₁ : 0 < t₁) (h₂ : 0 < t₂) (hne : t₁ ≠ t₂) :
    Isolated t₁ t₂ ↔ t₁ < 256 := by
  constructor
  · intro h
    by_contra hbig
    have hlt := Int.emod_lt_of_pos t₁ (show (0 : ℤ) < 256 by decide)
    by_cases h0 : t₁ % 256 = 0
    · -- the byte is 0, which is what a free place of `subscription` holds
      refine (h 0 empty (listener ⟨0, empty⟩ t₂)).1 ⟨.inl rfl, rfl⟩ ⟨fun hz => h₂.ne' hz.1, ?_, ?_⟩
      · rw [interested_iff rfl, castTag]
        exact .inr h0
      · show headlen + (htons 0).toNat ≤ headlen + 0
        decide
    · have hin := (h 0 empty (listener ⟨0, empty⟩ t₁)).2 ⟨.inl rfl, rfl⟩
      rw [interested_iff rfl, castTag] at hin
      rcases hin with he | he
      · replace he : t₁ % 256 = t₁ := he
        omega
      · exact h0 he
  · intro hsmall seq p c
    have hmod : t₁ % 256 = t₁ := Int.emod_eq_of_lt h₁.le hsmall
    refine ⟨fun hc hw => ?_, fun hc => ?_⟩
    · obtain ⟨-, hin, -⟩ := hw
      rw [interested_iff hc.2, castTag, hmod] at hin
      rcases hc.1 with hs | hs <;> rw [hs] at hin <;> simp only at hin <;> omega
    · rw [interested_iff hc.2, castTag, hmod]
      rcases hc.1 with hs | hs
      · exact .inl hs.symm
      · exact .inr hs.symm

/-! ## The tags of a server -/

/-- The commands that make tags. -/
inductive Event where
  | sub (cmd : Cmd)
  | switchTag (cmd : Cmd)

variable (notice : Server → ℤ → ℤ → Bool → Str)

def step (s : Server) : Event → Option Server
  | .sub cmd => (cmdSub notice s cmd).map fun r => r.2.2
  | .switchTag cmd => (cmdSwitchTag s cmd).map fun r => r.2.2

/-- **The property:** any two different tags are isolated. -/
def TagsIsolated (s : Server) : Prop :=
  ∀ t₁ ∈ s.tags, ∀ t₂ ∈ s.tags, 0 < t₁ → 0 < t₂ → t₁ ≠ t₂ → Isolated t₁ t₂

/-- Where there is the tag 1, every other one must fit into the byte. -/
theorem tagsIsolated_iff {s : Server} (h1 : 1 ∈ s.tags) :
    TagsIsolated s ↔ ∀ t ∈ s.tags, t < 256 := by
  constructor
  · intro h t ht
    by_contra hbig
    exact hbig ((isolated_iff (by omega) one_pos (by omega)).mp
      (h t ht 1 h1 (by omega) one_pos (by omega)))
  · intro h t₁ ht₁ t₂ _ hp₁ hp₂ hne
    exact (isolated_iff hp₁ hp₂ hne).mpr (h t₁ ht₁)

section Steps
variable {notice}

theorem tags_applyMode {v v' : View} {t d : ℤ} (h : applyMode v t d = some v') :
    v'.tags = v.tags := by
  unfold applyMode at h
  split at h
  · cases h; rfl
  split at h
  · cases h; rfl
  split at h
  · obtain ⟨r, -, rfl⟩ := Option.map_eq_some_iff.mp h
    rfl
  · cases h; rfl

/-- A subscription leaves no tag out. -/
theorem tags_change (v : View) (d n : ℤ) (b : Bool) {x : ℤ} (hx : x ∈ v.tags) :
    x ∈ (endSub (change v d n) d b).tags := by
  have hend : ∀ w : View, (endSub w d b).tags = w.tags := by
    intro w
    unfold endSub
    split <;> rfl
  rw [hend]
  unfold change
  split
  · rw [unsubscribe_eq]
    exact request_tags_subset v _ hx
  · rw [subscribe_eq]
    exact request_tags_subset v _ hx

theorem tags_switch {v v' : View} {d tid : ℤ} (h : enter (move (quit v d) d tid) d tid = some v')
    {x : ℤ} (hx : x ∈ v.tags) : x ∈ v'.tags := by
  have hmove : x ∈ (move (quit v d) d tid).tags :=
    request_tags_subset _ tid ((InterpRuns.quit_fields v d).2.1 ▸ hx)
  unfold enter at h
  split at h
  · rwa [tags_applyMode h]
  · cases h
    exact hmove

/-- **A step** makes tags and takes none away. -/
theorem step_tags {s s' : Server} {e : Event} (h : step notice s e = some s') {x : ℤ}
    (hx : x ∈ s.tags) : x ∈ s'.tags := by
  cases e with
  | sub cmd =>
    obtain ⟨r, hr, rfl⟩ := Option.map_eq_some_iff.mp h
    rcases cmdSub_cases notice s cmd with
      ⟨-, code, c, hc⟩ | ⟨-, -, hc⟩ | ⟨n, c, s', -, -, -, -, hc, hv⟩
    · rw [hc] at hr
      cases hr
      exact hx
    · rw [hc] at hr
      cases hr
    · rw [hc] at hr
      cases hr
      show x ∈ (view s').tags
      rw [hv]
      exact tags_change _ _ _ _ hx
  | switchTag cmd =>
    obtain ⟨r, hr, rfl⟩ := Option.map_eq_some_iff.mp h
    rcases cmdSwitchTag_cases hr with ⟨he, -⟩ | ⟨tid, -, hv⟩
    · rw [he]
      exact hx
    · exact tags_switch hv hx

end Steps

/-! ## Runs -/

/-- **Channels are isolated** in the states of every run from the recovered server exactly when the
ids of the tags fit into a byte; and so is every pair of them, when the id of the first does. -/
theorem isolated_along {db : Db} {s : Server} (hs : recoverServer db = some s) (es : List Event) :
    Along (step notice) (fun s => (TagsIsolated s ↔ ∀ t ∈ s.tags, t < 256) ∧
      ∀ t₁ ∈ s.tags, ∀ t₂ ∈ s.tags, 0 < t₁ → 0 < t₂ → t₁ ≠ t₂ → (Isolated t₁ t₂ ↔ t₁ < 256))
      s es := by
  have hP : ∀ s : Server, 1 ∈ s.tags → (TagsIsolated s ↔ ∀ t ∈ s.tags, t < 256) ∧
      ∀ t₁ ∈ s.tags, ∀ t₂ ∈ s.tags, 0 < t₁ → 0 < t₂ → t₁ ≠ t₂ → (Isolated t₁ t₂ ↔ t₁ < 256) :=
    fun s h1 => ⟨tagsIsolated_iff h1, fun _ _ _ _ hp₁ hp₂ hne => isolated_iff hp₁ hp₂ hne⟩
  have hone : 1 ∈ s.tags := (InterpRuns.recoverServer_calm hs).1.one
  exact along_of_guarded (I := fun s : Server => 1 ∈ s.tags) (G := fun _ _ => True)
    (E := fun _ => True) hP (fun _ _ _ h1 _ _ hs => step_tags hs h1) hone (fun _ _ => trivial)
    (guarded_true s es)

theorem recovers_clients : (recoverServer OpenRuns.twoClients).isSome = true := by decide

def booted : Server := (recoverServer OpenRuns.twoClients).get recovers_clients

theorem recover_clients : recoverServer OpenRuns.twoClients = some booted :=
  (Option.some_get _).symm

/-- The client 101 listens to the tag 257. -/
def overflow : List Event := [.sub (OpenRuns.command 101 ["257"])]

theorem isolated_along_overflow :
    Along (step fun _ _ _ _ => []) (fun s => (TagsIsolated s ↔ ∀ t ∈ s.tags, t < 256) ∧
      ∀ t₁ ∈ s.tags, ∀ t₂ ∈ s.tags, 0 < t₁ → 0 < t₂ → t₁ ≠ t₂ → (Isolated t₁ t₂ ↔ t₁ < 256))
      booted overflow :=
  isolated_along _ recover_clients overflow

/-- **A collision:** the packets of the tag 257 are those of the tag 1. -/
theorem tags_overflow : (run (step fun _ _ _ _ => []) booted overflow).map Server.tags =
    some [1, 257] := by
  decide +kernel

theorem not_forall_isolated : ¬ ∀ notice db s es, recoverServer db = some s →
    Along (step notice) TagsIsolated s es := by
  intro h
  have halong := h (fun _ _ _ _ => []) _ booted overflow recover_clients
  obtain ⟨s, hiso, htags⟩ := halong.observed tags_overflow
  have hsmall := (tagsIsolated_iff (by rw [htags]; decide)).mp hiso 257 (by rw [htags]; decide)
  omega

end GSConferencing.Serv.Channels
