/-
  Which blocks the allocator hands out after a mount.

  The checker compares the start of the bitmap with the number of inodes in the super block.
  The mount clamps that number to 65535 before it computes the hint, so the hint of a file
  system with more inodes lies below the data area, and the first search looks at the blocks
  between. `Guarded` says that every bit there is set. It keeps the search of a run out of the
  metadata, and without it the first call hands a metadata block out.
-/
import Xv6fs.Fs.Core
import Xv6fs.Fs.Fill
import Xv6fs.Balloc.Termination

namespace Xv6fs

section

variable {φ : Event → Prop} {w w' : World}

/-! ## What a mount sets up -/

theorem xv6CheckSb_ok {sb : Superblock} (h : (xv6CheckSb sb).1 = true) :
    sb.inodestart = 1 + sb.nlog ∧
      sb.bmapstart = 1 + sb.nlog + INODE_BLOCKS sb.ninodes ∧
      sb.bmapstart + BITMAP_BLOCKS sb.size + sb.nblocks ≤ sb.size := by
  simp only [xv6CheckSb, decide_eq_true_eq] at h
  omega

theorem dirCheck_readOnly : ReadOnly dirCheck := by
  intro k de s act de' s' h
  cases h
  exact ⟨rfl, rfl⟩

/-- The checker changes nothing, and passes only a super block that is in order. -/
theorem xv6Docheck_spec {e : Int} (h : Runs φ (xv6Docheck modcheck) w e w') :
    (∃ l, w' = { w with log := l }) ∧ (e = 0 → (xv6CheckSb (w.disk 0).superblock).1 = true) := by
  have hbad : ∀ {n : Int} {P : Prop}, n ≠ 0 → n = 0 → P := fun h1 h2 => absurd h2 h1
  simp only [xv6Docheck, modcheck] at h
  obtain ⟨ok, w₁, hread, h⟩ := h.bind
  obtain ⟨-, l, rfl⟩ := sbBread_spec hread
  rcases h.ite with ⟨-, h⟩ | ⟨-, h⟩
  · obtain ⟨rfl, rfl⟩ := h.pure
    exact ⟨⟨_, rfl⟩, hbad (by decide)⟩
  simp only [runs_bind_bdata] at h
  rcases h.ite with ⟨-, h⟩ | ⟨-, h⟩
  · obtain ⟨rfl, rfl⟩ := h.pure
    exact ⟨⟨_, rfl⟩, hbad (by decide)⟩
  rcases h.ite with ⟨-, h⟩ | ⟨hok, h⟩
  · obtain ⟨rfl, rfl⟩ := h.pure
    exact ⟨⟨_, rfl⟩, hbad (by decide)⟩
  refine ⟨?_, fun _ => by simpa using hok⟩
  simp only [xv6Docheck.root] at h
  obtain ⟨ok, w₁, hread, h⟩ := h.bind
  obtain ⟨-, l, rfl⟩ := sbBread_spec hread
  rcases h.ite with ⟨-, h⟩ | ⟨-, h⟩
  · obtain ⟨rfl, rfl⟩ := h.pure
    exact ⟨_, rfl⟩
  simp only [runs_bind_bdata] at h
  rcases h.ite with ⟨-, h⟩ | ⟨-, h⟩
  · obtain ⟨rfl, rfl⟩ := h.pure
    exact ⟨_, rfl⟩
  rcases h.ite with ⟨-, h⟩ | ⟨-, h⟩
  · exact h.halt.elim
  simp only [xv6Docheck.entries] at h
  obtain ⟨r, w₁, hiter, h⟩ := h.bind
  obtain ⟨l, rfl⟩ := iterate_readOnly dirCheck_readOnly hiter
  obtain ⟨rfl, rfl⟩ := h.pure
  exact ⟨_, rfl⟩

theorem fillSuper_root_spec {e : Int} {r : Option Ptr}
    (h : Runs φ xv6FillSuper.root w (e, r) w') :
    SameDisk w w' ∧ (r.isSome = true → (xv6CheckSb (w.disk 0).superblock).1 = true) := by
  simp only [xv6FillSuper.root] at h
  obtain ⟨ec, w₁, hcheck, h⟩ := h.bind
  obtain ⟨⟨l, rfl⟩, hok⟩ := xv6Docheck_spec hcheck
  have hs₁ : SameDisk w { w with log := l } := ⟨rfl, rfl, rfl⟩
  rcases h.ite with ⟨-, h⟩ | ⟨h0, h⟩
  · obtain ⟨hr, rfl⟩ := h.pure
    cases hr
    exact ⟨hs₁, by simp⟩
  refine ⟨?_, fun _ => hok (not_not.mp h0)⟩
  obtain ⟨⟨p, found⟩, w₂, hfind, h⟩ := h.bind
  have hs₂ := hs₁.trans (xv6FindInode_sameDisk (by decide) hfind)
  have hput : ∀ {p : Ptr} {w₃ w₄ : World} {u : Unit}, SameDisk w w₃ →
      Runs φ (iput p) w₃ u w₄ → SameDisk w w₄ := fun hs hput => hs.trans (iput_sameDisk hput)
  cases p with
  | none =>
    obtain ⟨-, rfl⟩ := h.pure
    exact hs₂
  | some p =>
    simp only [runs_bind_getEnv] at h
    obtain ⟨ok, w₃, hread, h⟩ := h.bind
    obtain ⟨-, l, rfl⟩ := sbBread_spec hread
    have hs₃ : SameDisk w { w₂ with log := l } := hs₂.trans ⟨rfl, rfl, rfl⟩
    rcases h.ite with ⟨-, h⟩ | ⟨-, h⟩
    · obtain ⟨u, w₄, hp, h⟩ := h.bind
      obtain ⟨-, rfl⟩ := h.pure
      exact hput hs₃ hp
    simp only [runs_bind_bdata] at h
    obtain ⟨ei, w₄, hinit, h⟩ := h.bind
    have hs₄ := hs₃.trans (xv6InitInode_sameDisk hinit)
    rcases h.ite with ⟨-, h⟩ | ⟨-, h⟩
    · obtain ⟨u, w₅, hp, h⟩ := h.bind
      obtain ⟨-, rfl⟩ := h.pure
      exact hput hs₄ hp
    rcases h.ite with ⟨-, h⟩ | ⟨-, h⟩
    · obtain ⟨u, w₅, hp, h⟩ := h.bind
      obtain ⟨-, rfl⟩ := h.pure
      exact hput hs₄ hp
    obtain ⟨ok₂, w₅, hmem, h⟩ := h.bind
    obtain ⟨-, l₂, rfl⟩ := kmalloc_spec hmem
    have hs₅ : SameDisk w { w₄ with log := l₂ } := hs₄.trans ⟨rfl, rfl, rfl⟩
    rcases h.ite with ⟨-, h⟩ | ⟨-, h⟩
    · obtain ⟨u, w₆, hp, h⟩ := h.bind
      obtain ⟨u', w₇, hp', h⟩ := h.bind
      obtain ⟨-, rfl⟩ := h.pure
      exact hput (hput hs₅ hp) hp'
    · obtain ⟨-, rfl⟩ := h.pure
      exact hs₅

/-- A file system just mounted: its parameters and its hint are those of the super block. -/
structure Mounted (env : Env) (d : Disk) (w : World) : Prop where
  env : w.env = { env with info := (d 0).superblock.fsInfo }
  disk : w.disk = d
  hint : w.hint = (d 0).superblock.fsInfo.hint
  ok : (xv6CheckSb (d 0).superblock).1 = true

/-- A mount that gives a root directory runs the second part. -/
theorem fillSuper_root_run {env : Env} {d : Disk} {e : Int} {p : Ptr}
    (h : xv6FillSuper (World.unmounted env d) = .ok ((e, some p), w)) :
    ∃ l, Returns xv6FillSuper.root
      (World.setFsInfo { World.unmounted env d with log := l } (d 0).superblock) (e, some p) w := by
  unfold xv6FillSuper at h
  cases hload : xv6FillSuper.superblock.run (World.unmounted env d) with
  | error e => rw [hload] at h; cases h
  | ok r =>
    obtain ⟨r, w₁⟩ := r
    rw [hload] at h
    have hret := returns_iff.mpr hload
    simp only [xv6FillSuper.superblock] at hret
    obtain ⟨ok, w₂, hmem, hret⟩ := hret.bind
    obtain ⟨-, l, rfl⟩ := kmalloc_spec hmem
    rcases hret.ite with ⟨-, hret⟩ | ⟨-, hret⟩
    · obtain ⟨rfl, rfl⟩ := hret.pure
      cases h
    obtain ⟨ok, w₂, hread, hret⟩ := hret.bind
    obtain ⟨-, l, rfl⟩ := sbBread_spec hread
    rcases hret.ite with ⟨-, hret⟩ | ⟨-, hret⟩
    · obtain ⟨rfl, rfl⟩ := hret.pure
      cases h
    simp only [runs_bind_bdata] at hret
    obtain ⟨rfl, rfl⟩ := hret.pure
    exact ⟨l, returns_iff.mpr h⟩

theorem fillSuper_mounted {env : Env} {d : Disk} {e : Int} {p : Ptr}
    (h : xv6FillSuper (World.unmounted env d) = .ok ((e, some p), w)) : Mounted env d w := by
  obtain ⟨l, hroot⟩ := fillSuper_root_run h
  obtain ⟨hs, hok⟩ := fillSuper_root_spec hroot
  exact ⟨hs.env, hs.disk, hs.hint, hok rfl⟩

namespace Mounted

variable {env : Env} {d : Disk}

theorem sound (h : Mounted env d w) : w.env.info.Sound := by
  obtain ⟨-, -, hsize⟩ := xv6CheckSb_ok h.ok
  rw [h.env]
  exact ⟨le_trans (Nat.le_add_right _ _) hsize, Block.u32_lt _ _⟩

/-- The hint never lies past the start of the data area. -/
theorem hint_le (h : Mounted env d w) : w.hint ≤ w.env.info.dataStart := by
  obtain ⟨-, hbmap, hsize⟩ := xv6CheckSb_ok h.ok
  have hdata := h.sound.dataStart_eq
  have hlt : (d 0).superblock.size < 2 ^ 32 := Block.u32_lt _ _
  have hclamp : INODE_BLOCKS (d 0).superblock.fsInfo.ninodes ≤
      INODE_BLOCKS (d 0).superblock.ninodes := by
    unfold INODE_BLOCKS Superblock.fsInfo
    refine Nat.succ_le_succ (Nat.div_le_div_right ?_)
    dsimp only
    split <;> omega
  rw [h.env] at hdata ⊢
  rw [h.hint, hdata]
  refine le_trans (Nat.mod_le _ _) ?_
  dsimp only [Superblock.fsInfo] at hclamp ⊢
  omega

end Mounted

/-! ## The search of a run -/

/-- Every bit a search from the hint looks at below the data area is set. -/
def Guarded (env : Env) (d : Disk) (hint : Nat) : Prop :=
  ∀ x, hint ≤ x → x < roundEnd hint env.info.size → x < env.info.dataStart →
    bitSet env d x = true

section

variable {env : Env} {d d' : Disk} {hint h' b : Nat} {e : Int}

theorem Guarded.of_ge (h : env.info.dataStart ≤ hint) : Guarded env d hint :=
  fun x hx _ hx' => absurd hx' (by omega)

/-- The block a guarded search claims is a data block. -/
theorem Guarded.firstFree {a : Nat} (hle : hint ≤ env.info.size) (h : Guarded env d hint)
    (ha : FirstFree env d hint a) : IsData env a := by
  rcases ha with ⟨ha, hround, hlt⟩ | ⟨-, ha, hlt⟩
  · refine ⟨?_, hlt⟩
    by_contra hmeta
    have hset := h a ha.le hround (not_le.mp hmeta)
    rw [ha.clear] at hset
    cases hset
  · exact ⟨ha.le, lt_of_lt_of_le hlt hle⟩

/-- A guarded search stays guarded, and hands out data blocks only. -/
theorem Balloced.guarded (hg : env.info.Sound) (hle : hint ≤ env.info.size)
    (hgd : Guarded env d hint) (h : Balloced env d hint e b d' h') :
    h' ≤ env.info.size ∧ Guarded env d' h' ∧ (b ≠ 0 → IsData env b) ∧
      ∀ x, x < env.info.bmapstart → d' x = d x := by
  have hds := hg.dataStart_le
  cases h with
  | unread x hx hstart =>
    have hlt : x < env.info.size := by
      unfold InSearch at hx
      omega
    have hwrap : wrap env x = x := if_neg (not_le.mpr hlt)
    rw [hwrap]
    refine ⟨hlt.le, ?_, fun h0 => absurd rfl h0, fun _ _ => rfl⟩
    rcases hstart with rfl | rfl | hge
    · exact hgd
    · -- from where a round jumps back to, the next round looks at nothing
      have hge := le_roundEnd hint env.info.size
      intro y hy hy'
      rw [roundEnd_roundEnd hg.size_lt (by omega) hlt] at hy'
      omega
    · exact .of_ge hge
  | full => exact ⟨hle, hgd, fun h0 => absurd rfl h0, fun _ _ => rfl⟩
  | claimed a ha hpos hc =>
    have hdata := hgd.firstFree hle ha
    obtain ⟨hok, hb, hbefore⟩ := hc.data hg hdata
    refine ⟨hok.2, .of_ge hok.1, fun h0 => ?_, hbefore⟩
    rcases hb with rfl | rfl
    · exact absurd rfl h0
    · exact hdata

/-- Freeing a data block changes no bit below the data area. -/
theorem Guarded.markFree (hg : env.info.Sound) (hb : IsData env b) (h : Guarded env d hint) :
    Guarded env (markFree env d b) hint := by
  intro x hx hround hmeta
  have h1 := hg.dataStart_le
  have h2 := hb.1
  rw [hg.bitSet_markFree d (FsInfo.Sound.inBitmap_of_lt (by omega))
    (FsInfo.Sound.inBitmap_of_lt hb.2), if_neg (by omega)]
  exact h x hx hround hmeta

end

/-- The state a guarded run is in. -/
structure GuardedState (w : World) : Prop where
  writable : w.env.rdonly = false
  sound : w.env.info.Sound
  hint_le : w.hint ≤ w.env.info.size
  guarded : Guarded w.env w.disk w.hint

theorem GuardedState.balloc {blk b : Nat} {e : Int} (hs : GuardedState w)
    (h : Returns (xv6Balloc blk) w (e, b) w') :
    GuardedState w' ∧ (b ≠ 0 → IsData w.env b) ∧
      ∀ x, x < w.env.info.bmapstart → w'.disk x = w.disk x := by
  obtain ⟨hrw, hg, hle, hgd⟩ := hs
  obtain ⟨l, d, hint, rfl, -, hb⟩ := xv6Balloc_spec hrw hg.size_lt hle h
  obtain ⟨hle', hgd', hdata, hbefore⟩ := hb.guarded hg hle hgd
  exact ⟨⟨hrw, hg, hle', hgd'⟩, hdata, hbefore⟩

theorem GuardedState.bfree {b : Nat} {e : Int} (hs : GuardedState w)
    (h : Returns (xv6Bfree b) w e w') :
    GuardedState w' ∧ ∀ x, x < w.env.info.bmapstart → w'.disk x = w.disk x := by
  obtain ⟨hrw, hg, hle, hgd⟩ := hs
  obtain ⟨hge, hlt, -, l, d, rfl, hd, -⟩ := xv6Bfree_spec hrw h
  have hb : IsData w.env b := ⟨hge, hlt⟩
  rcases hd with rfl | rfl
  · exact ⟨⟨hrw, hg, hle, hgd⟩, fun _ _ => rfl⟩
  · exact ⟨⟨hrw, hg, hle, hgd.markFree hg hb⟩, fun x hx => markFree_block hg _ hb (.inl hx)⟩

/-- A guarded run hands out data blocks only. -/
theorem guarded_run {tr : List (Entry Nat)} (hs : GuardedState w) (h : AllocRun w tr w') :
    (∀ b, Entry.take b ∈ tr → IsData w.env b) ∧
      ∀ x, x < w.env.info.bmapstart → w'.disk x = w.disk x := by
  induction h with
  | nil w => exact ⟨fun b hb => absurd hb List.not_mem_nil, fun _ _ => rfl⟩
  | @balloc w w₁ w' blk b e tr h hrest ih =>
    obtain ⟨hs₁, hdata, hbefore⟩ := hs.balloc h
    obtain ⟨htake, hrest'⟩ := ih hs₁
    rw [h.env_eq] at htake hrest'
    refine ⟨fun a ha => ?_, fun x hx => (hrest' x hx).trans (hbefore x hx)⟩
    by_cases hb : b = 0
    · rw [if_pos hb] at ha
      exact htake a ha
    · rw [if_neg hb, List.mem_cons] at ha
      rcases ha with heq | ha
      · cases heq
        exact hdata hb
      · exact htake a ha
  | @bfree w w₁ w' b e tr h hrest ih =>
    obtain ⟨hs₁, hbefore⟩ := hs.bfree h
    obtain ⟨htake, hrest'⟩ := ih hs₁
    rw [h.env_eq] at htake hrest'
    refine ⟨fun a ha => htake a ?_, fun x hx => (hrest' x hx).trans (hbefore x hx)⟩
    simpa using ha

/-! ## A search that is not guarded -/

/-- When a bit below the data area is clear, the first call hands a metadata block out. -/
theorem balloc_metadata {x : Nat} (hrw : w.env.rdonly = false) (hq : Quiet w.env)
    (hfuel : w.env.fuel = 1) (hg : w.env.info.Sound) (hx : w.hint ≤ x)
    (hround : x < roundEnd w.hint w.env.info.size) (hmeta : x < w.env.info.dataStart)
    (hclear : bitSet w.env w.disk x = false) :
    ∃ a w', Returns (xv6Balloc 0) w (0, a) w' ∧ a ≠ 0 ∧ w.hint ≤ a ∧ a ≤ x := by
  have hsize := hg.size_lt
  have hds := hg.dataStart_le
  have hlt : w.hint < w.env.info.size := by omega
  have hpos : w.hint % BPB ≠ 0 ∧ w.hint + BPB - 1 < 2 ^ 32 := by
    by_contra hno
    rw [roundEnd_eq_self hsize hlt hno] at hround
    omega
  have hend := roundEnd_eq hlt hpos
  have hok : SearchOk w := by
    refine ⟨fun _ => ⟨hpos.1, hpos.2, .inr ⟨x, hx, by omega, hclear⟩⟩, fun hset _ => ?_⟩
    rw [hset x hx (by omega)] at hclear
    cases hclear
  obtain ⟨⟨e, a⟩, w', hret⟩ := returns_of_searchOk 0 hrw hsize (by omega) hok
  have hfuel' : w.withFuel 1 = w := by
    unfold World.withFuel
    rw [← hfuel]
  rw [hfuel'] at hret
  obtain ⟨l, d, hint, -, he, hb⟩ := xv6Balloc_spec hrw hsize hlt.le hret
  obtain rfl : e = 0 := he.mpr (hret.faultless hq)
  refine ⟨a, w', hret, ?_⟩
  generalize he0 : (0 : Int) = e at hb
  dsimp only at hb
  cases hb with
  | unread => exact absurd he0 (by decide)
  | full hall =>
    rw [hall x (.inl ⟨hx, by omega⟩)] at hclear
    cases hclear
  | claimed a' ha hpos' hc =>
    have hle : w.hint ≤ a' ∧ a' ≤ x := by
      rcases ha with ⟨ha, -⟩ | ⟨hset, -⟩
      · refine ⟨ha.le, ?_⟩
        by_contra hgt
        rw [ha.before x hx (not_le.mp hgt)] at hclear
        cases hclear
      · rw [hset x hx (by omega)] at hclear
        cases hclear
    cases hc with
    | unzeroed => exact absurd he0 (by decide)
    | unmarked => exact absurd he0 (by decide)
    | marked => exact ⟨hpos', hle⟩

end

/-! ## Mounting an image -/

/-- A writable environment in which no call fails. -/
def Env.calm (host : ByteOrder) : Env :=
  ⟨⟨0, 0, 0, 0, 0, 0, 0⟩, false, host, fun _ => .ok, fun _ => true, 1⟩

section

variable {host : ByteOrder} {env : Env} {d : Disk} {w w' : World}

/-- The bits of the bitmap do not depend on what fails. -/
theorem Mounted.bitSet_eq {env' : Env} (hhost : env.host = env'.host) (h : Mounted env d w)
    (h' : Mounted env' d w') (x : Nat) :
    bitSet w'.env w'.disk x = bitSet w.env w.disk x := by
  rw [h.env, h'.env, h.disk, h'.disk]
  unfold bitSet bitmapBlock
  dsimp only
  rw [hhost]

theorem Mounted.guarded {env' : Env} (hhost : env.host = env'.host) (h : Mounted env d w)
    (h' : Mounted env' d w') (hgd : Guarded w.env w.disk w.hint) :
    Guarded w'.env w'.disk w'.hint := by
  have hhint : w'.hint = w.hint := h'.hint.trans h.hint.symm
  have hinfo : w'.env.info = w.env.info := by rw [h.env, h'.env]
  intro x hx hround hmeta
  rw [hhint] at hx hround
  rw [hinfo] at hround hmeta
  rw [Mounted.bitSet_eq hhost h h']
  exact hgd x hx hround hmeta

/-- The runs of an image that can be mounted hand out data blocks only, and write no block
    before the bitmap, exactly when the search that the mount-time hint starts is guarded. -/
theorem balloc_data_blocks_iff {p : Ptr}
    (h : xv6FillSuper (World.unmounted (Env.calm host) d) = .ok ((0, some p), w)) :
    (∀ env p' w' tr w'', env.host = host → env.rdonly = false →
      xv6FillSuper (World.unmounted env d) = .ok ((0, some p'), w') → AllocRun w' tr w'' →
      (∀ b, Entry.take b ∈ tr → IsData w'.env b) ∧
        ∀ x, x < w'.env.info.bmapstart → w''.disk x = w'.disk x) ↔
      Guarded w.env w.disk w.hint := by
  have hm := fillSuper_mounted h
  constructor
  · intro hall x hx hround hmeta
    by_contra hclear
    obtain ⟨a, w', hret, hpos, -, hle⟩ := balloc_metadata (by rw [hm.env]; rfl)
      (by rw [hm.env]; exact fun _ => rfl) (by rw [hm.env]; rfl) hm.sound hx hround hmeta
      (by simpa using hclear)
    have hrun : AllocRun w [.take a] w' := by
      have hrun := AllocRun.balloc hret (.nil w')
      rwa [if_neg hpos] at hrun
    have hdata := (hall _ p w _ w' rfl rfl h hrun).1 a (List.mem_singleton.mpr rfl)
    exact absurd hdata.1 (by omega)
  · intro hgd env p' w' tr w'' hhost hrw hmount hrun
    have hm' := fillSuper_mounted hmount
    refine guarded_run ⟨?_, hm'.sound, le_trans hm'.hint_le hm'.sound.dataStart_le, ?_⟩ hrun
    · rw [hm'.env]
      exact hrw
    · exact Mounted.guarded hhost.symm hm hm' hgd

end

/-! ## Images -/

section

variable {w : World} {sb : Superblock} {i : Nat} {host : ByteOrder}

/-! A mount that passes, on an environment in which nothing fails. -/

theorem iterate_empty {addrs : Addrs} {dirty : Bool} (hhole : addrs.get 0 = 0) :
    Returns (xv6DirIterate modcheck ⟨addrs, 32, dirty⟩ dirCheck () 2 false) w
      (0, ⟨addrs, 32, false⟩, ()) w := by
  have haddr : xv6InodeAddr modcheck ⟨addrs, 32, dirty⟩ 0 false =
      pure (0, 0, ⟨addrs, 32, false⟩) := by
    simp only [xv6InodeAddr, hhole, Bool.false_eq_true, and_false, if_false]
    rfl
  have hblocks : Returns (xv6DirIterate.blocks modcheck dirCheck false (MAXFILE + 1) 0 2 0 .init
      ⟨addrs, 32, dirty⟩ ()) w
      (0, { DiterAction.init with cont := true }, ⟨addrs, 32, false⟩, ()) w := by
    simp only [xv6DirIterate.blocks, haddr, runs_bind_pure, xv6DirIterate.body, if_true, dirCheck,
      ne_eq, not_true_eq_false, if_false]
    exact (Prog.via_pure _ _ _ _).mpr ⟨rfl, rfl⟩
  simp only [xv6DirIterate, runs_bind_assert]
  refine ⟨by decide, ?_⟩
  exact (Prog.via_bind ..).mpr ⟨_, _, hblocks, (Prog.via_pure _ _ _ _).mpr ⟨rfl, rfl⟩⟩

/-- An empty root directory that has no block passes the checker. -/
theorem xv6Docheck_returns (hq : Quiet w.env) (hsb : (w.disk 0).superblock = sb)
    (hmagic : sb.magic = FSMAGIC) (hok : (xv6CheckSb sb).1 = true) (hi : sb.inodestart = i)
    (hnull : ((w.disk i).dinode 0).type = 0)
    (hroot : (w.disk i).dinode 1 = ⟨T_DIR, 0, 0, 1, 32, fun _ => 0⟩) :
    Returns (xv6Docheck modcheck) w 0 { w with log := .bread i .ok :: .bread 0 .ok :: w.log } := by
  have hinfo : (xv6CheckSb sb).2.inodestart = i := hi
  simp only [xv6Docheck, modcheck, quiet_bind_sbBread hq, Bool.not_true, Bool.false_eq_true,
    if_false, runs_bind_bdata, true_and]
  simp only [World.logged, hsb, hmagic, ne_eq, not_true_eq_false, if_false, hok, Bool.not_true,
    Bool.false_eq_true, xv6Docheck.root, hinfo]
  rw [quiet_bind_sbBread (by exact hq)]
  simp only [World.logged, runs_bind_bdata, hnull, hroot, true_and, Bool.not_true,
    Bool.false_eq_true, ne_eq, not_true_eq_false, if_false, xv6Docheck.entries]
  exact (Prog.via_bind ..).mpr ⟨_, _, iterate_empty rfl, (Prog.via_pure _ _ _ _).mpr ⟨rfl, rfl⟩⟩

/-- A mount succeeds when the checker passes and inode 1 is a directory. -/
theorem fillSuper_root_returns (hq : Quiet w.env) (hmem : ∀ n, w.env.mem n = true)
    (htree : w.tree = []) (hcheck : ∃ w', Returns (xv6Docheck modcheck) w 0 w')
    (hdir : ((w.disk ((1 + w.env.info.nlog) % 2 ^ 32)).dinode ROOTINO).type = T_DIR) :
    ∃ w', Returns xv6FillSuper.root w (0, some w.next) w' := by
  obtain ⟨w₀, hcheck⟩ := hcheck
  obtain ⟨⟨l, rfl⟩, -⟩ := xv6Docheck_spec hcheck
  generalize hblock : (1 + w.env.info.nlog) % 2 ^ 32 = i at hdir
  generalize hdino : (w.disk i).dinode ROOTINO = dino at hdir
  have hfind : ∃ w₁, Returns (xv6FindInode ROOTINO) { w with log := l } (some w.next, false) w₁ ∧
      w₁.env = w.env ∧ w₁.disk = w.disk := by
    simp [xv6FindInode, newInode, htree, hmem, ROOTINO, World.logged]
  obtain ⟨w₁, hfind, henv, hdisk⟩ := hfind
  have hinit : ∀ w₂ : World, w₂.env = w.env → ∃ w₃, Returns
      (xv6InitInode w.next dino ROOTINO) w₂ 0 w₃ ∧ w₃.env = w.env := by
    intro w₂ henv₂
    simp [xv6InitInode, henv₂, hmem, World.logged, hdir]
  obtain ⟨w₃, hinit, henv₃⟩ := hinit (w₁.logged (.bread i .ok)) henv
  refine ⟨w₃.logged (.alloc true), ?_⟩
  simp only [xv6FillSuper.root]
  rw [returns_bind hcheck]
  simp only [ne_eq, not_true_eq_false, if_false]
  rw [returns_bind hfind]
  simp only [runs_bind_getEnv, henv, hblock]
  rw [quiet_bind_sbBread (by rw [henv]; exact hq)]
  simp only [true_and, Bool.not_true, Bool.false_eq_true, if_false, runs_bind_bdata]
  have hread : ((w₁.logged (.bread i .ok)).disk i).dinode ROOTINO = dino := by
    rw [show (w₁.logged (.bread i .ok)).disk = w.disk from hdisk, hdino]
  rw [hread]
  refine (returns_bind hinit).mpr ?_
  simp only [hdir, not_true_eq_false, if_false, Prog.via_bind, runs_kmalloc, henv₃, hmem]
  exact ⟨true, _, ⟨trivial, rfl, rfl⟩, (Prog.via_pure _ _ _ _).mpr ⟨rfl, rfl⟩⟩

theorem fillSuper_eq {w₁ : World} (h : xv6FillSuper.superblock.run w = .ok (.ok sb, w₁)) :
    xv6FillSuper w = xv6FillSuper.root.run (w₁.setFsInfo sb) := by
  unfold xv6FillSuper
  rw [h]
  simp only [bind, Except.bind]

theorem fillSuper_returns {env : Env} {d : Disk} (hq : Quiet env) (hmem : ∀ n, env.mem n = true)
    (hcheck : ∀ w, w.disk = d → Quiet w.env → ∃ w', Returns (xv6Docheck modcheck) w 0 w')
    (hsb : (d 0).superblock = sb)
    (hdir : ((d ((1 + sb.nlog) % 2 ^ 32)).dinode ROOTINO).type = T_DIR) :
    ∃ w, xv6FillSuper (World.unmounted env d) = .ok ((0, some 0), w) := by
  have hload : Returns xv6FillSuper.superblock (World.unmounted env d) (.ok sb)
      { World.unmounted env d with log := [.bread 0 .ok, .alloc true] } := by
    simp [xv6FillSuper.superblock, World.unmounted, World.logged, hq _, hmem, hsb]
  obtain ⟨w, hw⟩ := fillSuper_root_returns (w := World.setFsInfo
    { World.unmounted env d with log := [.bread 0 .ok, .alloc true] } sb) hq hmem rfl
    (hcheck _ rfl hq) hdir
  exact ⟨w, (fillSuper_eq (returns_iff.mp hload)).trans (returns_iff.mp hw)⟩

end

/-- An image with an empty root directory, whose bitmap is all clear. -/
def emptyRoot (ninodes size : Nat) : Disk := fun b =>
  if b = 0 then
    ((((Block.setU32 0 FSMAGIC Buf.zero).setU32 1 size).setU32 3 ninodes).setU32 5 1).setU32 6 1
      |>.setU32 7 (1 + INODE_BLOCKS ninodes)
  else if b = 1 then
    Block.setDinode 1 ⟨T_DIR, 0, 0, 1, 32, fun _ => 0⟩ Buf.zero
  else
    Buf.zero

theorem emptyRoot_superblock (ninodes size : Nat) (hn : ninodes < 2 ^ 31) (hs : size < 2 ^ 32) :
    (emptyRoot ninodes size 0).superblock =
      ⟨FSMAGIC, size, 0, ninodes, 0, 1, 1, 1 + INODE_BLOCKS ninodes⟩ := by
  have hi : 1 + INODE_BLOCKS ninodes < 2 ^ 32 := by
    unfold INODE_BLOCKS IPB
    omega
  have hn' : ninodes < 2 ^ 32 := by omega
  unfold emptyRoot Block.superblock
  simp (disch := first | decide | omega) only [if_true, Block.u32_setU32, Block.u32_zero]
  simp

theorem Block.type_dinode_zero (n : Nat) : (Block.dinode Buf.zero n).type = 0 := by
  unfold Block.dinode
  rw [Buf.readNum_zero]
  rfl

theorem emptyRoot_null (ninodes size : Nat) :
    ((emptyRoot ninodes size 1).dinode 0).type = 0 :=
  (congrArg Dinode.type (Block.dinode_setDinode_ne _ _ (by decide))).trans
    (Block.type_dinode_zero 0)

theorem emptyRoot_mounts (ninodes size : Nat) (hn : ninodes < 2 ^ 31)
    (hsize : 1 + INODE_BLOCKS ninodes + BITMAP_BLOCKS size ≤ size) (hs : size < 2 ^ 32) :
    ∃ w, xv6FillSuper (World.unmounted (Env.calm .little) (emptyRoot ninodes size)) =
      .ok ((0, some 0), w) := by
  have hsb := emptyRoot_superblock ninodes size hn hs
  have hroot : (emptyRoot ninodes size 1).dinode 1 = ⟨T_DIR, 0, 0, 1, 32, fun _ => 0⟩ :=
    Block.dinode_setDinode _ _ (by decide)
  refine fillSuper_returns (fun _ => rfl) (fun _ => rfl) (fun w hd hq => ?_) hsb
    (congrArg Dinode.type hroot)
  refine ⟨_, xv6Docheck_returns (i := 1) hq (hd ▸ hsb) rfl ?_ rfl ?_ ?_⟩
  · exact decide_eq_true ⟨rfl, rfl, rfl, not_lt.mpr hsize⟩
  · rw [hd]
    exact emptyRoot_null ninodes size
  · rw [hd]
    exact hroot

/-- 65536 inodes are one block more of them than the mount counts, and the hint is the bitmap
    block, which is handed out. -/
theorem bitmap_handed_out : ∃ w w', xv6FillSuper
      (World.unmounted (Env.calm .little) (emptyRoot 65536 4200)) = .ok ((0, some 0), w) ∧
    AllocRun w [.take 4098] w' ∧ ¬ IsData w.env 4098 ∧ w.env.info.bmapstart = 4098 := by
  obtain ⟨w, hmount⟩ := emptyRoot_mounts 65536 4200 (by decide) (by decide) (by decide)
  have hm := fillSuper_mounted hmount
  have hsb := emptyRoot_superblock 65536 4200 (by decide) (by decide)
  have henv := hm.env
  have hhint := hm.hint
  rw [hsb] at henv hhint
  have hhint' : w.hint = 4098 := hhint
  have hsize : w.env.info.size = 4200 := by rw [henv]; rfl
  have hdata : w.env.info.dataStart = 4099 := by rw [henv]; rfl
  have hclear : bitSet w.env w.disk 4098 = false := by
    have hzero : emptyRoot 65536 4200 4098 = Buf.zero := rfl
    have hblock : bitmapBlock w.env 4098 = 4098 := by rw [henv]; rfl
    refine (bitSet_congr ?_).trans (bitSet_zero w.env 4098)
    rw [hm.disk, hblock, hzero]
  obtain ⟨a, w', hret, hpos, hge, hle⟩ := balloc_metadata (x := 4098) (by rw [henv]; rfl)
    (by rw [henv]; exact fun _ => rfl) (by rw [henv]; rfl) hm.sound (by omega)
    (by rw [hhint', hsize]; decide) (by omega) hclear
  obtain rfl : a = 4098 := by omega
  refine ⟨w, w', hmount, ?_, fun h => absurd h.1 (by omega), by rw [henv]; rfl⟩
  have hrun := AllocRun.balloc hret (.nil w')
  rwa [if_neg hpos] at hrun

/-- With 200 inodes the mount counts as the checker does. -/
theorem emptyRoot_200_data_blocks : ∃ w,
    xv6FillSuper (World.unmounted (Env.calm .little) (emptyRoot 200 4200)) = .ok ((0, some 0), w) ∧
    ∀ env p' w' tr w'', env.host = ByteOrder.little → env.rdonly = false →
      xv6FillSuper (World.unmounted env (emptyRoot 200 4200)) = .ok ((0, some p'), w') →
      AllocRun w' tr w'' → (∀ b, Entry.take b ∈ tr → IsData w'.env b) ∧
        ∀ x, x < w'.env.info.bmapstart → w''.disk x = w'.disk x := by
  obtain ⟨w, hmount⟩ := emptyRoot_mounts 200 4200 (by decide) (by decide) (by decide)
  have hm := fillSuper_mounted hmount
  have hsb := emptyRoot_superblock 200 4200 (by decide) (by decide)
  have henv := hm.env
  have hhint := hm.hint
  rw [hsb] at henv hhint
  have hhint' : w.hint = 15 := hhint
  have hdata : w.env.info.dataStart = 15 := by rw [henv]; rfl
  exact ⟨w, hmount, (balloc_data_blocks_iff hmount).mpr (.of_ge (by omega))⟩

end Xv6fs
