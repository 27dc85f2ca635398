/-
  Cached and uncached inodes.

  Two states are twins when they differ in nothing but that the addresses of one inode are in core
  in the first and not in the second. What works on the disk alone runs alike in twins; the calls on
  the inode differ in where they take the addresses from and where they leave them, and a final
  `xv6_sync_inode` evens this out, unless a block of the inode is the block of its own slot
  (`own_table_block`).
-/
import Xv6fs.Lib.Alike
import Xv6fs.Dir.Reported

namespace Xv6fs

open Prog

/-- `v` is `w`, except for the history and for inode `p`, which is `I` and has no addresses in
    core in `v`. -/
structure Twins (p : Ptr) (I : Inode) (w v : World) : Prop where
  env : v.env = w.env
  quiet : Quiet w.env
  disk : v.disk = w.disk
  hint : v.hint = w.hint
  inode : w.inodes p = I
  bare : v.inodes p = { I with priv := none }

/-- The two run alike in twins, and return the same. -/
abbrev InTwins (p : Ptr) (I : Inode) {α : Type} (m : Fs α) : Prop := InStep (Twins p I) m

section

variable {p : Ptr} {I : Inode}

/-! ## Primitives -/

theorem alike_sbBread (b : Nat) : InTwins p I (sbBread b) :=
  .step fun w v h => by
    have hw : w.env.io w.log.length = .ok := h.quiet _
    have hv : v.env.io v.log.length = .ok := h.env ▸ h.quiet _
    exact ⟨by simp only [hw, hv], h.env, h.quiet, h.disk, h.hint, h.inode, h.bare⟩

theorem alike_syncBuffer (b : Nat) (blk : Block) : InTwins p I (syncBuffer b blk) :=
  .step fun w v h => by
    have hw : w.env.io w.log.length = .ok := h.quiet _
    have hv : v.env.io v.log.length = .ok := h.env ▸ h.quiet _
    exact ⟨by simp only [hw, hv], h.env, h.quiet, by simp only [hw, hv, h.disk], h.hint, h.inode,
      h.bare⟩

theorem alike_change {f : World → World} {hf : ∀ w, (f w).env = w.env ∧ (f w).log = w.log}
    (h : ∀ w v, Twins p I w v → Twins p I (f w) (f v)) : InTwins p I (change f hf) :=
  .step fun w v hR => ⟨rfl, h w v hR⟩

theorem alike_bstore (b : Nat) (blk : Block) : InTwins p I (bstore b blk) :=
  alike_change fun _ _ h => ⟨h.env, h.quiet, by simp only [h.disk], h.hint, h.inode, h.bare⟩

theorem alike_setHint (hint : Nat) : InTwins p I (setHint hint) :=
  alike_change fun _ _ h => ⟨h.env, h.quiet, h.disk, rfl, h.inode, h.bare⟩

theorem alike_bdata (b : Nat) : InTwins p I (bdata b) :=
  .get (fun _ _ h => by rw [h.disk]) fun _ => .pure _

theorem alike_getEnv : InTwins p I getEnv :=
  .get (fun _ _ h => by rw [h.env]) fun _ => .pure _

theorem inStep_assert {R : World → World → Prop} (c : Prop) [Decidable c] :
    InStep R (xv6Assert c) := .ite (.pure _) (.halt _)

/-! ## Blocks and the bitmap -/

theorem alike_bzero (b : Nat) : InTwins p I (xv6Bzero b) :=
  .seq alike_getEnv fun _ => .ite (.pure _) <| .seq (alike_sbBread _) fun _ => .ite (.pure _) <|
    alike_syncBuffer _ _

theorem alike_bfree (b : Nat) : InTwins p I (xv6Bfree b) :=
  .seq alike_getEnv fun _ => .ite (.pure _) <| .seq (inStep_assert _) fun _ =>
    .seq (inStep_assert _) fun _ => .seq (alike_sbBread _) fun _ => .ite (.pure _) <|
      .seq (alike_bdata _) fun _ => .ite (.pure _) (alike_syncBuffer _ _)

theorem alike_claim (bitblock index mask block alloc : Nat) :
    InTwins p I (xv6BallocRng.claim bitblock index mask block alloc) :=
  .seq alike_getEnv fun _ => .seq (alike_bzero _) fun _ =>
    .ite (.seq (alike_setHint _) fun _ => .pure _) <| .seq (alike_bdata _) fun _ =>
      .seq (alike_syncBuffer _ _) fun _ => .seq (alike_setHint _) fun _ => .pure _

theorem alike_scan (bitblock block : Nat) :
    ∀ n alloc, InTwins p I (xv6BallocRng.scan bitblock block n alloc)
  | 0, _ => .pure _
  | n + 1, alloc => .seq alike_getEnv fun _ => .seq (alike_bdata _) fun _ =>
      .ite (alike_claim _ _ _ _ _) (alike_scan bitblock block n (alloc + 1))

theorem alike_tryBalloc (last : Nat) :
    ∀ fuel alloc block, InTwins p I (xv6BallocRng.tryBalloc block last fuel alloc)
  | 0, _, _ => .halt _
  | fuel + 1, _, _ => .seq alike_getEnv fun _ => .seq (alike_sbBread _) fun _ =>
      .ite (.seq (alike_setHint _) fun _ => .pure _) <| .seq (alike_scan _ _ _ _) fun _ =>
        .ite (alike_tryBalloc last fuel _ _) (.pure _)

theorem alike_ballocRng (block start last : Nat) : InTwins p I (xv6BallocRng block start last) :=
  .seq alike_getEnv fun _ => alike_tryBalloc _ _ _ _

theorem alike_wrapHint : InTwins p I xv6BallocUnsafe.wrapHint :=
  .seq alike_getEnv fun _ => .get (fun _ _ h => by rw [h.hint]) fun _ => alike_setHint _

theorem alike_second (hint block : Nat) : InTwins p I (xv6BallocUnsafe.second hint block) :=
  .seq alike_getEnv fun _ => .ite (.seq (alike_ballocRng _ _ _) fun _ =>
    .ite (.seq alike_wrapHint fun _ => .pure _) (.pure _)) (.pure _)

theorem alike_balloc (block : Nat) : InTwins p I (xv6Balloc block) :=
  .seq alike_getEnv fun _ => .ite (.pure _) <|
    .get (fun _ _ h => by rw [h.hint]) fun _ => .ite (.seq (alike_ballocRng _ _ _) fun _ =>
      .ite (.seq alike_wrapHint fun _ => .pure _) (alike_second _ _)) (alike_second _ _)

/-! ## Block maps and directories -/

theorem alike_indirect (ctx : InodeCtx) (i : Nat) (alloc : Bool) :
    InTwins p I (xv6InodeAddr.indirect modcheck ctx i alloc) :=
  .seq (alike_sbBread _) fun _ => .ite (.pure _) <| .seq (alike_bdata _) fun _ =>
    .ite (.ite (.pure _) <| .seq (alike_balloc _) fun _ => .ite (.pure _) <| .ite (.pure _) <|
      .seq (alike_bdata _) fun _ => .seq (alike_syncBuffer _ _) fun _ => .pure _) (.pure _)

theorem alike_inodeAddr (ctx : InodeCtx) (i : Nat) (alloc : Bool) :
    InTwins p I (xv6InodeAddr modcheck ctx i alloc) :=
  .ite (.pure _) <| .ite (.ite (.seq (alike_balloc _) fun _ => .pure _) (.pure _)) <|
    .ite (.ite (.pure _) <| .seq (alike_balloc _) fun _ => .ite (.pure _) <| .ite (.pure _) <|
      alike_indirect _ _ _) (alike_indirect _ _ _)

section Iterate

variable {τ : Type} (cb : DiterCallback τ)

theorem alike_body (i off lim blockno : Nat) (act : DiterAction) (ctx : τ) :
    InTwins p I (xv6DirIterate.body modcheck cb i off lim blockno act ctx) :=
  .ite (.seq (.lift _) fun _ => .pure _) <| .seq (alike_sbBread _) fun _ => .ite (.pure _) <|
    .seq (alike_bdata _) fun _ => .seq (.lift _) fun _ =>
      .ite (.seq (alike_syncBuffer _ _) fun _ => .pure _) <|
        .seq (alike_bstore _ _) fun _ => .pure _

theorem alike_blocks (alloc : Bool) :
    ∀ (rounds i off size : Nat) (act : DiterAction) (dir : InodeCtx) (ctx : τ),
      InTwins p I (xv6DirIterate.blocks modcheck cb alloc rounds i off size act dir ctx)
  | 0, _, _, _, _, _, _ => .halt _
  | rounds + 1, i, _, _, _, _, _ => .seq (alike_inodeAddr _ _ _) fun _ => .ite (.pure _) <|
      .seq (alike_body cb _ _ _ _ _ _) fun _ => .ite (.pure _) <| .ite (.pure _) <|
        alike_blocks alloc rounds (i + 1) 0 _ _ _ _

theorem alike_extend (alloc : Bool) (dir : InodeCtx) (ctx : τ) :
    InTwins p I (xv6DirIterate.extend modcheck cb alloc dir ctx) :=
  .seq (alike_inodeAddr _ _ _) fun _ => .ite (.pure _) <| .seq (alike_sbBread _) fun _ =>
    .ite (.pure _) <| .seq (alike_bdata _) fun _ => .seq (.lift _) fun _ =>
      .ite (.seq (alike_syncBuffer _ _) fun _ => .pure _) <|
        .seq (alike_bstore _ _) fun _ => .pure _

theorem alike_dirIterate (dir : InodeCtx) (ctx : τ) (off : Nat) (alloc : Bool) :
    InTwins p I (xv6DirIterate modcheck dir cb ctx off alloc) :=
  .seq (inStep_assert _) fun _ => .ite (.pure _) <| .seq (alike_blocks cb _ _ _ _ _ _ _ _) fun _ =>
    .ite (alike_extend cb _ _ _) (.pure _)

end Iterate

theorem alike_clearDirect : ∀ n i addrs, InTwins p I (xv6InodeClear.direct n i addrs)
  | 0, _, _ => .pure _
  | n + 1, i, addrs => .ite (.seq (alike_bfree _) fun _ => alike_clearDirect n (i + 1) _)
      (alike_clearDirect n (i + 1) addrs)

theorem alike_clearEntries (iaddr : Nat) : ∀ n i, InTwins p I (xv6InodeClear.entries iaddr n i)
  | 0, _ => .pure _
  | n + 1, i => .seq (alike_bdata _) fun _ =>
      .ite (.seq (alike_bfree _) fun _ => alike_clearEntries iaddr n (i + 1))
        (alike_clearEntries iaddr n (i + 1))

/-! ## After `xv6_sync_inode` -/

variable {w v : World} {A : Addrs}

/-- The disk when inode `p` has been written back. -/
def settledDisk (w : World) (p : Ptr) : Disk :=
  if w.env.rdonly then w.disk else syncDisk w.env w.disk (w.inodes p)

/-- The states differ in nothing that writing inode `p` back does not even out. -/
structure Even (p : Ptr) (w v : World) : Prop where
  env : v.env = w.env
  quiet : Quiet w.env
  size : (v.inodes p).size = (w.inodes p).size
  ino : (v.inodes p).ino = (w.inodes p).ino
  nonzero : (w.inodes p).ino ≠ 0
  disk : settledDisk v p = settledDisk w p

theorem sync_settles (hq : Quiet w.env) (hino : (w.inodes p).ino ≠ 0) :
    ∃ w', Returns (xv6SyncInode p) w 0 w' ∧ w'.disk = settledDisk w p ∧ w'.inodes = w.inodes := by
  unfold settledDisk
  by_cases hro : w.env.rdonly = true
  · rw [if_pos hro]
    refine ⟨w, ?_, rfl, rfl⟩
    simp only [Returns, xv6SyncInode, runs_bind_getEnv, hro, if_true]
    simp
  · rw [if_neg hro]
    obtain ⟨l, h⟩ := xv6SyncInode_returns hq (by simpa using hro) hino
    exact ⟨_, h, rfl, rfl⟩

theorem setSlot_slot {env : Env} {d : Disk} {n : Nat} : setSlot env d n (slot env d n) = d := by
  unfold setSlot slot
  rw [Block.setDinode_dinode, Function.update_eq_self]

/-- Writing an inode back a second time, with its addresses or without, changes nothing. -/
theorem syncDisk_again {env : Env} {d : Disk} {ino ino' : Inode} (hino : ino'.ino = ino.ino)
    (hsize : ino'.size = ino.size) (hnlink : ino'.nlink = ino.nlink)
    (hpriv : ino'.priv = ino.priv ∨ ino'.priv = none) :
    syncDisk env (syncDisk env d ino) ino' = syncDisk env d ino := by
  have hkeep : ino'.toDinode (ino.toDinode (slot env d ino.ino)) =
      ino.toDinode (slot env d ino.ino) := by
    unfold Inode.toDinode
    rw [hsize, hnlink]
    rcases hpriv with h | h
    · rw [h]
      cases ino.priv <;> rfl
    · rw [h]
  have hslot : slot env (syncDisk env d ino) ino.ino = ino.toDinode (slot env d ino.ino) :=
    slot_syncDisk ino
  generalize syncDisk env d ino = d' at hslot ⊢
  calc syncDisk env d' ino'
      = setSlot env d' ino'.ino (ino'.toDinode (slot env d' ino'.ino)) := rfl
    _ = setSlot env d' ino.ino (slot env d' ino.ino) := by rw [hino, hslot, hkeep]
    _ = d' := setSlot_slot

/-- The slot of the inode still has the addresses, or it is not going to be written. -/
def Kept (I : Inode) (A : Addrs) (w : World) : Prop :=
  w.env.rdonly = true ∨ (slot w.env w.disk I.ino).addr = A

/-- Twins whose addresses are those in the slot. -/
theorem Twins.even (h : Twins p { I with priv := some A } w v) (hino : I.ino ≠ 0)
    (hA : Kept I A w) : Even p w v where
  env := h.env
  quiet := h.quiet
  size := by rw [h.bare, h.inode]
  ino := by rw [h.bare, h.inode]
  nonzero := by rw [h.inode]; exact hino
  disk := by
    unfold settledDisk
    rw [h.env, h.disk, h.bare, h.inode]
    rcases hA with hro | hA
    · rw [if_pos hro, if_pos hro]
    · have hback : (fun i => UInt32.ofNat (A i)) = (slot w.env w.disk I.ino).addrs := by
        rw [← hA]
        exact funext fun i => UInt32.ofNat_toNat
      unfold syncDisk Inode.toDinode
      dsimp only
      rw [hback]

/-- A dirty context is stored in core, -/
theorem store_cached {ctx : InodeCtx} (hd : ctx.dirty = true)
    (hw : w.inodes p = { I with priv := some A }) :
    Returns (xv6IctxDirty p ctx) w 0 { w with
      inodes := Function.update w.inodes p
        { I with priv := some A, size := ctx.size, dirty := true } } := by
  simp [Returns, xv6IctxDirty, hd, markInodeDirty, hw]

/-- or on disk when the addresses are not in core. -/
theorem store_uncached {ctx : InodeCtx} (hd : ctx.dirty = true) (hq : Quiet v.env)
    (hino : I.ino ≠ 0) (hv : v.inodes p = { I with priv := none }) :
    ∃ v', Returns (xv6IctxDirty p ctx) v 0 v' ∧ v'.env = v.env ∧
      v'.inodes p = { I with priv := none, size := ctx.size, dirty := true } ∧
      v'.disk = if v.env.rdonly then v.disk else syncDisk v.env v.disk
        { I with priv := some ctx.addrs, size := ctx.size, dirty := true } := by
  obtain ⟨v₁, hsync, hdisk, hinodes⟩ := sync_settles (p := p) (w := { v with
    inodes := Function.update v.inodes p
      { I with priv := some ctx.addrs, size := ctx.size, dirty := true } }) hq
    (by simpa using hino)
  have henv := Runs.env_eq hsync
  refine ⟨{ v₁ with
    inodes := Function.update v₁.inodes p
      { I with priv := none, size := ctx.size, dirty := true } }, ?_, henv,
    Function.update_self _ _ _, ?_⟩
  · simp only [Returns, xv6IctxDirty, hd, Bool.not_true, Bool.false_eq_true, if_false,
      markInodeDirty, runs_bind_modifyInode, runs_bind_getInode, Function.update_self,
      Function.update_idem, hv]
    refine (returns_bind hsync).mpr ?_
    simp only [Returns, runs_bind_modifyInode, hinodes, Function.update_self]
    simp
  · rw [hdisk]
    unfold settledDisk
    simp only [Function.update_self]

/-- What `xv6_ictx_dirty` does to twins when the context has been written back. -/
theorem alike_store {ctx : InodeCtx} (hino : I.ino ≠ 0) :
    Alike (fun w v => Twins p { I with priv := some ctx.addrs } w v ∧
        (ctx.dirty = false → Kept I ctx.addrs w))
      (fun e e' w v => (e = 0 ∧ e' = 0) ∧ Even p w v) (xv6IctxDirty p ctx)
      (xv6IctxDirty p ctx) := by
  rintro w v ⟨h, hA⟩
  have hq : Quiet v.env := h.env ▸ h.quiet
  cases hd : ctx.dirty with
  | false =>
    have heven := h.even hino (hA hd)
    simp only [xv6IctxDirty, hd, Bool.not_false, if_true]
    exact .ok ⟨⟨rfl, rfl⟩, heven⟩
  | true =>
    obtain ⟨v', hv, henv, hin, hdisk⟩ := store_uncached hd hq hino h.bare
    rw [returns_iff.mp (store_cached hd h.inode), returns_iff.mp hv]
    refine .ok ⟨⟨rfl, rfl⟩, henv.trans h.env, h.quiet, ?_, ?_, ?_, ?_⟩
    · simp only [hin, Function.update_self]
    · simp only [hin, Function.update_self]
    · simp only [Function.update_self]
      exact hino
    · unfold settledDisk
      simp only [Function.update_self, hin, hdisk, henv, h.env, h.disk]
      by_cases hro : w.env.rdonly = true
      · simp only [hro, if_true]
      · rw [if_neg hro, if_neg hro]
        exact syncDisk_again rfl rfl rfl (.inr rfl)

/-! ## The parts of a call -/

/-- An inode of a sound file system whose blocks are its own, and whose addresses are `A`. -/
structure WellPlaced (I : Inode) (A : Addrs) (w : World) : Prop where
  sound : w.env.info.Sound
  table : w.env.info.TableOk
  hint : HintOk w.env w.hint
  nonzero : I.ino ≠ 0
  inTable : InTable w.env I.ino
  le : I.fmt = .dir → I.size ≤ MAXFILE * BSIZE
  owned : Owned w.env w.disk (alone A)
  addrs : (slot w.env w.disk I.ino).addr = A

/-- Twins before a call: the addresses in core are those in the slot. -/
def Before (p : Ptr) (I : Inode) (A : Addrs) (w v : World) : Prop :=
  Twins p { I with priv := some A } w v ∧ WellPlaced I A w

/-- The context both start with. -/
def openCtx (I : Inode) (A : Addrs) : InodeCtx := ⟨A, I.size % 2 ^ 32, false⟩

theorem alike_open : Alike (Before p I A)
    (fun r r' w v => (r = (0, openCtx I A) ∧ r' = (0, openCtx I A)) ∧ Before p I A w v)
    (xv6InitIctx p) (xv6InitIctx p) := by
  rintro w v ⟨h, hm⟩
  have hio : v.env.io v.log.length = .ok := h.env ▸ h.quiet _
  have hw : Returns (xv6InitIctx p) w (0, openCtx I A) w := by
    simp [Returns, xv6InitIctx, h.inode, openCtx]
  have hv : Returns (xv6InitIctx p) v (0, openCtx I A)
      (v.logged (.bread (inodeBlock v.env I.ino) .ok)) := by
    have haddr : ((v.disk (inodeBlock v.env I.ino)).dinode (I.ino % IPB)).addr = A := by
      rw [h.env, h.disk]
      exact hm.addrs
    simp [Returns, xv6InitIctx, xv6Dget, h.bare, hm.nonzero, hio, openCtx, haddr, World.logged]
  rw [returns_iff.mp hw, returns_iff.mp hv]
  exact .ok ⟨⟨rfl, rfl⟩, ⟨h.env, h.quiet, h.disk, h.hint, h.inode, h.bare⟩, hm⟩

/-- Twins whose addresses are those of `ctx`, which are kept when `P` holds. -/
def CtxBack (p : Ptr) (I : Inode) (ctx : InodeCtx) (P : Prop) (w v : World) : Prop :=
  Twins p { I with priv := some ctx.addrs } w v ∧ (P → Kept I ctx.addrs w)

theorem alike_writeBack {ctx : InodeCtx} {P : Prop} : Alike
    (fun w v => Twins p { I with priv := some A } w v ∧ (P → Kept I ctx.addrs w))
    (fun _ _ => CtxBack p I ctx P) (ctx.writeBack p) (ctx.writeBack p) := by
  rintro w v ⟨h, hk⟩
  refine .ok ⟨⟨h.env, h.quiet, h.disk, h.hint, ?_, ?_⟩, hk⟩
  · simp [h.inode]
  · simp [h.bare]

theorem ctxBack_sbBread {ctx : InodeCtx} {P : Prop} (b : Nat) :
    InStep (CtxBack p I ctx P) (sbBread b) := by
  rintro w v ⟨h, hk⟩
  refine .ok ⟨?_, ⟨h.env, h.quiet, h.disk, h.hint, h.inode, h.bare⟩, hk⟩
  have hw : w.env.io w.log.length = .ok := h.quiet _
  have hv : v.env.io v.log.length = .ok := h.env ▸ h.quiet _
  simp only [hw, hv]

/-- A part that works on the disk runs in step, and what is known of its runs holds. -/
theorem alike_part {α : Type} {m : Fs α} {F : α → World → Prop}
    (hm : InTwins p { I with priv := some A } m)
    (hF : ∀ w r w', WellPlaced I A w → Returns m w r w' → F r w') : Alike (Before p I A)
      (fun r r' w v => (r = r' ∧ Twins p { I with priv := some A } w v) ∧ F r w) m m :=
  Alike.of_left (hm.weaken (fun _ _ h => h.1) fun _ _ _ _ h => h) fun w _ r w' h hrun =>
    hF w r w' h.2 (returns_iff.mpr hrun)

namespace WellPlaced

variable {w' : World} {name : FileName} {inum i b : Nat} {e : Int} {ctx : InodeCtx}

theorem kept_same (h : WellPlaced I A w) (henv : w'.env = w.env) (hdisk : w'.disk = w.disk) :
    Kept I A w' := by
  refine .inr ?_
  rw [henv, hdisk]
  exact h.addrs

theorem kept_before (h : WellPlaced I A w) (henv : w'.env = w.env)
    (hb : SameBefore w.env w.disk w'.disk) : Kept I A w' := by
  refine .inr ?_
  rw [henv, hb.slot h.sound h.table h.inTable]
  exact h.addrs

theorem growReady (h : WellPlaced I A w) (hrw : w.env.rdonly = false) : GrowReady w A :=
  ⟨hrw, h.sound, h.hint, fun h0 => h.owned.held_indirect alone_self h0⟩

theorem size_mod (h : WellPlaced I A w) (hdir : I.fmt = .dir) : I.size % 2 ^ 32 = I.size := by
  have hle := h.le hdir
  simp only [MAXFILE, BSIZE] at hle
  omega

/-- A lookup that does not allocate. -/
theorem lookup (h : WellPlaced I A w)
    (hrun : Returns (xv6InodeAddr modcheck (openCtx I A) i false) w (e, b, ctx) w') :
    Kept I ctx.addrs w' := by
  obtain ⟨haddrs, -, l, rfl⟩ := xv6InodeAddr_read_log hrun
  dsimp only at haddrs
  rw [haddrs]
  exact h.kept_same rfl rfl

/-- A lookup that allocates, and finds a block. -/
theorem attach (h : WellPlaced I A w)
    (hrun : Returns (xv6InodeAddr modcheck (openCtx I A) i true) w (e, b, ctx) w') (he : e = 0)
    (hd : ctx.dirty = false) : Kept I ctx.addrs w' := by
  subst he
  have henv := Runs.env_eq hrun
  have hi : i < MAXFILE := by
    by_contra hge
    exact absurd (xv6InodeAddr_big (not_lt.mp hge) hrun).1 (by decide)
  have haddrs : ctx.addrs = A := by
    have hctx := inodeAddr_ctx hi hrun
    split at hctx
    · obtain ⟨a, rfl⟩ := hctx
      cases hd
    · rw [hctx]
      rfl
  rw [haddrs]
  cases hro : w.env.rdonly with
  | true => exact .inl (henv ▸ hro)
  | false =>
    obtain ⟨addrs', dirty, -, hop⟩ := opened_of_alloc (openCtx I A) (h.growReady hro) hi hrun
    exact h.kept_before henv (hop.effect (h.growReady hro) h.owned alone_self hi).2.2.1

/-- A search for room that ends with success. -/
theorem insertion (h : WellPlaced I A w) (hdir : I.fmt = .dir) {nde : Dirent} {s s' : Unit}
    (hrun : Returns (xv6DirIterate modcheck (openCtx I A) (deInsertCallback nde) s 0 true) w
      (e, ctx, s') w') (he : e = 0) (hd : ctx.dirty = false) : Kept I ctx.addrs w' := by
  subst he
  have henv := Runs.env_eq hrun
  have haddrs : ctx.addrs = A := by
    by_contra hne
    exact absurd (iterate_sets h.sound h.hint hrun hne).1 (by simp [hd])
  rw [haddrs]
  cases hro : w.env.rdonly with
  | true => exact .inl (henv ▸ hro)
  | false =>
    have hctx : openCtx I A = ⟨A, I.size, false⟩ := by
      unfold openCtx
      rw [h.size_mod hdir]
    rw [hctx] at hrun
    have hins := iterate_insert_spec (h.growReady hro) (h.le hdir) hrun
    exact h.kept_before henv (hins.placed (h.growReady hro) h.owned (h.le hdir)).before

/-- A search that may write the entry it finds. -/
theorem search (h : WellPlaced I A w) (hdir : I.fmt = .dir) {σ : Type} {cb : DiterCallback σ}
    {q : Dirent → Prop} {lo off : Nat} (hs : Seeker cb q false lo) (hzero : ¬ q Dirent.zero)
    (hlo : lo ≤ off) (hoff : off < MAXFILE * NENTS) {s s' : σ}
    (hrun : Returns (xv6DirIterate modcheck (openCtx I A) cb s off false) w (e, ctx, s') w') :
    Kept I ctx.addrs w' := by
  have henv := Runs.env_eq hrun
  have hctx : openCtx I A = ⟨A, I.size, false⟩ := by
    unfold openCtx
    rw [h.size_mod hdir]
  rw [hctx] at hrun
  obtain ⟨rfl, hout⟩ := iterate_spec hs hzero hlo (h.le hdir) hoff rfl hrun
  rcases hout with ⟨hr, -⟩ | ⟨k, act, -, hk, -, hhit⟩
  · obtain ⟨l, rfl⟩ := hr.log
    exact h.kept_same rfl rfl
  · -- only the block of the entry is written, which is not in the inode table
    have hmax : k / NENTS < MAXFILE := slot_block (lt_of_lt_of_le hk (size_slots (h.le hdir)))
    have hdata := (h.owned.held_bmap alone_self hmax hhit.nonzero).1
    have hdisk : ∀ x, x ≠ bmap w.disk A (k / NENTS) → w'.disk x = w.disk x := by
      intro x hx
      obtain ⟨-, -, -, de, -, ⟨-, hw⟩ | ⟨-, -, l, -, -, rfl⟩⟩ := hhit
      · rcases hw.stored.disk with heq | heq
        · rw [heq]
        · rw [heq, Function.update_of_ne hx]
      · exact Function.update_of_ne hx _ _
    refine h.kept_before henv fun x hx => hdisk x ?_
    have hge := h.sound.data_ge hdata
    omega

end WellPlaced

/-! ## The calls -/

/-- The two return the same, and when this is success the states even out. -/
abbrev SameCall (p : Ptr) {α : Type} (status : α → Int) : α → α → World → World → Prop :=
  fun r r' w v => r = r' ∧ (status r = 0 → Even p w v)

theorem even_sbBread (b : Nat) : InStep (Even p) (sbBread b) := by
  intro w v h
  have hw : w.env.io w.log.length = .ok := h.quiet _
  have hv : v.env.io v.log.length = .ok := h.env ▸ h.quiet _
  exact .ok ⟨by simp only [hw, hv], h.env, h.quiet, h.size, h.ino, h.nonzero, h.disk⟩

/-- What comes after nothing is left to store. -/
theorem alike_rest {α : Type} {status : α → Int} {ctx : InodeCtx} {m : Fs α} (hino : I.ino ≠ 0)
    (hm : InStep (Even p) m) : Alike (CtxBack p I ctx True) (SameCall p status) m m :=
  hm.weaken (fun _ _ h => h.1.even hino (h.2 trivial)) fun _ _ _ _ h => ⟨h.1, fun _ => h.2⟩

/-- An error that is returned. -/
theorem alike_failed {α : Type} {R : World → World → Prop} {status : α → Int} {r : α}
    (hr : status r ≠ 0) : Alike R (SameCall p status) (pure r : Fs α) (pure r) :=
  Alike.pure fun _ _ _ => ⟨rfl, fun h0 => absurd h0 hr⟩

/-- The context has been read. -/
theorem alike_opened {α : Type} {status : α → Int} {f : Int × InodeCtx → Fs α}
    (hf : Alike (Before p I A) (SameCall p status) (f (0, openCtx I A)) (f (0, openCtx I A))) :
    Alike (Before p I A) (SameCall p status) (xv6InitIctx p >>= f) (xv6InitIctx p >>= f) :=
  Alike.bind alike_open fun r r' => by
    rintro w v ⟨⟨rfl, rfl⟩, h⟩
    exact hf w v h

/-- A part that works on the disk has left a context, which is going to be written back. -/
theorem alike_worked {α β : Type} {status : β → Int} {m : Fs α} {f : α → Fs β}
    (ctxOf : α → InodeCtx) (P : α → Prop) (hm : InTwins p { I with priv := some A } m)
    (hF : ∀ w r w', WellPlaced I A w → Returns m w r w' → P r → Kept I (ctxOf r).addrs w')
    (hf : ∀ r, Alike (fun w v => Twins p { I with priv := some A } w v ∧
      (P r → Kept I (ctxOf r).addrs w)) (SameCall p status) (f r) (f r)) :
    Alike (Before p I A) (SameCall p status) (m >>= f) (m >>= f) :=
  Alike.bind (alike_part (F := fun r w => P r → Kept I (ctxOf r).addrs w) hm
      hF) fun r r' => by
    rintro w v ⟨⟨rfl, ht⟩, hk⟩
    exact hf r w v ⟨ht, hk⟩

theorem alike_inodeBlock (hino : I.ino ≠ 0) (i : Nat) :
    Alike (Before p I A) (SameCall p (·.1)) (xv6InodeBlock p i) (xv6InodeBlock p i) :=
  alike_opened <| Alike.ite (fun h => absurd rfl h) fun _ =>
    alike_worked (·.2.2) (fun _ => True) (alike_inodeAddr _ _ _)
      (fun _ _ _ hw hrun _ => hw.lookup hrun) fun ⟨_, _, _⟩ =>
    Alike.bind alike_writeBack fun _ _ => alike_rest hino <|
      .ite (.pure _) <| .ite (.seq (inStep_assert _) fun _ => .pure _) <|
        .seq (even_sbBread _) fun _ => .seq (inStep_assert _) fun _ => .ite (.pure _) (.pure _)

theorem alike_inodeWblock (hino : I.ino ≠ 0) (i : Nat) :
    Alike (Before p I A) (SameCall p (·.1)) (xv6InodeWblock p i) (xv6InodeWblock p i) :=
  alike_opened <| Alike.ite (fun h => absurd rfl h) fun _ =>
    alike_worked (·.2.2) (fun r => r.1 = 0 ∧ r.2.2.dirty = false) (alike_inodeAddr _ _ _)
      (fun _ ⟨_, _, _⟩ _ hw hrun ⟨he, hd⟩ => hw.attach hrun he hd) fun ⟨_, _, _⟩ =>
    Alike.bind alike_writeBack fun _ _ =>
      Alike.ite (fun hne => alike_failed hne) fun he =>
      Alike.ite (fun _ => alike_failed (by decide)) fun _ =>
      Alike.seq (ctxBack_sbBread _) fun _ =>
      Alike.ite (fun _ => alike_failed (by decide)) fun _ =>
      Alike.bind ((alike_store hino).weaken
        (fun _ _ h => ⟨h.1, fun hd => h.2 ⟨not_not.mp he, hd⟩⟩) fun _ _ _ _ h => h) fun _ _ =>
      Alike.pure fun _ _ ⟨⟨h0, h0'⟩, h⟩ => ⟨by rw [h0, h0'], fun _ => h⟩

/-- The two look at the type of the inode, which is the same. -/
theorem alike_getInode {α : Type} {status : α → Int} {f : Inode → Fs α}
    (hsame : ∀ ino ino', ino'.fmt = ino.fmt → f ino' = f ino)
    (hf : ∀ ino, ino.fmt = I.fmt → Alike (Before p I A) (SameCall p status) (f ino) (f ino)) :
    Alike (Before p I A) (SameCall p status) (getInode p >>= f) (getInode p >>= f) := by
  rintro w v ⟨h, hm⟩
  have hfmt : (v.inodes p).fmt = (w.inodes p).fmt := by rw [h.bare, h.inode]
  have hrun := hf (w.inodes p) (by rw [h.inode]) w v ⟨h, hm⟩
  change SameEnd _ ((f (w.inodes p)).run w) ((f (v.inodes p)).run v)
  rwa [hsame _ _ hfmt]

theorem alike_findInum (hino : I.ino ≠ 0) {name : FileName} (hname : NameOk name) :
    Alike (Before p I A) (SameCall p (·.1)) (xv6FindInum p name) (xv6FindInum p name) :=
  alike_getInode (fun _ _ h => by rw [h]) fun _ hfmt =>
    Alike.ite (fun _ => alike_failed (by decide)) fun hdir =>
    alike_opened <| Alike.ite (fun h => absurd rfl h) fun _ =>
    alike_worked (·.2.1) (fun _ => True) (alike_dirIterate _ _ _ _ _)
      (fun _ ⟨_, _, _⟩ _ hw hrun _ => hw.search (hfmt ▸ not_not.mp hdir) (deFind_seeker name)
        (not_matches_zero hname) (le_refl 0) (by decide) hrun) fun ⟨_, _, _⟩ =>
    Alike.bind alike_writeBack fun _ _ => alike_rest hino <|
      .seq (inStep_assert _) fun _ => .pure _

theorem alike_dirErase (hino : I.ino ≠ 0) {name : FileName} (hname : NameOk name) :
    Alike (Before p I A) (SameCall p id) (xv6DirErase p name) (xv6DirErase p name) :=
  alike_getInode (fun _ _ h => by rw [h]) fun _ hfmt =>
    Alike.ite (fun _ => alike_failed (by decide)) fun hdir =>
    alike_opened <| Alike.ite (fun h => absurd rfl h) fun _ =>
    alike_worked (·.2.1) (fun _ => True) (alike_dirIterate _ _ _ _ _)
      (fun _ ⟨_, _, _⟩ _ hw hrun _ => hw.search (hfmt ▸ not_not.mp hdir) (deErase_seeker name)
        (not_matches_zero hname) (by decide : 0 ≤ 2) (by decide) hrun) fun ⟨_, _, _⟩ =>
    Alike.bind alike_writeBack fun _ _ => alike_rest hino <|
      .seq (inStep_assert _) fun _ => .pure _

theorem alike_dentryInsert (hino : I.ino ≠ 0) (name : FileName) (inum : Nat) :
    Alike (Before p I A) (SameCall p id) (xv6DentryInsert p name inum)
      (xv6DentryInsert p name inum) :=
  alike_getInode (fun _ _ h => by rw [h]) fun _ hfmt =>
    Alike.ite (fun _ => alike_failed (by decide)) fun hdir =>
    Alike.ite (fun _ => alike_failed (by decide)) fun _ =>
    Alike.ite (fun _ => alike_failed (by decide)) fun _ =>
    alike_opened <| Alike.ite (fun h => absurd rfl h) fun _ =>
    alike_worked (·.2.1) (fun r => r.1 = 0 ∧ r.2.1.dirty = false) (alike_dirIterate _ _ _ _ _)
      (fun _ ⟨_, _, _⟩ _ hw hrun ⟨he, hd⟩ => hw.insertion (hfmt ▸ not_not.mp hdir) hrun he hd)
      fun ⟨_, _, _⟩ =>
    Alike.bind alike_writeBack fun _ _ => Alike.ite
      (fun he => (alike_store hino).weaken (fun _ _ h => ⟨h.1, fun hd => h.2 ⟨he, hd⟩⟩)
        fun _ _ _ _ ⟨⟨h0, h0'⟩, h⟩ => ⟨h0.trans h0'.symm, fun _ => h⟩)
      fun hne => alike_failed hne

/-! ### Clearing -/

theorem alike_setAddrs (addrs : Addrs) :
    Alike (Twins p { I with priv := some A }) (fun _ _ => Twins p { I with priv := some addrs })
      (InodeCtx.writeBack ⟨addrs, 0, false⟩ p) (InodeCtx.writeBack ⟨addrs, 0, false⟩ p) := by
  intro w v h
  refine .ok ⟨h.env, h.quiet, h.disk, h.hint, ?_, ?_⟩
  · simp [h.inode]
  · simp [h.bare]

/-- A cleared inode is written back with its addresses in core, -/
theorem finish_cached (addrs : Addrs) (hq : Quiet w.env) (hino : I.ino ≠ 0)
    (hw : w.inodes p = { I with priv := some A }) :
    ∃ w', Returns (xv6InodeClear.finish p addrs) w 0 w' ∧ w'.env = w.env ∧
      w'.inodes = Function.update w.inodes p
        { I with priv := some (addrs.set NDIRECT 0), size := 0, dirty := true } ∧
      w'.disk = if w.env.rdonly then w.disk else syncDisk w.env w.disk
        { I with priv := some (addrs.set NDIRECT 0), size := 0, dirty := true } := by
  obtain ⟨w₁, hsync, hdisk, hinodes⟩ := sync_settles (p := p) (w := { w with
    inodes := Function.update w.inodes p
      { I with priv := some (addrs.set NDIRECT 0), size := 0, dirty := true } }) hq
    (by simpa using hino)
  have henv := Runs.env_eq hsync
  unfold settledDisk at hdisk
  simp only [Function.update_self] at hdisk
  refine ⟨w₁, ?_, henv, hinodes, hdisk⟩
  simp only [Returns, xv6InodeClear.finish, InodeCtx.writeBack, markInodeDirty, hw,
    runs_bind_modifyInode, runs_bind_getInode, Function.update_self, Function.update_idem,
    Option.map_some]
  exact hsync

/-- or on the stack. -/
theorem finish_uncached (addrs : Addrs) (hq : Quiet w.env) (hino : I.ino ≠ 0)
    (hw : w.inodes p = { I with priv := none }) :
    ∃ w', Returns (xv6InodeClear.finish p addrs) w 0 w' ∧ w'.env = w.env ∧
      w'.inodes = Function.update w.inodes p { I with priv := none, size := 0, dirty := true } ∧
      w'.disk = if w.env.rdonly then w.disk else syncDisk w.env w.disk
        { I with priv := some (addrs.set NDIRECT 0), size := 0, dirty := true } := by
  obtain ⟨w₁, hsync, hdisk, hinodes⟩ := sync_settles (p := p) (w := { w with
    inodes := Function.update w.inodes p
      { I with priv := some (addrs.set NDIRECT 0), size := 0, dirty := true } }) hq
    (by simpa using hino)
  have henv := Runs.env_eq hsync
  unfold settledDisk at hdisk
  simp only [Function.update_self] at hdisk
  refine ⟨{ w₁ with
    inodes := Function.update w₁.inodes p { I with priv := none, size := 0, dirty := true } }, ?_,
    henv, by rw [hinodes, Function.update_idem], hdisk⟩
  simp only [Returns, xv6InodeClear.finish, InodeCtx.writeBack, markInodeDirty, hw,
    runs_bind_modifyInode, runs_bind_getInode, Function.update_self, Function.update_idem,
    Option.map_none]
  refine (returns_bind hsync).mpr ?_
  simp only [Returns, runs_bind_modifyInode, hinodes, Function.update_self]
  simp

theorem alike_finish (hino : I.ino ≠ 0) (addrs : Addrs) :
    Alike (Twins p { I with priv := some A }) (SameCall p id) (xv6InodeClear.finish p addrs)
      (xv6InodeClear.finish p addrs) := by
  intro w v h
  obtain ⟨w', hw, henv, hall, hdisk⟩ := finish_cached addrs h.quiet hino h.inode
  obtain ⟨v', hv, henv', hall', hdisk'⟩ := finish_uncached addrs (h.env ▸ h.quiet) hino
    h.bare
  have hin := (congrFun hall p).trans (Function.update_self _ _ _)
  have hin' := (congrFun hall' p).trans (Function.update_self _ _ _)
  rw [returns_iff.mp hw, returns_iff.mp hv]
  refine .ok ⟨rfl, fun _ => ⟨by rw [henv', henv, h.env], by rw [henv]; exact h.quiet,
    by rw [hin, hin'], by rw [hin, hin'], by rw [hin]; exact hino, ?_⟩⟩
  unfold settledDisk
  rw [hin, hin', henv, henv', hdisk, hdisk', h.env, h.disk]
  by_cases hro : w.env.rdonly = true
  · simp only [hro, if_true]
  · rw [if_neg hro, if_neg hro, if_neg hro, syncDisk_again rfl rfl rfl (.inl rfl)]
    exact syncDisk_again rfl rfl rfl (.inr rfl)

theorem alike_inodeClear (hino : I.ino ≠ 0) :
    Alike (Before p I A) (SameCall p id) (xv6InodeClear p) (xv6InodeClear p) :=
  alike_opened <| Alike.ite (fun h => absurd rfl h) fun _ =>
    Alike.bind ((alike_clearDirect _ _ _).weaken (fun _ _ h => h.1) fun _ _ _ _ h => h)
      fun addrs addrs' => by
    rintro w v ⟨rfl, h⟩
    refine Alike.bind (alike_setAddrs addrs) (fun _ _ => Alike.ite (fun _ => ?_) fun _ =>
      alike_finish hino addrs) w v h
    exact Alike.seq (alike_sbBread _) fun _ =>
      Alike.ite (fun _ => alike_failed (by decide)) fun _ =>
      Alike.seq (alike_clearEntries _ _ _) fun _ => Alike.seq (alike_bfree _) fun _ =>
        alike_finish hino addrs

/-! ## Cached and uncached alike -/

/-- A call that succeeds from `w` succeeds from `v` and the other way round, with the same result;
    and when `xv6_sync_inode` has followed, the size of inode `p` and the disk are the same. -/
def SameSynced (p : Ptr) (w v : World) {α : Type} (status : α → Int) (m : Fs α) : Prop :=
  ∀ r, status r = 0 →
    ((∃ w', Returns m w r w') ↔ ∃ v', Returns m v r v') ∧
    ∀ w' v', Returns m w r w' → Returns m v r v' →
      ∃ w₂ v₂, Returns (xv6SyncInode p) w' 0 w₂ ∧ Returns (xv6SyncInode p) v' 0 v₂ ∧
        (v₂.inodes p).size = (w₂.inodes p).size ∧ v₂.disk = w₂.disk

theorem SameSynced.of_alike {α : Type} {status : α → Int} {m : Fs α}
    (h : Alike (Before p I A) (SameCall p status) m m) (hb : Before p I A w v) :
    SameSynced p w v status m := by
  intro r hr
  refine ⟨⟨fun ⟨w', hw⟩ => ?_, fun ⟨v', hv⟩ => ?_⟩, fun w' v' hw hv => ?_⟩
  · obtain ⟨r', v', hv, rfl, -⟩ := h.right_of_left hb (returns_iff.mp hw)
    exact ⟨v', returns_iff.mpr hv⟩
  · obtain ⟨r', w', hw, rfl, -⟩ := h.left_of_right hb (returns_iff.mp hv)
    exact ⟨w', returns_iff.mpr hw⟩
  · obtain ⟨r', v₁, hv₁, rfl, heven⟩ := h.right_of_left hb (returns_iff.mp hw)
    obtain ⟨-, rfl⟩ := Returns.unique hv (returns_iff.mpr hv₁)
    have he := heven hr
    obtain ⟨w₂, hw₂, hdisk, hin⟩ := sync_settles he.quiet he.nonzero
    obtain ⟨v₂, hv₂, hdisk', hin'⟩ := sync_settles (he.env ▸ he.quiet) (he.ino ▸ he.nonzero)
    exact ⟨w₂, v₂, hw₂, hv₂, by rw [hin, hin', he.size], by rw [hdisk, hdisk', he.disk]⟩

end

/-- `v` is `w` with the addresses of inode `p` out of core. -/
def World.uncache (w : World) (p : Ptr) : World :=
  { w with inodes := Function.update w.inodes p { w.inodes p with priv := none } }

theorem uncached_alike {w : World} {p : Ptr} {A : Addrs} (hq : Quiet w.env)
    (hpriv : (w.inodes p).priv = some A) (hw : WellPlaced (w.inodes p) A w) :
    (∀ i, SameSynced p w (w.uncache p) (·.1) (xv6InodeBlock p i)) ∧
      (∀ i, SameSynced p w (w.uncache p) (·.1) (xv6InodeWblock p i)) ∧
      (∀ name, NameOk name → SameSynced p w (w.uncache p) (·.1) (xv6FindInum p name)) ∧
      (∀ name inum, SameSynced p w (w.uncache p) id (xv6DentryInsert p name inum)) ∧
      (∀ name, NameOk name → SameSynced p w (w.uncache p) id (xv6DirErase p name)) ∧
      SameSynced p w (w.uncache p) id (xv6InodeClear p) := by
  have hb : Before p (w.inodes p) A w (w.uncache p) := by
    refine ⟨⟨rfl, hq, rfl, rfl, ?_, ?_⟩, hw⟩
    · rw [← hpriv]
    · exact Function.update_self _ _ _
  have hino := hw.nonzero
  exact ⟨fun i => .of_alike (alike_inodeBlock hino i) hb,
    fun i => .of_alike (alike_inodeWblock hino i) hb,
    fun _ hname => .of_alike (alike_findInum hino hname) hb,
    fun name inum => .of_alike (alike_dentryInsert hino name inum) hb,
    fun _ hname => .of_alike (alike_dirErase hino hname) hb,
    .of_alike (alike_inodeClear hino) hb⟩

/-- The directory of '.' and '..', with its slot. -/
def slottedDir : World :=
  { oneBlockDir dotsBlock (oneBlock 20) 32 with
    disk := setSlot (oneBlockDir dotsBlock (oneBlock 20) 32).env
      (oneBlockDir dotsBlock (oneBlock 20) 32).disk 1
      ⟨T_DIR, 0, 0, 1, 32, fun i => UInt32.ofNat (oneBlock 20 i)⟩ }

theorem dots_uncached :
    SameSynced 0 slottedDir (slottedDir.uncache 0) id (xv6DentryInsert 0 [0x61] 2) ∧
      SameSynced 0 slottedDir (slottedDir.uncache 0) id (xv6InodeClear 0) := by
  have hplaced : WellPlaced (slottedDir.inodes 0) (oneBlock 20) slottedDir :=
    { sound := dotsDir_ready.sound
      table := by unfold FsInfo.TableOk; decide
      hint := dotsDir_ready.hint
      nonzero := by decide
      inTable := by unfold InTable; decide
      le := fun _ => by decide
      owned := by
        have halone : alone (oneBlock 20) = oneFile 0 20 := funext fun m => Function.update_apply ..
        rw [halone]
        exact exclusive_oneFile _ ⟨by decide, by decide +kernel⟩
      addrs := by
        refine (congrArg Dinode.addr slot_setSlot_self).trans (funext ?_)
        decide }
  obtain ⟨-, -, -, hinsert, -, hclear⟩ := uncached_alike (fun _ => rfl) rfl hplaced
  exact ⟨hinsert [0x61] 2, hclear⟩

/-- A directory in block 1, which is the block of the inode table with its own slot: four entries
    before the slot, and two in the bytes of it. -/
def tableDir : World :=
  { World.blank ⟨64, 0, 32, 0, 1, 1, 4⟩ 6 with
    disk := Function.update (fun _ => Buf.zero) 1 <|
      Block.setDinode 1 ⟨T_DIR, 0, 0, 1, 96, fun i => UInt32.ofNat (oneBlock 1 i)⟩ <|
      Block.setDirent 3 ⟨1, strncpy [0x63]⟩ <| Block.setDirent 2 ⟨1, strncpy [0x62]⟩ dotsBlock
    inodes := fun _ => ⟨1, .dir, 1, 96, some (oneBlock 1), false, true, 1⟩ }

theorem own_table_block :
    let w := tableDir
    Quiet w.env ∧ w.env.info.Sound ∧ HasSlot w.env (w.inodes 0).ino ∧
      (w.inodes 0).priv = some (slot w.env w.disk (w.inodes 0).ino).addr ∧ NameOk [0x61] ∧
      (∃ w', Returns (xv6DentryInsert 0 [0x61] 2) w 0 w') ∧
      ¬ SameSynced 0 w (w.uncache 0) id (xv6DentryInsert 0 [0x61] 2) := by
  have haddr : (slot tableDir.env tableDir.disk 1).addr = oneBlock 1 := by
    funext i
    revert i
    decide +kernel
  have hw := returns_after (m := xv6DentryInsert 0 [0x61] 2) (w := tableDir) (a := 0)
    (by decide +kernel)
  have hv := returns_after (m := xv6DentryInsert 0 [0x61] 2) (w := tableDir.uncache 0) (a := 0)
    (by decide +kernel)
  refine ⟨fun _ => rfl, ⟨by decide, by decide⟩, by unfold HasSlot; decide,
    congrArg some haddr.symm, ⟨by simp, by simp⟩, ⟨_, hw⟩, fun hsame => ?_⟩
  obtain ⟨w₂, v₂, hw₂, hv₂, -, hdisk⟩ := (hsame 0 rfl).2 _ _ hw hv
  obtain ⟨-, rfl⟩ := hw₂.unique (returns_after (a := 0) (by decide +kernel))
  obtain ⟨-, rfl⟩ := hv₂.unique (returns_after (a := 0) (by decide +kernel))
  -- with the addresses in core the new entry is lost
  have hlost := congrArg (fun d => ((d 1).dirent 5).inum) hdisk
  exact absurd hlost (by decide +kernel)

end Xv6fs
