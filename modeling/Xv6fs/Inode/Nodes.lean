/-
  What the operations leave of the inode tree.

  Apart from the functions that find, create and free in-core inodes, none touches the tree, the
  number of an inode, its kind or its references, and each changes the other members of the inodes
  it is given only (`SameNodes`). The allocation hint stays inside the data area.
-/
import Xv6fs.Lib.Keeps
import Xv6fs.Fs.Fill
import Xv6fs.Model.File

namespace Xv6fs

open Prog (Keeps)

/-- What an in-core inode is known by: its number, its kind, whether it is hashed, and how often
    `xv6_find_inode` has returned it. -/
def Inode.node (ino : Inode) : Nat × Fmt × Bool × Nat :=
  (ino.ino, ino.fmt, ino.hashed, ino.refcount)

/-- The tree and its nodes are as they were, and so are all inodes but those of `P`. -/
structure SameNodes (P : Ptr → Prop) (w w' : World) : Prop where
  env : w'.env = w.env
  tree : w'.tree = w.tree
  next : w'.next = w.next
  node : ∀ q, (w'.inodes q).node = (w.inodes q).node
  other : ∀ q, ¬ P q → w'.inodes q = w.inodes q
  hint : w.env.info.Sound → HintOk w.env w.hint → HintOk w.env w'.hint

variable {P Q : Ptr → Prop}

instance : IsPreorder World (SameNodes P) where
  refl _ := ⟨rfl, rfl, rfl, fun _ => rfl, fun _ _ => rfl, fun _ h => h⟩
  trans w w' w'' h h' :=
    { env := h'.env.trans h.env
      tree := h'.tree.trans h.tree
      next := h'.next.trans h.next
      node := fun q => (h'.node q).trans (h.node q)
      other := fun q hq => (h'.other q hq).trans (h.other q hq)
      hint := fun hg hh => by
        have hh' := h'.hint
        rw [h.env] at hh'
        exact hh' hg (h.hint hg hh) }

namespace SameNodes

variable {w w' : World}

theorem weaken (h : SameNodes P w w') (hPQ : ∀ q, P q → Q q) : SameNodes Q w w' :=
  ⟨h.env, h.tree, h.next, h.node, fun q hq => h.other q fun hp => hq (hPQ q hp), h.hint⟩

theorem ino (h : SameNodes P w w') (q : Ptr) : (w'.inodes q).ino = (w.inodes q).ino :=
  congrArg Prod.fst (h.node q)

theorem fmt (h : SameNodes P w w') (q : Ptr) : (w'.inodes q).fmt = (w.inodes q).fmt :=
  congrArg (·.2.1) (h.node q)

theorem hashed (h : SameNodes P w w') (q : Ptr) : (w'.inodes q).hashed = (w.inodes q).hashed :=
  congrArg (·.2.2.1) (h.node q)

theorem refcount (h : SameNodes P w w') (q : Ptr) :
    (w'.inodes q).refcount = (w.inodes q).refcount :=
  congrArg (·.2.2.2) (h.node q)

/-- The block layer alone has changed. -/
theorem of_disk (w : World) (d : Disk) (l : List Event) :
    SameNodes P w { w with disk := d, log := l } :=
  ⟨rfl, rfl, rfl, fun _ => rfl, fun _ _ => rfl, fun _ h => h⟩

end SameNodes

/-! ## Primitives -/

theorem keeps_change {R : World → World → Prop} {f : World → World}
    {hf : ∀ w, (f w).env = w.env ∧ (f w).log = w.log} (h : ∀ w, R w (f w)) :
    Keeps R (change f hf) := by
  intro w u w' hrun
  obtain rfl := (runs_change _ _ _ _ _).mp (returns_iff.mpr hrun)
  exact h w

theorem keeps_sbBread (b : Nat) : Keeps (SameNodes P) (sbBread b) :=
  .step fun w => .of_disk w w.disk _

theorem keeps_syncBuffer (b : Nat) (blk : Block) : Keeps (SameNodes P) (syncBuffer b blk) :=
  .step fun w => .of_disk w _ _

theorem keeps_bstore (b : Nat) (blk : Block) : Keeps (SameNodes P) (bstore b blk) :=
  keeps_change fun w => .of_disk w _ w.log

theorem keeps_getEnv : Keeps (SameNodes P) getEnv := .bind .get fun _ => .pure _

theorem keeps_getInode (p : Ptr) : Keeps (SameNodes P) (getInode p) := .bind .get fun _ => .pure _

theorem keeps_bdata (b : Nat) : Keeps (SameNodes P) (bdata b) := .bind .get fun _ => .pure _

theorem keeps_assert (c : Prop) [Decidable c] : Keeps (SameNodes P) (xv6Assert c) :=
  .ite (.pure _) (.halt _)

theorem keeps_modifyInode {p : Ptr} {f : Inode → Inode} (hp : P p)
    (hf : ∀ ino, (f ino).node = ino.node) : Keeps (SameNodes P) (modifyInode p f) :=
  keeps_change fun w => by
    refine ⟨rfl, rfl, rfl, fun q => ?_, fun q hq => ?_, fun _ h => h⟩
    · by_cases hqp : q = p
      · rw [hqp]
        exact (congrArg Inode.node (Function.update_self p _ w.inodes)).trans (hf _)
      · exact congrArg Inode.node (Function.update_of_ne hqp _ w.inodes)
    · have hqp : q ≠ p := by
        rintro rfl
        exact hq hp
      exact Function.update_of_ne hqp _ w.inodes

/-! ## Blocks -/

/-- Where the hint is not looked at: the allocator changes the disk and the hint. -/
def DiskOnly (w w' : World) : Prop := ∃ d hint l, w' = { w with disk := d, hint := hint, log := l }

instance : IsPreorder World DiskOnly where
  refl w := ⟨w.disk, w.hint, w.log, rfl⟩
  trans := by
    rintro w w' w'' ⟨d, hint, l, rfl⟩ ⟨d', hint', l', rfl⟩
    exact ⟨d', hint', l', rfl⟩

section DiskOnly

private theorem diskOnly_sbBread (b : Nat) : Keeps DiskOnly (sbBread b) :=
  .step fun w => ⟨w.disk, w.hint, _, rfl⟩

private theorem diskOnly_syncBuffer (b : Nat) (blk : Block) : Keeps DiskOnly (syncBuffer b blk) :=
  .step fun w => ⟨_, w.hint, _, rfl⟩

private theorem diskOnly_setHint (n : Nat) : Keeps DiskOnly (setHint n) :=
  keeps_change fun w => ⟨w.disk, n, w.log, rfl⟩

private theorem diskOnly_getEnv : Keeps DiskOnly getEnv := .bind .get fun _ => .pure _

private theorem diskOnly_bdata (b : Nat) : Keeps DiskOnly (bdata b) := .bind .get fun _ => .pure _

private theorem diskOnly_bzero (b : Nat) : Keeps DiskOnly (xv6Bzero b) :=
  .bind diskOnly_getEnv fun _ => .ite (.pure _) <|
    .bind (diskOnly_sbBread b) fun _ => .ite (.pure _) (diskOnly_syncBuffer _ _)

private theorem diskOnly_claim (bitblock index mask block alloc : Nat) :
    Keeps DiskOnly (xv6BallocRng.claim bitblock index mask block alloc) :=
  .bind diskOnly_getEnv fun _ => .bind (diskOnly_bzero alloc) fun _ =>
    .ite (.bind (diskOnly_setHint _) fun _ => .pure _) <|
      .bind (diskOnly_bdata _) fun _ => .bind (diskOnly_syncBuffer _ _) fun _ =>
        .bind (diskOnly_setHint _) fun _ => .pure _

private theorem diskOnly_scan (bitblock block : Nat) :
    ∀ n alloc, Keeps DiskOnly (xv6BallocRng.scan bitblock block n alloc)
  | 0, _ => .pure _
  | n + 1, alloc => .bind diskOnly_getEnv fun _ => .bind (diskOnly_bdata _) fun _ =>
      .ite (diskOnly_claim _ _ _ _ _) (diskOnly_scan bitblock block n (alloc + 1))

private theorem diskOnly_tryBalloc (block last : Nat) :
    ∀ fuel alloc, Keeps DiskOnly (xv6BallocRng.tryBalloc block last fuel alloc)
  | 0, _ => .halt _
  | fuel + 1, _ => .bind diskOnly_getEnv fun _ => .bind (diskOnly_sbBread _) fun _ =>
      .ite (.bind (diskOnly_setHint _) fun _ => .pure _) <|
        .bind (diskOnly_scan _ _ _ _) fun _ =>
          .ite (diskOnly_tryBalloc _ last fuel _) (.pure _)

private theorem diskOnly_rng (block start last : Nat) :
    Keeps DiskOnly (xv6BallocRng block start last) :=
  .bind diskOnly_getEnv fun _ => diskOnly_tryBalloc _ _ _ _

private theorem diskOnly_wrapHint : Keeps DiskOnly xv6BallocUnsafe.wrapHint :=
  .bind diskOnly_getEnv fun _ => .bind .get fun _ => diskOnly_setHint _

private theorem diskOnly_second (hint block : Nat) :
    Keeps DiskOnly (xv6BallocUnsafe.second hint block) :=
  .bind diskOnly_getEnv fun _ =>
    .ite (.bind (diskOnly_rng _ _ _) fun _ => .ite (.bind diskOnly_wrapHint fun _ => .pure _)
      (.pure _)) (.pure _)

theorem diskOnly_balloc (block : Nat) : Keeps DiskOnly (xv6Balloc block) :=
  .bind diskOnly_getEnv fun _ => .ite (.pure _) <| .bind .get fun _ =>
    .ite (.bind (diskOnly_rng _ _ _) fun _ => .ite (.bind diskOnly_wrapHint fun _ => .pure _)
      (diskOnly_second _ _)) (diskOnly_second _ _)

end DiskOnly

theorem keeps_balloc (block : Nat) : Keeps (SameNodes P) (xv6Balloc block) := by
  intro w r w' h
  obtain ⟨d, hint, l, rfl⟩ := diskOnly_balloc block w r w' h
  refine ⟨rfl, rfl, rfl, fun _ => rfl, fun _ _ => rfl, fun hg hh => ?_⟩
  have hret : Returns (xv6Balloc block) w r { w with disk := d, hint := hint, log := l } :=
    returns_iff.mpr h
  cases hro : w.env.rdonly with
  | true =>
    obtain ⟨-, heq⟩ := xv6Balloc_rdonly hro hret
    rw [heq]
    exact hh
  | false =>
    obtain ⟨l', d', hint', heq, -, hb⟩ := xv6Balloc_spec hro hg.size_lt hh.2 hret
    have hsame : hint = hint' := congrArg World.hint heq
    rw [hsame]
    exact hb.hintOk hg hh

theorem keeps_bfree (block : Nat) : Keeps (SameNodes P) (xv6Bfree block) :=
  .bind keeps_getEnv fun _ => .ite (.pure _) <| .bind (keeps_assert _) fun _ =>
    .bind (keeps_assert _) fun _ => .bind (keeps_sbBread _) fun _ => .ite (.pure _) <|
      .bind (keeps_bdata _) fun _ => .ite (.pure _) (keeps_syncBuffer _ _)

section

variable {p : Ptr}

theorem keeps_indirect (inode : InodeCtx) (i : Nat) (alloc : Bool) :
    Keeps (SameNodes P) (xv6InodeAddr.indirect modcheck inode i alloc) :=
  .bind (keeps_sbBread _) fun _ => .ite (.pure _) <| .bind (keeps_bdata _) fun _ =>
    .ite (.ite (.pure _) <| .bind (keeps_balloc _) fun _ => .ite (.pure _) <| .ite (.pure _) <|
      .bind (keeps_bdata _) fun _ => .bind (keeps_syncBuffer _ _) fun _ => .pure _) (.pure _)

theorem keeps_inodeAddr (inode : InodeCtx) (i : Nat) (alloc : Bool) :
    Keeps (SameNodes P) (xv6InodeAddr modcheck inode i alloc) :=
  .ite (.pure _) <| .ite
    (.ite (.bind (keeps_balloc _) fun _ => .pure _) (.pure _)) <|
    .ite (.ite (.pure _) <| .bind (keeps_balloc _) fun _ => .ite (.pure _) <| .ite (.pure _) <|
      keeps_indirect _ _ _) (keeps_indirect _ _ _)

/-- A lookup in the block map touches no inode. -/
theorem inodeAddr_inodes {φ : Event → Prop} {w w' : World} {inode : InodeCtx} {i : Nat}
    {alloc : Bool} {r : Int × Nat × InodeCtx}
    (h : Runs φ (xv6InodeAddr modcheck inode i alloc) w r w') : w'.inodes = w.inodes := by
  have hsame : SameNodes (fun _ => False) w w' := (keeps_inodeAddr inode i alloc).via h
  funext q
  exact hsame.other q not_false

/-! ## Directories -/

section Iterate

variable {τ : Type} (cb : DiterCallback τ)

theorem keeps_body (i off lim blockno : Nat) (act : DiterAction) (ctx : τ) :
    Keeps (SameNodes P) (xv6DirIterate.body modcheck cb i off lim blockno act ctx) :=
  .ite (.bind (.lift _) fun _ => .pure _) <| .bind (keeps_sbBread _) fun _ => .ite (.pure _) <|
    .bind (keeps_bdata _) fun _ => .bind (.lift _) fun _ =>
      .ite (.bind (keeps_syncBuffer _ _) fun _ => .pure _) <|
        .bind (keeps_bstore _ _) fun _ => .pure _

theorem keeps_blocks (alloc : Bool) : ∀ (rounds i off size : Nat) (act : DiterAction)
    (dir : InodeCtx) (ctx : τ),
    Keeps (SameNodes P) (xv6DirIterate.blocks modcheck cb alloc rounds i off size act dir ctx)
  | 0, _, _, _, _, _, _ => .halt _
  | rounds + 1, i, _, _, _, _, _ => .bind (keeps_inodeAddr _ _ _) fun _ => .ite (.pure _) <|
      .bind (keeps_body cb _ _ _ _ _ _) fun _ => .ite (.pure _) <| .ite (.pure _) <|
        keeps_blocks alloc rounds (i + 1) 0 _ _ _ _

theorem keeps_extend (alloc : Bool) (dir : InodeCtx) (ctx : τ) :
    Keeps (SameNodes P) (xv6DirIterate.extend modcheck cb alloc dir ctx) :=
  .bind (keeps_inodeAddr _ _ _) fun _ => .ite (.pure _) <| .bind (keeps_sbBread _) fun _ =>
    .ite (.pure _) <| .bind (keeps_bdata _) fun _ => .bind (.lift _) fun _ =>
      .ite (.bind (keeps_syncBuffer _ _) fun _ => .pure _) <|
        .bind (keeps_bstore _ _) fun _ => .pure _

theorem keeps_dirIterate (dir : InodeCtx) (ctx : τ) (off : Nat) (rw : Bool) :
    Keeps (SameNodes P) (xv6DirIterate modcheck dir cb ctx off rw) :=
  .bind (keeps_assert _) fun _ => .ite (.pure _) <| .bind (keeps_blocks cb _ _ _ _ _ _ _ _) fun _ =>
    .ite (keeps_extend cb _ _ _) (.pure _)

/-- An iteration touches no inode. -/
theorem iterate_inodes {φ : Event → Prop} {w w' : World} {dir : InodeCtx} {ctx : τ} {off : Nat}
    {rw : Bool} {r : Int × InodeCtx × τ}
    (h : Runs φ (xv6DirIterate modcheck dir cb ctx off rw) w r w') : w'.inodes = w.inodes := by
  have hsame : SameNodes (fun _ => False) w w' := (keeps_dirIterate cb dir ctx off rw).via h
  funext q
  exact hsame.other q not_false

end Iterate

theorem keeps_dget : Keeps (SameNodes P) (xv6Dget p) :=
  .bind (keeps_getInode p) fun _ => .bind (keeps_assert _) fun _ => .bind keeps_getEnv fun _ =>
    .bind (keeps_sbBread _) fun _ => .ite (.pure _) <| .bind (keeps_bdata _) fun _ => .pure _

theorem keeps_initIctx : Keeps (SameNodes P) (xv6InitIctx p) :=
  .bind (keeps_getInode p) fun ino => by
    cases ino.priv with
    | some addrs => exact .pure _
    | none => exact .bind keeps_dget fun _ => .pure _

theorem keeps_syncInode : Keeps (SameNodes P) (xv6SyncInode p) :=
  .bind keeps_getEnv fun _ => .ite (.pure _) <| .bind (keeps_getInode p) fun _ =>
    .bind (keeps_assert _) fun _ => .bind (keeps_sbBread _) fun _ => .ite (.pure _) <|
      .bind (keeps_bdata _) fun _ => keeps_syncBuffer _ _

section

variable (hp : P p)

include hp

theorem keeps_writeBack (ictx : InodeCtx) : Keeps (SameNodes P) (ictx.writeBack p) :=
  keeps_modifyInode hp fun _ => rfl

theorem keeps_markInodeDirty : Keeps (SameNodes P) (markInodeDirty p) :=
  keeps_modifyInode hp fun _ => rfl

theorem keeps_ictxDirty (ictx : InodeCtx) : Keeps (SameNodes P) (xv6IctxDirty p ictx) :=
  .ite (.pure _) <| .bind (keeps_markInodeDirty hp) fun _ =>
    .bind (keeps_modifyInode hp fun _ => rfl) fun _ => .bind (keeps_getInode p) fun ino => by
      cases ino.priv with
      | some addrs => exact .pure _
      | none =>
        dsimp only
        exact .bind (keeps_modifyInode hp fun _ => rfl) fun _ => .bind keeps_syncInode fun _ =>
          .bind (keeps_modifyInode hp fun _ => rfl) fun _ => .pure _

theorem keeps_findInum (name : FileName) : Keeps (SameNodes P) (xv6FindInum p name) :=
  .bind (keeps_getInode p) fun _ => .ite (.pure _) <| .bind keeps_initIctx fun _ =>
    .ite (.pure _) <| .bind (keeps_dirIterate _ _ _ _ _) fun _ =>
      .bind (keeps_writeBack hp _) fun _ => .bind (keeps_assert _) fun _ => .pure _

theorem keeps_dentryInsert (name : FileName) (inum : Nat) :
    Keeps (SameNodes P) (xv6DentryInsert p name inum) :=
  .bind (keeps_getInode p) fun _ => .ite (.pure _) <| .ite (.pure _) <| .ite (.pure _) <|
    .bind keeps_initIctx fun _ => .ite (.pure _) <| .bind (keeps_dirIterate _ _ _ _ _) fun _ =>
      .bind (keeps_writeBack hp _) fun _ => .ite (keeps_ictxDirty hp _) (.pure _)

theorem keeps_dirErase (name : FileName) : Keeps (SameNodes P) (xv6DirErase p name) :=
  .bind (keeps_getInode p) fun _ => .ite (.pure _) <| .bind keeps_initIctx fun _ =>
    .ite (.pure _) <| .bind (keeps_dirIterate _ _ _ _ _) fun _ =>
      .bind (keeps_writeBack hp _) fun _ => .bind (keeps_assert _) fun _ => .pure _

theorem keeps_dirRmtest : Keeps (SameNodes P) (xv6DirRmtest p) :=
  .bind keeps_initIctx fun _ => .ite (.pure _) <| .bind (keeps_dirIterate _ _ _ _ _) fun _ =>
    .bind (keeps_writeBack hp _) fun _ => .bind (keeps_assert _) fun _ =>
      .ite (.pure _) (.pure _)

end

theorem keeps_dirInit (block inumParent inumThis : Nat) :
    Keeps (SameNodes P) (xv6DirInit block inumParent inumThis) :=
  .bind (keeps_sbBread _) fun _ => .ite (.bind (keeps_bfree _) fun _ => .pure _) <|
    .bind (keeps_bdata _) fun _ => .bind (keeps_syncBuffer _ _) fun _ =>
      .ite (.bind (keeps_bfree _) fun _ => .pure _) (.pure _)

/-! ## The inode table -/

theorem keeps_ialloc_blocks (dino : Option Dinode) : ∀ (n block off node : Nat),
    Keeps (SameNodes P) (xv6Ialloc.blocks dino n block off node)
  | 0, _, _, _ => .pure _
  | n + 1, block, off, node => .bind (keeps_sbBread _) fun _ => .ite (.pure _) <|
      .bind (keeps_bdata _) fun blk => by
        cases xv6Ialloc.slot blk (IPB - off) off with
        | none => exact keeps_ialloc_blocks dino n (block + 1) 0 _
        | some i =>
          cases dino with
          | none => exact .pure _
          | some dino => exact .bind (keeps_syncBuffer _ _) fun _ => .ite (.pure _) (.pure _)

theorem keeps_ialloc (dino : Option Dinode) : Keeps (SameNodes P) (xv6Ialloc dino) :=
  .bind keeps_getEnv fun _ => keeps_ialloc_blocks _ _ _ _ _

theorem keeps_ifree (inum : Nat) : Keeps (SameNodes P) (xv6Ifree inum) :=
  .bind keeps_getEnv fun _ => .bind (keeps_sbBread _) fun _ => .ite (.pure _) <|
    .bind (keeps_bdata _) fun _ => keeps_syncBuffer _ _

/-! ## Files -/

section

variable (hp : P p)

include hp

theorem keeps_inodeBlock (i : Nat) : Keeps (SameNodes P) (xv6InodeBlock p i) :=
  .bind keeps_initIctx fun _ => .ite (.pure _) <| .bind (keeps_inodeAddr _ _ _) fun _ =>
    .bind (keeps_writeBack hp _) fun _ => .ite (.pure _) <|
      .ite (.bind (keeps_assert _) fun _ => .pure _) <| .bind (keeps_sbBread _) fun _ =>
        .bind (keeps_assert _) fun _ => .ite (.pure _) (.pure _)

theorem keeps_inodeWblock (i : Nat) : Keeps (SameNodes P) (xv6InodeWblock p i) :=
  .bind keeps_initIctx fun _ => .ite (.pure _) <| .bind (keeps_inodeAddr _ _ _) fun _ =>
    .bind (keeps_writeBack hp _) fun _ => .ite (.pure _) <| .ite (.pure _) <|
      .bind (keeps_sbBread _) fun _ => .ite (.pure _) <|
        .bind (keeps_ictxDirty hp _) fun _ => .pure _

theorem keeps_readLoop (fileSize : Nat) : ∀ (rounds block boff nread cpos len : Nat)
    (mem : UserMem),
    Keeps (SameNodes P) (xv6FileRead.loop p fileSize rounds block boff nread cpos len mem)
  | 0, _, _, _, _, _, _ => .pure _
  | rounds + 1, _, _, _, _, _, _ => .ite (.pure _) <| .bind (keeps_inodeBlock hp _) fun r =>
      .ite (.pure _) <| by
        refine .bind ?_ fun _ => .ite (.pure _) (keeps_readLoop fileSize rounds _ _ _ _ _ _)
        cases r.2 with
        | none => exact .pure _
        | some bh => exact .bind (keeps_bdata _) fun _ => .pure _

theorem keeps_fileRead (mem : UserMem) (len pos : Nat) :
    Keeps (SameNodes P) (xv6FileRead p mem len pos) :=
  .bind (keeps_getInode p) fun _ => .bind (keeps_readLoop hp _ _ _ _ _ _ _ _) fun _ => .pure _

theorem keeps_writeLoop (buf : UserBuf) : ∀ (rounds block boff nwrite cpos len : Nat),
    Keeps (SameNodes P) (xv6FileWrite.loop p buf rounds block boff nwrite cpos len)
  | 0, _, _, _, _, _ => .pure _
  | rounds + 1, _, _, _, _, _ => .ite (.pure _) <| .bind (keeps_inodeWblock hp _) fun r =>
      .ite (.pure _) <| by
        cases r.2 with
        | none => exact .halt _
        | some bh =>
          exact .bind (keeps_bdata _) fun _ => .ite
            (.bind (keeps_syncBuffer _ _) fun _ => .pure _) <|
            .bind (keeps_syncBuffer _ _) fun _ => .ite (.pure _) <|
              keeps_writeLoop buf rounds _ _ _ _ _

theorem keeps_fileWrite (append : Bool) (buf : UserBuf) (len pos : Nat) :
    Keeps (SameNodes P) (xv6FileWrite p append buf len pos) :=
  .bind (keeps_getInode p) fun _ => .bind (keeps_writeLoop hp _ _ _ _ _ _ _) fun _ =>
    .bind (keeps_modifyInode hp fun _ => rfl) fun _ => .pure _

theorem keeps_inodeClear_finish (addrs : Addrs) :
    Keeps (SameNodes P) (xv6InodeClear.finish p addrs) :=
  .bind (keeps_writeBack hp _) fun _ => .bind (keeps_modifyInode hp fun _ => rfl) fun _ =>
    .bind (keeps_markInodeDirty hp) fun _ => .bind (keeps_getInode p) fun ino => by
      cases ino.priv with
      | none =>
        dsimp only
        exact .bind (keeps_modifyInode hp fun _ => rfl) fun _ => .bind keeps_syncInode fun _ =>
          .bind (keeps_modifyInode hp fun _ => rfl) fun _ => .pure _
      | some addrs => exact keeps_syncInode

omit hp in
theorem keeps_inodeClear_direct : ∀ (n i : Nat) (addrs : Addrs),
    Keeps (SameNodes P) (xv6InodeClear.direct n i addrs)
  | 0, _, _ => .pure _
  | n + 1, i, _ => .ite (.bind (keeps_bfree _) fun _ => keeps_inodeClear_direct n (i + 1) _)
      (keeps_inodeClear_direct n (i + 1) _)

omit hp in
theorem keeps_inodeClear_entries (iaddr : Nat) : ∀ (n i : Nat),
    Keeps (SameNodes P) (xv6InodeClear.entries iaddr n i)
  | 0, _ => .pure _
  | n + 1, i => .bind (keeps_bdata _) fun _ =>
      .ite (.bind (keeps_bfree _) fun _ => keeps_inodeClear_entries iaddr n (i + 1))
        (keeps_inodeClear_entries iaddr n (i + 1))

theorem keeps_inodeClear : Keeps (SameNodes P) (xv6InodeClear p) :=
  .bind keeps_initIctx fun _ => .ite (.pure _) <| .bind (keeps_inodeClear_direct _ _ _) fun _ =>
    .bind (keeps_writeBack hp _) fun _ => .ite
      (.bind (keeps_sbBread _) fun _ => .ite (.pure _) <|
        .bind (keeps_inodeClear_entries _ _ _) fun _ => .bind (keeps_bfree _) fun _ =>
          keeps_inodeClear_finish hp _)
      (keeps_inodeClear_finish hp _)

/-! ## Links -/

theorem keeps_decLinkCount : Keeps (SameNodes P) (inodeDecLinkCount p) := by
  refine .bind (keeps_modifyInode hp fun ino => ?_) fun _ => keeps_markInodeDirty hp
  simp only [Inode.node]

theorem keeps_incLinkCount : Keeps (SameNodes P) (inodeIncLinkCount p) :=
  .bind (keeps_modifyInode hp fun _ => rfl) fun _ => keeps_markInodeDirty hp

theorem keeps_unlink {dir : Ptr} (hdir : P dir) (name : FileName) :
    Keeps (SameNodes P) (xv6Unlink dir p name) :=
  .bind (keeps_getInode p) fun _ => .bind (keeps_decLinkCount hp) fun _ =>
    .bind (keeps_getInode p) fun _ => .ite (keeps_dirErase hdir name) <|
      .bind (keeps_assert _) fun _ => .ite (.pure _) <| .bind (keeps_getInode dir) fun _ =>
        .ite (.pure _) <| .bind (keeps_inodeClear hp) fun _ => .ite (.pure _) <|
          .bind (keeps_dirErase hdir name) fun _ => keeps_ifree _

theorem keeps_link {dir : Ptr} (hdir : P dir) (name : FileName) :
    Keeps (SameNodes P) (xv6Link p dir name) :=
  .bind (keeps_getInode p) fun _ => .bind (keeps_getInode p) fun _ => .ite (.pure _) <|
    .bind (keeps_dentryInsert hdir name _) fun _ => .ite (.pure _) <|
      .bind (keeps_incLinkCount hp) fun _ => keeps_syncInode

theorem keeps_rmdir {dir : Ptr} (hdir : P dir) (name : FileName) :
    Keeps (SameNodes P) (xv6Rmdir dir p name) :=
  .bind (keeps_getInode dir) fun _ => .ite (.pure _) <| .bind (keeps_getInode p) fun _ =>
    .ite (.pure _) <| .bind (keeps_dirRmtest hp) fun _ => .ite (.pure _) (keeps_unlink hp hdir name)

theorem keeps_rename {newdir oldino : Ptr} (hnew : P newdir) (oldname newname : FileName)
    (badFlags : Bool) : Keeps (SameNodes P) (xv6Rename p oldino oldname newdir newname badFlags) :=
  .ite (.pure _) <| .ite (.pure _) <| .bind (keeps_dirErase hp oldname) fun _ => .ite (.pure _) <|
    .bind (keeps_findInum hnew newname) fun _ => .ite (.pure _) <| .ite (.pure _) <|
      .bind (keeps_getInode oldino) fun _ => keeps_dentryInsert hnew newname _

end

end

end Xv6fs
