/-
  What a creation that succeeds makes.

  `xv6_create` takes a free block, writes the first unused slot, fills in a new directory, and
  enters the name into the parent. When it returns 0 without I/O errors this is all it has done to
  the disk (`create_made`). The size of a new directory is stored in the byte order of the host,
  though, so on a big-endian host the directory is not the empty one that was asked for; and a
  parent without cached addresses is written back at once when it grows (`made_iff`).
-/
import Xv6fs.Dir.Added
import Xv6fs.Inode.Create

namespace Xv6fs

/-! ## The disk before the name is entered -/

/-- Block `b` has been taken and slot `n` written; nothing else has changed. -/
structure Prepared (w : World) (n b : Nat) (di : Dinode) (blk : Block) (d : Disk) : Prop where
  data : IsData w.env b
  free : bitSet w.env w.disk b = false
  slotAt : HasSlot w.env n
  bits : ∀ x, InBitmap w.env x → bitSet w.env d x = if x = b then true else bitSet w.env w.disk x
  slots : ∀ m, HasSlot w.env m → slot w.env d m = if m = n then di else slot w.env w.disk m
  blocks : ∀ x, IsData w.env x → d x = if x = b then blk else w.disk x
  front : ∀ x, x < w.env.info.inodestart → d x = w.disk x

/-- The block of a new directory. -/
def newDirBlock (num parent : Nat) : Block :=
  Block.setDirent 1 ⟨UInt16.ofNat parent, strncpy dotdot⟩
    (Block.setDirent 0 ⟨UInt16.ofNat num, strncpy dot⟩ Buf.zero)

section

variable {w w' : World} {A : Nat → Option Addrs} {dir q : Ptr} {nm : EntryName} {isdir : Bool}
  {n b : Nat} {di : Dinode} {blk : Block} {d : Disk} {e : Int}

namespace Prepared

/-- The steps that prepare the disk of a new file, and the one that fills in a new directory. -/
theorem of_handOut (hg : w.env.info.Sound) (hb : IsData w.env b)
    (hfree : bitSet w.env w.disk b = false) (hn : HasSlot w.env n) :
    Prepared w n b di Buf.zero (setSlot w.env (handOut w.env w.disk b) n di) where
  data := hb
  free := hfree
  slotAt := hn
  bits x hx := by
    rw [bitSet_congr (hn.setSlot_block hg (hg.bitmapBlock_ge hx))]
    exact bitSet_handOut hg w.disk hb hx
  slots m hm := by
    by_cases hmn : m = n
    · rw [if_pos hmn, hmn]
      exact slot_setSlot_self
    · have hlt := hm.block_lt hg
      have hds := hg.data_ge hb
      rw [if_neg hmn, hn.setSlot_ne hg hm hmn]
      unfold slot
      rw [handOut_block hg w.disk hb (.inl hlt), if_neg (by omega)]
  blocks x hx := by
    rw [hn.setSlot_block hg (hg.data_ge hx)]
    exact handOut_block hg w.disk hb (.inr hx.1)
  front x hx := by
    have hlt : x < w.env.info.bmapstart := hx.trans hn.start_lt
    have hds := hg.data_ge hb
    rw [hn.setSlot_front hg hx, handOut_block hg w.disk hb (.inl hlt), if_neg (by omega)]

theorem store (hg : w.env.info.Sound) (h : Prepared w n b di blk d) (blk' : Block) :
    Prepared w n b di blk' (Function.update d b blk') where
  data := h.data
  free := h.free
  slotAt := h.slotAt
  bits x hx := by
    rw [hg.bitSet_update d blk' hx h.data]
    exact h.bits x hx
  slots m hm := by
    have hlt := hm.block_lt hg
    have hds := hg.data_ge h.data
    rw [← h.slots m hm]
    unfold slot
    rw [Function.update_of_ne (by omega)]
  blocks x hx := by
    by_cases hxb : x = b
    · rw [hxb, Function.update_self, if_pos rfl]
    · rw [Function.update_of_ne hxb, h.blocks x hx, if_neg hxb, if_neg hxb]
  front x hx := by
    have hlt : x < w.env.info.bmapstart := hx.trans h.slotAt.start_lt
    have hds := hg.data_ge h.data
    rw [Function.update_of_ne (by omega), h.front x hx]

/-- What was in use is as it was. -/
theorem held (h : Prepared w n b di blk d) {x : Nat} (hx : Held w.env w.disk x) :
    x ≠ b ∧ d x = w.disk x ∧ Held w.env d x := by
  have hxb : x ≠ b := by
    rintro rfl
    have hfree := h.free
    rw [hx.2] at hfree
    cases hfree
  refine ⟨hxb, (h.blocks x hx.1).trans (if_neg hxb), hx.1, ?_⟩
  rw [h.bits x hx.inBitmap, if_neg hxb]
  exact hx.2

/-- The block that has been taken is owned by the new inode, and by no other. -/
theorem owned (h : Prepared w n b di blk d) (ho : Owned w.env w.disk A) :
    Owned w.env d (Function.update A n (some (oneBlock b))) := by
  refine Exclusive.step ho (n, .direct 0) b (fun hx => ?_) ⟨h.data, ?_⟩ fun p x hp => ?_
  · have hfree := h.free
    rw [hx.2] at hfree
    cases hfree
  · rw [h.bits b (FsInfo.Sound.inBitmap_of_lt h.data.2), if_pos rfl]
  · obtain ⟨m, r⟩ := p
    by_cases hm : m = n
    · subst hm
      refine .inr (owns_oneFile (d := d) ?_)
      rw [owns_of (Function.update_self _ _ _)] at hp
      rw [owns_of (if_pos rfl)]
      exact hp
    · left
      cases hA : A m with
      | none =>
        unfold owns at hp
        rw [Function.update_of_ne hm, hA] at hp
        cases hp
      | some a =>
        rw [owns_of (by rwa [Function.update_of_ne hm]), ownedAt_congr (d := w.disk) fun hz =>
          (h.held (ho.held_indirect hA hz)).2.1] at hp
        have hown := (owns_of hA).trans hp
        exact ⟨hown, (h.held (ho.held hown)).2.2⟩

end Prepared

/-! ## The steps -/

/-- In a zeroed block `strcpy` fills a name as `strncpy` does. -/
theorem strcpy_dots (parent : Nat) :
    let blk : Block := Block.setDirent 0
      ⟨UInt16.ofNat n, strcpy dot (Block.dirent Buf.zero 0).name⟩ Buf.zero
    Block.setDirent 1 ⟨UInt16.ofNat parent, strcpy dotdot (blk.dirent 1).name⟩ blk =
      newDirBlock n parent := by
  have hdot : strcpy dot Dirent.zero.name = strncpy dot := by decide
  have hdotdot : strcpy dotdot Dirent.zero.name = strncpy dotdot := by decide
  dsimp only
  rw [Block.dirent_zero, Block.dirent_setDirent_ne _ _ (by decide), Block.dirent_zero, hdot,
    hdotdot]
  rfl

/-- `xv6_dir_init` of a zeroed block without I/O errors. -/
theorem dirInit_quiet {parent : Nat} (h : Returns (xv6DirInit b parent n) w e w')
    (hq : Quiet w.env) (hz : w.disk b = Buf.zero) : e = 0 ∧ ∃ l, w' = { w with
      disk := Function.update w.disk b (newDirBlock n parent), log := l } := by
  simp only [xv6DirInit, Returns, quiet_bind_sbBread hq, true_and, Bool.not_true,
    Bool.false_eq_true, if_false, runs_bind_bdata] at h
  obtain ⟨e₁, w₁, hsync, hend⟩ := h.bind
  obtain ⟨-, rfl, rfl⟩ := (quiet_syncBuffer (w := w.logged _) hq).mp hsync
  rw [if_neg (by simp)] at hend
  obtain ⟨rfl, rfl⟩ := hend.pure
  have hblk : (w.logged (.bread b .ok)).disk b = Buf.zero := hz
  rw [hblk, strcpy_dots]
  exact ⟨rfl, .sync b .ok :: .bread b .ok :: w.log, rfl⟩

/-- The slot of a new inode with block `b`. -/
def newSlot (host : ByteOrder) (isdir : Bool) (b : Nat) : Dinode :=
  { newDinode host isdir with
    addrs := Function.update (newDinode host isdir).addrs 0 (UInt32.ofNat b) }

/-- The block of a new inode. -/
def newBlock (isdir : Bool) (n parent : Nat) : Block :=
  if isdir then newDirBlock n parent else Buf.zero

theorem createEnter_filled {name : FileName}
    (h : Returns (xv6Create.enter dir q name di n) w 0 w') :
    ∃ l, Returns (xv6DentryInsert dir name n) { w with
      inodes := Function.update w.inodes q ((w.inodes q).ofDinode di n), log := l } 0 w' := by
  obtain ⟨e₁, w₁, hinit, hrest⟩ := Prog.Via.bind h
  rcases hrest.ite with ⟨hne, hend⟩ | ⟨heq, hend⟩
  · exact absurd hend.pure.1 hne
  obtain rfl : e₁ = 0 := not_not.mp heq
  obtain ⟨-, ino, l, rfl, ⟨-, -, rfl⟩ | ⟨he, -⟩⟩ := xv6InitInode_spec hinit
  · exact ⟨l, hend⟩
  · rcases he with he | he <;> exact absurd he (by decide)

/-- How far a creation gets without I/O errors: it stops before it writes a slot, and may have taken
    a block then, or it comes to the steps on the prepared disk. -/
inductive AllocEnds (w : World) (dir q : Ptr) (name : FileName) (isdir : Bool) (e : Int)
    (w' : World) : Prop where
  | stopped {d : Disk} {hint : Nat} {l : List Event} (he : e ≠ 0) (hh : HintOk w.env hint)
      (hd : d = w.disk ∨ ∃ b, IsData w.env b ∧ bitSet w.env w.disk b = false ∧
        d = handOut w.env w.disk b)
      (hw : w' = { w with disk := d, hint := hint, log := l }) : AllocEnds w dir q name isdir e w'
  | entered {n b : Nat} {d : Disk} {hint : Nat} {l : List Event} (hrw : w.env.rdonly = false)
      (hn : FirstUnused w.env w.disk n) (hh : HintOk w.env hint)
      (hprep : Prepared w n b (newSlot w.env.host isdir b) (newBlock isdir n (w.inodes dir).ino) d)
      (h : Returns (xv6Create.enter dir q name (newSlot w.env.host isdir b) n)
        { w with disk := d, hint := hint, log := l } e w') : AllocEnds w dir q name isdir e w'

theorem createAlloc_ends {name : FileName} (hq : Quiet w.env) (hg : w.env.info.Sound)
    (hh : HintOk w.env w.hint) (hle : w.env.info.inodestart ≤ w.env.info.bmapstart)
    (h : Returns (xv6Create.alloc dir q name isdir) w e w') :
    AllocEnds w dir q name isdir e w' := by
  simp only [xv6Create.alloc, Returns, runs_bind_getEnv] at h
  obtain ⟨⟨e₁, b⟩, w₁, halloc, hrest⟩ := h.bind
  clear h
  cases hro : w.env.rdonly with
  | true =>
    obtain ⟨hr, rfl⟩ := xv6Balloc_rdonly hro halloc
    cases hr
    rcases hrest.ite with ⟨he, hend⟩ | ⟨heq, -⟩
    · obtain ⟨rfl, rfl⟩ := hend.pure
      exact .stopped he hh (.inl rfl) rfl
    · exact absurd heq (by decide)
  | false =>
  -- a free block
  obtain ⟨hr, ⟨l₁, rfl⟩, -⟩ | ⟨a, l₁, hint, hr, ha0, ha, hfree, rfl, hge, hle'⟩ :=
    balloc_faultless hro hg hh.1 hh.2 halloc (Returns.faultless hq halloc)
  · cases hr
    rcases hrest.ite with ⟨he, hend⟩ | ⟨heq, -⟩
    · obtain ⟨rfl, rfl⟩ := hend.pure
      exact .stopped he hh (.inl rfl) rfl
    · exact absurd heq (by decide)
  cases hr
  rcases hrest.ite with ⟨he, hend⟩ | ⟨-, hrest⟩
  · obtain ⟨rfl, rfl⟩ := hend.pure
    exact .stopped he ⟨hge, hle'⟩ (.inr ⟨b, ha, hfree, rfl⟩) rfl
  -- an unused slot
  obtain ⟨⟨e₂, n⟩, w₂, hialloc, hrest₂⟩ := hrest.bind
  have hnoio : e₂ ≠ - EIO :=
    (xv6Ialloc_errors (by exact hg.bmapstart_lt) (by exact hle)
      (Returns.calm (by exact hq) hialloc)).2.1 fun _ hev => hev
  obtain ⟨d, l₂, rfl, hia⟩ := xv6Ialloc_spec (by exact hg.bmapstart_lt) (by exact hle) hialloc
  generalize hdino : (some _ : Option Dinode) = dino at hia
  cases hia with
  | failed hfail =>
    rcases hrest₂.ite with ⟨he, hend⟩ | ⟨heq, -⟩
    · obtain ⟨rfl, rfl⟩ := hend.pure
      exact .stopped he ⟨hge, hle'⟩ (.inr ⟨b, ha, hfree, rfl⟩) rfl
    · rcases hfail with h | h <;> exact absurd (h.symm.trans (not_not.mp heq)) (by decide)
  | unwritten => exact absurd rfl hnoio
  | looked => cases hdino
  | @written _ _ hn =>
  cases hdino
  have hn' : FirstUnused w.env w.disk n := hn.balloc hg hh halloc ha0
  have hprep : Prepared w n b (newSlot w.env.host isdir b) Buf.zero
      (setSlot w.env (handOut w.env w.disk b) n (newSlot w.env.host isdir b)) :=
    .of_handOut hg ha hfree hn.lt
  rcases hrest₂.ite with ⟨hne, -⟩ | ⟨-, hrest₂⟩
  · exact absurd rfl hne
  rcases hrest₂.ite with ⟨hd, hrest₂⟩ | ⟨hd, hend⟩
  · -- a directory: its block is filled in
    obtain rfl : isdir = true := hd
    simp only [runs_bind_getInode] at hrest₂
    obtain ⟨e₃, w₃, hinit, hrest₃⟩ := hrest₂.bind
    obtain ⟨rfl, l₃, rfl⟩ := dirInit_quiet hinit hq ((hprep.blocks b ha).trans (if_pos rfl))
    rcases hrest₃.ite with ⟨hne, -⟩ | ⟨-, hend⟩
    · exact absurd rfl hne
    · exact .entered hro hn' ⟨hge, hle'⟩ (hprep.store hg _) hend
  · obtain rfl : isdir = false := by simpa using hd
    exact .entered hro hn' ⟨hge, hle'⟩ hprep hend

/-- What has been done when the name is about to be entered. -/
theorem createAlloc_prepared {name : FileName} (hq : Quiet w.env)
    (hg : w.env.info.Sound) (hh : HintOk w.env w.hint)
    (hle : w.env.info.inodestart ≤ w.env.info.bmapstart)
    (h : Returns (xv6Create.alloc dir q name isdir) w 0 w') :
    w.env.rdonly = false ∧ ∃ n b d hint l, FirstUnused w.env w.disk n ∧ HintOk w.env hint ∧
      Prepared w n b (newSlot w.env.host isdir b) (newBlock isdir n (w.inodes dir).ino) d ∧
      Returns (xv6DentryInsert dir name n) { w with
        disk := d
        hint := hint
        log := l
        inodes := Function.update w.inodes q
          ((w.inodes q).ofDinode (newSlot w.env.host isdir b) n) } 0 w' := by
  cases createAlloc_ends hq hg hh hle h with
  | stopped he => exact absurd rfl he
  | @entered n b d hint l hrw hn hh' hprep hend =>
    obtain ⟨l₄, hins⟩ := createEnter_filled hend
    exact ⟨hrw, n, b, d, hint, l₄, hn, hh', hprep, hins⟩

/-! ## The whole call -/

/-- A valid directory that is in use, in a table of at most 4096 blocks. -/
structure CreateSite (w : World) (A : Nat → Option Addrs) (dir : Ptr) : Prop
    extends InsertSite w A dir where
  next : dir < w.next
  nonzero : (w.inodes dir).ino ≠ 0
  used : (slot w.env w.disk (w.inodes dir).ino).type ≠ 0
  region : w.env.info.bmapstart ≤ w.env.info.inodestart + 4096

/-- From `w` to `w'` inode `n` has been made, with block `b`, and the directory at `dir` maps `nm`
    to it; nothing else has changed. -/
structure MadeAs (w : World) (A : Nat → Option Addrs) (dir : Ptr) (nm : EntryName) (isdir : Bool)
    (n b : Nat) (w' : World) : Prop where
  unused : FirstUnused w.env w.disk n
  fits : n < 2 ^ 16
  data : IsData w.env b
  free : bitSet w.env w.disk b = false
  slotAt : slot w.env w'.disk n = newSlot w.env.host isdir b
  map : dirMapAt w' dir = Function.update (dirMapAt w dir) nm (some (UInt16.ofNat n))
  parent : ValidDir w'.disk (w'.addrs dir) (w'.inodes dir).size
  block : w'.disk b = newBlock isdir n (w.inodes dir).ino
  slots : ∀ m, HasSlot w.env m → m ≠ n →
    (m = (w.inodes dir).ino → (w.inodes dir).priv ≠ none) →
    slot w.env w'.disk m = slot w.env w.disk m
  elsewhere : Elsewhere w.disk A (w.inodes dir).ino w'.disk
  bits : ∀ x, InBitmap w.env x → (bitSet w.env w'.disk x = true ↔
    bitSet w.env w.disk x = true ∨ x = b ∨ Owns w'.disk (w'.addrs dir) x)
  owned : Owned w.env w'.disk (Function.update (Function.update A n (some (oneBlock b)))
    (w.inodes dir).ino (some (w'.addrs dir)))
  core : w'.inodes w.next = Inode.fresh.ofDinode (newSlot w.env.host isdir b) n
  env : w'.env = w.env
  hint : HintOk w.env w'.hint
  node : (w'.inodes dir).node = (w.inodes dir).node

/-- An uncached parent whose slot has its size: the slot is as it was if there was room below the
    end, and only then. -/
def ParentStored (w : World) (dir : Ptr) (w' : World) : Prop :=
  (w.inodes dir).priv = none →
  (slot w.env w.disk (w.inodes dir).ino).size.toNat = (w.inodes dir).size →
  (slot w.env w'.disk (w.inodes dir).ino = slot w.env w.disk (w.inodes dir).ino ↔ RoomBelow w dir)

theorem HasSlot.fits_of_region {env : Env} (h : HasSlot env n)
    (hregion : env.info.bmapstart ≤ env.info.inodestart + 4096) : n < 2 ^ 16 := by
  simp only [HasSlot, IPB] at h
  omega

/-- What a call on the prepared disk adds to the directory. -/
theorem Added.madeAs {w₁ w₂ : World} (hs : CreateSite w A dir)
    (hprep : Prepared w n b (newSlot w.env.host isdir b) (newBlock isdir n (w.inodes dir).ino) d)
    (hn : FirstUnused w.env w.disk n) (hdisk : w₁.disk = d) (henv : w₁.env = w.env)
    (hnode : w₁.inodes dir = w.inodes dir)
    (hnext : w₁.inodes w.next = Inode.fresh.ofDinode (newSlot w.env.host isdir b) n)
    (hmap : dirMapAt w₁ dir = dirMapAt w dir) (haddrs : w₁.addrs dir = w.addrs dir)
    (hh : HintOk w₁.env w₁.hint)
    (h : Added w₁ (Function.update A n (some (oneBlock b))) dir nm (UInt16.ofNat n) w₂)
    (hend : w' = { w₂ with tree := w.next :: w₂.tree }) : MadeAs w A dir nm isdir n b w' := by
  have hg := hs.sound
  have hfits := HasSlot.fits_of_region hn.lt hs.region
  have hne : n ≠ (w.inodes dir).ino := by
    rintro rfl
    exact hs.used hn.unused
  have hdir : dir ≠ w.next := hs.next.ne
  have henv' : w₂.env = w.env := h.nodes.env.trans henv
  obtain ⟨hmap', hvalid, hgains, hown, hslots, -, hnodes⟩ := h
  rw [hdisk, henv, haddrs] at hgains
  rw [henv, hnode] at hown
  rw [henv, hdisk, hnode] at hslots
  have hkeep : ∀ x, Owns w.disk (w.addrs dir) x → d x = w.disk x := fun x hx =>
    (hprep.held (hs.owned.held_of_owns hs.at_dir hx)).2.1
  -- a block that is held and is not the directory's is as it was
  have hsame : ∀ x, Held w.env w.disk x → ¬ Owns w.disk (w.addrs dir) x →
      w₂.disk x = w.disk x := fun x hx hno => by
    obtain ⟨-, hx', hheld⟩ := hprep.held hx
    exact (hgains.blocks x hheld fun ho => hno ((owns_congr hkeep).mp ho)).trans hx'
  have hb : Held w.env d b := by
    refine ⟨hprep.data, ?_⟩
    rw [hprep.bits b (FsInfo.Sound.inBitmap_of_lt hprep.data.2), if_pos rfl]
  have hblock : w₂.disk b = newBlock isdir n (w.inodes dir).ino := by
    refine (hgains.blocks b hb fun ho => ?_).trans ((hprep.blocks b hprep.data).trans (if_pos rfl))
    have hheld := hs.owned.held_of_owns hs.at_dir ((owns_congr hkeep).mp ho)
    exact (hprep.held hheld).1 rfl
  subst hend
  refine ⟨hn, hfits, hprep.data, hprep.free, ?_, ?_, hvalid, hblock, fun m hm hmn hpriv => ?_,
    fun m other hmd hA j hj => ?_, fun x hx => ?_, hown, ?_, henv', ?_, ?_⟩
  · exact (hslots n hprep.slotAt fun he => absurd he hne).trans
      ((hprep.slots n hprep.slotAt).trans (if_pos rfl))
  · exact hmap'.trans (by rw [hmap])
  · exact (hslots m hm hpriv).trans ((hprep.slots m hm).trans (if_neg hmn))
  · have hother : ∀ x, Owns w.disk other x → w₂.disk x = w.disk x := fun x hx =>
      hsame x (hs.owned.held_of_owns hA hx) (hs.owned.not_owns hA hs.at_dir hmd.symm hx)
    exact ⟨bmap_congr hother, fblock_congr hj hother⟩
  · refine (hgains.bits x hx).trans ?_
    rw [hprep.bits x hx]
    by_cases hxb : x = b
    · simp [hxb]
    · simp only [hxb, if_false, false_or]
      rfl
  · exact (hnodes.other _ hdir.symm).trans hnext
  · have hhint := hnodes.hint (henv ▸ hg) hh
    rwa [henv] at hhint
  · rw [← hnode]
    exact hnodes.node dir

theorem create_made {o : Option Ptr} (hs : CreateSite w A dir)
    (hnone : dirMapAt w dir nm = none) (h : Returns (xv6Create dir nm.name isdir) w (0, o) w') :
    o = some w.next ∧ w.env.rdonly = false ∧ (∃ n b, MadeAs w A dir nm isdir n b w') ∧
      ParentStored w dir w' := by
  have hg := hs.sound
  rcases Prog.Via.ite h with ⟨-, hend⟩ | ⟨-, hrun⟩
  · exact absurd (congrArg Prod.fst hend.pure.1) (show -ENAMETOOLONG ≠ 0 by decide)
  obtain ⟨r, w₁, hnew, hrest⟩ := hrun.bind
  obtain ⟨-, ⟨rfl, l₁, rfl⟩ | ⟨rfl, l₁, rfl⟩⟩ := newInode_spec hnew
  · exact absurd (congrArg Prod.fst hrest.pure.1) (show -ENOMEM ≠ 0 by decide)
  obtain ⟨e, w₂, halloc, hrest⟩ := hrest.bind
  rcases hrest.ite with ⟨hne, hend⟩ | ⟨heq, hend⟩
  · obtain ⟨u, w₃, -, hlast⟩ := hend.bind
    exact absurd (congrArg Prod.fst hlast.pure.1) hne
  obtain rfl : e = 0 := not_not.mp heq
  obtain ⟨u, w₃, hadd, hlast⟩ := hend.bind
  obtain rfl := (runs_rbAdd _ _ _ _).mp hadd
  obtain ⟨hres, rfl⟩ := hlast.pure
  refine ⟨(congrArg Prod.snd hres).symm, ?_⟩
  have hdir : dir ≠ w.next := hs.next.ne
  -- what has been done when the name is entered
  obtain ⟨hrw, n, b, d, hint, l, hn, hh, hprep, hins⟩ := createAlloc_prepared
    (by exact hs.quiet) (by exact hg) (by exact hs.hint)
    (by exact (Nat.le_add_right _ _).trans hs.dirSlot.le) halloc
  simp only [Function.update_self, Function.update_idem, Function.update_of_ne hdir] at hins hprep
  replace hprep : Prepared w n b (newSlot w.env.host isdir b)
      (newBlock isdir n (w.inodes dir).ino) d :=
    ⟨hprep.data, hprep.free, hprep.slotAt, hprep.bits, hprep.slots, hprep.blocks, hprep.front⟩
  have hne : (w.inodes dir).ino ≠ n := fun he => hs.used (he ▸ hn.unused)
  have hslot : slot w.env d (w.inodes dir).ino = slot w.env w.disk (w.inodes dir).ino :=
    (hprep.slots _ hs.dirSlot).trans (if_neg hne)
  have hsame : SameFile w.disk (w.addrs dir) d (w.addrs dir) := fun j hj =>
    fblock_congr hj fun x hx => (hprep.held (hs.owned.held_of_owns hs.at_dir hx)).2.1
  obtain ⟨hvalid, hmap⟩ := hsame.validDir hs.valid
  generalize hw₅ : ({ w with
    disk := d
    hint := hint
    log := l
    inodes := Function.update w.inodes w.next
      (Inode.fresh.ofDinode (newSlot w.env.host isdir b) n)
    next := w.next + 1 } : World) = w₅ at hins
  have hdisk : w₅.disk = d := by rw [← hw₅]
  have henv : w₅.env = w.env := by rw [← hw₅]
  have hnode : w₅.inodes dir = w.inodes dir := by
    rw [← hw₅]
    exact Function.update_of_ne hdir _ _
  have haddrs : w₅.addrs dir = w.addrs dir := by
    simp only [World.addrs, hdisk, henv, hnode, hslot]
  have hmap₅ : dirMapAt w₅ dir = dirMapAt w dir := by
    unfold dirMapAt
    rw [hdisk, haddrs, hnode, hmap]
  have hh₅ : HintOk w₅.env w₅.hint := by
    rw [← hw₅]
    exact hh
  have hinum : (UInt16.ofNat n).toNat = n := by
    exact UInt16.toNat_ofNat_of_lt (HasSlot.fits_of_region hn.lt hs.region)
  rw [← hinum] at hins
  have hsite : InsertSite w₅ (Function.update A n (some (oneBlock b))) dir := by
    refine ⟨?_, ?_, hh₅, ?_, ?_, ?_, ?_⟩
    · rw [henv]; exact hs.quiet
    · rw [henv]; exact hg
    · rw [henv, hdisk]; exact hprep.owned hs.owned
    · rw [hnode, haddrs, Function.update_of_ne hne]; exact hs.at_dir
    · rw [henv, hnode]; exact hs.dirSlot
    · rw [hdisk, haddrs, hnode]; exact hvalid
  have hne0 : UInt16.ofNat n ≠ 0 := by
    intro h0
    have htwo := hn.ge
    rw [h0] at hinum
    rw [← hinum] at htwo
    exact absurd htwo (by decide)
  have hadded := insert_added (by rw [henv]; exact hrw) hsite hne0 (by rw [hmap₅, hnone]) hins
  refine ⟨hrw, ⟨n, b, Added.madeAs hs hprep hn hdisk henv hnode ?_ hmap₅ haddrs hh₅ hadded rfl⟩, ?_⟩
  · rw [← hw₅]
    exact Function.update_self _ _ _
  · intro hpriv hcur
    have hown := hadded.own
    rw [hnode, henv, hdisk, hslot] at hown
    refine (hown hpriv hcur).trans ?_
    refine roomBelow_congr (by rw [hnode]) haddrs hs.valid.le ?_
    rw [hdisk]
    exact hsame

/-! ## What was asked for -/

/-- The empty directory `num`, below the directory `parent`. -/
structure NewDir (d : Disk) (addrs : Addrs) (size num parent : Nat) : Prop where
  valid : ValidDir d addrs size
  size_eq : size = 2 * 16
  dot : (dslot d addrs 0).inum.toNat = num
  dotdot : (dslot d addrs 1).inum.toNat = parent
  only : ∀ k, 2 ≤ k → k < MAXFILE * NENTS → (dslot d addrs k).inum = 0

/-- Inode `n` has been made as it was asked for, every other slot is as it was, that of the parent
    too, and the other directories map what they did. -/
structure MadeAsAsked (w : World) (A : Nat → Option Addrs) (dir : Ptr) (nm : EntryName)
    (isdir : Bool) (n b : Nat) (w' : World) : Prop extends MadeAs w A dir nm isdir n b w' where
  others : ∀ m, HasSlot w.env m → m ≠ n → slot w.env w'.disk m = slot w.env w.disk m
  type : (slot w.env w'.disk n).type = if isdir then T_DIR else T_FILE
  nlink : (slot w.env w'.disk n).nlink = 1
  addr : (slot w.env w'.disk n).addr = oneBlock b
  dirs : ∀ m other size, m ≠ (w.inodes dir).ino → A m = some other →
    ValidDir w.disk other size →
    ValidDir w'.disk other size ∧ dirMap w'.disk other size = dirMap w.disk other size
  whole : if isdir then
      NewDir w'.disk (oneBlock b) (slot w.env w'.disk n).size.toNat n (w.inodes dir).ino
    else (slot w.env w'.disk n).size = 0 ∧ w'.disk b = Buf.zero

theorem newSlot_addr {host : ByteOrder} (hb : b < 2 ^ 32) :
    (newSlot host isdir b).addr = oneBlock b := by
  funext i
  simp only [Dinode.addr, newSlot, newDinode, oneBlock, Function.update_apply]
  split
  · exact UInt32.toNat_ofNat_of_lt' hb
  · rfl

/-- The entries of a directory of one block. -/
theorem dslot_oneBlock (hb : b ≠ 0) {k : Nat} (hk : k < MAXFILE * NENTS) :
    dslot d (oneBlock b) k = if k < NENTS then (d b).dirent k else .zero := by
  have hdiv : k / NENTS < MAXFILE := Nat.div_lt_of_lt_mul (by rwa [Nat.mul_comm] at hk)
  have h12 : (oneBlock b).get NDIRECT = 0 := oneBlock_get (by decide)
  unfold dslot fblock
  by_cases hlt : k < NENTS
  · have hmap : bmap d (oneBlock b) 0 = b := rfl
    rw [Nat.div_eq_of_lt hlt, Nat.mod_eq_of_lt hlt, hmap, if_neg hb, if_pos hlt]
  · have hmap : bmap d (oneBlock b) (k / NENTS) = 0 := by
      by_cases hdir : k / NENTS < NDIRECT
      · have hne : k / NENTS ≠ 0 := by simp only [NENTS] at hlt ⊢; omega
        rw [bmap_direct hdir, oneBlock_get (by unfold NDIRECT at hdir; omega), if_neg hne]
      · exact bmap_hole (not_lt.mp hdir) h12
    rw [hmap, if_pos rfl, if_neg hlt]
    exact Block.dirent_zero _

theorem newDirBlock_dirent {parent k : Nat} :
    (newDirBlock n parent).dirent k =
      if k = 0 then ⟨UInt16.ofNat n, strncpy dot⟩
      else if k = 1 then ⟨UInt16.ofNat parent, strncpy dotdot⟩ else .zero := by
  unfold newDirBlock
  by_cases h1 : k = 1
  · rw [h1, Block.dirent_setDirent _ _ (by decide), if_neg (by decide), if_pos rfl]
  rw [Block.dirent_setDirent_ne _ _ h1, if_neg h1]
  by_cases h0 : k = 0
  · rw [h0, Block.dirent_setDirent _ _ (by decide), if_pos rfl]
  · rw [Block.dirent_setDirent_ne _ _ h0, if_neg h0]
    exact Block.dirent_zero _

theorem newDir_of_block {num parent : Nat} (hb : b ≠ 0) (hn : num < 2 ^ 16) (hn0 : num ≠ 0)
    (hp : parent < 2 ^ 16) (hp0 : parent ≠ 0) (hblk : d b = newDirBlock num parent) :
    NewDir d (oneBlock b) (2 * 16) num parent := by
  have hslot : ∀ k, k < MAXFILE * NENTS → dslot d (oneBlock b) k =
      if k = 0 then ⟨UInt16.ofNat num, strncpy dot⟩
      else if k = 1 then ⟨UInt16.ofNat parent, strncpy dotdot⟩ else .zero := fun k hk => by
    rw [dslot_oneBlock hb hk, hblk]
    split
    · exact newDirBlock_dirent
    · next hge =>
      simp only [NENTS] at hge
      rw [if_neg (by omega), if_neg (by omega)]
  have h0 : dslot d (oneBlock b) 0 = ⟨UInt16.ofNat num, strncpy dot⟩ := hslot 0 (by decide)
  have h1 : dslot d (oneBlock b) 1 = ⟨UInt16.ofNat parent, strncpy dotdot⟩ := hslot 1 (by decide)
  have hrest : ∀ k, 2 ≤ k → k < MAXFILE * NENTS → dslot d (oneBlock b) k = .zero := fun k hk hlt =>
    (hslot k hlt).trans (by rw [if_neg (by omega), if_neg (by omega)])
  have hnum : (UInt16.ofNat num).toNat = num := UInt16.toNat_ofNat_of_lt hn
  have hparent : (UInt16.ofNat parent).toNat = parent := UInt16.toNat_ofNat_of_lt hp
  have hcases : ∀ k, k < 2 * 16 / 16 → k = 0 ∨ k = 1 := fun k hk => by omega
  refine ⟨⟨by decide, by decide, by decide, by rw [h0], by rw [h1], fun k hk _ => ?_, ?_,
    fun k hk hfree => ?_, fun k hk hlt => ?_⟩, rfl, by rw [h0, hnum], by rw [h1, hparent],
    fun k hk hlt => by rw [hrest k hk hlt]; rfl⟩
  · rcases hcases k hk with rfl | rfl
    · rw [h0]
      exact ⟨show strncpy dot 0 ≠ 0 by decide, strncpy_padded nameOk_dot⟩
    · rw [h1]
      exact ⟨show strncpy dotdot 0 ≠ 0 by decide, strncpy_padded nameOk_dotdot⟩
  · intro i j nm v v' hi hj hi' hj'
    obtain ⟨-, hni, -⟩ := Dirent.binding_eq_some.mp hi'
    obtain ⟨-, hnj, -⟩ := Dirent.binding_eq_some.mp hj'
    have hdots : strncpy dot ≠ strncpy dotdot := by decide
    rcases hcases i hi with rfl | rfl <;> rcases hcases j hj with rfl | rfl
    · rfl
    · exact absurd ((h0 ▸ hni).trans (h1 ▸ hnj).symm) hdots
    · exact absurd ((h0 ▸ hnj).trans (h1 ▸ hni).symm) hdots
    · rfl
  · rcases hcases k hk with rfl | rfl
    · rw [h0] at hfree
      exact absurd (hnum.symm.trans (congrArg UInt16.toNat hfree)) hn0
    · rw [h1] at hfree
      exact absurd (hparent.symm.trans (congrArg UInt16.toNat hfree)) hp0
  · rw [hrest k hk hlt]
    exact ⟨rfl, rfl⟩

theorem MadeAs.newSlot_addr (hs : CreateSite w A dir) (h : MadeAs w A dir nm isdir n b w')
    (host : ByteOrder) : (newSlot host isdir b).addr = oneBlock b := by
  have h1 := h.data.2
  have h2 := hs.sound.size_lt
  exact Xv6fs.newSlot_addr (by omega)

/-- What is made is what was asked for when the size is, and the parent is not written back. -/
theorem MadeAs.asAsked (hs : CreateSite w A dir) (h : MadeAs w A dir nm isdir n b w')
    (hhost : w.env.host = .little ∨ isdir = false)
    (hparent : (w.inodes dir).priv = none →
      slot w.env w'.disk (w.inodes dir).ino = slot w.env w.disk (w.inodes dir).ino) :
    MadeAsAsked w A dir nm isdir n b w' := by
  have hb0 : b ≠ 0 := by
    rintro rfl
    exact hs.sound.pos_of_isData h.data rfl
  refine ⟨h, fun m hm hmn => ?_, by rw [h.slotAt]; rfl, by rw [h.slotAt]; rfl, ?_,
    fun m other size hm hA hv => ?_, ?_⟩
  · by_cases hpriv : m = (w.inodes dir).ino ∧ (w.inodes dir).priv = none
    · rw [hpriv.1]
      exact hparent hpriv.2
    · exact h.slots m hm hmn fun hmd hnone => hpriv ⟨hmd, hnone⟩
  · rw [h.slotAt, h.newSlot_addr hs]
  · have hsame : SameFile w.disk other w'.disk other := fun j hj =>
      (h.elsewhere m other hm hA j hj).2
    exact hsame.validDir hv
  cases isdir with
  | false =>
    rw [if_neg (by decide), h.slotAt]
    exact ⟨rfl, h.block⟩
  | true =>
    have hlittle : w.env.host = .little := hhost.resolve_right (by decide)
    rw [if_pos rfl, h.slotAt, hlittle]
    have hn0 : n ≠ 0 := by
      have := h.unused.ge
      omega
    exact newDir_of_block hb0 h.fits hn0 (HasSlot.fits_of_region hs.dirSlot hs.region) hs.nonzero
      h.block

/-- On a big-endian host the size of a new directory is 2^29. -/
theorem MadeAsAsked.host (h : MadeAsAsked w A dir nm isdir n b w') :
    w.env.host = .little ∨ isdir = false := by
  by_contra hno
  obtain ⟨hlittle, hdir⟩ := not_or.mp hno
  obtain rfl : isdir = true := by simpa using hdir
  have hbig : w.env.host = .big := by
    cases hh : w.env.host with
    | little => exact absurd hh hlittle
    | big => rfl
  have hwhole := h.whole
  rw [if_pos rfl, h.slotAt, hbig] at hwhole
  exact absurd hwhole.size_eq
    (show (UInt32.ofNat (raw32 .big (16 * 2))).toNat ≠ 2 * 16 by decide +kernel)

/-- In an uncached directory the size is that of its slot (`xv6_evict_inode` has written it). -/
theorem made_iff {o : Option Ptr} (hs : CreateSite w A dir) (hnone : dirMapAt w dir nm = none)
    (hcur : (w.inodes dir).priv = none →
      (slot w.env w.disk (w.inodes dir).ino).size.toNat = (w.inodes dir).size)
    (h : Returns (xv6Create dir nm.name isdir) w (0, o) w') :
    (o = some w.next ∧ ∃ n b, MadeAsAsked w A dir nm isdir n b w') ↔
      (w.env.host = .little ∨ isdir = false) ∧
        ((w.inodes dir).priv ≠ none ∨ RoomBelow w dir) := by
  obtain ⟨ho, -, ⟨n, b, hmade⟩, hstored⟩ := create_made hs hnone h
  constructor
  · intro ⟨_, m, c, hasked⟩
    refine ⟨hasked.host, ?_⟩
    by_cases hpriv : (w.inodes dir).priv = none
    · have hne : (w.inodes dir).ino ≠ m := fun he => hs.used (he ▸ hasked.unused.unused)
      exact .inr ((hstored hpriv (hcur hpriv)).mp (hasked.others _ hs.dirSlot hne))
    · exact .inl hpriv
  · intro ⟨hhost, hroom⟩
    refine ⟨ho, n, b, hmade.asAsked hs hhost fun hpriv => ?_⟩
    exact (hstored hpriv (hcur hpriv)).mpr (hroom.resolve_left (not_not_intro hpriv))

end

/-! ## An empty file system -/

/-- The root directory, in core at address 0, with its block at 20 and nothing else. -/
def rootDir (host : ByteOrder) : World :=
  let env : Env := { (World.blank ⟨64, 0, 32, 0, 1, 1, 4⟩ 6).env with host := host }
  { World.blank ⟨64, 0, 32, 0, 1, 1, 4⟩ 6 with
    env := env
    disk := setSlot env
      (markUsed env (fun b => if b = 20 then newDirBlock 1 1 else Buf.zero) 20) 1
      ⟨T_DIR, 0, 0, 1, 32, fun i => UInt32.ofNat (oneBlock 20 i)⟩
    inodes := fun _ => ⟨1, .dir, 1, 32, some (oneBlock 20), false, true, 1⟩
    next := 1 }

theorem rootDir_site (host : ByteOrder) : CreateSite (rootDir host) (oneFile 1 20) 0 := by
  have hvalid : ∀ d : Disk, d 20 = newDirBlock 1 1 → ValidDir d (oneBlock 20) 32 := fun d hd =>
    (newDir_of_block (by decide) (by decide) (by decide) (by decide) (by decide) hd).valid
  cases host <;> exact
    { quiet := fun _ => rfl
      sound := ⟨by decide, by decide⟩
      hint := ⟨by decide, by decide⟩
      owned := exclusive_oneFile _ ⟨by decide, by decide +kernel⟩
      at_dir := rfl
      dirSlot := by unfold HasSlot; decide
      valid := hvalid _ rfl
      next := by decide
      nonzero := by decide
      used := by decide +kernel
      region := by decide }

theorem mkdir_big_endian :
    let w := rootDir .big
    CreateSite w (oneFile 1 20) 0 ∧ dirMapAt w 0 entryA = none ∧
      ∃ w', Returns (xv6Mkdir 0 entryA.name) w (0, some 1) w' ∧
        ¬ ∃ n b, MadeAsAsked w (oneFile 1 20) 0 entryA true n b w' := by
  refine ⟨rootDir_site _, by decide +kernel, _, returns_after (by decide +kernel), ?_⟩
  rintro ⟨n, b, h⟩
  rcases h.host with h | h <;> cases h

theorem mkdir_little_endian : ∃ w', Returns (xv6Create 0 entryA.name true) (rootDir .little)
    (0, some 1) w' ∧
      ∃ n b, MadeAsAsked (rootDir .little) (oneFile 1 20) 0 entryA true n b w' := by
  have hrun := returns_after (m := xv6Create 0 entryA.name true) (w := rootDir .little)
    (a := (0, some 1)) (by decide +kernel)
  have hpriv : ((rootDir .little).inodes 0).priv ≠ none := by
    show some (oneBlock 20) ≠ none
    simp
  have hmade := made_iff (rootDir_site _) (by decide +kernel) (fun hno => absurd hno hpriv) hrun
  exact ⟨_, hrun, (hmade.mpr ⟨.inl rfl, .inl hpriv⟩).2⟩

end Xv6fs
