/-
  Looking a block of a file up for writing.

  A hole is filled, unless the mount is read-only (`Accessed`). However the lookup ends, no byte
  of any file changes. When it reports no error the block is the one the map then names, and
  blocks are still owned once; it reports -ENOSPC only when every data block is in use.
  `WblockEnds` lists the ways in which the rest of the call ends.

  `Touched` says what a write may change: the bytes of one file in a window, the map, the size
  and the dirty flag of its inode.
-/
import Xv6fs.Fs.Frame
import Xv6fs.Inode.Nodes
import Xv6fs.File.Contents

namespace Xv6fs

section

variable {φ : Event → Prop} {w w' w₁ : World} {p : Ptr} {i b : Nat} {e : Int}
  {addrs addrs' : Addrs} {dirty : Bool}

/-! ## On a read-only mount -/

theorem indirect_rdonly_spec {ctx ctx' : InodeCtx} {j : Nat} (hro : w.env.rdonly = true)
    (h : Runs φ (xv6InodeAddr.indirect modcheck ctx j true) w (e, b, ctx') w') :
    ctx' = ctx ∧ (∃ l, w' = { w with log := l }) ∧
      (Faultless w w' ↔ e ≠ - EIO) ∧ (e = 0 ∨ e = - EIO ∨ e = -EROFS) ∧
      (e = 0 → b ≠ 0 ∧ b = (w.disk (ctx.addrs.get NDIRECT)).u32 j) := by
  simp only [xv6InodeAddr.indirect, modcheck] at h
  obtain ⟨l, -, ⟨hr, h⟩ | ⟨hr, h⟩⟩ := sbBread_cases h
  · obtain ⟨hres, rfl⟩ := h.pure
    cases hres
    have hf : ¬ Faultless w { w with log := l } := fun hf =>
      absurd (hr.error.mpr hf) (by decide)
    exact ⟨rfl, ⟨l, rfl⟩, iff_of_false hf fun hne => hne rfl, .inr (.inl rfl),
      fun h0 => absurd h0 (by decide)⟩
  · have hf : Faultless w { w with log := l } := hr.error.mp rfl
    simp only [runs_bind_bdata, Bool.not_true, Bool.false_eq_true, if_false] at h
    rcases h.ite with ⟨hz, h⟩ | ⟨hnz, h⟩
    · obtain ⟨r, w₂, hballoc, hnext⟩ := h.bind
      obtain ⟨rfl, rfl⟩ := xv6Balloc_rdonly (w := { w with log := l }) hro hballoc
      dsimp only at hnext
      rw [if_pos (by decide)] at hnext
      obtain ⟨hres, rfl⟩ := hnext.pure
      cases hres
      exact ⟨rfl, ⟨l, rfl⟩, iff_of_true hf (by decide), .inr (.inr rfl),
        fun h0 => absurd h0 (by decide)⟩
    · obtain ⟨hres, rfl⟩ := h.pure
      cases hres
      exact ⟨rfl, ⟨l, rfl⟩, iff_of_true hf (by decide), .inl rfl, fun _ => ⟨hnz, rfl⟩⟩

/-- The lookup changes nothing. -/
theorem xv6InodeAddr_rdonly {ctx ctx' : InodeCtx} (hro : w.env.rdonly = true) (hi : i < MAXFILE)
    (h : Runs φ (xv6InodeAddr modcheck ctx i true) w (e, b, ctx') w') :
    (∃ dirty, ctx' = { ctx with dirty := dirty }) ∧ (∃ l, w' = { w with log := l }) ∧
      (Faultless w w' ↔ e ≠ - EIO) ∧ (e = 0 ∨ e = - EIO ∨ e = -EROFS) ∧
      (e = 0 → b ≠ 0 ∧ b = bmap w.disk ctx.addrs i) := by
  have hsame : ∀ {j}, ctx.addrs.get j = 0 → ctx.addrs.set j (ctx.addrs.get j) = ctx.addrs :=
    fun _ => Addrs.set_get_self _
  simp only [xv6InodeAddr, if_neg (not_le.mpr hi), and_true, Bool.not_true, Bool.false_eq_true,
    if_false] at h
  by_cases hd : i < NDIRECT
  · rw [if_pos hd] at h
    rcases h.ite with ⟨hz, h⟩ | ⟨hnz, h⟩
    · obtain ⟨r, w₁, hballoc, hnext⟩ := h.bind
      obtain ⟨rfl, rfl⟩ := xv6Balloc_rdonly hro hballoc
      have hno : ¬ (-EROFS = 0 ∧ ctx.addrs.get i = 0) := fun hc => absurd hc.1 (by decide)
      dsimp only at hnext
      rw [if_neg hno, hsame hz] at hnext
      obtain ⟨hres, rfl⟩ := hnext.pure
      cases hres
      exact ⟨⟨_, rfl⟩, ⟨_, rfl⟩, iff_of_true (faultless_refl _) (by decide), .inr (.inr rfl),
        fun h0 => absurd h0 (by decide)⟩
    · obtain ⟨hres, rfl⟩ := h.pure
      cases hres
      exact ⟨⟨_, rfl⟩, ⟨_, rfl⟩, iff_of_true (faultless_refl _) (by decide), .inl rfl,
        fun _ => ⟨hnz, (bmap_direct hd).symm⟩⟩
  · rw [if_neg hd] at h
    have hind : NDIRECT ≤ i := not_lt.mp hd
    rcases h.ite with ⟨hz, h⟩ | ⟨hnz, h⟩
    · obtain ⟨r, w₁, hballoc, hnext⟩ := h.bind
      obtain ⟨rfl, rfl⟩ := xv6Balloc_rdonly hro hballoc
      dsimp only at hnext
      rw [hsame hz, if_pos (by decide)] at hnext
      obtain ⟨hres, rfl⟩ := hnext.pure
      cases hres
      exact ⟨⟨_, rfl⟩, ⟨_, rfl⟩, iff_of_true (faultless_refl _) (by decide), .inr (.inr rfl),
        fun h0 => absurd h0 (by decide)⟩
    · obtain ⟨hctx, hw, hf, he, hb⟩ := indirect_rdonly_spec hro h
      refine ⟨⟨false, hctx⟩, hw, hf, he, fun h0 => ?_⟩
      rw [bmap_entry hind hnz]
      exact hb h0

/-! ## On any mount -/

/-- File block `i` is looked up for writing, and filled if it is a hole and may be. -/
inductive Accessed (w : World) (addrs : Addrs) (i : Nat) :
    Int → Nat → Addrs → Bool → World → Prop where
  | opened {e : Int} {b : Nat} {addrs' : Addrs} {dirty : Bool} {w₁ : World}
      (hrw : w.env.rdonly = false) (h : Opened w addrs i e b addrs' dirty w₁) :
      Accessed w addrs i e b addrs' dirty w₁
  | readonly {e : Int} {b : Nat} {dirty : Bool} {l : List Event} (hle : w ≤ { w with log := l })
      (hf : Faultless w { w with log := l } ↔ e ≠ - EIO) (he : e = 0 ∨ e = - EIO ∨ e = -EROFS)
      (hro : w.env.rdonly = true) (hb : e = 0 → b ≠ 0 ∧ b = bmap w.disk addrs i) :
      Accessed w addrs i e b addrs dirty { w with log := l }

theorem accessed_of_alloc (ctx : InodeCtx) {ctx' : InodeCtx} (hg : w.env.info.Sound)
    (hh : HintOk w.env w.hint)
    (hz : ctx.addrs.get NDIRECT ≠ 0 → Held w.env w.disk (ctx.addrs.get NDIRECT))
    (hi : i < MAXFILE) (h : Runs φ (xv6InodeAddr modcheck ctx i true) w (e, b, ctx') w₁) :
    ∃ addrs' dirty, ctx' = { ctx with addrs := addrs', dirty := dirty } ∧
      Accessed w ctx.addrs i e b addrs' dirty w₁ := by
  by_cases hro : w.env.rdonly = true
  · obtain ⟨⟨dirty, rfl⟩, ⟨l, rfl⟩, hf, he, hb⟩ := xv6InodeAddr_rdonly hro hi h
    exact ⟨_, dirty, rfl, .readonly h.mono hf he hro hb⟩
  · have hrw : w.env.rdonly = false := by simpa using hro
    obtain ⟨addrs', dirty, hctx, ho⟩ := opened_of_alloc ctx ⟨hrw, hg, hh, hz⟩ hi h
    exact ⟨addrs', dirty, hctx, .opened hrw ho⟩

namespace Accessed

theorem le (h : Accessed w addrs i e b addrs' dirty w₁) : w ≤ w₁ := by
  cases h with
  | opened hrw h => exact h.le
  | readonly hle => exact hle

/-- Only the disk, the hint and the log may change. -/
theorem frame (h : Accessed w addrs i e b addrs' dirty w₁) :
    ∃ l, w₁ = { w with disk := w₁.disk, hint := w₁.hint, log := l } := by
  cases h with
  | opened hrw h => exact h.frame
  | readonly => exact ⟨_, rfl⟩

variable {A : Nat → Option Addrs} {n : Nat}

/-- No byte of any file changes. -/
theorem effect (hg : w.env.info.Sound) (hh : HintOk w.env w.hint) (ho : Owned w.env w.disk A)
    (hA : A n = some addrs) (hi : i < MAXFILE) (h : Accessed w addrs i e b addrs' dirty w₁) :
    SameFile w.disk addrs w₁.disk addrs' ∧ Elsewhere w.disk A n w₁.disk ∧
      SameBefore w.env w.disk w₁.disk ∧ HintOk w.env w₁.hint := by
  cases h with
  | opened hrw h =>
    obtain ⟨h1, h2, h3, h4, -⟩ := h.effect ⟨hrw, hg, hh, Owned.held_indirect ho hA⟩ ho hA hi
    exact ⟨h1, h2, h3, h4⟩
  | readonly =>
    exact ⟨fun _ _ => rfl, .refl _ _ _, fun _ _ => rfl, hh⟩

/-- Without an error the map names the block, and blocks are owned once. -/
theorem ok (hg : w.env.info.Sound) (hh : HintOk w.env w.hint) (ho : Owned w.env w.disk A)
    (hA : A n = some addrs) (hi : i < MAXFILE) (h : Accessed w addrs i 0 b addrs' dirty w₁) :
    b ≠ 0 ∧ bmap w₁.disk addrs' i = b ∧ Faultless w w₁ ∧
      Owned w.env w₁.disk (Function.update A n (some addrs')) := by
  generalize he : (0 : Int) = e at h
  cases h with
  | opened hrw h =>
    subst he
    obtain ⟨hb, hmap⟩ := h.mapped.ok hg hh hi
    obtain ⟨-, -, -, -, hown⟩ := h.effect ⟨hrw, hg, hh, Owned.held_indirect ho hA⟩ ho hA hi
    exact ⟨hb, hmap, h.faultless.mpr (.inl rfl), hown (.inl rfl)⟩
  | readonly hle hf _ _ hb =>
    subst he
    obtain ⟨hb0, hb⟩ := hb rfl
    rw [update_some_self hA]
    exact ⟨hb0, hb.symm, hf.mpr (by decide), ho⟩

/-- Unless the block layer failed, blocks are owned once. -/
theorem owned (hg : w.env.info.Sound) (hh : HintOk w.env w.hint) (ho : Owned w.env w.disk A)
    (hA : A n = some addrs) (hi : i < MAXFILE) (h : Accessed w addrs i e b addrs' dirty w₁)
    (he : e ≠ - EIO) : Owned w.env w₁.disk (Function.update A n (some addrs')) := by
  cases h with
  | opened hrw h =>
    obtain ⟨-, -, -, -, hown⟩ := h.effect ⟨hrw, hg, hh, Owned.held_indirect ho hA⟩ ho hA hi
    refine hown ?_
    rcases h.mapped.errors with h0 | h0 | h0
    · exact .inl h0
    · exact absurd h0 he
    · exact .inr h0
  | readonly =>
    rw [update_some_self hA]
    exact ho

/-- The errors, and what they mean. -/
theorem error (hg : w.env.info.Sound) (hh : HintOk w.env w.hint)
    (h : Accessed w addrs i e b addrs' dirty w₁) (he : e ≠ 0) :
    e < 0 ∧ e ≠ -EFBIG ∧ (e = -ENOSPC → w.env.rdonly = false ∧
      ∀ x, IsData w.env x → bitSet w.env w₁.disk x = true) ∧
    (Faultless w w₁ → e ≠ - EIO ∧ (w.env.rdonly = false → e = -ENOSPC)) := by
  cases h with
  | opened hrw h =>
    refine ⟨?_, ?_, fun hspc => ⟨hrw, h.mapped.full hg hh hspc⟩, fun hf => ?_⟩
    · rcases h.mapped.errors with rfl | rfl | rfl
      · exact absurd rfl he
      · decide
      · decide
    · rcases h.mapped.errors with rfl | rfl | rfl <;> decide
    · have hspc := (h.faultless.mp hf).resolve_left he
      exact ⟨by rw [hspc]; decide, fun _ => hspc⟩
  | readonly hle hf he' hro hb =>
    rcases he' with rfl | rfl | rfl
    · exact absurd rfl he
    · exact ⟨by decide, by decide, fun h0 => absurd h0 (by decide),
        fun h0 => absurd rfl (hf.mp h0)⟩
    · refine ⟨by decide, by decide, fun h0 => absurd h0 (by decide), fun _ =>
        ⟨by decide, fun hrw => ?_⟩⟩
      rw [hro] at hrw
      cases hrw

end Accessed

/-! ## What a write leaves alone -/

/-- The file at `p` is inode `n` of a file system whose blocks are owned once. -/
structure FileReady (w : World) (p : Ptr) (n : Nat) (A : Nat → Option Addrs) (addrs : Addrs) :
    Prop where
  sound : w.env.info.Sound
  hint : HintOk w.env w.hint
  priv : (w.inodes p).priv = some addrs
  at_n : A n = some addrs
  owned : Owned w.env w.disk A

/-- From `w` to `w'` the bytes of the file outside `[lo, hi)`, the other files and the blocks
    before the bitmap are as they were, and of the in-core inodes only that of the file may
    have a new map, size and dirty flag. The size is at most reduced to 32 bits. -/
structure Touched (w : World) (p : Ptr) (n : Nat) (A : Nat → Option Addrs) (addrs : Addrs)
    (lo hi : Nat) (addrs' : Addrs) (w' : World) : Prop where
  frame : ∃ size dirty l,
    (size = (w.inodes p).size ∨ size = (w.inodes p).size % 2 ^ 32) ∧
    w' = { w.setMap p addrs' size dirty with disk := w'.disk, hint := w'.hint, log := l }
  bytes : ∀ x, x < MAXFILE * BSIZE → x < lo ∨ hi ≤ x →
    fbyte w'.disk addrs' x = fbyte w.disk addrs x
  elsewhere : Elsewhere w.disk A n w'.disk
  before : SameBefore w.env w.disk w'.disk
  hint : HintOk w.env w'.hint

namespace Touched

variable {A : Nat → Option Addrs} {n lo hi lo' hi' : Nat} {addrs'' : Addrs}

theorem env_eq (h : Touched w p n A addrs lo hi addrs' w') : w'.env = w.env := by
  obtain ⟨size, dirty, l, -, hw⟩ := h.frame
  rw [hw]
  rfl

theorem inode (h : Touched w p n A addrs lo hi addrs' w') : ∃ size dirty,
    (size = (w.inodes p).size ∨ size = (w.inodes p).size % 2 ^ 32) ∧
    w'.inodes p = { w.inodes p with priv := some addrs', size := size, dirty := dirty } := by
  obtain ⟨size, dirty, l, hsize, hw⟩ := h.frame
  refine ⟨size, dirty, hsize, ?_⟩
  rw [hw]
  exact Function.update_self _ _ _

theorem inode_ne (h : Touched w p n A addrs lo hi addrs' w') {q : Ptr} (hq : q ≠ p) :
    w'.inodes q = w.inodes q := by
  obtain ⟨size, dirty, l, -, hw⟩ := h.frame
  rw [hw]
  exact Function.update_of_ne hq _ _

theorem refl (hr : FileReady w p n A addrs) (lo hi : Nat) :
    Touched w p n A addrs lo hi addrs w where
  frame := by
    refine ⟨(w.inodes p).size, (w.inodes p).dirty, w.log, .inl rfl, ?_⟩
    unfold World.setMap
    rw [← hr.priv, Function.update_eq_self]
  bytes _ _ _ := rfl
  elsewhere := .refl _ _ _
  before _ _ := rfl
  hint := hr.hint

theorem weaken (h : Touched w p n A addrs lo hi addrs' w') (hlo : lo' ≤ lo) (hhi : hi ≤ hi') :
    Touched w p n A addrs lo' hi' addrs' w' :=
  { h with bytes := fun x hx hout => h.bytes x hx (by omega) }

theorem trans (h : Touched w p n A addrs lo hi addrs' w₁)
    (h' : Touched w₁ p n (Function.update A n (some addrs')) addrs' lo hi addrs'' w') :
    Touched w p n A addrs lo hi addrs'' w' where
  frame := by
    obtain ⟨size, dirty, l, hsize, hw⟩ := h.frame
    obtain ⟨size', dirty', l', hsize', hw'⟩ := h'.frame
    obtain ⟨size₁, dirty₁, hsize₁, hino⟩ := h.inode
    refine ⟨size', dirty', l', ?_, ?_⟩
    · rw [hino] at hsize'
      dsimp only at hsize'
      omega
    · rw [hw']
      unfold World.setMap
      rw [hino, hw]
      unfold World.setMap
      dsimp only
      rw [Function.update_idem]
  bytes x hx hout := (h'.bytes x hx hout).trans (h.bytes x hx hout)
  elsewhere := h.elsewhere.trans h'.elsewhere
  before := by
    have hb := h'.before
    rw [h.env_eq] at hb
    exact h.before.trans hb
  hint := by
    have hb := h'.hint
    rwa [h.env_eq] at hb

end Touched

/-! ## The steps of a lookup -/

/-- `w₁` with the addresses of `ctx` stored in core; the inode is otherwise as in `w`. -/
abbrev World.looked (w : World) (p : Ptr) (ctx : InodeCtx) (w₁ : World) : World :=
  w₁.setMap p ctx.addrs (w.inodes p).size (w.inodes p).dirty

/-- How `xv6_inode_wblock` ends on a cached inode, once `xv6_inode_addr` has returned an error, a
    block and `ctx` and left `w₁`. -/
inductive WblockEnds (w : World) (p : Ptr) (ctx : InodeCtx) (w₁ : World) :
    Int → Nat → Int → Option Nat → World → Prop where
  | failed {e : Int} {b : Nat} (he : e ≠ 0) :
      WblockEnds w p ctx w₁ e b e none (w.looked p ctx w₁)
  | hole : WblockEnds w p ctx w₁ 0 0 (-ENOSPC) none (w.looked p ctx w₁)
  | unread {b : Nat} {l : List Event} (hb : b ≠ 0)
      (hle : w.looked p ctx w₁ ≤ { w.looked p ctx w₁ with log := l })
      (hr : OnlyReads (w.looked p ctx w₁) { w.looked p ctx w₁ with log := l } (- EIO)) :
      WblockEnds w p ctx w₁ 0 b (- EIO) none { w.looked p ctx w₁ with log := l }
  | opened {b : Nat} {l : List Event} (hb : b ≠ 0)
      (hle : w.looked p ctx w₁ ≤ { w.looked p ctx w₁ with log := l })
      (hr : OnlyReads (w.looked p ctx w₁) { w.looked p ctx w₁ with log := l } 0) :
      WblockEnds w p ctx w₁ 0 b 0 (some b)
        { w₁.setMap p ctx.addrs (if ctx.dirty then ctx.size else (w.inodes p).size)
            (ctx.dirty || (w.inodes p).dirty) with log := l }

theorem inodeWblock_ends {bh : Option Nat} (hpriv : (w.inodes p).priv = some addrs)
    (h : Runs φ (xv6InodeWblock p i) w (e, bh) w') :
    ∃ e₁ b ctx w₁,
      Runs φ (xv6InodeAddr modcheck ⟨addrs, (w.inodes p).size % 2 ^ 32, false⟩ i true) w
        (e₁, b, ctx) w₁ ∧ WblockEnds w p ctx w₁ e₁ b e bh w' := by
  unfold xv6InodeWblock at h
  obtain ⟨r, w₀, hinit, h⟩ := h.bind
  obtain ⟨rfl, rfl⟩ := xv6InitIctx_spec hpriv hinit
  simp only [ne_eq, not_true_eq_false, if_false] at h
  obtain ⟨⟨e₁, b, ctx⟩, w₁, haddr, h⟩ := h.bind
  refine ⟨e₁, b, ctx, w₁, haddr, ?_⟩
  have hin : w₁.inodes = w₀.inodes := inodeAddr_inodes haddr
  obtain ⟨u, w₂, hback, h⟩ := h.bind
  have hw₂ : w₂ = w₀.looked p ctx w₁ := by
    rw [writeBack_spec (by rw [hin]; exact hpriv) hback, World.looked, World.setMap, hin]
  subst hw₂
  dsimp only at h
  rcases h.ite with ⟨hne, hend⟩ | ⟨heq, h⟩
  · obtain ⟨hres, rfl⟩ := hend.pure
    cases hres
    exact .failed hne
  obtain rfl : e₁ = 0 := not_not.mp heq
  rcases h.ite with ⟨hz, hend⟩ | ⟨hb, h⟩
  · obtain ⟨hres, rfl⟩ := hend.pure
    cases hres
    rw [hz]
    exact .hole
  obtain ⟨l, hle, ⟨hr, hend⟩ | ⟨hr, h⟩⟩ := sbBread_cases h
  · obtain ⟨hres, rfl⟩ := hend.pure
    cases hres
    exact .unread hb hle hr
  obtain ⟨e₂, w₄, hmark, hend⟩ := h.bind
  obtain ⟨hres, rfl⟩ := hend.pure
  cases hres
  have hopened := WblockEnds.opened hb hle hr
  simp only [xv6IctxDirty] at hmark
  rcases hmark.ite with ⟨hclean, hend⟩ | ⟨hset, hend⟩
  · obtain ⟨rfl, rfl⟩ := hend.pure
    obtain hc : ctx.dirty = false := by simpa using hclean
    simpa [hc] using hopened
  · simp only [markInodeDirty, runs_bind_modifyInode, Function.update_self,
      Function.update_idem, runs_bind_getInode, World.setMap_inode] at hend
    obtain ⟨rfl, rfl⟩ := hend.pure
    obtain hc : ctx.dirty = true := by simpa using hset
    simpa [hc, World.setMap] using hopened

theorem SameFile.fbyte {d d' : Disk} (h : SameFile d addrs d' addrs') {x : Nat}
    (hx : x < MAXFILE * BSIZE) : fbyte d' addrs' x = fbyte d addrs x := by
  unfold Xv6fs.fbyte
  rw [h (x / BSIZE) (by simp only [MAXFILE, BSIZE] at hx ⊢; omega)]

end

end Xv6fs
