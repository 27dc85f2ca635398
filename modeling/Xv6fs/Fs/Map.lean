/-
  The block map of an inode.

  `bmap d addrs i` is the block of file block `i`, 0 for a hole. Without `alloc` a call of
  `xv6_inode_addr` reads it and changes nothing. With `alloc` it fills a hole: `Mapped` lists
  the ways this can end, whatever fails on the way. A hole below the indirect block can cost
  two blocks, and the indirect block stays attached when the second is not to be had.
-/
import Xv6fs.Model.Fs
import Xv6fs.Balloc.Spec

namespace Xv6fs

/-! ## Addresses -/

namespace Addrs

variable (addrs : Addrs)

theorem get_set_self {i b : Nat} : (addrs.set i b).get i = b := by
  unfold get set
  exact Function.update_self _ _ _

theorem set_get_self {i : Nat} : addrs.set i (addrs.get i) = addrs := by
  unfold get set
  exact Function.update_eq_self _ _

theorem get_set_ne {i j b : Nat} (hi : i < 13) (hj : j < 13) (h : j ≠ i) :
    (addrs.set i b).get j = addrs.get j := by
  unfold get set
  refine Function.update_of_ne ?_ _ _
  intro he
  have := congrArg Fin.val he
  simp only [Fin.val_ofNat] at this
  omega

end Addrs

/-- The block of file block `i`, 0 for a hole. -/
def bmap (d : Disk) (addrs : Addrs) (i : Nat) : Nat :=
  if i < NDIRECT then addrs.get i
  else if addrs.get NDIRECT = 0 then 0
  else (d (addrs.get NDIRECT)).u32 (i - NDIRECT)

section

variable {d : Disk} {addrs : Addrs}

theorem bmap_direct {j : Nat} (hj : j < NDIRECT) : bmap d addrs j = addrs.get j := if_pos hj

theorem bmap_hole {j : Nat} (hj : NDIRECT ≤ j) (hz : addrs.get NDIRECT = 0) :
    bmap d addrs j = 0 := by
  unfold bmap
  rw [if_neg (not_lt.mpr hj), if_pos hz]

theorem bmap_entry {j : Nat} (hj : NDIRECT ≤ j) (hz : addrs.get NDIRECT ≠ 0) :
    bmap d addrs j = (d (addrs.get NDIRECT)).u32 (j - NDIRECT) := by
  unfold bmap
  rw [if_neg (not_lt.mpr hj), if_neg hz]

/-- The map depends on the disk through the indirect block only. -/
theorem bmap_of_indirect {d' : Disk}
    (h : addrs.get NDIRECT ≠ 0 → d' (addrs.get NDIRECT) = d (addrs.get NDIRECT)) (j : Nat) :
    bmap d' addrs j = bmap d addrs j := by
  unfold bmap
  by_cases hz : addrs.get NDIRECT = 0
  · rw [if_pos hz, if_pos hz]
  · rw [h hz]

end

/-- File block `i` as it reads, all-zero in a hole. -/
def fblock (d : Disk) (addrs : Addrs) (i : Nat) : Block :=
  if bmap d addrs i = 0 then Buf.zero else d (bmap d addrs i)

/-- The outcome of a write-back: the disk holds the new bytes, or still the old ones when the
    error says so. -/
def Stored (d : Disk) (b : Nat) (blk : Block) (e : Int) (d' : Disk) : Prop :=
  ∃ f : Fate, e = f.error ∧ d' = f.store d b blk

section

variable {d d' : Disk} {b : Nat} {blk : Block} {e : Int}

theorem Wrote.stored {w w' : World} (h : Wrote w b blk e w') : Stored w.disk b blk e w'.disk := by
  obtain ⟨l, f, -, -, he, rfl⟩ := h
  exact ⟨f, he, rfl⟩

theorem Stored.disk (h : Stored d b blk e d') : d' = d ∨ d' = Function.update d b blk := by
  obtain ⟨f, -, rfl⟩ := h
  unfold Fate.store
  split
  · exact .inl rfl
  · exact .inr rfl

theorem Stored.ok (h : Stored d b blk 0 d') : d' = Function.update d b blk := by
  obtain ⟨f, he, rfl⟩ := h
  rw [Fate.error_eq_zero.mp he.symm]
  rfl

theorem Stored.error (h : Stored d b blk e d') : e = 0 ∨ e = - EIO := by
  obtain ⟨f, rfl, -⟩ := h
  cases f
  · exact .inl rfl
  · exact .inr rfl
  · exact .inr rfl

end

/-! ## Outcomes with allocation -/

/-- How the access to entry `i - NDIRECT` of the indirect block ends: the error, `*blockno`,
    the disk and the hint. -/
inductive EntryMapped (env : Env) (d : Disk) (hint indirno i : Nat) :
    Int → Nat → Disk → Nat → Prop where
  | unread : EntryMapped env d hint indirno i (- EIO) 0 d hint
  | found (h : (d indirno).u32 (i - NDIRECT) ≠ 0) :
      EntryMapped env d hint indirno i 0 ((d indirno).u32 (i - NDIRECT)) d hint
  | error {e : Int} {b : Nat} {d' : Disk} {h' : Nat}
      (h : (d indirno).u32 (i - NDIRECT) = 0) (hb : Balloced env d hint e b d' h') (he : e ≠ 0) :
      EntryMapped env d hint indirno i e 0 d' h'
  | nospc {d' : Disk} {h' : Nat}
      (h : (d indirno).u32 (i - NDIRECT) = 0) (hb : Balloced env d hint 0 0 d' h') :
      EntryMapped env d hint indirno i (-ENOSPC) 0 d' h'
  | attached {e : Int} {a : Nat} {d' d'' : Disk} {h' : Nat}
      (h : (d indirno).u32 (i - NDIRECT) = 0) (hb : Balloced env d hint 0 a d' h') (ha : a ≠ 0)
      (hs : Stored d' indirno ((d' indirno).setU32 (i - NDIRECT) a) e d'') :
      EntryMapped env d hint indirno i e a d'' h'

/-- How `xv6_inode_addr` with `alloc` ends for `i < MAXFILE`: the error, `*blockno`, the
    addresses and the dirty flag of the context, the disk and the hint. -/
inductive Mapped (env : Env) (d : Disk) (hint : Nat) (addrs : Addrs) (i : Nat) :
    Int → Nat → Addrs → Bool → Disk → Nat → Prop where
  | found (hi : i < NDIRECT) (h : addrs.get i ≠ 0) :
      Mapped env d hint addrs i 0 (addrs.get i) addrs false d hint
  | direct {e : Int} {b : Nat} {d' : Disk} {h' : Nat} (hi : i < NDIRECT) (h : addrs.get i = 0)
      (hb : Balloced env d hint e b d' h') :
      Mapped env d hint addrs i (if e = 0 ∧ b = 0 then -ENOSPC else e) b (addrs.set i b) true d' h'
  | entry {e : Int} {b : Nat} {d' : Disk} {h' : Nat} (hi : NDIRECT ≤ i)
      (h : addrs.get NDIRECT ≠ 0) (he : EntryMapped env d hint (addrs.get NDIRECT) i e b d' h') :
      Mapped env d hint addrs i e b addrs false d' h'
  | error {e : Int} {b : Nat} {d' : Disk} {h' : Nat} (hi : NDIRECT ≤ i)
      (h : addrs.get NDIRECT = 0) (hb : Balloced env d hint e b d' h') (he : e ≠ 0) :
      Mapped env d hint addrs i e 0 (addrs.set NDIRECT b) true d' h'
  | nospc {d' : Disk} {h' : Nat} (hi : NDIRECT ≤ i)
      (h : addrs.get NDIRECT = 0) (hb : Balloced env d hint 0 0 d' h') :
      Mapped env d hint addrs i (-ENOSPC) 0 (addrs.set NDIRECT 0) true d' h'
  | indirect {e : Int} {a b : Nat} {d' d'' : Disk} {h' h'' : Nat} (hi : NDIRECT ≤ i)
      (h : addrs.get NDIRECT = 0) (hb : Balloced env d hint 0 a d' h') (ha : a ≠ 0)
      (he : EntryMapped env d' h' a i e b d'' h'') :
      Mapped env d hint addrs i e b (addrs.set NDIRECT a) true d'' h''

section

variable {φ : Event → Prop} {w w' : World} {ctx ctx' : InodeCtx} {i b : Nat} {e : Int}

/-! ## Reading -/

theorem indirect_read_spec (h : Runs φ (xv6InodeAddr.indirect modcheck ctx i false) w
      (e, b, ctx') w') :
    ctx' = ctx ∧ OnlyReads w w' e ∧ (e = 0 → b = (w.disk (ctx.addrs.get NDIRECT)).u32 i) := by
  simp only [xv6InodeAddr.indirect, modcheck] at h
  obtain ⟨l, -, ⟨hr, h⟩ | ⟨hr, h⟩⟩ := sbBread_cases h
  · obtain ⟨hres, rfl⟩ := h.pure
    cases hres
    exact ⟨rfl, hr, fun h0 => absurd h0 (by decide)⟩
  · simp only [runs_bind_bdata, Bool.not_false, if_true] at h
    rcases h.ite with ⟨hzero, h⟩ | ⟨hnz, h⟩
    · obtain ⟨hres, rfl⟩ := h.pure
      cases hres
      exact ⟨rfl, hr, fun _ => hzero.symm⟩
    · obtain ⟨hres, rfl⟩ := h.pure
      cases hres
      exact ⟨rfl, hr, fun _ => rfl⟩

theorem xv6InodeAddr_big {check : Checker} {alloc : Bool} (hi : MAXFILE ≤ i)
    (h : Runs φ (xv6InodeAddr check ctx i alloc) w (e, b, ctx') w') :
    e = -EFBIG ∧ b = 0 ∧ ctx' = ctx ∧ w' = w := by
  simp only [xv6InodeAddr] at h
  rw [if_pos hi] at h
  obtain ⟨hr, rfl⟩ := h.pure
  cases hr
  exact ⟨rfl, rfl, rfl, rfl⟩

/-- Without `alloc` the call reads the map. -/
theorem xv6InodeAddr_read (hi : i < MAXFILE)
    (h : Runs φ (xv6InodeAddr modcheck ctx i false) w (e, b, ctx') w') :
    ctx' = { ctx with dirty := false } ∧ OnlyReads w w' e ∧
      (e = 0 → b = bmap w.disk ctx.addrs i) := by
  unfold bmap
  simp only [xv6InodeAddr, if_neg (not_le.mpr hi), Bool.false_eq_true, and_false, if_false,
    Bool.not_false, if_true] at h
  by_cases hd : i < NDIRECT
  · rw [if_pos hd] at h ⊢
    obtain ⟨hr, rfl⟩ := h.pure
    cases hr
    exact ⟨rfl, .refl w, fun _ => rfl⟩
  · rw [if_neg hd] at h ⊢
    by_cases hz : ctx.addrs.get NDIRECT = 0
    · rw [if_pos hz] at h ⊢
      obtain ⟨hr, rfl⟩ := h.pure
      cases hr
      exact ⟨rfl, .refl w, fun _ => rfl⟩
    · rw [if_neg hz] at h ⊢
      exact indirect_read_spec h

/-! ## Allocating -/

theorem indirect_alloc_spec (hrw : w.env.rdonly = false) (hsize : w.env.info.size < 2 ^ 32)
    (hle : w.hint ≤ w.env.info.size)
    (h : Runs φ (xv6InodeAddr.indirect modcheck ctx (i - NDIRECT) true) w (e, b, ctx') w') :
    ctx' = ctx ∧ ∃ l d hint, w' = { w with disk := d, hint := hint, log := l } ∧
      (Faultless w w' ↔ e = 0 ∨ e = -ENOSPC) ∧
      ((w.disk (ctx.addrs.get NDIRECT)).u32 (i - NDIRECT) ≠ 0 → OnlyReads w w' e) ∧
      EntryMapped w.env w.disk w.hint (ctx.addrs.get NDIRECT) i e b d hint := by
  simp only [xv6InodeAddr.indirect, modcheck] at h
  obtain ⟨l, hle₁, ⟨hreads, h⟩ | ⟨hreads, h⟩⟩ := sbBread_cases h
  · obtain ⟨hr, rfl⟩ := h.pure
    cases hr
    have hne : ¬ ((- EIO : Int) = 0 ∨ (- EIO : Int) = -ENOSPC) := by decide
    have hf : ¬ Faultless w { w with log := l } := fun hf => hne (.inl (hreads.error.mpr hf))
    exact ⟨rfl, _, _, _, rfl, iff_of_false hf hne, fun _ => hreads, .unread⟩
  · have hf : Faultless w { w with log := l } := hreads.error.mp rfl
    simp only [runs_bind_bdata, Bool.not_true, Bool.false_eq_true, if_false] at h
    rcases h.ite with ⟨hzero, h⟩ | ⟨hnz, h⟩
    · obtain ⟨⟨e₁, a⟩, w₂, hballoc, h⟩ := h.bind
      have hmono₁ := hballoc.mono
      obtain ⟨l₂, d, hint, rfl, he₁, hb⟩ := xv6Balloc_spec (w := { w with log := l }) hrw hsize
        hle hballoc
      dsimp only at he₁ hb
      have hf₁ : Faultless w { w with disk := d, hint := hint, log := l₂ } ↔ e₁ = 0 := by
        rw [faultless_split hle₁ hmono₁]
        exact (and_iff_right hf).trans he₁.symm
      rcases h.ite with ⟨hne, h⟩ | ⟨heq, h⟩
      · obtain ⟨hr, rfl⟩ := h.pure
        cases hr
        obtain rfl : e₁ = - EIO := hb.error.resolve_left hne
        have hspc : (- EIO : Int) ≠ -ENOSPC := by decide
        exact ⟨rfl, _, _, _, rfl, hf₁.trans (or_iff_left hspc).symm, fun hnz => absurd hzero hnz,
          .error hzero hb hne⟩
      · have he0 : e₁ = 0 := not_not.mp heq
        subst he0
        rcases h.ite with ⟨hnone, h⟩ | ⟨hsome, h⟩
        · obtain ⟨hr, rfl⟩ := h.pure
          cases hr
          subst hnone
          exact ⟨rfl, _, _, _, rfl, iff_of_true (hf₁.mpr rfl) (.inr rfl),
            fun hnz => absurd hzero hnz, .nospc hzero hb⟩
        · simp only [runs_bind_bdata] at h
          obtain ⟨e₂, w₃, hsync, h⟩ := h.bind
          have hmono₂ := hsync.mono
          obtain ⟨he₂, -⟩ := syncBuffer_spec hsync
          obtain ⟨f, he, rfl⟩ := syncBuffer_fate hsync
          have hs : Stored d (ctx.addrs.get NDIRECT)
              ((d (ctx.addrs.get NDIRECT)).setU32 (i - NDIRECT) a) e₂ _ := ⟨f, he, rfl⟩
          have hspc : e₂ ≠ -ENOSPC := by
            rcases hs.error with h | h <;> rw [h] <;> decide
          have hf₂ := faultless_split (le_trans hle₁ hmono₁) hmono₂
          rw [hf₁, ← he₂] at hf₂
          obtain ⟨hr, rfl⟩ := h.pure
          cases hr
          refine ⟨rfl, _, _, _, rfl, ?_, fun hnz => absurd hzero hnz, .attached hzero hb hsome hs⟩
          rw [hf₂]
          simp [hspc]
    · obtain ⟨hr, rfl⟩ := h.pure
      cases hr
      exact ⟨rfl, _, _, _, rfl, iff_of_true hf (.inl rfl), fun _ => hreads, .found hnz⟩

/-- With `alloc` a hole is filled. -/
theorem xv6InodeAddr_alloc (hrw : w.env.rdonly = false) (hg : w.env.info.Sound)
    (hge : w.env.info.dataStart ≤ w.hint) (hle : w.hint ≤ w.env.info.size) (hi : i < MAXFILE)
    (h : Runs φ (xv6InodeAddr modcheck ctx i true) w (e, b, ctx') w') :
    ∃ l d hint addrs dirty, w' = { w with disk := d, hint := hint, log := l } ∧
      ctx' = { ctx with addrs := addrs, dirty := dirty } ∧
      (Faultless w w' ↔ e = 0 ∨ e = -ENOSPC) ∧
      (bmap w.disk ctx.addrs i ≠ 0 → OnlyReads w w' e) ∧
      Mapped w.env w.disk w.hint ctx.addrs i e b addrs dirty d hint := by
  simp only [xv6InodeAddr, if_neg (not_le.mpr hi), and_true, Bool.not_true, Bool.false_eq_true,
    if_false] at h
  by_cases hd : i < NDIRECT
  · rw [if_pos hd] at h
    rcases h.ite with ⟨hz, h⟩ | ⟨hnz, h⟩
    · obtain ⟨⟨e₁, a⟩, w₁, hballoc, h⟩ := h.bind
      obtain ⟨l, d, hint, rfl, he₁, hb⟩ := xv6Balloc_spec hrw hg.size_lt hle hballoc
      dsimp only at he₁ hb
      obtain ⟨hr, rfl⟩ := h.pure
      cases hr
      refine ⟨l, d, hint, _, _, rfl, rfl, he₁.symm.trans ?_,
        fun hne => absurd ((bmap_direct hd).trans hz) hne, .direct hd hz hb⟩
      rcases hb.error with rfl | rfl
      · by_cases ha : a = 0 <;> simp [ha]
      · have h1 : ¬ ((- EIO : Int) = 0) := by decide
        have h2 : ¬ ((- EIO : Int) = -ENOSPC) := by decide
        simp [h1, h2]
    · obtain ⟨hr, rfl⟩ := h.pure
      cases hr
      exact ⟨_, _, _, _, _, rfl, rfl, iff_of_true (faultless_refl w) (.inl rfl),
        fun _ => .refl w, .found hd hnz⟩
  · rw [if_neg hd] at h
    have hind : NDIRECT ≤ i := not_lt.mp hd
    rcases h.ite with ⟨hz, h⟩ | ⟨hnz, h⟩
    · obtain ⟨⟨e₁, a⟩, w₁, hballoc, h⟩ := h.bind
      have hmono₁ := hballoc.mono
      obtain ⟨l, d, hint, rfl, he₁, hb⟩ := xv6Balloc_spec hrw hg.size_lt hle hballoc
      dsimp only at he₁ hb
      rcases h.ite with ⟨hne, h⟩ | ⟨heq, h⟩
      · obtain rfl : e₁ = - EIO := hb.error.resolve_left hne
        obtain ⟨hr, rfl⟩ := h.pure
        cases hr
        have hspc : (- EIO : Int) ≠ -ENOSPC := by decide
        exact ⟨l, d, hint, _, _, rfl, rfl, he₁.symm.trans (or_iff_left hspc).symm,
          fun hne => absurd (bmap_hole hind hz) hne, .error hind hz hb hne⟩
      · have he0 : e₁ = 0 := not_not.mp heq
        subst he0
        have hf₁ := he₁.mp rfl
        rcases h.ite with ⟨hnone, h⟩ | ⟨hsome, h⟩
        · obtain ⟨hr, rfl⟩ := h.pure
          cases hr
          subst hnone
          exact ⟨l, d, hint, _, _, rfl, rfl, iff_of_true hf₁ (.inr rfl),
            fun hne => absurd (bmap_hole hind hz) hne, .nospc hind hz hb⟩
        · have hmono₂ := h.mono
          obtain ⟨rfl, l₂, d₂, hint₂, rfl, hf₂, -, hentry⟩ := indirect_alloc_spec
            (w := { w with disk := d, hint := hint, log := l }) hrw
            hg.size_lt (hb.hint_mem hg hge hle).2 h
          dsimp only at hf₂ hentry
          rw [Addrs.get_set_self] at hentry
          refine ⟨l₂, d₂, hint₂, _, _, rfl, rfl, ?_,
            fun hne => absurd (bmap_hole hind hz) hne, .indirect hind hz hb hsome hentry⟩
          rw [faultless_split hmono₁ hmono₂]
          exact (and_iff_right hf₁).trans hf₂
    · obtain ⟨rfl, l, d, hint, rfl, hf, hreads, hentry⟩ := indirect_alloc_spec hrw hg.size_lt hle h
      rw [← bmap_entry hind hnz] at hreads
      exact ⟨l, d, hint, _, _, rfl, rfl, hf, hreads, .entry hind hnz hentry⟩

end

end Xv6fs
