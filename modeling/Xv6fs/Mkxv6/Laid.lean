/-
  Images whose blocks are handed out in order.

  mkxv6 takes blocks from a counter and never gives one back. An image is laid out up to the counter
  when the blocks that its inodes name lie between the first data block and the counter, each is
  named once, and what lies behind the counter is all zero (`Laid`). A file of `l` blocks has its
  first `l` blocks mapped and an indirect block when it needs one (`Spans`), which costs `cost l`
  blocks.

  Attaching the block at the counter and storing in a block of a file keep such a layout. The first
  changes no byte of any file, the second the bytes of that block alone.
-/
import Xv6fs.File.Write
import Xv6fs.Model.Mkxv6

namespace Xv6fs.Mkxv6

/-- The data blocks that have been handed out. -/
def Taken (freeblock b : Nat) : Prop := nmeta ≤ b ∧ b < freeblock

/-- The blocks that have been handed out are those of the inodes, and are named once each. -/
structure Laid (freeblock : Nat) (d : Disk) (A : Nat → Option Addrs) : Prop where
  owned : Exclusive (Taken freeblock) (owns d A)
  covered : ∀ b, Taken freeblock b → ∃ p, owns d A p = some b
  fresh : ∀ b, freeblock ≤ b → d b = Buf.zero
  ge : nmeta ≤ freeblock

/-- The first `l` blocks of a file are mapped, and no others. -/
structure Spans (d : Disk) (addrs : Addrs) (l : Nat) : Prop where
  le : l ≤ MAXFILE
  mapped : ∀ i, i < MAXFILE → (bmap d addrs i ≠ 0 ↔ i < l)
  indirect : addrs.get NDIRECT ≠ 0 ↔ NDIRECT < l

/-- The blocks that a file of `l` blocks takes. -/
def cost (l : Nat) : Nat := if NDIRECT < l then l + 1 else l

section

variable {d d' : Disk} {A : Nat → Option Addrs} {addrs addrs' : Addrs} {n l a : Nat} {r : Role}

theorem Spans.congr (h : Spans d addrs l) (hind : addrs.get NDIRECT ≠ 0 →
    d' (addrs.get NDIRECT) = d (addrs.get NDIRECT)) : Spans d' addrs l where
  le := h.le
  mapped i hi := by
    rw [bmap_of_indirect hind i]
    exact h.mapped i hi
  indirect := h.indirect

/-- The next block is mapped. -/
theorem Spans.next (h : Spans d addrs l) (hl : l < MAXFILE) (ha : a ≠ 0)
    (hmap : ∀ j, j < MAXFILE → bmap d' addrs' j = if j = l then a else bmap d addrs j)
    (hind : addrs'.get NDIRECT ≠ 0 ↔ NDIRECT < l + 1) : Spans d' addrs' (l + 1) where
  le := hl
  mapped j hj := by
    rw [hmap j hj]
    by_cases hjl : j = l
    · rw [if_pos hjl]
      exact iff_of_true ha (by omega)
    · rw [if_neg hjl, h.mapped j hj]
      omega
  indirect := hind

namespace Laid

theorem pos (h : Laid a d A) : a ≠ 0 := (lt_of_lt_of_le (by decide : 0 < nmeta) h.ge).ne'

/-! ## Attaching the block at the counter -/

/-- The block at the counter is attached at a place that named none. The rest of the disk is as it
    was, but for the indirect block when the place is in it. -/
theorem attach (h : Laid a d A) (hA : A n = some addrs) (hlt : a < 2 ^ 32)
    (he : Enters d addrs a d' r addrs')
    (hsame : ∀ b, b ≠ addrs.get NDIRECT → d' b = d b) :
    Laid (a + 1) d' (Function.update A n (some addrs')) := by
  have hfresh : ¬ Taken a a := fun hc => lt_irrefl _ hc.2
  have hused : Taken (a + 1) a := ⟨h.ge, Nat.lt_succ_self a⟩
  have hblock : ∀ x, Taken a x → x ≠ addrs.get NDIRECT → d' x = d x := fun x _ hx => hsame x hx
  have hgain := he.ownedAt_eq h.pos hlt
  have howns := owns_after_gain h.owned hA hblock hgain
  refine ⟨?_, fun b hb => ?_, fun b hb => ?_, le_trans h.ge (Nat.le_succ a)⟩
  · exact exclusive_gained h.owned hA hfresh hused (fun x hx => ⟨hx.1, Nat.lt_succ_of_lt hx.2⟩)
      hblock hgain
  · by_cases hba : b = a
    · exact ⟨(n, r), (howns _).trans ((if_pos rfl).trans (congrArg some hba.symm))⟩
    · obtain ⟨p, hp⟩ := h.covered b ⟨hb.1, lt_of_le_of_ne (Nat.le_of_lt_succ hb.2) hba⟩
      refine ⟨p, (howns p).trans ?_⟩
      rw [if_neg, hp]
      -- nothing is owned there yet
      rintro rfl
      rw [owns_of hA, he.none] at hp
      cases hp
  · by_cases hb' : b = addrs.get NDIRECT
    · -- an indirect block has been handed out
      by_cases hz : addrs.get NDIRECT = 0
      · rw [hb', hz] at hb
        exact absurd hb (Nat.not_succ_le_zero a)
      · have hlow := (used_indirect h.owned hA hz).2
        rw [← hb'] at hlow
        omega
    · rw [hsame b hb']
      exact h.fresh b (Nat.le_of_succ_le hb)

end Laid

/-- The map of a file that gains a block: that file block, or none when it is an indirect block. -/
theorem bmap_attach (he : Enters d addrs a d' r addrs') (ha : a ≠ 0) (hlt : a < 2 ^ 32) {j : Nat}
    (hj : j < MAXFILE) : bmap d' addrs' j = if dataRole j = r then a else bmap d addrs j := by
  have hrole := he.ownedAt_eq ha hlt (dataRole j)
  rw [ownedAt_dataRole hj, ownedAt_dataRole hj] at hrole
  by_cases hr : dataRole j = r
  · rw [if_pos hr] at hrole ⊢
    exact (blockNo_eq_some.mp hrole).1
  · rw [if_neg hr] at hrole ⊢
    exact blockNo_inj hrole

theorem indirect_attach (he : Enters d addrs a d' r addrs') (ha : a ≠ 0) (hlt : a < 2 ^ 32) :
    addrs'.get NDIRECT = if r = .indirect then a else addrs.get NDIRECT := by
  have hrole := he.ownedAt_eq ha hlt .indirect
  by_cases hr : r = .indirect
  · rw [if_pos hr.symm] at hrole
    rw [if_pos hr]
    exact (blockNo_eq_some.mp hrole).1
  · rw [if_neg (Ne.symm hr)] at hrole
    rw [if_neg hr]
    exact blockNo_inj hrole

/-- A file that gains a fresh block reads as before. -/
theorem Laid.attach_same (h : Laid a d A) (hA : A n = some addrs) (hlt : a < 2 ^ 32)
    (he : Enters d addrs a d' r addrs')
    (hsame : ∀ b, b ≠ addrs.get NDIRECT → d' b = d b) (hnew : d' a = d a) :
    SameFile d addrs d' addrs' := by
  have ha := h.pos
  intro j hj
  unfold fblock
  rw [bmap_attach he ha hlt hj]
  by_cases hr : dataRole j = r
  · have hnone : bmap d addrs j = 0 := by
      have hrole := he.none
      rw [← hr, ownedAt_dataRole hj] at hrole
      by_contra hne
      rw [blockNo_eq_some.mpr ⟨rfl, hne⟩] at hrole
      cases hrole
    rw [if_pos hr, if_neg ha, hnone, if_pos rfl, hnew, h.fresh a le_rfl]
  · rw [if_neg hr]
    by_cases hz : bmap d addrs j = 0
    · rw [if_pos hz, if_pos hz]
    · rw [if_neg hz, if_neg hz, hsame _ (bmap_apart_indirect h.owned hA hA hj hz)]

/-- So do the other files. -/
theorem Laid.elsewhere (h : Laid a d A) (hA : A n = some addrs)
    (hsame : ∀ b, b ≠ addrs.get NDIRECT → d' b = d b) : Elsewhere d A n d' := by
  intro m other hm hA' j hj
  have hmap : bmap d' other j = bmap d other j :=
    bmap_of_indirect (fun hz => hsame _ (indirect_apart h.owned hA' hA hz hm)) j
  refine ⟨hmap, ?_⟩
  unfold fblock
  rw [hmap]
  by_cases hz : bmap d other j = 0
  · rw [if_pos hz, if_pos hz]
  · rw [if_neg hz, if_neg hz, hsame _ (bmap_apart_indirect h.owned hA' hA hj hz)]

/-! ## Storing in a block -/

/-- The same is owned. -/
theorem Laid.of_owns {A' : Nat → Option Addrs} (h : Laid a d A)
    (howns : ∀ p, owns d' A' p = owns d A p) (hfresh : ∀ b, a ≤ b → d' b = Buf.zero) :
    Laid a d' A' where
  owned := h.owned.drop fun p b hp => by
    rw [howns] at hp
    exact ⟨hp, h.owned.held hp⟩
  covered b hb := by
    obtain ⟨p, hp⟩ := h.covered b hb
    exact ⟨p, (howns p).trans hp⟩
  fresh := hfresh
  ge := h.ge

/-- A layout does not depend on the blocks before the first data block. -/
theorem Laid.congr (h : Laid a d A) (hsame : ∀ b, nmeta ≤ b → d' b = d b) :
    Laid a d' A ∧ ∀ m other, A m = some other → ∀ j, j < MAXFILE →
      bmap d' other j = bmap d other j ∧ fblock d' other j = fblock d other j := by
  have hind : ∀ m other, A m = some other → other.get NDIRECT ≠ 0 →
      d' (other.get NDIRECT) = d (other.get NDIRECT) := fun m other hA hz =>
    hsame _ (used_indirect h.owned hA hz).1
  have howns : ∀ p, owns d' A p = owns d A p := by
    intro p
    cases hAp : A p.1 with
    | none =>
      unfold owns
      rw [hAp, Option.bind_none, Option.bind_none]
    | some other =>
      rw [show p = (p.1, p.2) from rfl, owns_of hAp, owns_of hAp]
      exact ownedAt_congr (hind p.1 other hAp) p.2
  refine ⟨h.of_owns howns fun b hb => ?_, fun m other hA j hj => ?_⟩
  · rw [hsame b (le_trans h.ge hb)]
    exact h.fresh b hb
  · have hmap := bmap_of_indirect (hind m other hA) j
    refine ⟨hmap, ?_⟩
    unfold fblock
    rw [hmap]
    by_cases hz : bmap d other j = 0
    · rw [if_pos hz, if_pos hz]
    · rw [if_neg hz, if_neg hz, hsame _ (used_bmap h.owned hA hj hz).1]

/-- Storing in a block of a file keeps the layout. -/
theorem Laid.store (h : Laid a d A) (hA : A n = some addrs) {i : Nat} (hi : i < MAXFILE)
    (hb : bmap d addrs i ≠ 0) (blk : Block) :
    Laid a (Function.update d (bmap d addrs i) blk) A := by
  have htaken := used_bmap h.owned hA hi hb
  refine h.of_owns (owns_store h.owned hA hi hb blk) fun b hle => ?_
  have hlt := htaken.2
  rw [Function.update_of_ne (by omega)]
  exact h.fresh b hle

end

end Xv6fs.Mkxv6
