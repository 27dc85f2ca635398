/-
  The layout of a file system whose numbers make sense: the bitmap ends inside it.

  Then every block has one bit, the bits of different blocks are different, and the bitmap
  lies before the data area, so storing in a data block does not change it.
-/
import Xv6fs.Balloc.Search

namespace Xv6fs

/-- The bitmap ends inside the file system, whose size is a `uint`. -/
structure FsInfo.Sound (fi : FsInfo) : Prop where
  data_le : fi.bmapstart + BITMAP_BLOCKS fi.size ≤ fi.size
  size_lt : fi.size < 2 ^ 32

/-- `b` has a bit in the bitmap. -/
def InBitmap (env : Env) (b : Nat) : Prop := b / BPB < BITMAP_BLOCKS env.info.size

/-- `b` is a data block. -/
def IsData (env : Env) (b : Nat) : Prop :=
  env.info.dataStart ≤ b ∧ b < env.info.size

instance (env : Env) (b : Nat) : Decidable (IsData env b) :=
  inferInstanceAs (Decidable (_ ∧ _))

namespace FsInfo.Sound

variable {env : Env} {b x : Nat}

theorem dataStart_eq (hg : env.info.Sound) :
    env.info.dataStart = env.info.bmapstart + BITMAP_BLOCKS env.info.size :=
  Nat.mod_eq_of_lt (lt_of_le_of_lt hg.data_le hg.size_lt)

theorem dataStart_le (hg : env.info.Sound) : env.info.dataStart ≤ env.info.size := by
  rw [hg.dataStart_eq]
  exact hg.data_le

theorem bmapstart_lt {fi : FsInfo} (hg : fi.Sound) : fi.bmapstart < 2 ^ 32 :=
  lt_of_le_of_lt (le_trans (Nat.le_add_right _ _) hg.data_le) hg.size_lt

/-- The data area lies behind the inodes. -/
theorem data_ge (hg : env.info.Sound) (hb : IsData env b) : env.info.bmapstart ≤ b := by
  have h := hb.1
  rw [hg.dataStart_eq] at h
  exact le_trans (Nat.le_add_right _ _) h

theorem inBitmap_of_lt (hb : b < env.info.size) : InBitmap env b := by
  unfold InBitmap BITMAP_BLOCKS
  exact Nat.lt_succ_of_le (Nat.div_le_div_right hb.le)

theorem bitmapBlock_eq (hg : env.info.Sound) (hb : InBitmap env b) :
    bitmapBlock env b = b / BPB + env.info.bmapstart := by
  have h1 := hg.data_le
  have h2 := hg.size_lt
  unfold InBitmap at hb
  exact Nat.mod_eq_of_lt (by omega)

/-- The bitmap lies before the data area. -/
theorem bitmapBlock_lt (hg : env.info.Sound) (hb : InBitmap env b) :
    bitmapBlock env b < env.info.dataStart := by
  rw [hg.bitmapBlock_eq hb, hg.dataStart_eq]
  unfold InBitmap at hb
  omega

theorem bitmapBlock_ge (hg : env.info.Sound) (hb : InBitmap env b) :
    env.info.bmapstart ≤ bitmapBlock env b := by
  rw [hg.bitmapBlock_eq hb]
  exact Nat.le_add_left _ _

/-- Bits of one bitmap block are told apart by their position. -/
theorem bit_inj (hg : env.info.Sound) (hx : InBitmap env x) (hb : InBitmap env b)
    (h : bitmapBlock env x = bitmapBlock env b) : x % BPB = b % BPB ↔ x = b := by
  rw [hg.bitmapBlock_eq hx, hg.bitmapBlock_eq hb] at h
  simp only [BPB] at h ⊢
  omega

theorem bitSet_markUsed (hg : env.info.Sound) (d : Disk) (hx : InBitmap env x)
    (hb : InBitmap env b) :
    bitSet env (markUsed env d b) x = if x = b then true else bitSet env d x :=
  Xv6fs.bitSet_markUsed env d (hg.bit_inj hx hb)

theorem bitSet_markFree (hg : env.info.Sound) (d : Disk) (hx : InBitmap env x)
    (hb : InBitmap env b) :
    bitSet env (markFree env d b) x = if x = b then false else bitSet env d x :=
  Xv6fs.bitSet_markFree env d (hg.bit_inj hx hb)

/-- Storing in a data block does not change the bitmap. -/
theorem bitSet_update (hg : env.info.Sound) (d : Disk) (blk : Block) (hx : InBitmap env x)
    (hb : IsData env b) : bitSet env (Function.update d b blk) x = bitSet env d x := by
  have hlt := hg.bitmapBlock_lt hx
  have hge := hb.1
  exact bitSet_congr (Function.update_of_ne (by omega) _ _)

end FsInfo.Sound

end Xv6fs
