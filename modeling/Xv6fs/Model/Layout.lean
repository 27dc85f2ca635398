/-
  fs.h: the constants of the on-disk format, and the records a block is read as.

  A block is 1024 bytes. It is a bitmap of words in the host's byte order (balloc.c casts
  `b_data` to `unsigned int *` and converts nothing), a table of 16 on-disk inodes, an
  indirect block of 256 little-endian addresses, or a table of 64 directory entries. The
  record types hold the decoded values of their little-endian fields.

  For each view: reading back what was written, and that writing one record leaves the
  others of the same block alone.
-/
import Xv6fs.Lib.Bytes
import Xv6fs.Lib.Bits

namespace Xv6fs

/-! ## Constants -/

def BSIZE : Nat := 1024
def ROOTINO : Nat := 1
def FSMAGIC : Nat := 0x10203040
def NDIRECT : Nat := 12
def NINDIRECT : Nat := 256
def MAXFILE : Nat := 268
def DIRSIZ : Nat := 14

/-- Inodes per block. -/
def IPB : Nat := 16

/-- Bitmap bits per block. -/
def BPB : Nat := 8192

/-- Directory entries per block (`nents` in fs.cpp). -/
def NENTS : Nat := 64

def T_DIR : UInt16 := 1
def T_FILE : UInt16 := 2
def T_DEVICE : UInt16 := 3

/-- Total number of inode blocks. -/
def INODE_BLOCKS (inodes : Nat) : Nat := inodes / IPB + 1

/-- Number of bitmap blocks. -/
def BITMAP_BLOCKS (fssize : Nat) : Nat := fssize / BPB + 1

/-! ## Blocks and the disk -/

abbrev Block : Type := Buf 1024

/-- The contents of the blocks, as `sb_bread` hands them out. -/
abbrev Disk : Type := Nat → Block

instance neZero_13 : NeZero 13 := ⟨by decide⟩

instance neZero_14 : NeZero 14 := ⟨by decide⟩

/-- The address array of an in-core inode (`addrs[NDIRECT + 1]`). -/
abbrev Addrs : Type := Fin 13 → Nat

namespace Block

/-! ## The bitmap view -/

/-- Word `index` of the block as the host reads an `unsigned int`. -/
def word (host : ByteOrder) (index : Nat) (blk : Block) : Nat :=
  Buf.readNum host 4 (4 * index) blk

def setWord (host : ByteOrder) (index v : Nat) (blk : Block) : Block :=
  Buf.writeNum host 4 (4 * index) v blk

/-- Bit `i` of a bitmap block. -/
def bit (host : ByteOrder) (blk : Block) (i : Nat) : Bool :=
  (blk.word host (i / 32)).testBit (i % 32)

theorem word_setWord (host : ByteOrder) {index : Nat} (v : Nat) (blk : Block)
    (h : index < 256) : (blk.setWord host index v).word host index = v % 2 ^ 32 :=
  Buf.readNum_writeNum host v blk (by omega)

theorem word_setWord_ne (host : ByteOrder) {index j : Nat} (v : Nat) (blk : Block)
    (h : j ≠ index) : (blk.setWord host index v).word host j = blk.word host j :=
  Buf.readNum_writeNum_ne host host v blk (by omega)

/-- Storing a word whose bits are those of the old word except at bit `i`. -/
theorem bit_setWord (host : ByteOrder) {i v : Nat} {c : Bool} (blk : Block)
    (hi : i < 8192)
    (hv : ∀ k, k < 32 →
      v.testBit k = if k = i % 32 then c else (blk.word host (i / 32)).testBit k)
    (j : Nat) :
    (blk.setWord host (i / 32) v).bit host j = if j = i then c else blk.bit host j := by
  have hk : j % 32 < 32 := Nat.mod_lt _ (by omega)
  unfold bit
  by_cases hw : j / 32 = i / 32
  · rw [hw, word_setWord host v blk (by omega), Bits.testBit_mod_word v _ hk, hv _ hk]
    refine if_congr ?_ rfl rfl
    omega
  · have hj : j ≠ i := by
      rintro rfl
      exact hw rfl
    rw [word_setWord_ne host v blk hw, if_neg hj]

/-- On a little-endian host bit `i` is bit `i % 8` of byte `i / 8`. -/
theorem bit_little (blk : Block) (i : Nat) :
    blk.bit .little i = (blk.byte (i / 8)).toNat.testBit (i % 8) := by
  unfold bit word Buf.readNum
  rw [Buf.testBit_num _ (by omega)]
  unfold Buf.place
  dsimp only
  rw [show 4 * (i / 32) + i % 32 / 8 = i / 8 by omega, show i % 32 % 8 = i % 8 by omega]

theorem bit_setWord_or (host : ByteOrder) {i : Nat} (blk : Block) (hi : i < 8192) (j : Nat) :
    (blk.setWord host (i / 32) (blk.word host (i / 32) ||| 1 <<< (i % 32))).bit host j =
      if j = i then true else blk.bit host j := by
  refine bit_setWord host blk hi (fun k _ => ?_) j
  rw [Bits.testBit_or_mask]
  by_cases hk : k = i % 32 <;> simp [hk]

theorem bit_setWord_and_not (host : ByteOrder) {i : Nat} (blk : Block) (hi : i < 8192) (j : Nat) :
    (blk.setWord host (i / 32)
      (blk.word host (i / 32) &&& (1 <<< (i % 32) ^^^ 0xffffffff))).bit host j =
      if j = i then false else blk.bit host j := by
  refine bit_setWord host blk hi (fun k hk => ?_) j
  rw [Bits.testBit_and_not_mask _ _ _ hk]
  by_cases hk : k = i % 32 <;> simp [hk]

/-! ## The indirect-block view -/

/-- Entry `i` of an indirect block (`__le32_to_cpu(data[i])`). -/
def u32 (blk : Block) (i : Nat) : Nat := Buf.readNum .little 4 (4 * i) blk

def setU32 (i v : Nat) (blk : Block) : Block := Buf.writeNum .little 4 (4 * i) v blk

theorem u32_lt (blk : Block) (i : Nat) : blk.u32 i < 2 ^ 32 := Buf.readNum_lt _ _ _ _

theorem u32_zero (i : Nat) : Block.u32 Buf.zero i = 0 := Buf.readNum_zero _ _ _

theorem u32_setU32 (blk : Block) {i v : Nat} (hi : i < 256) (hv : v < 2 ^ 32) (j : Nat) :
    (blk.setU32 i v).u32 j = if j = i then v else blk.u32 j := by
  unfold u32 setU32
  by_cases h : j = i
  · subst h
    rw [if_pos rfl, Buf.readNum_writeNum .little v blk (by omega)]
    exact Nat.mod_eq_of_lt hv
  · rw [if_neg h]
    exact Buf.readNum_writeNum_ne .little .little v blk (by omega)

end Block

/-! ## On-disk inodes -/

structure Dinode where
  type : UInt16
  major : UInt16
  minor : UInt16
  nlink : UInt16
  size : UInt32
  addrs : Fin 13 → UInt32

namespace Dinode

/-- An all-zero slot. -/
def zero : Dinode := ⟨0, 0, 0, 0, 0, fun _ => 0⟩

/-- The addresses as numbers. -/
def addr (di : Dinode) : Addrs := fun i => (di.addrs i).toNat

/-- Byte `r` of the 64 bytes of a `struct dinode`. -/
def byte (di : Dinode) (r : Nat) : UInt8 :=
  if r < 2 then Buf.digit di.type.toNat r
  else if r < 4 then Buf.digit di.major.toNat (r - 2)
  else if r < 6 then Buf.digit di.minor.toNat (r - 4)
  else if r < 8 then Buf.digit di.nlink.toNat (r - 6)
  else if r < 12 then Buf.digit di.size.toNat (r - 8)
  else Buf.digit (di.addrs (Fin.ofNat 13 ((r - 12) / 4))).toNat ((r - 12) % 4)

end Dinode

namespace Block

/-- The on-disk inode at position `j` of an inode block. -/
def dinode (blk : Block) (j : Nat) : Dinode where
  type := UInt16.ofNat (Buf.readNum .little 2 (64 * j) blk)
  major := UInt16.ofNat (Buf.readNum .little 2 (64 * j + 2) blk)
  minor := UInt16.ofNat (Buf.readNum .little 2 (64 * j + 4) blk)
  nlink := UInt16.ofNat (Buf.readNum .little 2 (64 * j + 6) blk)
  size := UInt32.ofNat (Buf.readNum .little 4 (64 * j + 8) blk)
  addrs := fun i => UInt32.ofNat (Buf.readNum .little 4 (64 * j + 12 + 4 * i.val) blk)

def setDinode (j : Nat) (di : Dinode) (blk : Block) : Block := blk.patch (64 * j) 64 di.byte

/-- Two blocks that agree on the 64 bytes of slot `j` hold the same inode there. -/
theorem dinode_congr {blk blk' : Block} {j : Nat}
    (h : ∀ w off, 64 * j ≤ off → off + w ≤ 64 * j + 64 →
      Buf.readNum .little w off blk = Buf.readNum .little w off blk') :
    blk.dinode j = blk'.dinode j := by
  have ha : ∀ i : Fin 13, Buf.readNum .little 4 (64 * j + 12 + 4 * i.val) blk =
      Buf.readNum .little 4 (64 * j + 12 + 4 * i.val) blk' :=
    fun i => h 4 _ (by omega) (by omega)
  unfold dinode
  rw [h 2 (64 * j) (by omega) (by omega), h 2 (64 * j + 2) (by omega) (by omega),
    h 2 (64 * j + 4) (by omega) (by omega), h 2 (64 * j + 6) (by omega) (by omega),
    h 4 (64 * j + 8) (by omega) (by omega)]
  simp only [ha]

theorem dinode_setDinode_ne (blk : Block) (di : Dinode) {j k : Nat} (h : k ≠ j) :
    (blk.setDinode j di).dinode k = blk.dinode k :=
  dinode_congr fun _ _ _ _ => Buf.readNum_patch_out .little blk di.byte (by omega)

/-- A field of the slot just written, `w` bytes at `r` that spell `v`. -/
private theorem readNum_setDinode (blk : Block) (di : Dinode) {j w r v : Nat} (hj : j < 16)
    (hr : r + w ≤ 64) (hd : ∀ k, k < w → di.byte (r + k) = Buf.digit v k) :
    Buf.readNum .little w (64 * j + r) (blk.setDinode j di) = v % 256 ^ w := by
  unfold setDinode
  rw [Buf.readNum_patch_in .little blk di.byte (by omega) (by omega) (by omega), ← Buf.num_digit]
  refine Buf.num_congr fun k hk => ?_
  rw [show 64 * j + r - 64 * j + Buf.place .little w k = r + k by simp only [Buf.place]; omega]
  exact hd k hk

theorem dinode_setDinode (blk : Block) (di : Dinode) {j : Nat} (hj : j < 16) :
    (blk.setDinode j di).dinode j = di := by
  have h16 : ∀ {r : Nat} {x : UInt16}, r + 2 ≤ 64 →
      (∀ k, k < 2 → di.byte (r + k) = Buf.digit x.toNat k) →
      UInt16.ofNat (Buf.readNum .little 2 (64 * j + r) (blk.setDinode j di)) = x := by
    intro r x hr hd
    rw [readNum_setDinode blk di hj hr hd, show x.toNat % 256 ^ 2 = x.toNat from
      Nat.mod_eq_of_lt x.toNat_lt, UInt16.ofNat_toNat]
  have h32 : ∀ {r : Nat} {x : UInt32}, r + 4 ≤ 64 →
      (∀ k, k < 4 → di.byte (r + k) = Buf.digit x.toNat k) →
      UInt32.ofNat (Buf.readNum .little 4 (64 * j + r) (blk.setDinode j di)) = x := by
    intro r x hr hd
    rw [readNum_setDinode blk di hj hr hd, show x.toNat % 256 ^ 4 = x.toNat from
      Nat.mod_eq_of_lt x.toNat_lt, UInt32.ofNat_toNat]
  have htype := h16 (r := 0) (x := di.type) (by omega) fun k hk => by
    simp only [Dinode.byte, Nat.zero_add, if_pos hk]
  have hmajor := h16 (r := 2) (x := di.major) (by omega) fun k hk => by
    simp only [Dinode.byte, show ¬ 2 + k < 2 by omega, show 2 + k < 4 by omega, if_true, if_false,
      Nat.add_sub_cancel_left]
  have hminor := h16 (r := 4) (x := di.minor) (by omega) fun k hk => by
    simp only [Dinode.byte, show ¬ 4 + k < 2 by omega, show ¬ 4 + k < 4 by omega,
      show 4 + k < 6 by omega, if_true, if_false, Nat.add_sub_cancel_left]
  have hnlink := h16 (r := 6) (x := di.nlink) (by omega) fun k hk => by
    simp only [Dinode.byte, show ¬ 6 + k < 2 by omega, show ¬ 6 + k < 4 by omega,
      show ¬ 6 + k < 6 by omega, show 6 + k < 8 by omega, if_true, if_false,
      Nat.add_sub_cancel_left]
  have hsize := h32 (r := 8) (x := di.size) (by omega) fun k hk => by
    simp only [Dinode.byte, show ¬ 8 + k < 2 by omega, show ¬ 8 + k < 4 by omega,
      show ¬ 8 + k < 6 by omega, show ¬ 8 + k < 8 by omega, show 8 + k < 12 by omega, if_true,
      if_false, Nat.add_sub_cancel_left]
  have haddr : ∀ i : Fin 13,
      UInt32.ofNat (Buf.readNum .little 4 (64 * j + 12 + 4 * i.val) (blk.setDinode j di)) =
        di.addrs i := by
    intro i
    rw [Nat.add_assoc]
    refine h32 (by omega) fun k hk => ?_
    have hi : Fin.ofNat 13 ((12 + 4 * i.val + k - 12) / 4) = i := by
      apply Fin.ext
      show (12 + 4 * i.val + k - 12) / 4 % 13 = i.val
      omega
    simp only [Dinode.byte, show ¬ 12 + 4 * i.val + k < 2 by omega,
      show ¬ 12 + 4 * i.val + k < 4 by omega, show ¬ 12 + 4 * i.val + k < 6 by omega,
      show ¬ 12 + 4 * i.val + k < 8 by omega, show ¬ 12 + 4 * i.val + k < 12 by omega, if_false, hi]
    congr 1
    omega
  unfold dinode
  rw [Nat.add_zero] at htype
  rw [htype, hmajor, hminor, hnlink, hsize]
  simp only [haddr]

/-- A slot written back as it was read leaves the block as it was. -/
theorem setDinode_dinode (blk : Block) (j : Nat) : blk.setDinode j (blk.dinode j) = blk := by
  have h16 : ∀ {off k : Nat}, k < 2 →
      Buf.digit (UInt16.ofNat (Buf.readNum .little 2 off blk)).toNat k = blk.byte (off + k) := by
    intro off k hk
    have hlt : Buf.readNum .little 2 off blk < 2 ^ 16 := Buf.readNum_lt _ _ _ _
    rw [UInt16.toNat_ofNat_of_lt' hlt]
    exact Buf.digit_num _ hk
  have h32 : ∀ {off k : Nat}, k < 4 →
      Buf.digit (UInt32.ofNat (Buf.readNum .little 4 off blk)).toNat k = blk.byte (off + k) := by
    intro off k hk
    have hlt : Buf.readNum .little 4 off blk < 2 ^ 32 := Buf.readNum_lt _ _ _ _
    rw [UInt32.toNat_ofNat_of_lt' hlt]
    exact Buf.digit_num _ hk
  refine Buf.patch_self blk fun r hr => ?_
  unfold Dinode.byte
  split
  · next h => exact h16 h
  split
  · next h => exact (h16 (by omega)).trans (congrArg blk.byte (by omega))
  split
  · next h => exact (h16 (by omega)).trans (congrArg blk.byte (by omega))
  split
  · next h => exact (h16 (by omega)).trans (congrArg blk.byte (by omega))
  split
  · next h => exact (h32 (by omega)).trans (congrArg blk.byte (by omega))
  · next h =>
    have hi : (Fin.ofNat 13 ((r - 12) / 4)).val = (r - 12) / 4 := Nat.mod_eq_of_lt (by omega)
    refine (h32 (Nat.mod_lt _ (by decide))).trans (congrArg blk.byte ?_)
    rw [hi]
    omega

end Block

/-! ## Directory entries -/

/-- The bytes of the fixed-size name field; a name of 14 bytes has no terminator. -/
abbrev Name : Type := Fin 14 → UInt8

structure Dirent where
  inum : UInt16
  name : Name

namespace Dirent

/-- An all-zero entry. -/
def zero : Dirent := ⟨0, fun _ => 0⟩

/-- Byte `r` of the 16 bytes of a `struct dirent`. -/
def byte (de : Dirent) (r : Nat) : UInt8 :=
  if r < 2 then Buf.digit de.inum.toNat r else de.name (Fin.ofNat 14 (r - 2))

end Dirent

namespace Block

/-- The entry at position `k` of a directory block. -/
def dirent (blk : Block) (k : Nat) : Dirent where
  inum := UInt16.ofNat (Buf.readNum .little 2 (16 * k) blk)
  name := fun i => blk.byte (16 * k + 2 + i.val)

def setDirent (k : Nat) (de : Dirent) (blk : Block) : Block := blk.patch (16 * k) 16 de.byte

theorem dirent_zero (k : Nat) : Block.dirent Buf.zero k = Dirent.zero := by
  unfold dirent
  simp only [Buf.readNum_zero, Buf.byte_zero]
  rfl

theorem dirent_setDirent_ne (blk : Block) (de : Dirent) {j k : Nat} (h : k ≠ j) :
    (blk.setDirent j de).dirent k = blk.dirent k := by
  have hn : ∀ i : Fin 14, (blk.setDirent j de).byte (16 * k + 2 + i.val) =
      blk.byte (16 * k + 2 + i.val) := fun i => Buf.byte_patch_out blk de.byte (by omega)
  unfold dirent
  rw [show Buf.readNum .little 2 (16 * k) (blk.setDirent j de) =
    Buf.readNum .little 2 (16 * k) blk from Buf.readNum_patch_out .little blk de.byte (by omega)]
  simp only [hn]

theorem dirent_setDirent (blk : Block) (de : Dirent) {k : Nat} (hk : k < 64) :
    (blk.setDirent k de).dirent k = de := by
  have hi : Buf.readNum .little 2 (16 * k) (blk.setDirent k de) = de.inum.toNat := by
    unfold setDirent
    rw [Buf.readNum_patch_in .little blk de.byte (by omega) (by omega) (by omega),
      ← Nat.mod_eq_of_lt (a := de.inum.toNat) (b := 256 ^ 2) de.inum.toNat_lt, ← Buf.num_digit]
    refine Buf.num_congr fun r hr => ?_
    rw [Nat.sub_self, Nat.zero_add]
    simp only [Buf.place, Dirent.byte]
    exact if_pos hr
  have hn : ∀ i : Fin 14, (blk.setDirent k de).byte (16 * k + 2 + i.val) = de.name i := by
    intro i
    unfold setDirent
    rw [Buf.byte_patch_in blk de.byte (by omega) (by omega) (by omega),
      show 16 * k + 2 + i.val - 16 * k = 2 + i.val by omega]
    simp only [Dirent.byte, show ¬ 2 + i.val < 2 by omega, if_false, Nat.add_sub_cancel_left,
      Fin.ofNat_val_eq_self]
  unfold dirent
  rw [hi, UInt16.ofNat_toNat]
  simp only [hn]

/-- An entry written back as it was read leaves the block as it was. -/
theorem setDirent_dirent (blk : Block) (k : Nat) :
    blk.setDirent k (blk.dirent k) = blk := by
  refine Buf.patch_self blk fun r hr => ?_
  unfold Dirent.byte
  split
  · next h2 =>
    have hlt : Buf.readNum .little 2 (16 * k) blk < 2 ^ 16 := Buf.readNum_lt _ _ _ _
    simp only [dirent]
    rw [UInt16.toNat_ofNat_of_lt' hlt]
    exact Buf.digit_num _ h2
  · next h2 =>
    have hv : (Fin.ofNat 14 (r - 2)).val = r - 2 := Nat.mod_eq_of_lt (by omega)
    simp only [dirent]
    rw [hv]
    congr 1
    omega

/-- An entry is what its bytes say. -/
theorem dirent_eq {blk : Block} {k : Nat} {de : Dirent} (hk : k < 64)
    (h : ∀ r, r < 16 → blk.byte (16 * k + r) = de.byte r) : blk.dirent k = de := by
  have hsame : blk.setDirent k de = blk := Buf.patch_self blk fun r hr => (h r hr).symm
  rw [← hsame]
  exact dirent_setDirent _ _ hk

end Block

/-! ## The super block -/

/-- The fields of `struct superblock`, decoded. -/
structure Superblock where
  magic : Nat
  size : Nat
  nblocks : Nat
  ninodes : Nat
  nlog : Nat
  logstart : Nat
  inodestart : Nat
  bmapstart : Nat

/-- Block 0 read as a super block. -/
def Block.superblock (blk : Block) : Superblock where
  magic := blk.u32 0
  size := blk.u32 1
  nblocks := blk.u32 2
  ninodes := blk.u32 3
  nlog := blk.u32 4
  logstart := blk.u32 5
  inodestart := blk.u32 6
  bmapstart := blk.u32 7

/-- The block that holds inode `i`, in `uint` arithmetic. -/
def IBLOCK (i : Nat) (sb : Superblock) : Nat := (i / IPB + sb.inodestart) % 2 ^ 32

/-- The block of the bitmap that holds the bit of block `b`. -/
def BBLOCK (b : Nat) (sb : Superblock) : Nat := (b / BPB + sb.bmapstart) % 2 ^ 32

end Xv6fs
