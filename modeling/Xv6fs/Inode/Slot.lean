/-
  Slots of the inode table, and writing an in-core inode back to its slot.

  The slots of different inode numbers are different bytes (`slot_setSlot`), and the inode table
  lies before the bitmap, so no change to a file touches it (`SameBefore.slot`). A write-back that
  succeeds leaves the disk `syncDisk`, in which the slot has the size, the link count and the
  addresses of the inode (`slot_syncDisk`).
-/
import Xv6fs.Fs.Frame
import Xv6fs.File.Contents

namespace Xv6fs

/-- The inode table ends before the bitmap. -/
def FsInfo.TableOk (fi : FsInfo) : Prop := fi.inodestart + INODE_BLOCKS fi.ninodes ≤ fi.bmapstart

/-- `n` has a slot. -/
def InTable (env : Env) (n : Nat) : Prop := n < env.info.ninodes

/-- Slot `n` is before the bitmap. The last block of the table has slots for numbers that are not
    below `ninodes`. -/
def HasSlot (env : Env) (n : Nat) : Prop := env.info.inodestart + n / IPB < env.info.bmapstart

section

variable {env : Env} {d d' : Disk} {n m : Nat} {di : Dinode}

/-! ## Slots -/

theorem InTable.hasSlot (ht : env.info.TableOk) (hn : InTable env n) : HasSlot env n := by
  unfold FsInfo.TableOk INODE_BLOCKS at ht
  unfold InTable at hn
  have h3 : n / IPB ≤ env.info.ninodes / IPB := Nat.div_le_div_right hn.le
  unfold HasSlot
  omega

/-- The disk with `di` in slot `n`. -/
def setSlot (env : Env) (d : Disk) (n : Nat) (di : Dinode) : Disk :=
  Function.update d (inodeBlock env n) ((d (inodeBlock env n)).setDinode (n % IPB) di)

theorem slot_setSlot_self : slot env (setSlot env d n di) n = di := by
  unfold slot setSlot
  rw [Function.update_self]
  exact Block.dinode_setDinode _ _ (Nat.mod_lt _ (by decide))

namespace HasSlot

theorem block_eq (hg : env.info.Sound) (hn : HasSlot env n) :
    inodeBlock env n = env.info.inodestart + n / IPB := by
  have h1 := hg.data_le
  have h2 := hg.size_lt
  unfold HasSlot at hn
  unfold inodeBlock
  exact Nat.mod_eq_of_lt (by omega)

theorem block_lt (hg : env.info.Sound) (hn : HasSlot env n) :
    inodeBlock env n < env.info.bmapstart := by
  rw [hn.block_eq hg]
  exact hn

theorem setSlot_ne (hg : env.info.Sound) (hn : HasSlot env n) (hm : HasSlot env m) (hne : m ≠ n) :
    slot env (setSlot env d n di) m = slot env d m := by
  unfold slot setSlot
  by_cases hb : inodeBlock env m = inodeBlock env n
  · rw [hb, Function.update_self]
    refine Block.dinode_setDinode_ne _ _ fun hc => hne ?_
    rw [hn.block_eq hg, hm.block_eq hg] at hb
    simp only [IPB] at hb hc
    omega
  · rw [Function.update_of_ne hb]

/-- A write to a slot leaves the blocks from the bitmap on alone. -/
theorem setSlot_block (hg : env.info.Sound) (hn : HasSlot env n) {x : Nat}
    (hx : env.info.bmapstart ≤ x) : setSlot env d n di x = d x := by
  have hlt := hn.block_lt hg
  exact Function.update_of_ne (by omega) _ _

theorem start_lt (hn : HasSlot env n) : env.info.inodestart < env.info.bmapstart :=
  lt_of_le_of_lt (Nat.le_add_right _ _) hn

/-- The blocks in front of the table are no slots. -/
theorem setSlot_front (hg : env.info.Sound) (hn : HasSlot env n) {x : Nat}
    (hx : x < env.info.inodestart) : setSlot env d n di x = d x := by
  have hle : env.info.inodestart ≤ inodeBlock env n := by
    rw [hn.block_eq hg]
    exact Nat.le_add_right _ _
  exact Function.update_of_ne (hx.trans_le hle).ne _ _

theorem same (hg : env.info.Sound) (hn : HasSlot env n) (h : SameBefore env d d') :
    slot env d' n = slot env d n := by
  unfold slot
  rw [h _ (hn.block_lt hg)]

end HasSlot

theorem inodeBlock_lt (hg : env.info.Sound) (ht : env.info.TableOk) (hn : InTable env n) :
    inodeBlock env n < env.info.bmapstart :=
  (hn.hasSlot ht).block_lt hg

theorem slot_setSlot_ne (hg : env.info.Sound) (ht : env.info.TableOk) (hn : InTable env n)
    (hm : InTable env m) (hne : m ≠ n) : slot env (setSlot env d n di) m = slot env d m :=
  (hn.hasSlot ht).setSlot_ne hg (hm.hasSlot ht) hne

theorem SameBefore.slot (hg : env.info.Sound) (ht : env.info.TableOk) (hn : InTable env n)
    (h : SameBefore env d d') : Xv6fs.slot env d' n = Xv6fs.slot env d n :=
  (hn.hasSlot ht).same hg h

/-! ## Writing an inode back -/

/-- The disk after the in-core inode has been written back. -/
def syncDisk (env : Env) (d : Disk) (ino : Inode) : Disk :=
  setSlot env d ino.ino (ino.toDinode (slot env d ino.ino))

theorem slot_syncDisk (ino : Inode) :
    slot env (syncDisk env d ino) ino.ino = ino.toDinode (slot env d ino.ino) :=
  slot_setSlot_self

variable {φ : Event → Prop} {w w' : World} {p : Ptr} {e : Int}

/-- The size, the link count and the addresses fit their fields. -/
structure Inode.Fits (ino : Inode) : Prop where
  size : ino.size < 2 ^ 32
  nlink : ino.nlink < 2 ^ 16
  addrs : ∀ addrs, ino.priv = some addrs → ∀ i, addrs i < 2 ^ 32

theorem Inode.Fits.size_toDinode {ino : Inode} (h : ino.Fits) (old : Dinode) :
    (ino.toDinode old).size.toNat = ino.size :=
  UInt32.toNat_ofNat_of_lt' h.size

theorem Inode.Fits.nlink_toDinode {ino : Inode} (h : ino.Fits) (old : Dinode) :
    (ino.toDinode old).nlink.toNat = ino.nlink :=
  UInt16.toNat_ofNat_of_lt' h.nlink

theorem Inode.Fits.addr_toDinode {ino : Inode} (h : ino.Fits) (old : Dinode) :
    (ino.toDinode old).addr = ino.priv.getD old.addr := by
  unfold Inode.toDinode Dinode.addr
  cases hpriv : ino.priv with
  | none => rfl
  | some addrs => exact funext fun i => UInt32.toNat_ofNat_of_lt' (h.addrs addrs hpriv i)

/-- A write-back changes the slot at most, and does so when it succeeds. -/
theorem xv6SyncInode_spec (hrw : w.env.rdonly = false) (h : Runs φ (xv6SyncInode p) w e w') :
    (w.inodes p).ino ≠ 0 ∧ ∃ l dk, w' = { w with disk := dk, log := l } ∧
      (dk = w.disk ∨ dk = syncDisk w.env w.disk (w.inodes p)) ∧
      (e = 0 → dk = syncDisk w.env w.disk (w.inodes p)) := by
  simp only [xv6SyncInode, runs_bind_getEnv, hrw, Bool.false_eq_true, if_false, runs_bind_getInode,
    runs_bind_assert] at h
  obtain ⟨hino, hnext⟩ := h
  refine ⟨hino, ?_⟩
  obtain ⟨ok, w₁, hread, hrest⟩ := hnext.bind
  obtain ⟨-, l, rfl⟩ := sbBread_spec hread
  rcases hrest.ite with ⟨-, hend⟩ | ⟨-, hend⟩
  · obtain ⟨rfl, rfl⟩ := hend.pure
    exact ⟨l, _, rfl, .inl rfl, fun h0 => absurd h0 (by decide)⟩
  · simp only [runs_bind_bdata] at hend
    obtain ⟨-, -, l', dk, rfl, hdk, hok⟩ := syncBuffer_spec hend
    exact ⟨l', dk, rfl, hdk, hok⟩

theorem xv6SyncInode_returns (hq : Quiet w.env) (hrw : w.env.rdonly = false)
    (hino : (w.inodes p).ino ≠ 0) : ∃ l, Returns (xv6SyncInode p) w 0
      { w with disk := syncDisk w.env w.disk (w.inodes p), log := l } := by
  simp only [xv6SyncInode, runs_bind_getEnv, hrw, Bool.false_eq_true, if_false, runs_bind_getInode,
    runs_bind_assert]
  refine ⟨.sync (inodeBlock w.env (w.inodes p).ino) .ok ::
    .bread (inodeBlock w.env (w.inodes p).ino) .ok :: w.log, hino,
    (quiet_bind_sbBread hq).mpr ⟨trivial, ?_⟩⟩
  simp only [Bool.not_true, Bool.false_eq_true, if_false, runs_bind_bdata]
  exact (quiet_syncBuffer (w := w.logged _) hq).mpr ⟨trivial, rfl, rfl⟩

/-- On a read-only mount nothing is written. -/
theorem xv6SyncInode_rdonly (hro : w.env.rdonly = true) (h : Runs φ (xv6SyncInode p) w e w') :
    e = 0 ∧ w' = w := by
  simp only [xv6SyncInode, runs_bind_getEnv, hro, if_true] at h
  obtain ⟨rfl, rfl⟩ := h.pure
  exact ⟨rfl, rfl⟩

end

end Xv6fs
