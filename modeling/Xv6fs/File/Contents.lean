/-
  The contents of a file.

  The contents are the bytes that the address map of the inode reaches, with zeros in holes: the
  map in core when the inode has one, that of its slot on disk otherwise. On a disk without I/O
  errors the lookup of a block returns, reads the map and changes nothing.
-/
import Xv6fs.Fs.Own
import Xv6fs.Model.File

namespace Xv6fs

/-- Byte `x` of a file. -/
def fbyte (d : Disk) (addrs : Addrs) (x : Nat) : UInt8 :=
  (fblock d addrs (x / BSIZE)).byte (x % BSIZE)

/-- The slot of an inode number. -/
def slot (env : Env) (d : Disk) (inum : Nat) : Dinode :=
  (d (inodeBlock env inum)).dinode (inum % IPB)

/-- The addresses of the inode at `p`: the cached ones, or those of its slot. -/
def World.addrs (w : World) (p : Ptr) : Addrs :=
  match (w.inodes p).priv with
  | some addrs => addrs
  | none => (slot w.env w.disk (w.inodes p).ino).addr

theorem World.addrs_of_priv {w : World} {p : Ptr} {addrs : Addrs}
    (h : (w.inodes p).priv = some addrs) : w.addrs p = addrs := by
  unfold World.addrs
  rw [h]

/-! ## Looking a block up -/

section

variable {w : World} {p : Ptr} {i : Nat}

theorem initIctx_returns (hq : Quiet w.env) (hino : (w.inodes p).ino ≠ 0) :
    ∃ l, Returns (xv6InitIctx p) w (0, ⟨w.addrs p, (w.inodes p).size % 2 ^ 32, false⟩)
      { w with log := l } := by
  unfold xv6InitIctx World.addrs
  simp only [runs_bind_getInode]
  cases hpriv : (w.inodes p).priv with
  | some addrs => exact ⟨w.log, returns_iff.mpr rfl⟩
  | none =>
    have hdget : Returns (xv6Dget p) w (0, slot w.env w.disk (w.inodes p).ino)
        (w.logged (.bread (inodeBlock w.env (w.inodes p).ino) .ok)) := by
      simp only [xv6Dget, runs_bind_getInode, runs_bind_assert, runs_bind_getEnv]
      refine ⟨hino, (quiet_bind_sbBread hq).mpr ⟨trivial, ?_⟩⟩
      simp only [Bool.not_true, Bool.false_eq_true, if_false, runs_bind_bdata]
      exact returns_iff.mpr rfl
    exact ⟨_, (returns_bind hdget).mpr (returns_iff.mpr rfl)⟩

theorem inodeAddr_indirect_returns (ctx : InodeCtx) {j : Nat} (hq : Quiet w.env) :
    ∃ l, Returns (xv6InodeAddr.indirect modcheck ctx j false) w
      (0, (w.disk (ctx.addrs.get NDIRECT)).u32 j, ctx) { w with log := l } := by
  refine ⟨.bread (ctx.addrs.get NDIRECT) .ok :: w.log,
    (quiet_bind_sbBread hq).mpr ⟨trivial, ?_⟩⟩
  simp only [modcheck, Bool.not_true, Bool.not_false, Bool.false_eq_true, if_false, if_true,
    runs_bind_bdata]
  by_cases hz : (w.disk (ctx.addrs.get NDIRECT)).u32 j = 0
  · rw [if_pos (by exact hz)]
    exact returns_iff.mpr (by rw [hz]; rfl)
  · rw [if_neg (by exact hz)]
    exact returns_iff.mpr rfl

theorem inodeAddr_returns (ctx : InodeCtx) (hq : Quiet w.env) (hi : i < MAXFILE) :
    ∃ l, Returns (xv6InodeAddr modcheck ctx i false) w
      (0, bmap w.disk ctx.addrs i, { ctx with dirty := false }) { w with log := l } := by
  unfold bmap
  simp only [xv6InodeAddr, if_neg (not_le.mpr hi), Bool.false_eq_true, and_false, if_false,
    Bool.not_false, if_true]
  by_cases hd : i < NDIRECT
  · rw [if_pos hd, if_pos hd]
    exact ⟨w.log, returns_iff.mpr rfl⟩
  · rw [if_neg hd, if_neg hd]
    by_cases hz : ctx.addrs.get NDIRECT = 0
    · rw [if_pos hz, if_pos hz]
      exact ⟨w.log, returns_iff.mpr rfl⟩
    · rw [if_neg hz, if_neg hz]
      exact inodeAddr_indirect_returns { ctx with dirty := false } hq

/-- The addresses of the context are those of the inode, so storing them back changes nothing. -/
theorem writeBack_returns (ctx : InodeCtx) (h : ctx.addrs = w.addrs p) :
    Returns (ctx.writeBack p) w () w := by
  simp only [InodeCtx.writeBack, runs_modifyInode]
  have hino : { w.inodes p with priv := (w.inodes p).priv.map fun _ => ctx.addrs } =
      w.inodes p := by
    cases hpriv : (w.inodes p).priv with
    | none => exact congrArg (fun x => { w.inodes p with priv := x }) hpriv.symm
    | some addrs =>
      rw [h, World.addrs_of_priv hpriv]
      exact congrArg (fun x => { w.inodes p with priv := x }) hpriv.symm
  rw [hino, Function.update_eq_self]

/-- The lookup of a block returns its buffer, or none for a hole. -/
theorem inodeBlock_returns (hq : Quiet w.env) (hino : (w.inodes p).ino ≠ 0) (hi : i < MAXFILE) :
    ∃ l, Returns (xv6InodeBlock p i) w (0, blockNo (bmap w.disk (w.addrs p) i))
      { w with log := l } := by
  obtain ⟨l₁, hinit⟩ := initIctx_returns hq hino
  obtain ⟨l₂, haddr⟩ := inodeAddr_returns (w := { w with log := l₁ })
    ⟨w.addrs p, (w.inodes p).size % 2 ^ 32, false⟩ hq hi
  have hback := writeBack_returns (w := { w with log := l₂ }) (p := p)
    ⟨w.addrs p, (w.inodes p).size % 2 ^ 32, false⟩ rfl
  unfold xv6InodeBlock blockNo
  by_cases hz : bmap w.disk (w.addrs p) i = 0
  · refine ⟨l₂, (returns_bind hinit).mpr ((returns_bind haddr).mpr ((returns_bind hback).mpr ?_))⟩
    simp only [ne_eq, not_true_eq_false, if_false, if_pos hz, runs_bind_assert, true_and]
    exact returns_iff.mpr rfl
  · refine ⟨.bread (bmap w.disk (w.addrs p) i) .ok :: l₂,
      (returns_bind hinit).mpr ((returns_bind haddr).mpr ((returns_bind hback).mpr ?_))⟩
    simp only [ne_eq, not_true_eq_false, if_false, if_neg hz]
    refine (quiet_bind_sbBread (w := { w with log := l₂ }) hq).mpr ⟨trivial, ?_⟩
    simp only [runs_bind_assert, true_and, if_true]
    exact returns_iff.mpr rfl

end

end Xv6fs
