/-
  fs.cpp: the block map of an inode and the directory iterator, over any checker.

  `inode->addrs` is an alias of the in-core addresses of a cached inode. Nothing that
  `xv6_inode_addr` or `xv6_dir_iterate` calls reads them through the inode, so they travel in
  the context here and the caller writes them back.

  The iterator's `while` loop makes at most MAXFILE + 1 rounds, because `xv6_inode_addr` fails
  from block MAXFILE on.
-/
import Xv6fs.Model.Balloc

namespace Xv6fs

/-- The methods of `struct checker` that fs.cpp calls. `balloc` takes and returns `*block`. -/
structure Checker where
  bread : Nat → Fs Bool
  bdata : Nat → Fs Block
  balloc : Nat → Fs (Int × Nat)
  /-- Flush the buffer of a block, whose bytes the caller has set. -/
  bflush : Nat → Block → Fs Int

/-- The checker of the kernel module. -/
def modcheck : Checker where
  bread := sbBread
  bdata := bdata
  balloc := xv6Balloc
  bflush := syncBuffer

/-- `addrs[i]`. -/
def Addrs.get (addrs : Addrs) (i : Nat) : Nat := addrs (Fin.ofNat 13 i)

/-- `addrs[i] = block`. -/
def Addrs.set (addrs : Addrs) (i block : Nat) : Addrs :=
  Function.update addrs (Fin.ofNat 13 i) block

/-- `struct xv6_inode_ctx`. -/
structure InodeCtx where
  addrs : Addrs
  size : Nat
  dirty : Bool

/-! ## xv6_inode_addr -/

/-- The part that goes through the indirect block, for entry `i` of it. -/
def xv6InodeAddr.indirect (check : Checker) (inode : InodeCtx) (i : Nat) (alloc : Bool) :
    Fs (Int × Nat × InodeCtx) := do
  let indirno := inode.addrs.get NDIRECT
  if !(← check.bread indirno) then
    return (- EIO, 0, inode)
  let data ← check.bdata indirno
  let datano := data.u32 i
  if datano = 0 then
    if !alloc then
      return (0, 0, inode)
    let (error, datano) ← check.balloc datano
    if error ≠ 0 then
      return (error, 0, inode)
    if datano = 0 then
      return (-ENOSPC, 0, inode)
    let data ← check.bdata indirno
    let error ← check.bflush indirno (data.setU32 i datano)
    return (error, datano, inode)
  return (0, datano, inode)

/-- The error, `*blockno` and the context it leaves. -/
def xv6InodeAddr (check : Checker) (inode : InodeCtx) (i : Nat) (alloc : Bool) :
    Fs (Int × Nat × InodeCtx) := do
  if i ≥ MAXFILE then
    return (-EFBIG, 0, inode)
  let inode := { inode with dirty := false }
  if i < NDIRECT then
    if inode.addrs.get i = 0 ∧ alloc then
      let (error, block) ← check.balloc (inode.addrs.get i)
      let error := if error = 0 ∧ block = 0 then -ENOSPC else error
      return (error, block, { inode with addrs := inode.addrs.set i block, dirty := true })
    return (0, inode.addrs.get i, inode)
  let i := i - NDIRECT
  if inode.addrs.get NDIRECT = 0 then
    if !alloc then
      return (0, 0, inode)
    let (error, indirno) ← check.balloc (inode.addrs.get NDIRECT)
    let inode := { inode with addrs := inode.addrs.set NDIRECT indirno, dirty := true }
    if error ≠ 0 then
      return (error, 0, inode)
    if indirno = 0 then
      return (-ENOSPC, 0, inode)
    xv6InodeAddr.indirect check inode i alloc
  else
    xv6InodeAddr.indirect check inode i alloc

/-! ## xv6_dir_iterate -/

/-- `struct xv6_diter_action`. -/
structure DiterAction where
  cont : Bool
  deDirty : Bool
  dirExt : Bool
  dirDirty : Bool
  deriving DecidableEq

/-- `xv6_diter_action_init`. -/
def DiterAction.init : DiterAction := ⟨false, false, false, false⟩

/-- A callback: it is given the entry's number and the entry, which it may change in place, and
    its own context. -/
abbrev DiterCallback (σ : Type) : Type := Nat → Dirent → σ → Except Halt (DiterAction × Dirent × σ)

section

variable {σ : Type}

/-- The `for` loop over entries `k`, `k + 1`, … of one block, `n` rounds of it: `act`, the
    block's bytes, the callback's context and `flush`. -/
def xv6DirIterate.entries (callback : DiterCallback σ) (base : Nat) :
    Nat → Nat → DiterAction → Block → σ → Bool → Except Halt (DiterAction × Block × σ × Bool)
  | 0, _, act, blk, ctx, flush => .ok (act, blk, ctx, flush)
  | n + 1, k, _, blk, ctx, flush => do
    let (act, de, ctx) ← callback (base + k) (blk.dirent k) ctx
    let blk := blk.setDirent k de
    let flush := flush || act.deDirty
    if !act.cont then
      return (act, blk, ctx, flush)
    xv6DirIterate.entries callback base n (k + 1) act blk ctx flush

/-- The body of the `while` loop for the block at `blockno`, with entries `[off, lim)`:
    `error`, `act` and the callback's context. -/
def xv6DirIterate.body (check : Checker) (callback : DiterCallback σ) (i off lim blockno : Nat)
    (act : DiterAction) (ctx : σ) : Fs (Int × DiterAction × σ) := do
  if blockno = 0 then
    let (act, _, ctx) ← Prog.lift (callback (i * NENTS) Dirent.zero ctx)
    return (0, act, ctx)
  if !(← check.bread blockno) then
    return (- EIO, act, ctx)
  let data ← check.bdata blockno
  let (act, data, ctx, flush) ←
    Prog.lift (xv6DirIterate.entries callback (i * NENTS) (lim - off) off act data ctx false)
  if flush then
    let error ← check.bflush blockno data
    return (error, act, ctx)
  bstore blockno data
  return (0, act, ctx)

/-- The `while` loop: the error, `act`, the directory and the callback's context. -/
def xv6DirIterate.blocks (check : Checker) (callback : DiterCallback σ) (alloc : Bool) :
    Nat → Nat → Nat → Nat → DiterAction → InodeCtx → σ → Fs (Int × DiterAction × InodeCtx × σ)
  | 0, _, _, _, _, _, _ => Prog.halt .noReturn
  | rounds + 1, i, off, size, act, dir, ctx => do
    let (error, blockno, dir) ← xv6InodeAddr check dir i alloc
    if error ≠ 0 then
      return (error, act, dir, ctx)
    let lim := xv6Min NENTS (size + off)
    let (error, act, ctx) ← xv6DirIterate.body check callback i off lim blockno act ctx
    if !act.cont ∨ error ≠ 0 then
      return (error, act, dir, ctx)
    let size := size - (lim - off)
    if size = 0 then
      return (error, act, dir, ctx)
    xv6DirIterate.blocks check callback alloc rounds (i + 1) 0 size act dir ctx

/-- One more entry, past the end of the directory. -/
def xv6DirIterate.extend (check : Checker) (callback : DiterCallback σ) (alloc : Bool)
    (dir : InodeCtx) (ctx : σ) : Fs (Int × InodeCtx × σ) := do
  let size := dir.size / 16
  let (error, blockno, dir) ← xv6InodeAddr check dir (size / NENTS) alloc
  if error ≠ 0 then
    return (error, dir, ctx)
  if !(← check.bread blockno) then
    return (- EIO, dir, ctx)
  let data ← check.bdata blockno
  let (act, de, ctx) ← Prog.lift (callback size (data.dirent (size % NENTS)) ctx)
  let data := data.setDirent (size % NENTS) de
  let dir := if act.dirDirty then { dir with dirty := true, size := (dir.size + 16) % 2 ^ 32 }
    else dir
  if act.deDirty then
    let error ← check.bflush blockno data
    return (error, dir, ctx)
  bstore blockno data
  return (0, dir, ctx)

/-- The error, the directory and the callback's context. -/
def xv6DirIterate (check : Checker) (dir : InodeCtx) (callback : DiterCallback σ) (ctx : σ)
    (off : Nat) (rw : Bool) : Fs (Int × InodeCtx × σ) := do
  xv6Assert (dir.size % 16 = 0 ∧ 2 * 16 ≤ dir.size)
  let size := dir.size / 16
  if off > size then
    return (0, dir, ctx)
  let (error, act, dir, ctx) ← xv6DirIterate.blocks check callback rw (MAXFILE + 1) (off / NENTS)
    (off % NENTS) (size - off) .init dir ctx
  if error = 0 ∧ act.cont ∧ act.dirExt then
    xv6DirIterate.extend check callback rw dir ctx
  else
    return (error, dir, ctx)

end

end Xv6fs
