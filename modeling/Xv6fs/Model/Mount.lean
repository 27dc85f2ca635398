/-
  super.c: what a mount takes, and what it gives back.

  `xv6FillSuper.refs` makes the calls of `xv6FillSuper` and keeps a trace of `fsinfo`, of the
  buffers and of the references to the root inode. The buffers of `xv6_docheck` are not in it: they
  live in destructors of their own. A file system that is being mounted is not active yet, so
  `iput` of the last reference to an inode does not cache it but frees it, whether it is hashed or
  not.
-/
import Xv6fs.Model.Super
import Xv6fs.Lib.Traced

namespace Xv6fs

inductive MountEvent where
  | allocInfo
  /-- `fsinfo` is read or written -/
  | useInfo
  | freeInfo
  | getBuffer (block : Nat)
  | putBuffer (block : Nat)
  | getInode (p : Ptr)
  | putInode (p : Ptr)
  deriving DecidableEq

abbrev Mounting (α : Type) : Type := Traced World Halt MountEvent α

open Traced

/-- `sb_bread`. -/
def getBuffer (block : Nat) : Mounting Bool := do
  let ok ← call (sbBread block)
  if ok then
    note (.getBuffer block)
    return true
  else
    return false

/-- `brelse`. -/
def putBuffer (block : Nat) : Mounting Unit := note (.putBuffer block)

/-- `iput`. The last one runs `xv6_free_inode`, which takes the lock of `fsinfo` and searches its
    tree. -/
def putInode (p : Ptr) : Mounting Unit := do
  call (iput p)
  note (.putInode p)
  let t ← trace
  if t.count (.putInode p) = t.count (.getInode p) then
    note .useInfo
  else
    return ()

/-- What is behind the label `out_fail`. -/
def xv6FillSuper.outFail (bh : Option Nat) (rootDir : Option Ptr) : Mounting Unit := do
  note .freeInfo
  match bh with
  | some block => putBuffer block
  | none => pure ()
  match rootDir with
  | some p => putInode p
  | none => pure ()

/-- `xv6FillSuper.superblock`. -/
def xv6FillSuper.superblockRefs : Mounting (Except Int Superblock) := do
  if !(← call kmalloc) then
    return .error (-ENOMEM)
  note .allocInfo
  if !(← getBuffer 0) then
    xv6FillSuper.outFail none none
    return .error (- EIO)
  let blk ← call (bdata 0)
  note .useInfo
  putBuffer 0
  return .ok blk.superblock

/-- `xv6FillSuper.root` from the time the root inode at `p` is held. -/
def xv6FillSuper.heldRefs (p : Ptr) : Mounting (Int × Option Ptr) := do
  note .useInfo
  let block := (1 + (← call getEnv).info.nlog) % 2 ^ 32
  if !(← getBuffer block) then
    xv6FillSuper.outFail none (some p)
    return (- EIO, none)
  let dino := (← call (bdata block)).dinode ROOTINO
  note .useInfo
  let error ← call (xv6InitInode p dino ROOTINO)
  if error ≠ 0 then
    xv6FillSuper.outFail (some block) (some p)
    return (error, none)
  if dino.type ≠ T_DIR then
    xv6FillSuper.outFail (some block) (some p)
    return (-EINVAL, none)
  putBuffer block
  -- `d_make_root` drops the inode when it fails
  if !(← call kmalloc) then
    putInode p
    xv6FillSuper.outFail none (some p)
    return (error, none)
  note .useInfo
  return (0, some p)

/-- `xv6FillSuper.root`. -/
def xv6FillSuper.rootRefs : Mounting (Int × Option Ptr) := do
  note .useInfo
  if (← call (xv6Docheck modcheck)) ≠ 0 then
    xv6FillSuper.outFail none none
    return (-EINVAL, none)
  note .useInfo
  match ← call (xv6FindInode ROOTINO) with
  | (none, _) =>
    xv6FillSuper.outFail none none
    return (-ENOMEM, none)
  | (some p, _) =>
    note (.getInode p)
    xv6FillSuper.heldRefs p

/-- The error, `sb->s_root` and the trace. -/
def xv6FillSuper.refs (w : World) :
    Except Halt (((Int × Option Ptr) × List MountEvent) × World) := do
  match ← (xv6FillSuper.superblockRefs []).run w with
  | ((.error e, t), w) => .ok (((e, none), t), w)
  | ((.ok sb, t), w) => (xv6FillSuper.rootRefs t).run (w.setFsInfo sb)

end Xv6fs
