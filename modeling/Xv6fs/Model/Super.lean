/-
  super.c and check.cpp: mounting a file system, and mounting it again with other flags.

  Nothing is known of the file system before its super block has been read, so a mount is a
  program in two parts: `xv6FillSuper.superblock` reads block 0, `World.setFsInfo` stores what
  it says, and `xv6FillSuper.root` runs the checker and reads the root directory. A remount is in
  two parts for the same reason: `World.setReadonly` changes the environment and `syncFilesystem`
  is a program.
-/
import Xv6fs.Model.File

namespace Xv6fs

/-! ## The checker -/

/-- `struct xv6_checker_info`, less the sizes nothing reads. -/
structure CheckerInfo where
  logstart : Nat
  inodestart : Nat
  bmapstart : Nat
  datastart : Nat

/-- The check of the super block. `size` is an `unsigned long`, so the sums do not wrap. -/
def xv6CheckSb (sb : Superblock) : Bool × CheckerInfo :=
  let size := 1
  let okLog := sb.logstart = size
  let size := size + sb.nlog
  let okInode := sb.inodestart = size
  let size := size + INODE_BLOCKS sb.ninodes
  let okBmap := size = sb.bmapstart
  let size := size + BITMAP_BLOCKS sb.size
  let datastart := size % 2 ^ 32
  let size := size + sb.nblocks
  (okLog ∧ okInode ∧ okBmap ∧ ¬ sb.size < size, ⟨1, sb.inodestart, sb.bmapstart, datastart⟩)

/-- The callback of the checker, which only prints. -/
def dirCheck : DiterCallback Unit := fun _ de ctx =>
  .ok ({ DiterAction.init with cont := true }, de, ctx)

/-- The check of the entries of the root directory. -/
def xv6Docheck.entries (check : Checker) (root : Dinode) : Fs Int := do
  let (error, _, _) ← xv6DirIterate check ⟨root.addr, root.size.toNat, false⟩ dirCheck () 2 false
  return if error ≠ 0 then 1 else 0

/-- The check of the root directory's inode. A root of another type than `T_DIR` is reported by a
    call of `check->error` whose behaviour is undefined. -/
def xv6Docheck.root (check : Checker) (inodestart : Nat) : Fs Int := do
  if !(← check.bread inodestart) then
    return 2
  let blk ← check.bdata inodestart
  if (blk.dinode 0).type ≠ 0 then
    return 1
  -- the format of this message has two conversions, and no arguments are passed
  if (blk.dinode 1).type ≠ T_DIR then
    Prog.halt .undefined
  else
    xv6Docheck.entries check (blk.dinode 1)

/-- What is returned is 0 when every check passes. -/
def xv6Docheck (check : Checker) : Fs Int := do
  if !(← check.bread 0) then
    return 2
  let sb := (← check.bdata 0).superblock
  if FSMAGIC ≠ sb.magic then
    return 1
  let (ok, info) := xv6CheckSb sb
  if !ok then
    return 1
  xv6Docheck.root check info.inodestart

/-! ## Mounting -/

/-- The largest number of inodes: `inum` of a directory entry is a `ushort`. -/
def ninodesMax : Nat := 65535

/-- The fields of `fsinfo` that come from the super block. -/
def Superblock.fsInfo (sb : Superblock) : FsInfo where
  size := sb.size
  nblocks := sb.nblocks
  ninodes := if sb.ninodes > ninodesMax then ninodesMax else sb.ninodes
  nlog := sb.nlog
  logstart := sb.logstart
  inodestart := sb.inodestart
  bmapstart := sb.bmapstart

/-- `start`, which the hint is initialised to, in `uint` arithmetic. -/
def FsInfo.hint (fi : FsInfo) : Nat :=
  (1 + fi.nlog + INODE_BLOCKS fi.ninodes + BITMAP_BLOCKS fi.size) % 2 ^ 32

/-- What a mount stores before it runs the checker. -/
def World.setFsInfo (w : World) (sb : Superblock) : World :=
  { w with env := { w.env with info := sb.fsInfo }, hint := sb.fsInfo.hint, tree := [] }

/-- Nothing is mounted yet. -/
def World.unmounted (env : Env) (d : Disk) : World where
  env := env
  disk := d
  hint := 0
  inodes := fun _ => .fresh
  tree := []
  next := 0
  log := []

/-- The super block, or the error. -/
def xv6FillSuper.superblock : Fs (Except Int Superblock) := do
  if !(← kmalloc) then
    return .error (-ENOMEM)
  if !(← sbBread 0) then
    return .error (- EIO)
  return .ok (← bdata 0).superblock

/-- From the call of the checker on: the error and the root directory. -/
def xv6FillSuper.root : Fs (Int × Option Ptr) := do
  if (← xv6Docheck modcheck) ≠ 0 then
    return (-EINVAL, none)
  match ← xv6FindInode ROOTINO with
  | (none, _) => return (-ENOMEM, none)
  | (some p, _) =>
    let block := (1 + (← getEnv).info.nlog) % 2 ^ 32
    if !(← sbBread block) then
      iput p
      return (- EIO, none)
    let dino := (← bdata block).dinode ROOTINO
    let error ← xv6InitInode p dino ROOTINO
    if error ≠ 0 then
      iput p
      return (error, none)
    if dino.type ≠ T_DIR then
      iput p
      return (-EINVAL, none)
    -- `d_make_root` drops the inode when it fails, and so does `out_fail`
    if !(← kmalloc) then
      iput p
      iput p
      return (error, none)
    return (0, some p)

def xv6FillSuper (w : World) : Except Halt ((Int × Option Ptr) × World) := do
  match ← xv6FillSuper.superblock.run w with
  | (.error e, w) => .ok ((e, none), w)
  | (.ok sb, w) => xv6FillSuper.root.run (w.setFsInfo sb)

/-! ## Mounting again -/

/-- Set or clear `SB_RDONLY`. -/
def World.setReadonly (w : World) (readonly : Bool) : World :=
  { w with env := { w.env with rdonly := readonly } }

/-- The kernel's `write_inode_now` for every inode of a list that is dirty. -/
def syncFilesystem.inodes : List Ptr → Fs Unit
  | [] => return ()
  | p :: ps => do
    if (← getInode p).dirty then
      modifyInode p fun ino => { ino with dirty := false }
      let _ ← xv6WriteInode p
      syncFilesystem.inodes ps
    else
      syncFilesystem.inodes ps

/-- The kernel's `sync_filesystem`, given the in-core inodes of the file system. -/
def syncFilesystem (inodes : List Ptr) : Fs Unit := do
  if (← getEnv).rdonly then
    return ()
  syncFilesystem.inodes inodes

def xv6Reconfigure (newReadonly : Bool) (inodes : List Ptr) (w : World) :
    Except Halt (Int × World) := do
  let (_, w) ← (syncFilesystem inodes).run (w.setReadonly newReadonly)
  .ok (0, w)

end Xv6fs
