/-
  The operations of the module that the kernel calls: lookup and creation (inode.c), reading,
  writing, links and renaming (file.c), removal of directories (dir.c).

  A dentry is given by its name and its in-core inode. `d_instantiate` only records the inode
  in the dentry, so it does not show here.
-/
import Xv6fs.Model.Dir

namespace Xv6fs

/-! ## Lookup -/

/-- What `d_splice_alias` is given: an error pointer, NULL, or the in-core inode. -/
def xv6Lookup (dir : Ptr) (name : FileName) : Fs (Except Int (Option Ptr)) := do
  let (reason, dnum, de) ← xv6FindInum dir name
  if dnum = 0 then
    return .ok none
  if reason ≠ 0 then
    return .error reason
  let inum := de.inum.toNat
  xv6Assert (inum ≠ 0)
  match ← xv6Iget inum with
  | .error e => return .error e
  | .ok p => return .ok (some p)

/-! ## Creation -/

/-- A `uint` stored without conversion, as it is then read in little-endian order. -/
def raw32 (host : ByteOrder) (v : Nat) : Nat :=
  Buf.num (fun k => Buf.digit v (Buf.place host 4 k)) 4

/-- The inode `xv6_create` fills in: `nlink`, the type and the size of an empty directory, which
    is stored in the host's byte order. -/
def newDinode (host : ByteOrder) (isdir : Bool) : Dinode :=
  { Dinode.zero with
    nlink := 1
    type := if isdir then T_DIR else T_FILE
    size := if isdir then UInt32.ofNat (raw32 host (16 * 2)) else 0 }

/-- From `xv6_init_inode` on: the error. -/
def xv6Create.enter (dir newinode : Ptr) (name : FileName) (dino : Dinode) (inum : Nat) :
    Fs Int := do
  let error ← xv6InitInode newinode dino inum
  if error ≠ 0 then
    return error
  xv6DentryInsert dir name inum

/-- Between the allocation of the in-core inode and `create_fini`: the error. -/
def xv6Create.alloc (dir newinode : Ptr) (name : FileName) (isdir : Bool) : Fs Int := do
  let env ← getEnv
  let dino := newDinode env.host isdir
  let (error, block) ← xv6Balloc 0
  let error := if block = 0 then -ENOSPC else error
  let dino := { dino with addrs := Function.update dino.addrs 0 (UInt32.ofNat block) }
  if error ≠ 0 then
    return error
  let (error, inum) ← xv6Ialloc (some dino)
  if error ≠ 0 then
    return error
  if isdir then
    let error ← xv6DirInit block (← getInode dir).ino inum
    if error ≠ 0 then
      return error
    xv6Create.enter dir newinode name dino inum
  else
    xv6Create.enter dir newinode name dino inum

/-- The error, and the new in-core inode. -/
def xv6Create (dir : Ptr) (name : FileName) (isdir : Bool) : Fs (Int × Option Ptr) := do
  if name.length > DIRSIZ then
    return (-ENAMETOOLONG, none)
  match ← newInode with
  | none => return (-ENOMEM, none)
  | some newinode =>
    let error ← xv6Create.alloc dir newinode name isdir
    if error ≠ 0 then
      iput newinode
      return (error, none)
    -- add the inode to the tree, without checking
    rbAdd newinode
    return (0, some newinode)

def xv6Mkdir (dir : Ptr) (name : FileName) : Fs (Int × Option Ptr) := xv6Create dir name true

/-! ## Reading -/

/-- User memory from the address of `buf` on: the addresses that can be stored to, and the bytes
    there. -/
structure UserMem where
  writable : Nat → Bool
  byte : Nat → UInt8

/-- `copy_to_user` of the `n` bytes `data` to `buf + dst` (`clear_user` when they are zero): does it
    fault, and the memory then. -/
def copyToUser (mem : UserMem) (dst n : Nat) (data : Nat → UInt8) : Bool × UserMem :=
  let ok := fun k => (List.range k).all fun j => mem.writable (dst + j)
  (!ok n, { mem with
    byte := fun a => if dst ≤ a ∧ a < dst + n ∧ ok (a - dst + 1) then data (a - dst)
      else mem.byte a })

/-- `size_t to_read`: what is left of the block, of the request and of `file_size - cpos`, which
    is taken modulo 2^64. -/
def xv6FileRead.toRead (fileSize boff cpos len : Nat) : Nat :=
  let toRead := BSIZE - boff
  let toRead := if toRead > len then len else toRead
  if toRead > (fileSize + 2 ^ 64 - cpos) % 2 ^ 64 then (fileSize + 2 ^ 64 - cpos) % 2 ^ 64
  else toRead

/-- The bytes to copy: those of the buffer from `boff` on, or zeros when there is no buffer. -/
def xv6FileRead.source (boff : Nat) : Option Nat → Fs (Nat → UInt8)
  | none => return fun _ => 0
  | some bh => do
    let blk ← bdata bh
    return fun j => blk.byte (boff + j)

/-- The `while (len)` loop: the error, `nread`, `cpos` and the user's memory. -/
def xv6FileRead.loop (ino : Ptr) (fileSize : Nat) :
    Nat → Nat → Nat → Nat → Nat → Nat → UserMem → Fs (Int × Nat × Nat × UserMem)
  | 0, _, _, nread, cpos, _, mem => return (0, nread, cpos, mem)
  | rounds + 1, block, boff, nread, cpos, len, mem => do
    if len = 0 then
      return (0, nread, cpos, mem)
    let (error, bh) ← xv6InodeBlock ino block
    if error ≠ 0 then
      return (error, nread, cpos, mem)
    let toRead := xv6FileRead.toRead fileSize boff cpos len
    let data ← xv6FileRead.source boff bh
    let (pageFault, mem) := copyToUser mem nread toRead data
    if pageFault then
      return (-EFAULT, nread, cpos, mem)
    xv6FileRead.loop ino fileSize rounds ((block + 1) % 2 ^ 32) 0 (nread + toRead) (cpos + toRead)
      (len - toRead) mem

/-- What is returned, `*ppos` and the user's memory. `rest` is signed, and is compared with `len`
    as a `size_t`. Every round of the loop reads a byte, so `len` rounds are enough. -/
def xv6FileRead (ino : Ptr) (mem : UserMem) (len pos : Nat) : Fs (Int × Nat × UserMem) := do
  let fileSize := (← getInode ino).size
  let rest := (fileSize + 2 ^ 64 - pos) % 2 ^ 64
  let len := if len > rest then rest else len
  let (error, nread, cpos, mem) ←
    xv6FileRead.loop ino fileSize len (pos / BSIZE % 2 ^ 32) (pos % BSIZE) 0 pos len mem
  return (if error ≠ 0 ∧ nread = 0 then error else nread, cpos, mem)

/-! ## Writing -/

/-- User memory from the address of `buf` on; `none` is an address that faults. -/
abbrev UserBuf : Type := Nat → Option UInt8

/-- `copy_from_user` of `n` bytes from `buf + src` to `off`: does it fault, and the block's bytes
    then. What is not copied is zeroed. -/
def copyFromUser (blk : Block) (off : Nat) (buf : UserBuf) (src n : Nat) : Bool × Block :=
  let ok := fun k => (List.range k).all fun j => (buf (src + j)).isSome
  (!ok n, blk.patch off n fun j => if ok (j + 1) then (buf (src + j)).getD 0 else 0)

/-- The `while (len)` loop: the error, `nwrite` and `cpos`. -/
def xv6FileWrite.loop (ino : Ptr) (buf : UserBuf) :
    Nat → Nat → Nat → Nat → Nat → Nat → Fs (Int × Nat × Nat)
  | 0, _, _, nwrite, cpos, _ => return (0, nwrite, cpos)
  | rounds + 1, block, boff, nwrite, cpos, len => do
    if len = 0 then
      return (0, nwrite, cpos)
    let (error, bh) ← xv6InodeWblock ino block
    if error ≠ 0 then
      return (error, nwrite, cpos)
    match bh with
    | none => Prog.halt .panic
    | some bh =>
      let toWrite := xv6Min (BSIZE - boff) len
      let (pageFault, data) := copyFromUser (← bdata bh) boff buf nwrite toWrite
      if pageFault then
        let _ ← syncBuffer bh data
        return (-EFAULT, nwrite, cpos)
      let error ← syncBuffer bh data
      if error ≠ 0 then
        return (error, nwrite, cpos)
      xv6FileWrite.loop ino buf rounds ((block + 1) % 2 ^ 32) 0 (nwrite + toWrite) (cpos + toWrite)
        (len - toWrite)

/-- What is returned, and `*ppos`. Every round of the loop writes a byte, so `len` rounds are
    enough. -/
def xv6FileWrite (ino : Ptr) (append : Bool) (buf : UserBuf) (len pos : Nat) : Fs (Int × Nat) := do
  let size := (← getInode ino).size
  let cpos := if append then size else pos
  let (error, nwrite, cpos) ← xv6FileWrite.loop ino buf len (cpos / BSIZE % 2 ^ 32) (cpos % BSIZE) 0
    cpos len
  modifyInode ino fun i => { i with size := xv6Max i.size cpos }
  return (if error ≠ 0 ∧ nwrite = 0 then error else nwrite, cpos)

/-! ## Write-back of an inode -/

def xv6WriteInode (p : Ptr) : Fs Int := xv6SyncInode p

/-- `fsync` on a file. -/
def xv6FileSync (ino : Ptr) : Fs Int := xv6WriteInode ino

/-- `close` of a file. -/
def xv6FileFlush (ino : Ptr) : Fs Int := xv6WriteInode ino

/-! ## Links -/

/-- The kernel's `inode_dec_link_count`. -/
def inodeDecLinkCount (p : Ptr) : Fs Unit := do
  modifyInode p fun ino => { ino with nlink := (ino.nlink + (2 ^ 32 - 1)) % 2 ^ 32 }
  markInodeDirty p

/-- The kernel's `inode_inc_link_count`. -/
def inodeIncLinkCount (p : Ptr) : Fs Unit := do
  modifyInode p fun ino => { ino with nlink := (ino.nlink + 1) % 2 ^ 32 }
  markInodeDirty p

def xv6Unlink (dir fileIno : Ptr) (name : FileName) : Fs Int := do
  let fileInum := (← getInode fileIno).ino
  inodeDecLinkCount fileIno
  if (← getInode fileIno).nlink ≠ 0 then
    xv6DirErase dir name
  else
    xv6Assert (fileInum ≠ 0)
    if fileInum = ROOTINO then
      return -EBUSY
    if fileInum = (← getInode dir).ino then
      return -EINVAL
    let error ← xv6InodeClear fileIno
    if error ≠ 0 then
      return error
    let _ ← xv6DirErase dir name
    xv6Ifree fileInum

/-- `__INT16_MAX__`. -/
def INT16_MAX : Nat := 32767

def xv6Link (oldino dir : Ptr) (name : FileName) : Fs Int := do
  let oldinum := (← getInode oldino).ino
  if (← getInode oldino).nlink ≥ INT16_MAX then
    return -ETOOMANYREFS
  let error ← xv6DentryInsert dir name oldinum
  if error ≠ 0 then
    return error
  inodeIncLinkCount oldino
  xv6SyncInode oldino

/-- `badFlags`: is a flag other than `RENAME_NOREPLACE` set? -/
def xv6Rename (olddir oldino : Ptr) (oldname : FileName) (newdir : Ptr) (newname : FileName)
    (badFlags : Bool) : Fs Int := do
  if badFlags then
    return -EINVAL
  if newname.length > DIRSIZ then
    return -ENAMETOOLONG
  let error ← xv6DirErase olddir oldname
  if error ≠ 0 then
    return error
  let (error, dnum, _) ← xv6FindInum newdir newname
  if error ≠ 0 then
    return error
  if dnum ≠ 0 then
    return -EEXIST
  xv6DentryInsert newdir newname (← getInode oldino).ino

def xv6Rmdir (dir entry : Ptr) (name : FileName) : Fs Int := do
  if (← getInode dir).fmt ≠ .dir then
    return -ENOTDIR
  if (← getInode entry).fmt ≠ .dir then
    return -ENOTDIR
  let error ← xv6DirRmtest entry
  if error ≠ 0 then
    return error
  xv6Unlink dir entry name

end Xv6fs
