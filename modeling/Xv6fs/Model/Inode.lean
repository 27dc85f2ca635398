/-
  inode.c and the inode tree of super.c: on-disk inodes, in-core inodes, and the blocks behind
  them.

  The tree is a list of in-core inodes, searched from the front. `iput` is the kernel's: an
  inode that is hashed and still has links stays cached, any other is evicted and freed.
-/
import Xv6fs.Model.Fs

namespace Xv6fs

/-- `inode_start + inum / IPB`, the block of the inode's slot. -/
def inodeBlock (env : Env) (inum : Nat) : Nat := (env.info.inodestart + inum / IPB) % 2 ^ 32

/-! ## The inode table -/

/-- The `for` loop over slots `i`, `i + 1`, … of one inode block, `n` of them: the first unused
    one. -/
def xv6Ialloc.slot (blk : Block) : Nat → Nat → Option Nat
  | 0, _ => none
  | n + 1, i => if (blk.dinode i).type = 0 then some i else xv6Ialloc.slot blk n (i + 1)

/-- The loop over the blocks of the inode table, `n` of them: the error and `*inum`. `node` is
    the number of slot `off` of the block. -/
def xv6Ialloc.blocks (dino : Option Dinode) : Nat → Nat → Nat → Nat → Fs (Int × Nat)
  | 0, _, _, _ => return (-ENOSPC, 0)
  | n + 1, block, off, node => do
    if !(← sbBread block) then
      return (- EIO, 0)
    let blk ← bdata block
    match xv6Ialloc.slot blk (IPB - off) off with
    | none => xv6Ialloc.blocks dino n (block + 1) 0 (node + (IPB - off))
    | some i =>
      match dino with
      | none => return (0, node + (i - off))
      | some dino =>
        let error ← syncBuffer block (blk.setDinode i dino)
        if error ≠ 0 then
          return (error, 0)
        return (0, node + (i - off))

/-- The error and `*inum`. -/
def xv6Ialloc (dino : Option Dinode) : Fs (Int × Nat) := do
  let env ← getEnv
  -- skip null and root
  let node := 2
  xv6Ialloc.blocks dino (env.info.bmapstart - env.info.inodestart) env.info.inodestart
    (node % IPB) node

def xv6Ifree (inum : Nat) : Fs Int := do
  let block := inodeBlock (← getEnv) inum
  if !(← sbBread block) then
    return - EIO
  syncBuffer block ((← bdata block).setDinode (inum % IPB) Dinode.zero)

/-! ## In-core inodes -/

/-- `rb_add` to the inode tree, which does not check for a node of the same number. The tree is a
    list of its nodes, the latest first. -/
def rbAdd (p : Ptr) : Fs Unit :=
  change (fun w => { w with tree := p :: w.tree }) fun _ => ⟨rfl, rfl⟩

@[simp] theorem runs_rbAdd {φ : Event → Prop} (p : Ptr) (w w' : World) (u : Unit) :
    Runs φ (rbAdd p) w u w' ↔ w' = { w with tree := p :: w.tree } := by
  simp [rbAdd]

/-- The in-core inode of a number, and whether it was in the tree. Where two nodes have this number
    `rb_find` meets one of them by the shape of the tree, and the search from the front the latest.
    No theorem about runs rests on which: what is used of a search is that it finds a node of the
    number, or that there is none (`xv6FindInode_spec`), and of `xv6_free_inode` that it removes the
    inode it is given, or does not return (`xv6FreeInode_spec`). -/
def xv6FindInode (inum : Nat) : Fs (Option Ptr × Bool) := do
  if inum = 0 then
    return (← newInode, false)
  let w ← Prog.get
  match w.tree.find? fun p => (w.inodes p).ino = inum with
  | some p =>
    modifyInode p fun ino => { ino with refcount := ino.refcount + 1 }
    return (some p, true)
  | none =>
    match ← newInode with
    | none => return (none, false)
    | some p =>
      modifyInode p fun ino => { ino with refcount := 1, ino := inum }
      rbAdd p
      return (some p, false)

def xv6FreeInode (p : Ptr) : Fs Unit := do
  modifyInode p fun ino => { ino with refcount := ino.refcount - 1 }
  let w ← Prog.get
  if (w.inodes p).refcount > 0 then
    return ()
  match w.tree.find? fun q => (w.inodes q).ino = (w.inodes p).ino with
  | some q =>
    change (fun w => { w with tree := w.tree.erase q }) fun _ => ⟨rfl, rfl⟩
    xv6Assert (q = p)
  | none => return ()

/-- The VFS calls `.free_inode` some time after the eviction, not in it. -/
def xv6EvictInode (p : Ptr) : Fs Unit :=
  modifyInode p fun ino => { ino with priv := none }

/-- The kernel's `iput` of the last reference. The VFS evicts the inode at once and calls
    `.free_inode` later, from an RCU callback (the module sets no `.destroy_inode`); until then its
    node stays in the tree. Here it is freed at once, with nothing in between. The calls of
    `xv6_iget` that run at the same time have the free as a step of its own (`IgetStep`). -/
def iput (p : Ptr) : Fs Unit := do
  let ino ← getInode p
  if ino.nlink ≠ 0 ∧ ino.hashed then
    return ()
  xv6EvictInode p
  xv6FreeInode p

def xv6InitInode (p : Ptr) (dino : Dinode) (inum : Nat) : Fs Int := do
  modifyInode p fun ino => { ino with ino := inum, nlink := dino.nlink.toNat }
  if ¬ (dino.type = T_DIR ∨ dino.type = T_FILE ∨ dino.type = T_DEVICE) then
    return -EINVAL
  modifyInode p fun ino => { ino with
    fmt := if dino.type = T_DIR then .dir else .reg
    size := dino.size.toNat }
  if !(← kmalloc) then
    return -ENOMEM
  modifyInode p fun ino => { ino with priv := some dino.addr, hashed := true }
  return 0

/-- The in-core inode, or the error of `ERR_PTR`. -/
def xv6Iget (inum : Nat) : Fs (Except Int Ptr) := do
  let env ← getEnv
  xv6Assert (inum ≠ 0 ∧ inum < env.info.ninodes)
  let block := inodeBlock env inum
  match ← xv6FindInode inum with
  | (none, _) => return .error (-ENOMEM)
  | (some p, true) => return .ok p
  | (some p, false) =>
    if !(← sbBread block) then
      iput p
      return .error (- EIO)
    let dino := (← bdata block).dinode (inum % IPB)
    modifyInode p fun ino => { ino with ino := inum }
    let error ← xv6InitInode p dino inum
    if error ≠ 0 then
      iput p
      return .error error
    return .ok p

/-- The slot of an in-core inode with what `xv6_sync_inode` writes into it. -/
def Inode.toDinode (ino : Inode) (old : Dinode) : Dinode :=
  { old with
    addrs := match ino.priv with
      | some addrs => fun i => UInt32.ofNat (addrs i)
      | none => old.addrs
    size := UInt32.ofNat ino.size
    nlink := UInt16.ofNat ino.nlink }

def xv6SyncInode (p : Ptr) : Fs Int := do
  let env ← getEnv
  if env.rdonly then
    return 0
  let ino ← getInode p
  xv6Assert (ino.ino ≠ 0)
  let block := inodeBlock env ino.ino
  if !(← sbBread block) then
    return - EIO
  let blk ← bdata block
  syncBuffer block (blk.setDinode (ino.ino % IPB) (ino.toDinode (blk.dinode (ino.ino % IPB))))

/-- The on-disk inode of an in-core one. -/
def xv6Dget (p : Ptr) : Fs (Int × Dinode) := do
  let ino ← getInode p
  xv6Assert (ino.ino ≠ 0)
  let block := inodeBlock (← getEnv) ino.ino
  if !(← sbBread block) then
    return (- EIO, Dinode.zero)
  return (0, (← bdata block).dinode (ino.ino % IPB))

def markInodeDirty (p : Ptr) : Fs Unit := modifyInode p fun ino => { ino with dirty := true }

/-! ## Inode contexts -/

/-- `xv6_inode_ctx_init` and `xv6_init_ictx`. -/
def xv6InitIctx (p : Ptr) : Fs (Int × InodeCtx) := do
  let ino ← getInode p
  match ino.priv with
  | some addrs => return (0, ⟨addrs, ino.size % 2 ^ 32, false⟩)
  | none =>
    let (error, di) ← xv6Dget p
    return (error, ⟨di.addr, ino.size % 2 ^ 32, false⟩)

/-- The addresses of the context are those of a cached inode. -/
def InodeCtx.writeBack (ictx : InodeCtx) (p : Ptr) : Fs Unit :=
  modifyInode p fun ino => { ino with priv := ino.priv.map fun _ => ictx.addrs }

def xv6IctxDirty (p : Ptr) (ictx : InodeCtx) : Fs Int := do
  if !ictx.dirty then
    return 0
  markInodeDirty p
  modifyInode p fun ino => { ino with size := ictx.size }
  let ino ← getInode p
  match ino.priv with
  | some _ => return 0
  | none =>
    modifyInode p fun ino => { ino with priv := some ictx.addrs }
    let error ← xv6SyncInode p
    modifyInode p fun ino => { ino with priv := none }
    return error

/-! ## Blocks of a file -/

/-- The error and the buffer of block `i`. -/
def xv6InodeBlock (p : Ptr) (i : Nat) : Fs (Int × Option Nat) := do
  let (error, ictx) ← xv6InitIctx p
  if error ≠ 0 then
    return (error, none)
  let (error, blockno, ictx) ← xv6InodeAddr modcheck ictx i false
  ictx.writeBack p
  if error ≠ 0 then
    return (error, none)
  if blockno = 0 then
    xv6Assert (ictx.dirty = false)
    return (0, none)
  let ok ← sbBread blockno
  xv6Assert (ictx.dirty = false)
  if ok then
    return (0, some blockno)
  return (- EIO, none)

/-- The error and the buffer of block `i`, which is allocated if need be. -/
def xv6InodeWblock (p : Ptr) (i : Nat) : Fs (Int × Option Nat) := do
  let (error, ictx) ← xv6InitIctx p
  if error ≠ 0 then
    return (error, none)
  let (error, blockno, ictx) ← xv6InodeAddr modcheck ictx i true
  ictx.writeBack p
  if error ≠ 0 then
    return (error, none)
  if blockno = 0 then
    return (-ENOSPC, none)
  if !(← sbBread blockno) then
    return (- EIO, none)
  let error ← xv6IctxDirty p ictx
  return (error, some blockno)

/-! ## Clearing -/

/-- The first loop: `addrs[i]`, `addrs[i + 1]`, …, `n` of them. -/
def xv6InodeClear.direct : Nat → Nat → Addrs → Fs Addrs
  | 0, _, addrs => return addrs
  | n + 1, i, addrs => do
    if addrs.get i ≠ 0 then
      let _ ← xv6Bfree (addrs.get i)
      xv6InodeClear.direct n (i + 1) (addrs.set i 0)
    else
      xv6InodeClear.direct n (i + 1) addrs

/-- The second loop, over the entries of the indirect block. -/
def xv6InodeClear.entries (iaddr : Nat) : Nat → Nat → Fs Unit
  | 0, _ => return ()
  | n + 1, i => do
    let iaddrs ← bdata iaddr
    if iaddrs.u32 i ≠ 0 then
      let _ ← xv6Bfree (iaddrs.u32 i)
      xv6InodeClear.entries iaddr n (i + 1)
    else
      xv6InodeClear.entries iaddr n (i + 1)

/-- The end of `xv6_inode_clear`: nothing is left, write the slot. -/
def xv6InodeClear.finish (p : Ptr) (addrs : Addrs) : Fs Int := do
  let addrs := addrs.set NDIRECT 0
  InodeCtx.writeBack ⟨addrs, 0, false⟩ p
  modifyInode p fun ino => { ino with size := 0 }
  markInodeDirty p
  let ino ← getInode p
  match ino.priv with
  | none =>
    modifyInode p fun ino => { ino with priv := some addrs }
    let error ← xv6SyncInode p
    modifyInode p fun ino => { ino with priv := none }
    return error
  | some _ => xv6SyncInode p

def xv6InodeClear (p : Ptr) : Fs Int := do
  let (error, ictx) ← xv6InitIctx p
  if error ≠ 0 then
    return error
  let addrs ← xv6InodeClear.direct NDIRECT 0 ictx.addrs
  InodeCtx.writeBack ⟨addrs, 0, false⟩ p
  let iaddr := addrs.get NDIRECT
  if iaddr ≠ 0 then
    if !(← sbBread iaddr) then
      return - EIO
    xv6InodeClear.entries iaddr NINDIRECT 0
    let _ ← xv6Bfree iaddr
    xv6InodeClear.finish p addrs
  else
    xv6InodeClear.finish p addrs

end Xv6fs
