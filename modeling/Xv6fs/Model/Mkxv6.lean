/-
  mkxv6.c: the program that makes a file system image.

  The image is a regular file that is created empty and grows by whole sectors. Reading past its
  end returns fewer bytes than asked for, on which the program dies, and so it does when any call of
  lseek, read or write fails; the outcome of the n-th access is `sys n`. `die` and a failed
  assertion both end the program with a status other than 0.

  A `struct dinode` and a `struct dirent` are filled with `xshort` and `xint` and are here their
  decoded values, as on disk. The super block is kept as the host sees its members (`superblock`),
  since the program uses two of them without decoding them.
-/
import Xv6fs.Model.Dir

namespace Xv6fs.Mkxv6

/-! ## Constants -/

def FSSIZE : Nat := 2000
def LOGBLOCKS : Nat := 30
def NINODES : Nat := 200

def nbitmap : Nat := BITMAP_BLOCKS FSSIZE
def ninodeblocks : Nat := INODE_BLOCKS NINODES
def nlog : Nat := LOGBLOCKS + 1
def nmeta : Nat := 1 + nlog + ninodeblocks + nbitmap
def nblocks : Nat := FSSIZE - nmeta

/-- The `uint` whose bytes in memory are those of `x`, lowest first. -/
def xint (host : ByteOrder) (x : Nat) : Nat :=
  Buf.num (fun k => Buf.digit x (Buf.place host 4 k)) 4

/-- `sb`, as the host reads its members. -/
def superblock (host : ByteOrder) : Superblock where
  magic := FSMAGIC
  size := xint host FSSIZE
  nblocks := xint host nblocks
  ninodes := xint host NINODES
  nlog := xint host nlog
  logstart := xint host 1
  inodestart := xint host (1 + nlog)
  bmapstart := xint host (1 + nlog + ninodeblocks)

/-- Sector 0: the bytes of `sb` in memory, then zeros. -/
def superblockSector (host : ByteOrder) : Block :=
  let put (i v : Nat) (blk : Block) : Block := Buf.writeNum host 4 (4 * i) v blk
  let sb := superblock host
  put 7 sb.bmapstart <| put 6 sb.inodestart <| put 5 sb.logstart <| put 4 sb.nlog <|
    put 3 sb.ninodes <| put 2 sb.nblocks <| put 1 sb.size <| put 0 sb.magic Buf.zero

/-! ## The state -/

/-- The statics of the program and the image file. -/
structure Maker where
  host : ByteOrder
  /-- Does the n-th access to the image file succeed? -/
  sys : Nat → Bool
  accesses : Nat
  /-- The sectors of the image file, zero from its end on. -/
  image : Disk
  /-- The length of the image file in sectors. -/
  nsect : Nat
  freeinode : Nat
  freeblock : Nat

/-- Neither the host nor the outcome of an access changes. -/
instance : Preorder Maker where
  le s t := t.host = s.host ∧ t.sys = s.sys
  le_refl _ := ⟨rfl, rfl⟩
  le_trans _ _ _ h h' := ⟨h'.1.trans h.1, h'.2.trans h.2⟩

/-- How the program ends with a status other than 0. -/
inductive Stop where
  | die
  | abort
  deriving DecidableEq, Repr

abbrev Mk (α : Type) : Type := Prog Maker Stop α

/-- Before the image is opened. -/
def Maker.start (host : ByteOrder) (sys : Nat → Bool) : Maker where
  host := host
  sys := sys
  accesses := 0
  image := fun _ => Buf.zero
  nsect := 0
  freeinode := 1
  freeblock := 0

def assert (c : Prop) [Decidable c] : Mk Unit := if c then pure () else Prog.halt .abort

/-- A call on the image file. The program dies when it fails. -/
def access : Mk Unit := do
  let ok ← Prog.step (fun s => (s.sys s.accesses, { s with accesses := s.accesses + 1 }))
    fun _ => ⟨rfl, rfl⟩
  if !ok then
    Prog.halt .die

/-- The sector at byte `sec * BSIZE`, a product of `uint`s. -/
def sector (sec : Nat) : Nat := sec * BSIZE % 2 ^ 32 / BSIZE

def rsect (sec : Nat) : Mk Block := do
  access
  let s ← Prog.get
  if s.nsect ≤ sector sec then
    Prog.halt .die
  else
    return s.image (sector sec)

def wsect (sec : Nat) (buf : Block) : Mk Unit := do
  access
  Prog.step (fun s => ((), { s with
    image := Function.update s.image (sector sec) buf
    nsect := max s.nsect (sector sec + 1) })) fun _ => ⟨rfl, rfl⟩

/-- `freeblock++`. -/
def nextBlock : Mk Nat :=
  Prog.step (fun s => (s.freeblock, { s with freeblock := (s.freeblock + 1) % 2 ^ 32 }))
    fun _ => ⟨rfl, rfl⟩

/-! ## Inodes -/

def winode (inum : Nat) (ip : Dinode) : Mk Unit := do
  let bn := IBLOCK inum (superblock (← Prog.get).host)
  let buf ← rsect bn
  wsect bn (buf.setDinode (inum % IPB) ip)

def rinode (inum : Nat) : Mk Dinode := do
  let buf ← rsect (IBLOCK inum (superblock (← Prog.get).host))
  return buf.dinode (inum % IPB)

def ialloc (type : UInt16) : Mk Nat := do
  let inum ← Prog.step (fun s => (s.freeinode, { s with freeinode := (s.freeinode + 1) % 2 ^ 32 }))
    fun _ => ⟨rfl, rfl⟩
  winode inum { Dinode.zero with type := type, nlink := 1, size := 0 }
  return inum

/-! ## Appending -/

/-- `din.addrs[i] = xint(block)`. -/
def setAddr (din : Dinode) (i block : Nat) : Dinode :=
  { din with addrs := Function.update din.addrs (Fin.ofNat 13 i) (UInt32.ofNat block) }

/-- The indirect block is attached when there is none. -/
def iappend.indirect (din : Dinode) : Mk Dinode := do
  if din.addr.get NDIRECT = 0 then
    let b ← nextBlock
    return setAddr din NDIRECT b
  else
    return din

/-- `x`, the block of file block `fbn`, which is attached when there is none. -/
def iappend.block (din : Dinode) (fbn : Nat) : Mk (Nat × Dinode) := do
  if fbn < NDIRECT then
    if din.addr.get fbn = 0 then
      let b ← nextBlock
      return (b, setAddr din fbn b)
    else
      return (din.addr.get fbn, din)
  else
    let din ← iappend.indirect din
    let indirect ← rsect (din.addr.get NDIRECT)
    if indirect.u32 (fbn - NDIRECT) = 0 then
      let b ← nextBlock
      wsect (din.addr.get NDIRECT) (indirect.setU32 (fbn - NDIRECT) b)
      return (b, din)
    else
      return (indirect.u32 (fbn - NDIRECT), din)

/-- The `while` loop over the bytes `p` that are left. A round takes at least one, so as many rounds
    as there are bytes are enough. -/
def iappend.loop : Nat → List UInt8 → Nat → Dinode → Mk (Nat × Dinode)
  | 0, _, off, din => return (off, din)
  | rounds + 1, p, off, din => do
    if p.length = 0 then
      return (off, din)
    let fbn := off / BSIZE
    assert (fbn < MAXFILE)
    let (x, din) ← iappend.block din fbn
    let n1 := min p.length ((fbn + 1) * BSIZE - off)
    let buf ← rsect x
    wsect x (buf.patch (off - fbn * BSIZE) n1 fun i => p.getD i 0)
    iappend.loop rounds (p.drop n1) ((off + n1) % 2 ^ 32) din

def iappend (inum : Nat) (xp : List UInt8) : Mk Unit := do
  let din ← rinode inum
  let (off, din) ← iappend.loop xp.length xp din.size.toNat din
  winode inum { din with size := UInt32.ofNat off }

/-- The bytes of a `struct dirent`. -/
def direntBytes (de : Dirent) : List UInt8 := (List.range 16).map de.byte

/-- The entry `name` with the number `inum`. -/
def newDirent (inum : Nat) (name : FileName) : Dirent := ⟨UInt16.ofNat inum, strncpy name⟩

/-! ## The bitmap -/

/-- Rounds `i`, `i + 1`, … of the loop that sets the first bits, `n` of them. -/
def balloc.mark : Nat → Nat → Block → Block
  | 0, _, buf => buf
  | n + 1, i, buf => balloc.mark n (i + 1)
      (buf.patch (i / 8) 1 fun _ => buf.byte (i / 8) ||| UInt8.ofNat (1 <<< (i % 8)))

def balloc (used : Nat) : Mk Unit := do
  assert (used < BPB)
  wsect (superblock (← Prog.get).host).bmapstart (balloc.mark used 0 Buf.zero)

/-! ## main -/

/-- What a call of `read` returns before the end of the file: 1 to `BSIZE` bytes. -/
structure Chunk where
  bytes : List UInt8
  pos : 0 < bytes.length
  le : bytes.length ≤ BSIZE

/-- A command line argument behind the image's name, and what the host's file system says about
    it. `reads` is what `read` returns up to the end of the file, or up to an error, which the
    program does not tell from the end. -/
structure Input where
  path : FileName
  opens : Bool
  stats : Bool
  isdir : Bool
  reads : List Chunk

/-- `user/` is taken off. -/
def shortname (path : FileName) : FileName :=
  if path.take 5 = [0x75, 0x73, 0x65, 0x72, 0x2f] then path.drop 5 else path

/-- A leading `_` is taken off. -/
def skipUnderscore : FileName → FileName
  | 0x5f :: rest => rest
  | name => name

/-- The name in the image. -/
def imageName (path : FileName) : FileName := skipUnderscore (shortname path)

/-- The loop over what `read` returns. -/
def main.readAll (inum : Nat) : List Chunk → Mk Unit
  | [] => return ()
  | c :: cs => do
    iappend inum c.bytes
    main.readAll inum cs

/-- The entries '.' and '..'. -/
def main.dots (inum parent : Nat) : Mk Unit := do
  iappend inum (direntBytes (newDirent inum dot))
  iappend inum (direntBytes (newDirent parent dotdot))

/-- One round of the loop over the arguments. -/
def main.copy (rootino : Nat) (f : Input) : Mk Unit := do
  assert ((0x2f : UInt8) ∉ shortname f.path)
  if !f.opens then
    Prog.halt .die
  assert ((imageName f.path).length ≤ DIRSIZ)
  if !f.stats then
    Prog.halt .die
  let inum ← ialloc (if f.isdir then T_DIR else T_FILE)
  if f.isdir then
    main.dots inum rootino
  else
    main.readAll inum f.reads
  iappend rootino (direntBytes (newDirent inum (imageName f.path)))

def main.copyAll (rootino : Nat) : List Input → Mk Unit
  | [] => return ()
  | f :: fs => do
    main.copy rootino f
    main.copyAll rootino fs

/-- Rounds `i`, `i + 1`, … of the loop that zeroes the image, `n` of them. -/
def main.zeroes : Nat → Nat → Mk Unit
  | 0, _ => return ()
  | n + 1, i => do
    wsect i Buf.zero
    main.zeroes n (i + 1)

/-- The size of the root directory is rounded up, past the next multiple of `BSIZE`. -/
def main.fixRoot (rootino : Nat) : Mk Unit := do
  let din ← rinode rootino
  winode rootino { din with size := UInt32.ofNat ((din.size.toNat / BSIZE + 1) * BSIZE) }

/-- `main`, from the opening of the image on. -/
def main (args : List Input) : Mk Unit := do
  access
  Prog.step (fun s => ((), { s with freeblock := nmeta })) fun _ => ⟨rfl, rfl⟩
  main.zeroes FSSIZE 0
  wsect 0 (superblockSector (← Prog.get).host)
  let rootino ← ialloc T_DIR
  assert (rootino = ROOTINO)
  main.dots rootino rootino
  main.copyAll rootino args
  main.fixRoot rootino
  balloc (← Prog.get).freeblock

/-- The image, when the program exits with status 0. -/
def image (host : ByteOrder) (sys : Nat → Bool) (args : List Input) : Option Disk :=
  match (main args).run (Maker.start host sys) with
  | .ok (_, s) => some s.image
  | .error _ => none

end Xv6fs.Mkxv6
