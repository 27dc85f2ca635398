/-
  dir.c: directory entries.

  A file name is the list of its bytes before the terminating NUL.
-/
import Xv6fs.Model.Inode

namespace Xv6fs

abbrev FileName : Type := List UInt8

/-- Bytes `i`, `i + 1`, … of `strncmp(target, name, DIRSIZ) == 0`, `n` of them. -/
def strncmpEq.go (target : FileName) (name : Name) : Nat → Nat → Bool
  | 0, _ => true
  | n + 1, i =>
    let a := target.getD i 0
    let b := name (Fin.ofNat 14 i)
    if a ≠ b then false
    else if a = 0 then true
    else strncmpEq.go target name n (i + 1)

/-- `strncmp(target, name, DIRSIZ) == 0`. -/
def strncmpEq (target : FileName) (name : Name) : Bool := strncmpEq.go target name DIRSIZ 0

/-- `strncpy(name, target, DIRSIZ)` into a zeroed field. -/
def strncpy (target : FileName) : Name := fun i => target.getD i.val 0

/-- `strcpy(name, target)`: the bytes of `target`, a NUL, and the rest as it was. -/
def strcpy (target : FileName) (old : Name) : Name :=
  fun i => if i.val ≤ target.length then target.getD i.val 0 else old i

def dot : FileName := [0x2e]

def dotdot : FileName := [0x2e, 0x2e]

/-! ## Callbacks -/

/-- The context is `*dnumout` and `*deout`. -/
def deFindCallback (target : FileName) : DiterCallback (Nat × Dirent) := fun dnum de ctx =>
  if strncmpEq target de.name then
    .ok ({ DiterAction.init with cont := false }, de, (dnum, de))
  else
    .ok ({ DiterAction.init with cont := true }, de, ctx)

/-- An entry after `memset(de, 0xfd, sizeof(*de))` and the two stores behind it. -/
def Dirent.erased : Dirent := ⟨0, fun i => if i.val = 0 then 0 else 0xfd⟩

/-- The context is `*success`. -/
def deEraseCallback (target : FileName) : DiterCallback Bool := fun _ de success =>
  if strncmpEq target de.name then
    .ok ({ DiterAction.init with cont := false, deDirty := true }, Dirent.erased, true)
  else
    .ok ({ DiterAction.init with cont := true }, de, success)

def deInsertCallback (nde : Dirent) : DiterCallback Unit := fun _ de _ =>
  let next := { DiterAction.init with dirDirty := true, dirExt := true }
  if de.inum = 0 then
    if de.name 0 = 0 then
      .ok ({ next with cont := false, deDirty := true }, nde, ())
    else
      .error .panic
  else
    .ok ({ next with cont := true }, de, ())

/-- The context is `*empty`. -/
def rmtestCallback : DiterCallback Bool := fun dnum de empty =>
  let act := { DiterAction.init with cont := true }
  if dnum ≤ 1 then
    .ok (act, de, empty)
  else if de.inum ≠ 0 then
    if de.name 0 ≠ 0 then
      .ok ({ act with cont := false }, de, false)
    else
      .error .panic
  else
    .ok (act, de, empty)

/-- `name` up to `strnlen(name, DIRSIZ)`. -/
def Name.bytes (name : Name) : FileName := (List.ofFn name).takeWhile (· ≠ 0)

/-- `struct dir_context`, with what `dir_emit` has taken in this call. -/
structure DirContext where
  pos : Nat
  emitted : List (FileName × Nat)
  deriving DecidableEq

/-- `dirEmit n` is the answer of `dir_emit` when it has taken `n` entries. -/
def readdirCallback (dirEmit : Nat → Bool) : DiterCallback DirContext := fun dnum de dc =>
  let next := { DiterAction.init with cont := true }
  if dnum < dc.pos then
    .ok (next, de, dc)
  else if de.inum = 0 then
    -- empty entry
    .ok (next, de, { dc with pos := (dnum + 1) % 2 ^ 32 })
  else if dirEmit dc.emitted.length then
    .ok (next, de, ⟨(dnum + 1) % 2 ^ 32, dc.emitted ++ [(de.name.bytes, de.inum.toNat)]⟩)
  else
    .ok ({ next with cont := false }, de, { dc with pos := dnum % 2 ^ 32 })

/-! ## Operations on one directory -/

/-- The error, `*dnum` and `*dout`; `*dnum` is 0 before. -/
def xv6FindInum (dir : Ptr) (name : FileName) : Fs (Int × Nat × Dirent) := do
  if (← getInode dir).fmt ≠ .dir then
    return (-ENOTDIR, 0, Dirent.zero)
  let (error, ictx) ← xv6InitIctx dir
  if error ≠ 0 then
    return (error, 0, Dirent.zero)
  let (error, ictx, ctx) ←
    xv6DirIterate modcheck ictx (deFindCallback name) (0, Dirent.zero) 0 false
  ictx.writeBack dir
  xv6Assert (ictx.dirty = false)
  return (error, ctx)

/-- The error and the context, from position `pos` on. -/
def xv6Readdir (dirEmit : Nat → Bool) (dir : Ptr) (pos : Nat) : Fs (Int × DirContext) := do
  if (← getInode dir).fmt ≠ .dir then
    return (-ENOTDIR, ⟨pos, []⟩)
  let (error, ictx) ← xv6InitIctx dir
  if error ≠ 0 then
    return (error, ⟨pos, []⟩)
  let (ret, ictx, ctx) ←
    xv6DirIterate modcheck ictx (readdirCallback dirEmit) ⟨pos, []⟩ (pos % 2 ^ 32) false
  ictx.writeBack dir
  return (ret, ctx)

def xv6DentryInsert (dir : Ptr) (name : FileName) (inum : Nat) : Fs Int := do
  if (← getInode dir).fmt ≠ .dir then
    return -ENOTDIR
  if name.length > DIRSIZ then
    return -ENAMETOOLONG
  if name = dot ∨ name = dotdot then
    return -EEXIST
  let newde : Dirent := ⟨UInt16.ofNat inum, strncpy name⟩
  let (error, ictx) ← xv6InitIctx dir
  if error ≠ 0 then
    return error
  let (error, ictx, _) ← xv6DirIterate modcheck ictx (deInsertCallback newde) () 0 true
  ictx.writeBack dir
  if error = 0 then
    xv6IctxDirty dir ictx
  else
    return error

def xv6DirInit (block inumParent inumThis : Nat) : Fs Int := do
  if !(← sbBread block) then
    let _ ← xv6Bfree block
    return - EIO
  let blk ← bdata block
  let de := blk.dirent 0
  let blk := blk.setDirent 0 ⟨UInt16.ofNat inumThis, strcpy dot de.name⟩
  let de := blk.dirent 1
  let blk := blk.setDirent 1 ⟨UInt16.ofNat inumParent, strcpy dotdot de.name⟩
  let error ← syncBuffer block blk
  if error ≠ 0 then
    let _ ← xv6Bfree block
    return error
  return error

def xv6DirErase (dir : Ptr) (name : FileName) : Fs Int := do
  if (← getInode dir).fmt ≠ .dir then
    return -ENOTDIR
  let (error, ictx) ← xv6InitIctx dir
  if error ≠ 0 then
    return error
  let (error, ictx, success) ← xv6DirIterate modcheck ictx (deEraseCallback name) false 2 false
  ictx.writeBack dir
  xv6Assert (ictx.dirty = false)
  return if success then error else -ENOENT

def xv6DirRmtest (dir : Ptr) : Fs Int := do
  let (error, ictx) ← xv6InitIctx dir
  if error ≠ 0 then
    return error
  let (error, ictx, ret) ← xv6DirIterate modcheck ictx rmtestCallback true 2 false
  ictx.writeBack dir
  xv6Assert (ictx.dirty = false)
  if error ≠ 0 then
    return error
  return if ret then 0 else -ENOTEMPTY

end Xv6fs
