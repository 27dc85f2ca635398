/-
  The dentry operations of inode.c: hashing a name and comparing two.

  A name arrives as the bytes from an address on and a length. Both operations read `DIRSIZ` bytes
  from the address, or up to a NUL, and leave the length alone.
-/
import Xv6fs.Model.Dir

namespace Xv6fs

/-- `struct qstr`: the bytes from `name` on, the length and the hash. -/
structure Qstr where
  name : Nat → UInt8
  len : Nat
  hash : UInt32

/-- `fullNameHash` is `full_name_hash` for the parent's dentry and `DIRSIZ` bytes. -/
def xv6Hash (fullNameHash : Name → UInt32) (s : Qstr) : Qstr :=
  if s.name 0 ≠ 0 then { s with hash := fullNameHash fun i => s.name i.val } else s

/-- The loop from byte `i` on, `n` bytes. -/
def xv6Cmp.loop (pa pb : Nat → UInt8) : Nat → Nat → Int
  | 0, _ => 0
  | n + 1, i =>
    let a := pa i
    let b := pb i
    if a ≠ b ∨ a = 0 then (a.toNat : Int) - b.toNat else xv6Cmp.loop pa pb n (i + 1)

/-- `len` is not looked at. -/
def xv6Cmp (_len : Nat) (str : Nat → UInt8) (name : Qstr) : Int :=
  xv6Cmp.loop name.name str DIRSIZ 0

end Xv6fs
