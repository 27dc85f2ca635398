/-
  xv6check.cpp: the checker in user space, over an image file that is mapped into memory.

  `checker_bread` hands out the address of a block, `checker_bdata` the bytes at the address it
  is given. The sizes of the file and of the mapping are `size_t`, but `block * BSIZE` is a `uint`.
  So the bytes of a block are not the file's own but those of `mapped`, and a run over the file is
  a run from a state whose disk is `mapped` of it.

  `main` fills in neither `balloc` nor `bflush`.
-/
import Xv6fs.Model.Super

namespace Xv6fs

/-- The bytes at the address `checker_bread` returns for a block. -/
def mapped (file : Disk) : Disk := fun block => file (block * BSIZE % 2 ^ 32 / BSIZE)

/-- Is the pointer `checker_bread` returns for a block not NULL? -/
def checkerBread (fsize block : Nat) : Fs Bool :=
  if block ≥ fsize / BSIZE then pure false else pure true

/-- The checker of `main`, for a file of `fsize` bytes. -/
def usercheck (fsize : Nat) : Checker where
  bread := checkerBread fsize
  bdata := bdata
  balloc _ := Prog.halt .panic
  bflush _ _ := Prog.halt .panic

/-- The return value of `main`, once the file is mapped. -/
def xv6check (fsize : Nat) (file : Disk) (w : World) : Except Halt (Int × World) :=
  (xv6Docheck (usercheck fsize)).run { w with disk := mapped file }

end Xv6fs
