/-
  balloc.c: allocate and free blocks.

  `goto try_balloc` is the recursion of `xv6BallocRng.tryBalloc`; each jump takes one round of
  the fuel. The scan of one bitmap block is `xv6BallocRng.scan`, whose number of rounds is
  fixed before it starts. Block numbers are `uint`: where a sum can pass 2^32 the reduction is
  written out.
-/
import Xv6fs.Model.World

namespace Xv6fs

/-- `xv6_min`. -/
def xv6Min (a b : Nat) : Nat := if a > b then b else a

/-- `xv6_max`. -/
def xv6Max (a b : Nat) : Nat := if a < b then b else a

def xv6Bzero (block : Nat) : Fs Int := do
  if (← getEnv).rdonly then
    return -EROFS
  if !(← sbBread block) then
    return - EIO
  syncBuffer block Buf.zero

def xv6BfreeUnsafe (block : Nat) : Fs Int := do
  let env ← getEnv
  if env.rdonly then
    return -EROFS
  xv6Assert (block < env.info.size)
  xv6Assert (block ≥ env.info.dataStart)
  let mask := 1 <<< (block % 32)
  let index := block % BPB / 32
  let bitmapBlock := (block / BPB + env.info.bmapstart) % 2 ^ 32
  if !(← sbBread bitmapBlock) then
    return - EIO
  let bitmap ← bdata bitmapBlock
  if bitmap.word env.host index &&& mask = 0 then
    -- double free detected
    return 0
  syncBuffer bitmapBlock
    (bitmap.setWord env.host index (bitmap.word env.host index &&& (mask ^^^ 0xffffffff)))

/-- The body of the loop's `if`: zero the block, then set its bit. -/
def xv6BallocRng.claim (bitblock index mask block alloc : Nat) : Fs (Bool × Nat × Int × Nat) := do
  let env ← getEnv
  let error ← xv6Bzero alloc
  if error ≠ 0 then
    -- Do not try to allocate.
    setHint alloc
    return (true, alloc, error, block)
  -- `bitarray` points into the buffer, so it shows what `xv6_bzero` may have written there.
  let bitarray ← bdata bitblock
  let error ← syncBuffer bitblock
    (bitarray.setWord env.host index (bitarray.word env.host index ||| mask))
  setHint ((alloc + 1) % 2 ^ 32)
  return (true, alloc, error, alloc)

/-- The `while (alloc < iter_end)` loop, `n` rounds of it: `succ`, `alloc`, `error` and
    `*block` when it ends. -/
def xv6BallocRng.scan (bitblock block : Nat) : Nat → Nat → Fs (Bool × Nat × Int × Nat)
  | 0, alloc => return (false, alloc, 0, block)
  | n + 1, alloc => do
    let env ← getEnv
    let index := alloc % BPB / 32
    let mask := 1 <<< (alloc % 32)
    let bitarray ← bdata bitblock
    if mask &&& bitarray.word env.host index = 0 then
      xv6BallocRng.claim bitblock index mask block alloc
    else
      xv6BallocRng.scan bitblock block n (alloc + 1)

/-- The rounds of `try_balloc`, from position `alloc` on: the error and `*block`. -/
def xv6BallocRng.tryBalloc (block last : Nat) : Nat → Nat → Fs (Int × Nat)
  | 0, _ => Prog.halt .noReturn
  | fuel + 1, alloc => do
    let env ← getEnv
    let bitblock := (alloc / BPB + env.info.bmapstart) % 2 ^ 32
    if !(← sbBread bitblock) then
      setHint alloc
      return (- EIO, block)
    let iterEnd := (alloc + BPB - 1) % 2 ^ 32 / BPB * BPB
    let iterEnd := xv6Min iterEnd last
    let (succ, alloc, error, block) ← xv6BallocRng.scan bitblock block (iterEnd - alloc) alloc
    if !succ ∧ alloc < last then
      xv6BallocRng.tryBalloc block last fuel alloc
    else
      return (error, block)

def xv6BallocRng (block start last : Nat) : Fs (Int × Nat) := do
  xv6BallocRng.tryBalloc block last (← getEnv).fuel start

/-- Leave the hint inside the data area: `(hint >= data_end) ? (data_start) : hint`. -/
def xv6BallocUnsafe.wrapHint : Fs Unit := do
  let env ← getEnv
  let hint := (← Prog.get).hint % 2 ^ 32
  setHint (if hint ≥ env.info.size then env.info.dataStart else hint)

/-- The search of `[data_start, hint)`. -/
def xv6BallocUnsafe.second (hint block : Nat) : Fs (Int × Nat) := do
  let env ← getEnv
  if env.info.dataStart < hint then
    let (error, block) ← xv6BallocRng block env.info.dataStart hint
    if block ≠ 0 ∨ error ≠ 0 then
      xv6BallocUnsafe.wrapHint
      return (error, block)
    -- Possibly disk full.
    return (0, block)
  return (0, block)

/-- The error and `*block`, which is `block` on entry. -/
def xv6BallocUnsafe (block : Nat) : Fs (Int × Nat) := do
  let env ← getEnv
  if env.rdonly then
    return (-EROFS, block)
  let block := 0
  let hint := (← Prog.get).hint % 2 ^ 32
  if hint < env.info.size then
    let (error, block) ← xv6BallocRng block hint env.info.size
    if block ≠ 0 ∨ error ≠ 0 then
      xv6BallocUnsafe.wrapHint
      return (error, block)
    xv6BallocUnsafe.second hint block
  else
    xv6BallocUnsafe.second hint block

/-- `xv6_balloc` under the allocator's lock. -/
def xv6Balloc (block : Nat) : Fs (Int × Nat) := xv6BallocUnsafe block

def xv6Bfree (block : Nat) : Fs Int := xv6BfreeUnsafe block

end Xv6fs
