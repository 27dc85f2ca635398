/-
  The state the module works on, and the kernel services it uses.

  `World` is the buffer cache, the in-core inodes with the inode tree, the allocation hint and
  the log of the calls that can fail. `Env` is what no call changes: the mount's parameters,
  the host's byte order and the outcome of every future call that can fail.

  The block layer. `sb_bread` either returns a buffer or NULL. A buffer that is modified is
  marked dirty and written with `sync_dirty_buffer` at once everywhere in the module, so the
  two are one step here (`syncBuffer`). When the write is reported to have failed the device
  may have the new bytes all the same (`kept`) or still the old ones, which the next
  `sb_bread` reads back because the kernel marks the buffer not up to date (`lost`).
  The outcome of the n-th call that can fail is `env.io n` (`env.mem n` for an allocation),
  so every pattern of failures is some `env`.

  A run stops with `panic` where an assertion of the module fails, with `undefined` where the
  behaviour of a call is undefined, and with `noReturn` where a loop has used up the number of
  rounds `env.fuel` grants it.
-/
import Xv6fs.Lib.Prog
import Xv6fs.Model.Layout
import Mathlib.Logic.Function.Basic

namespace Xv6fs

/-! ## Error numbers -/

def EIO : Int := 5
def ENOMEM : Int := 12
def EFAULT : Int := 14
def EBUSY : Int := 16
def EEXIST : Int := 17
def ENOTDIR : Int := 20
def EINVAL : Int := 22
def EFBIG : Int := 27
def ENOSPC : Int := 28
def EROFS : Int := 30
def ENAMETOOLONG : Int := 36
def ENOTEMPTY : Int := 39
def ETOOMANYREFS : Int := 109
def ENOENT : Int := 2

/-! ## What no call changes -/

/-- The outcome of one block I/O call. -/
inductive Fate where
  | ok
  | kept
  | lost
  deriving DecidableEq, Repr

/-- The fields of `struct xv6_fs_info` that are set at mount time and only read afterwards. -/
structure FsInfo where
  size : Nat
  nblocks : Nat
  ninodes : Nat
  nlog : Nat
  logstart : Nat
  inodestart : Nat
  bmapstart : Nat
  deriving DecidableEq

structure Env where
  info : FsInfo
  /-- `sb->s_flags & SB_RDONLY`. -/
  rdonly : Bool
  host : ByteOrder
  io : Nat → Fate
  mem : Nat → Bool
  /-- How many rounds a loop without a bound of its own may take. -/
  fuel : Nat

/-- The first data block: `bmapstart + BITMAP_BLOCKS(size)` in `uint` arithmetic. -/
def FsInfo.dataStart (fi : FsInfo) : Nat := (fi.bmapstart + BITMAP_BLOCKS fi.size) % 2 ^ 32

/-! ## In-core inodes -/

/-- `i_mode & S_IFMT`. -/
inductive Fmt where
  | dir
  | reg
  deriving DecidableEq, Repr

/-- The members of `struct inode` (and `struct xv6_inode`) the module reads and writes. -/
structure Inode where
  ino : Nat
  fmt : Fmt
  nlink : Nat
  size : Nat
  /-- `i_private`: the cached addresses, `none` for NULL. -/
  priv : Option Addrs
  /-- Has `mark_inode_dirty` been called since the last write-back. -/
  dirty : Bool
  /-- Has `insert_inode_hash` been called. -/
  hashed : Bool
  refcount : Nat

/-- A fresh inode, as `new_inode` hands it out. -/
def Inode.fresh : Inode :=
  ⟨0, .reg, 1, 0, none, false, false, 1⟩

/-- The address of an in-core inode. -/
abbrev Ptr : Type := Nat

/-! ## The state -/

/-- One call of the module that can fail, with its outcome. -/
inductive Event where
  | bread (block : Nat) (fate : Fate)
  | sync (block : Nat) (fate : Fate)
  | alloc (ok : Bool)
  deriving DecidableEq

structure World where
  env : Env
  disk : Disk
  /-- `fsinfo->balloc_hint`. -/
  hint : Nat
  inodes : Ptr → Inode
  /-- `fsinfo->inode_tree`. -/
  tree : List Ptr
  /-- The next address `new_inode` hands out. -/
  next : Ptr
  /-- The calls made so far, the latest first. -/
  log : List Event

/-- Is `e` the outcome of some call that `env` foresees? -/
def Event.foreseen (env : Env) : Event → Prop
  | .bread _ f => ∃ n, f = env.io n
  | .sync _ f => ∃ n, f = env.io n
  | .alloc ok => ∃ n, ok = env.mem n

namespace World

/-- The calls between `w` and `w'` are those of a list, all of which satisfy `φ`. -/
def Along (φ : Event → Prop) (w w' : World) : Prop :=
  ∃ evs, w'.log = evs ++ w.log ∧ ∀ e ∈ evs, φ e

/-- `w'` is a later state than `w`: same environment, a longer log. -/
instance : LE World where
  le w w' := w'.env = w.env ∧ Along (Event.foreseen w.env) w w'

theorem along_refl (φ : Event → Prop) (w : World) : Along φ w w :=
  ⟨[], rfl, by simp⟩

theorem Along.trans {φ : Event → Prop} {w w' w'' : World} (h : Along φ w w')
    (h' : Along φ w' w'') : Along φ w w'' := by
  obtain ⟨es, hl, hφ⟩ := h
  obtain ⟨es', hl', hφ'⟩ := h'
  refine ⟨es' ++ es, by rw [hl', hl, List.append_assoc], ?_⟩
  intro e he
  rcases List.mem_append.mp he with he | he
  · exact hφ' e he
  · exact hφ e he

instance : Preorder World where
  le_refl w := ⟨rfl, along_refl _ w⟩
  le_trans w w' w'' h h' := by
    refine ⟨h'.1.trans h.1, h.2.trans ?_⟩
    have := h'.2
    rwa [h.1] at this

/-- The calls of a run are those of its two parts. -/
theorem along_append {φ : Event → Prop} {s t u : World} (hst : ∃ a, t.log = a ++ s.log)
    (htu : ∃ b, u.log = b ++ t.log) : Along φ s u ↔ Along φ s t ∧ Along φ t u := by
  refine ⟨?_, fun h => h.1.trans h.2⟩
  obtain ⟨a, ha⟩ := hst
  obtain ⟨b, hb⟩ := htu
  rintro ⟨c, hc, hφ⟩
  have hcb : c = b ++ a := by
    rw [hb, ha, ← List.append_assoc] at hc
    exact (List.append_cancel_right hc).symm
  subst hcb
  exact ⟨⟨a, ha, fun e he => hφ e (List.mem_append_right b he)⟩,
    ⟨b, hb, fun e he => hφ e (List.mem_append_left a he)⟩⟩

instance along_splits (φ : Event → Prop) : Prog.Splits (Along φ) where
  refl := along_refl φ
  split := by
    intro s t u hst htu
    obtain ⟨a, ha, -⟩ := hst.2
    obtain ⟨b, hb, -⟩ := htu.2
    exact along_append ⟨a, ha⟩ ⟨b, hb⟩

theorem Along.weaken {φ ψ : Event → Prop} {w w' : World} (h : Along φ w w')
    (hφ : ∀ e, φ e → ψ e) : Along ψ w w' := by
  obtain ⟨es, hl, he⟩ := h
  exact ⟨es, hl, fun e hm => hφ e (he e hm)⟩

end World

/-- A writable file system with an empty disk on which no call fails, and nothing in core. -/
def World.blank (info : FsInfo) (hint : Nat) : World where
  env := ⟨info, false, .little, fun _ => .ok, fun _ => true, 1⟩
  disk := fun _ => Buf.zero
  hint := hint
  inodes := fun _ => .fresh
  tree := []
  next := 0
  log := []

/-! ## Programs and their primitives -/

/-- How a run stops without returning. -/
inductive Halt where
  | panic
  | undefined
  | noReturn
  deriving DecidableEq, Repr

abbrev Fs (α : Type) : Type := Prog World Halt α

/-- `xv6_assert`. -/
def xv6Assert (c : Prop) [Decidable c] : Fs Unit :=
  if c then pure () else Prog.halt .panic

/-- Change the state where no call that can fail is involved. -/
def change (f : World → World) (hf : ∀ w, (f w).env = w.env ∧ (f w).log = w.log) : Fs Unit :=
  Prog.step (fun w => ((), f w)) fun w =>
    ⟨(hf w).1, ⟨[], (hf w).2, by simp⟩⟩

/-- The environment. -/
def getEnv : Fs Env := do return (← Prog.get).env

/-- The in-core inode at `p`. -/
def getInode (p : Ptr) : Fs Inode := do return (← Prog.get).inodes p

def modifyInode (p : Ptr) (f : Inode → Inode) : Fs Unit :=
  change (fun w => { w with inodes := Function.update w.inodes p (f (w.inodes p)) })
    fun _ => ⟨rfl, rfl⟩

/-- `fsinfo->balloc_hint = hint`. -/
def setHint (hint : Nat) : Fs Unit :=
  change (fun w => { w with hint := hint }) fun _ => ⟨rfl, rfl⟩

/-- Does `sb_bread(sb, block)` return a buffer? -/
def sbBread (block : Nat) : Fs Bool :=
  Prog.step (fun w => (w.env.io w.log.length = .ok,
      { w with log := .bread block (w.env.io w.log.length) :: w.log }))
    fun w => ⟨rfl, ⟨[.bread block (w.env.io w.log.length)], rfl, by
      simp only [List.mem_singleton, forall_eq]
      exact ⟨_, rfl⟩⟩⟩

/-- The bytes of the buffer of `block` (`bh->b_data`). -/
def bdata (block : Nat) : Fs Block := do return (← Prog.get).disk block

/-- Bytes stored through `b_data`, with no write-back. -/
def bstore (block : Nat) (blk : Block) : Fs Unit :=
  change (fun w => { w with disk := Function.update w.disk block blk }) fun _ => ⟨rfl, rfl⟩

/-- Store `blk` in the buffer, `mark_buffer_dirty` and `sync_dirty_buffer`. -/
def syncBuffer (block : Nat) (blk : Block) : Fs Int :=
  Prog.step (fun w =>
      let fate := w.env.io w.log.length
      (if fate = .ok then 0 else - EIO,
        { w with
          disk := if fate = .lost then w.disk else Function.update w.disk block blk
          log := .sync block fate :: w.log }))
    fun w => ⟨rfl, ⟨[.sync block (w.env.io w.log.length)], rfl, by
      simp only [List.mem_singleton, forall_eq]
      exact ⟨_, rfl⟩⟩⟩

/-- Does a memory allocation succeed? -/
def kmalloc : Fs Bool :=
  Prog.step (fun w => (w.env.mem w.log.length,
      { w with log := .alloc (w.env.mem w.log.length) :: w.log }))
    fun w => ⟨rfl, ⟨[.alloc (w.env.mem w.log.length)], rfl, by
      simp only [List.mem_singleton, forall_eq]
      exact ⟨_, rfl⟩⟩⟩

/-- `new_inode(sb)`: a fresh in-core inode, or NULL. -/
def newInode : Fs (Option Ptr) := do
  if !(← kmalloc) then
    return none
  let w ← Prog.get
  change (fun w => { w with
    inodes := Function.update w.inodes w.next .fresh
    next := w.next + 1 }) fun _ => ⟨rfl, rfl⟩
  return some w.next

/-! ## Runs -/

/-- `m` returns `a`, taking `w` to `w'`, and every call made on the way satisfies `φ`. -/
abbrev Runs {α : Type} (φ : Event → Prop) (m : Fs α) (w : World) (a : α) (w' : World) : Prop :=
  Prog.Via (World.Along φ) m w a w'

/-- `m` returns `a`, taking `w` to `w'`. -/
abbrev Returns {α : Type} (m : Fs α) (w : World) (a : α) (w' : World) : Prop :=
  Runs (fun _ => True) m w a w'

/-- No block I/O fails. -/
def Calm : Event → Prop
  | .bread _ f => f = .ok
  | .sync _ f => f = .ok
  | .alloc _ => True

/-- The calls made between two states all succeeded. -/
abbrev Faultless (w w' : World) : Prop := World.Along Calm w w'

/-- Every block I/O call succeeds, now and later. -/
def Quiet (env : Env) : Prop := ∀ n, env.io n = .ok

/-- The state with another in-core inode at `p`. -/
def World.setInode (w : World) (p : Ptr) (ino : Inode) : World :=
  { w with inodes := Function.update w.inodes p ino }

@[simp] theorem World.setInode_self (w : World) (p : Ptr) (ino : Inode) :
    (w.setInode p ino).inodes p = ino :=
  Function.update_self _ _ _

/-- The log with one more entry. -/
def World.logged (w : World) (e : Event) : World := { w with log := e :: w.log }

theorem returns_iff {α : Type} {m : Fs α} {w w' : World} {a : α} :
    Returns m w a w' ↔ m.run w = .ok (a, w') := by
  refine ⟨fun h => h.1, fun h => ⟨h, ?_⟩⟩
  obtain ⟨es, hl, -⟩ := (m.mono w a w' h).2
  exact ⟨es, hl, fun _ _ => trivial⟩

/-- A program is deterministic, so a first step whose run is known is taken at once. -/
theorem returns_bind {α β : Type} {m : Fs α} {f : α → Fs β} {w w₁ w' : World} {a : α} {b : β}
    (h : Returns m w a w₁) : Returns (m >>= f) w b w' ↔ Returns (f a) w₁ b w' := by
  rw [returns_iff, returns_iff, Prog.run_bind_ok (returns_iff.mp h)]

theorem returns_bind_exists {α β : Type} {m : Fs α} {f : α → Fs β} {w w₁ : World} {a : α}
    (h : Returns m w a w₁) (hf : ∃ b w', Returns (f a) w₁ b w') :
    ∃ b w', Returns (m >>= f) w b w' := by
  obtain ⟨b, w', hf⟩ := hf
  exact ⟨b, w', (returns_bind h).mpr hf⟩

theorem Returns.unique {α : Type} {m : Fs α} {w w₁ w₂ : World} {a b : α}
    (h₁ : Returns m w a w₁) (h₂ : Returns m w b w₂) : a = b ∧ w₁ = w₂ := by
  have h := (returns_iff.mp h₁).symm.trans (returns_iff.mp h₂)
  cases h
  exact ⟨rfl, rfl⟩

theorem Runs.returns {α : Type} {φ : Event → Prop} {m : Fs α} {w w' : World} {a : α}
    (h : Runs φ m w a w') : Returns m w a w' :=
  h.weaken fun ha => ha.weaken fun _ _ => trivial

theorem Runs.env_eq {α : Type} {φ : Event → Prop} {m : Fs α} {w w' : World} {a : α}
    (h : Runs φ m w a w') : w'.env = w.env :=
  h.mono.1

/-- On a disk without I/O errors every run is calm. -/
theorem Returns.calm {α : Type} {m : Fs α} {w w' : World} {a : α} (hq : Quiet w.env)
    (h : Returns m w a w') : Runs Calm m w a w' := by
  refine ⟨h.1, h.mono.2.weaken fun e he => ?_⟩
  cases e with
  | bread b f => obtain ⟨n, rfl⟩ := he; exact hq n
  | sync b f => obtain ⟨n, rfl⟩ := he; exact hq n
  | alloc ok => trivial

theorem faultless_refl (w : World) : Faultless w w := World.along_refl Calm w

theorem faultless_split {s t u : World} (hst : s ≤ t) (htu : t ≤ u) :
    Faultless s u ↔ Faultless s t ∧ Faultless t u :=
  (World.along_splits Calm).split hst htu

theorem faultless_congr {s t t' : World} (hlog : t'.log = t.log) :
    Faultless s t' ↔ Faultless s t := by
  unfold Faultless World.Along
  rw [hlog]

/-- The same when what follows changes the state but makes no call. -/
theorem faultless_chain {s t u u' : World} (hst : s ≤ t) (htu : t ≤ u) (hlog : u'.log = u.log) :
    Faultless s u' ↔ Faultless s t ∧ Faultless t u := by
  rw [← faultless_split hst htu]
  exact faultless_congr hlog

section Primitives

variable {φ : Event → Prop}

theorem along_single (w : World) (e : Event) (d : World) (hd : d.log = e :: w.log) :
    World.Along φ w d ↔ φ e := by
  constructor
  · rintro ⟨es, hl, he⟩
    have hes : es = [e] := by
      have hcut : es ++ w.log = [e] ++ w.log := hl.symm.trans hd
      exact List.append_cancel_right hcut
    exact he e (by simp [hes])
  · intro he
    exact ⟨[e], hd, by simpa using he⟩

private theorem along_same_log (w d : World) (hd : d.log = w.log) : World.Along φ w d :=
  ⟨[], hd, by simp⟩

@[simp] theorem runs_sbBread (b : Nat) (w w' : World) (r : Bool) :
    Runs φ (sbBread b) w r w' ↔
      φ (.bread b (w.env.io w.log.length)) ∧ r = decide (w.env.io w.log.length = .ok) ∧
        w' = w.logged (.bread b (w.env.io w.log.length)) := by
  refine (Prog.via_step _ _ w w' r).trans ?_
  rw [along_single w _ _ rfl]
  exact ⟨fun h => ⟨h.2.2, h.1, h.2.1⟩, fun h => ⟨h.2.1, h.2.2, h.1⟩⟩

@[simp] theorem runs_change (f : World → World)
    (hf : ∀ w, (f w).env = w.env ∧ (f w).log = w.log) (w w' : World) (u : Unit) :
    Runs φ (change f hf) w u w' ↔ w' = f w := by
  refine (Prog.via_step _ _ w w' u).trans ?_
  exact ⟨fun h => h.2.1, fun h => ⟨rfl, h, along_same_log w (f w) (hf w).2⟩⟩

@[simp] theorem runs_getEnv (w w' : World) (e : Env) :
    Runs φ getEnv w e w' ↔ e = w.env ∧ w' = w := by
  simp [getEnv, and_comm]

@[simp] theorem runs_getInode (p : Ptr) (w w' : World) (ino : Inode) :
    Runs φ (getInode p) w ino w' ↔ ino = w.inodes p ∧ w' = w := by
  simp [getInode, and_comm]

@[simp] theorem runs_modifyInode (p : Ptr) (f : Inode → Inode) (w w' : World) (u : Unit) :
    Runs φ (modifyInode p f) w u w' ↔
      w' = { w with inodes := Function.update w.inodes p (f (w.inodes p)) } := by
  simp [modifyInode]

@[simp] theorem runs_setHint (n : Nat) (w w' : World) (u : Unit) :
    Runs φ (setHint n) w u w' ↔ w' = { w with hint := n } := by
  simp [setHint]

@[simp] theorem runs_bdata (b : Nat) (w w' : World) (blk : Block) :
    Runs φ (bdata b) w blk w' ↔ blk = w.disk b ∧ w' = w := by
  simp [bdata, and_comm]

@[simp] theorem runs_bstore (b : Nat) (blk : Block) (w w' : World) (u : Unit) :
    Runs φ (bstore b blk) w u w' ↔ w' = { w with disk := Function.update w.disk b blk } := by
  simp [bstore]

@[simp] theorem runs_syncBuffer (b : Nat) (blk : Block) (w w' : World) (e : Int) :
    Runs φ (syncBuffer b blk) w e w' ↔
      φ (.sync b (w.env.io w.log.length)) ∧
      e = (if w.env.io w.log.length = .ok then 0 else - EIO) ∧
      w' = { w with
        disk := if w.env.io w.log.length = .lost then w.disk else Function.update w.disk b blk
        log := .sync b (w.env.io w.log.length) :: w.log } := by
  refine (Prog.via_step _ _ w w' e).trans ?_
  rw [along_single w _ _ rfl]
  exact ⟨fun h => ⟨h.2.2, h.1, h.2.1⟩, fun h => ⟨h.2.1, h.2.2, h.1⟩⟩

@[simp] theorem runs_kmalloc (w w' : World) (r : Bool) :
    Runs φ kmalloc w r w' ↔
      φ (.alloc (w.env.mem w.log.length)) ∧ r = w.env.mem w.log.length ∧
        w' = w.logged (.alloc (w.env.mem w.log.length)) := by
  refine (Prog.via_step _ _ w w' r).trans ?_
  rw [along_single w _ _ rfl]
  exact ⟨fun h => ⟨h.2.2, h.1, h.2.1⟩, fun h => ⟨h.2.1, h.2.2, h.1⟩⟩

@[simp] theorem runs_assert (c : Prop) [Decidable c] (w w' : World) (u : Unit) :
    Runs φ (xv6Assert c) w u w' ↔ c ∧ w' = w := by
  unfold xv6Assert
  simp [Prog.via_ite]

/-! A first step that cannot fail is taken at once. -/

section Deterministic

variable {α : Type} {w w' : World} {a : α}

theorem runs_bind_pure {β : Type} (b : β) (f : β → Fs α) :
    Runs φ ((pure b : Fs β) >>= f) w a w' ↔ Runs φ (f b) w a w' := by
  simp

theorem runs_bind_lift {β : Type} (b : β) (f : β → Fs α) :
    Runs φ ((Prog.lift (.ok b) : Fs β) >>= f) w a w' ↔ Runs φ (f b) w a w' := by
  simp

theorem runs_bind_get (f : World → Fs α) :
    Runs φ (Prog.get >>= f) w a w' ↔ Runs φ (f w) w a w' := by
  simp

theorem runs_bind_getEnv (f : Env → Fs α) :
    Runs φ (getEnv >>= f) w a w' ↔ Runs φ (f w.env) w a w' := by
  simp

theorem runs_bind_getInode (p : Ptr) (f : Inode → Fs α) :
    Runs φ (getInode p >>= f) w a w' ↔ Runs φ (f (w.inodes p)) w a w' := by
  simp

theorem runs_bind_bdata (b : Nat) (f : Block → Fs α) :
    Runs φ (bdata b >>= f) w a w' ↔ Runs φ (f (w.disk b)) w a w' := by
  simp

theorem runs_bind_bstore (b : Nat) (blk : Block) (f : Unit → Fs α) :
    Runs φ (bstore b blk >>= f) w a w' ↔
      Runs φ (f ()) { w with disk := Function.update w.disk b blk } a w' := by
  simp [Unique.exists_iff]

theorem runs_bind_setHint (n : Nat) (f : Unit → Fs α) :
    Runs φ (setHint n >>= f) w a w' ↔ Runs φ (f ()) { w with hint := n } a w' := by
  simp [Unique.exists_iff]

theorem runs_bind_modifyInode (p : Ptr) (g : Inode → Inode) (f : Unit → Fs α) :
    Runs φ (modifyInode p g >>= f) w a w' ↔
      Runs φ (f ()) { w with inodes := Function.update w.inodes p (g (w.inodes p)) } a w' := by
  simp [Unique.exists_iff]

theorem runs_bind_change {g : World → World} {hg : ∀ w, (g w).env = w.env ∧ (g w).log = w.log}
    (f : Unit → Fs α) : Runs φ (change g hg >>= f) w a w' ↔ Runs φ (f ()) (g w) a w' := by
  simp [Unique.exists_iff]

theorem runs_bind_assert (c : Prop) [Decidable c] (f : Unit → Fs α) :
    Runs φ (xv6Assert c >>= f) w a w' ↔ c ∧ Runs φ (f ()) w a w' := by
  simp [and_assoc, Unique.exists_iff]

end Deterministic

end Primitives

section Faults

variable {φ : Event → Prop}

theorem sbBread_spec {b : Nat} {w w' : World} {r : Bool} (h : Runs φ (sbBread b) w r w') :
    (r = true ↔ Faultless w w') ∧ ∃ l, w' = { w with log := l } := by
  obtain ⟨-, hr, hw⟩ := (runs_sbBread b w w' r).mp h
  refine ⟨?_, _, hw⟩
  have hf : Faultless w w' ↔ w.env.io w.log.length = .ok :=
    along_single w (.bread b _) w' (by rw [hw]; rfl)
  rw [hr, hf, decide_eq_true_iff]

theorem syncBuffer_spec {b : Nat} {blk : Block} {w w' : World} {e : Int}
    (h : Runs φ (syncBuffer b blk) w e w') :
    (e = 0 ↔ Faultless w w') ∧ (e = 0 ∨ e = - EIO) ∧
    ∃ l d, w' = { w with disk := d, log := l } ∧
      (d = w.disk ∨ d = Function.update w.disk b blk) ∧
      (e = 0 → d = Function.update w.disk b blk) := by
  obtain ⟨-, he, hw⟩ := (runs_syncBuffer b blk w w' e).mp h
  have hf : Faultless w w' ↔ w.env.io w.log.length = .ok :=
    along_single w (.sync b _) w' (by rw [hw])
  refine ⟨?_, ?_, _, _, hw, ?_, ?_⟩
  · rw [hf, he]
    by_cases hok : w.env.io w.log.length = .ok <;> simp [hok, EIO]
  · rw [he]
    by_cases hok : w.env.io w.log.length = .ok <;> simp [hok]
  · by_cases hl : w.env.io w.log.length = .lost <;> simp [hl]
  · intro he0
    have hok : w.env.io w.log.length = .ok := by
      by_contra hne
      rw [he, if_neg hne] at he0
      exact absurd he0 (by decide)
    simp [hok]

end Faults

/-! ## Runs that only read -/

/-- A call that is not a write. -/
def Event.IsRead : Event → Prop
  | .sync _ _ => False
  | _ => True

/-- From `w` to `w'` blocks are read and nothing else happens; `e` tells whether a read
    failed. -/
structure OnlyReads (w w' : World) (e : Int) : Prop where
  log : ∃ l, w' = { w with log := l }
  reads : World.Along Event.IsRead w w'
  error : e = 0 ↔ Faultless w w'

/-- The error of a write. -/
def Fate.error (f : Fate) : Int := if f = .ok then 0 else - EIO

/-- What a write leaves on the device. -/
def Fate.store (f : Fate) (d : Disk) (b : Nat) (blk : Block) : Disk :=
  if f = .lost then d else Function.update d b blk

theorem Fate.error_eq_zero {f : Fate} : f.error = 0 ↔ f = .ok := by
  cases f <;> decide

section Reads

variable {φ ψ : Event → Prop} {w w₁ w' : World} {e : Int}

theorem OnlyReads.refl (w : World) : OnlyReads w w 0 :=
  ⟨⟨w.log, rfl⟩, World.along_refl _ w, iff_of_true rfl (faultless_refl w)⟩

theorem OnlyReads.trans (hle : w ≤ w₁) (hle' : w₁ ≤ w') (h : OnlyReads w w₁ 0)
    (h' : OnlyReads w₁ w' e) : OnlyReads w w' e where
  log := by
    obtain ⟨l, rfl⟩ := h.log
    obtain ⟨l', rfl⟩ := h'.log
    exact ⟨l', rfl⟩
  reads := h.reads.trans h'.reads
  error := by
    rw [h'.error, faultless_split hle hle']
    exact (and_iff_right (h.error.mp rfl)).symm

/-- Two facts about the calls of the same run hold together. -/
theorem World.Along.and (h : World.Along φ w w') (h' : World.Along ψ w w') :
    World.Along (fun e => φ e ∧ ψ e) w w' := by
  obtain ⟨es, hl, he⟩ := h
  obtain ⟨fs, hl', hf⟩ := h'
  have heq : es = fs := List.append_cancel_right (hl.symm.trans hl')
  subst heq
  exact ⟨es, hl, fun e hm => ⟨he e hm, hf e hm⟩⟩

theorem sbBread_reads {b : Nat} {r : Bool} (h : Runs φ (sbBread b) w r w') :
    OnlyReads w w' (if r then 0 else - EIO) := by
  obtain ⟨hr, l, hw⟩ := sbBread_spec h
  obtain ⟨-, -, hw'⟩ := (runs_sbBread b w w' r).mp h
  refine ⟨⟨l, hw⟩, ?_, ?_⟩
  · rw [hw']
    refine (along_single w (.bread b (w.env.io w.log.length)) _ rfl).mpr ?_
    trivial
  · rw [← hr]
    cases r <;> decide

/-- A read and what is done after it: `f` when it fails, `g` with the block in hand. -/
theorem sbBread_cases {α : Type} {b : Nat} {f g : Fs α} {a : α}
    (h : Runs φ (sbBread b >>= fun ok => if !ok then f else g) w a w') :
    ∃ l, w ≤ { w with log := l } ∧
      ((OnlyReads w { w with log := l } (- EIO) ∧ Runs φ f { w with log := l } a w') ∨
        (OnlyReads w { w with log := l } 0 ∧ Runs φ g { w with log := l } a w')) := by
  obtain ⟨ok, w₁, hread, h⟩ := h.bind
  have hr := sbBread_reads hread
  obtain ⟨l, rfl⟩ := hr.log
  refine ⟨l, hread.mono, ?_⟩
  cases ok with
  | false => exact .inl ⟨hr, h⟩
  | true => exact .inr ⟨hr, h⟩

/-- A write: its fate decides the error and what the device holds. -/
theorem syncBuffer_fate {b : Nat} {blk : Block} (h : Runs φ (syncBuffer b blk) w e w') :
    ∃ f : Fate, e = f.error ∧
      w' = { w with disk := f.store w.disk b blk, log := .sync b f :: w.log } := by
  obtain ⟨-, he, hw⟩ := (runs_syncBuffer b blk w w' e).mp h
  exact ⟨_, he, hw⟩

/-- After some reads `blk` is written to block `b`. -/
def Wrote (w : World) (b : Nat) (blk : Block) (e : Int) (w' : World) : Prop :=
  ∃ (l : List Event) (f : Fate), w ≤ { w with log := l } ∧ OnlyReads w { w with log := l } 0 ∧
    e = f.error ∧ w' = { w with disk := f.store w.disk b blk, log := .sync b f :: l }

theorem Wrote.prepend {b : Nat} {blk : Block} (hle : w ≤ w₁) (hr : OnlyReads w w₁ 0)
    (h : Wrote w₁ b blk e w') : Wrote w b blk e w' := by
  obtain ⟨l₁, f, hle₁, hr₁, he, rfl⟩ := h
  obtain ⟨l, rfl⟩ := hr.log
  exact ⟨l₁, f, le_trans hle hle₁, hr.trans hle hle₁ hr₁, he, rfl⟩

/-- What holds of every read holds of the calls when it holds of the write. -/
theorem Wrote.along {b : Nat} {blk : Block} (hread : ∀ x, ψ (.bread x .ok))
    (halloc : ∀ ok, ψ (.alloc ok)) (h : Wrote w b blk e w') :
    ∃ f, e = f.error ∧ w'.disk = f.store w.disk b blk ∧
      (World.Along ψ w w' ↔ ψ (.sync b f)) := by
  obtain ⟨l, f, -, hr, he, rfl⟩ := h
  refine ⟨f, he, rfl, ?_⟩
  obtain ⟨es, hl, hes⟩ := hr.reads.and (hr.error.mp rfl)
  have hl' : l = es ++ w.log := hl
  subst hl'
  constructor
  · rintro ⟨gs, hg, hgs⟩
    have heq : gs = .sync b f :: es := List.append_cancel_right hg.symm
    exact hgs (.sync b f) (by rw [heq]; exact List.mem_cons_self)
  · intro hf
    refine ⟨.sync b f :: es, rfl, fun e he => ?_⟩
    rcases List.mem_cons.mp he with rfl | he
    · exact hf
    · cases e with
      | bread x g =>
        have hok : g = .ok := (hes _ he).2
        rw [hok]
        exact hread x
      | sync x g => exact (hes _ he).1.elim
      | alloc ok => exact halloc ok

theorem Wrote.log {b : Nat} {blk : Block} (h : Wrote w b blk e w') :
    ∃ es, w'.log = es ++ w.log := by
  obtain ⟨l, f, -, hr, -, rfl⟩ := h
  obtain ⟨es, hl, -⟩ := hr.reads
  exact ⟨.sync b f :: es, congrArg (Event.sync b f :: ·) hl⟩

theorem Wrote.error {b : Nat} {blk : Block} (h : Wrote w b blk e w') : e = 0 ↔ Faultless w w' := by
  obtain ⟨f, rfl, -, hf⟩ := h.along (ψ := Calm) (fun _ => rfl) (fun _ => trivial)
  exact Fate.error_eq_zero.trans hf.symm

end Reads

section Calm

variable {φ : Event → Prop} {w w' : World}

theorem quiet_bind_sbBread {α : Type} {b : Nat} {f : Bool → Fs α} {a : α} (hq : Quiet w.env) :
    Runs φ (sbBread b >>= f) w a w' ↔
      φ (.bread b .ok) ∧ Runs φ (f true) (w.logged (.bread b .ok)) a w' := by
  simp [hq _, and_assoc]

theorem quiet_syncBuffer {b : Nat} {blk : Block} {e : Int} (hq : Quiet w.env) :
    Runs φ (syncBuffer b blk) w e w' ↔ φ (.sync b .ok) ∧ e = 0 ∧
      w' = { w with disk := Function.update w.disk b blk, log := .sync b .ok :: w.log } := by
  simp [hq _]

end Calm

/-! ## Evaluating runs -/

section Evaluate

variable {α : Type}

/-- What `m` returns from `w`, if it returns. -/
def outcome (m : Fs α) (w : World) : Option α :=
  match m.run w with
  | .ok (a, _) => some a
  | .error _ => none

/-- The state `m` leaves. -/
def World.after (w : World) (m : Fs α) : World :=
  match m.run w with
  | .ok (_, w') => w'
  | .error _ => w

theorem returns_after {m : Fs α} {w : World} {a : α} (h : outcome m w = some a) :
    Returns m w a (w.after m) := by
  rw [returns_iff]
  unfold outcome at h
  unfold World.after
  cases hm : m.run w with
  | error e =>
    rw [hm] at h
    cases h
  | ok r =>
    rw [hm] at h
    cases h
    rfl

end Evaluate

end Xv6fs
